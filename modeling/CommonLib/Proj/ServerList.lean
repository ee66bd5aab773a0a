import Mathlib.Data.List.AList
import Mathlib.Data.List.Perm.Subperm
import CommonLib.Hlib.StringLines
import CommonLib.Proj.Channels
import CommonLib.Proj.CommandReads

/-!
# The lists of servers

`LoadOption` and a redirection parse the lists of authentication and audit servers by the same two
loops, which fill the slots of `Option.Net.Servers` from the front and note the slot of each entry
in `ServerIndex`.
-/

namespace CommonLib
namespace ServerList

open PasUtils

/-! ## Numbers and positions -/

/-- `isspace`. -/
def isSpace (x : Byte) : Bool := x == 32 || (9 ≤ x && x ≤ 13)

/-- The number which the digits at the front stand for. -/
def decimal (s : List Byte) : Nat :=
  (s.takeWhile isDigit).foldl (fun n c => 10 * n + (c.toNat - 48)) 0

/-- `atoi`, whose numbers are exact. -/
def atoi (s : List Byte) : Int :=
  let s := s.dropWhile isSpace
  if s.head? = some 45 then -decimal s.tail
  else if s.head? = some 43 then decimal s.tail
  else decimal s

/-- `StrToInt`. -/
def strToInt (s : List Byte) : Int := atoi (cString s)

/-- `TryStrToInt`, which never fails. -/
def tryStrToInt (s : List Byte) : Bool × Int := (true, strToInt s)

/-- The loop of `PosChar`. -/
def posCharLoop (c : Byte) : Nat → List Byte → Nat
  | _, [] => 0
  | i, t :: src => if t = c then i + 1 else posCharLoop c (i + 1) src

/-- `PosChar`, which counts from 1. -/
def posChar (c : Byte) (src : List Byte) : Nat := posCharLoop c 0 src

/-- `LeftStr`. -/
def leftStr (src : List Byte) (len : Nat) : Option (List Byte) := substr src 0 len

/-- `RightStr`. -/
def rightStr (src : List Byte) (len : Nat) : Option (List Byte) :=
  substr src (src.length - len) len

/-! ## Slots -/

inductive TServerType
  | stUnknown | stManage | stAudit
  deriving DecidableEq

/-- A slot of the server list. -/
structure THServer where
  ip : List Byte
  port : Int
  type : TServerType
  stat : TServerStat
  date : UInt32

/-- `ServerIndex`, a finite map of 16 elements. -/
structure ServerIndex where
  map : AList fun _ : List Byte => Nat
  few : map.keys.length ≤ 16

namespace ServerIndex

/-- The cleared index. -/
def empty : ServerIndex where
  map := ∅
  few := Nat.zero_le _

/-- `THHMSI::AddS`, which rejects a present key and a key too many. -/
def addS (index : ServerIndex) (key : List Byte) (value : Nat) : ServerIndex :=
  if full : index.map.keys.length = 16 then index
  else if present : key ∈ index.map then index
  else
    { map := index.map.insert key value
      few := by
        rw [AList.insert_of_notMem present]
        exact Nat.succ_le_of_lt (Nat.lt_of_le_of_ne index.few full) }

/-- `THHMSI::Count`. -/
def count (index : ServerIndex) : Nat := index.map.keys.length

/-- The slot of an entry. -/
def find (index : ServerIndex) (key : List Byte) : Option Nat := index.map.lookup key

end ServerIndex

/-- `THNetOption`. -/
structure THNetOption where
  servers : Nat → THServer
  serverIndex : ServerIndex

/-! ## Parsing -/

/-- What a loop writes into a slot: the type of its servers and, where it sets it, the date. -/
structure Section where
  type : TServerType
  date : Option UInt32
  /-- The loop passes over an entry once 16 slots are filled. -/
  bounded : Bool

/-- The loop of the authentication servers. -/
def authSection (tick : UInt32) : Section where
  type := .stManage
  date := some (tick - 6000)
  bounded := false

/-- The loop of the audit servers. -/
def auditSection : Section where
  type := .stAudit
  date := none
  bounded := true

/-- The block in which an entry goes to a slot, if there is the slot. -/
def place (part : Section) (svr ip : List Byte) (port : Int) (net : THNetOption) (cnt : Nat) :
    Option THNetOption :=
  if cnt < 16 then
    let slot := net.servers cnt
    some {
      servers := Function.update net.servers cnt
        { ip, port, type := part.type, stat := .ssDisconnected, date := part.date.getD slot.date }
      serverIndex := net.serverIndex.addS svr cnt }
  else none

/-- A loop over the lines; `Trim` leaves the line as it is. -/
def parseLoop (part : Nat → Section) :
    List (List Byte) → THNetOption → Nat → Option (THNetOption × Nat)
  | [], net, cnt => some (net, cnt)
  | svr :: lines, net, cnt =>
      if 0 < svr.length ∧ ((part cnt).bounded = true → cnt < 16) then
        let j := posChar 58 svr
        if j > 0 then
          (rightStr svr (svr.length - j)).bind fun p =>
            if (tryStrToInt p).1 then
              (leftStr svr (j - 1)).bind fun ip =>
                (place (part cnt) svr ip (tryStrToInt p).2 net cnt).bind fun net =>
                  if cnt ≥ 16 then some (net, cnt + 1) else parseLoop part lines net (cnt + 1)
            else parseLoop part lines net cnt
        else parseLoop part lines net cnt
      else parseLoop part lines net cnt

/-- `new TStringList`. -/
def newStringList : TStringList where
  buf := []
  seperator := [61]

/-- The part from the first loop to the end of the second, the same in both places; `clock` tells
the time at which a slot is filled. -/
def parseServers (other : THOtherOption) (clock : Nat → UInt32) (net : THNetOption) :
    Option (THNetOption × Nat) :=
  let tmp := newStringList
  (if other.shouldAuth then
      (tmp.setText other.authServ [59]).bind fun tmp =>
        (parseLoop (fun cnt => authSection (clock cnt)) tmp.buf net 0).map fun parsed =>
          (tmp, parsed)
    else some (tmp, net, 0)).bind fun (tmp, net, cnt) =>
  if other.shouldAudit then
    (tmp.clear.setText other.auditServ [59]).bind fun tmp =>
      parseLoop (fun _ => auditSection) tmp.buf net cnt
  else some (net, cnt)

/-- The slots in front of `count` lose their channels. -/
def forget (servers : Nat → THServer) (count : Nat) : Nat → THServer :=
  fun i => if i < count then { servers i with stat := .ssUnknown } else servers i

/-- The parser in `THSockServer::LoadOption`. -/
def loadOption (other : THOtherOption) (clock : Nat → UInt32) (net : THNetOption) :
    Option (THNetOption × Nat) :=
  parseServers other clock { net with servers := forget net.servers 16 }

/-- `THSockServer::InitOption` loads the options with a new index. -/
def initOption (other : THOtherOption) (clock : Nat → UInt32) (servers : Nat → THServer) :
    Option (THNetOption × Nat) :=
  loadOption other clock { servers, serverIndex := .empty }

/-- The parser in `cmd_conn_req::CommandHandler`, in front of which the index is cleared. -/
def rebuildIndex (other : THOtherOption) (clock : Nat → UInt32) (net : THNetOption) :
    Option (THNetOption × Nat) :=
  let j := net.serverIndex.count
  parseServers other clock { servers := forget net.servers j, serverIndex := .empty }

/-! ## Entries -/

/-- The address of an entry. -/
def entryIp (svr : List Byte) : List Byte := svr.takeWhile (· ≠ 58)

/-- The number behind the first colon of an entry. -/
def entryPort (svr : List Byte) : Int := strToInt (svr.drop ((entryIp svr).length + 1))

theorem posCharLoop_eq (c : Byte) (i : Nat) (src : List Byte) :
    posCharLoop c i src =
      if c ∈ src then i + (src.takeWhile (· ≠ c)).length + 1 else 0 := by
  induction src generalizing i with
  | nil => rfl
  | cons t src induction =>
      rw [posCharLoop]
      by_cases same : t = c
      · simp [same]
      · have other : c ≠ t := Ne.symm same
        simp only [if_neg same, induction, List.mem_cons, other, false_or]
        split
        · simp [same, Nat.add_assoc, Nat.add_comm 1]
        · rfl

theorem posChar_eq (svr : List Byte) :
    posChar 58 svr = if 58 ∈ svr then (entryIp svr).length + 1 else 0 := by
  rw [posChar, posCharLoop_eq, Nat.zero_add]
  rfl

theorem entryIp_length_lt {svr : List Byte} (colon : 58 ∈ svr) :
    (entryIp svr).length < svr.length := by
  induction svr with
  | nil => exact absurd colon List.not_mem_nil
  | cons t svr induction =>
      by_cases same : t = 58
      · simp [entryIp, same]
      · have later := induction ((List.mem_cons.mp colon).resolve_left (Ne.symm same))
        simpa [entryIp, same] using later

theorem leftStr_entry (svr : List Byte) :
    leftStr svr (entryIp svr).length = some (entryIp svr) := by
  rw [leftStr, substr_eq_some (Nat.zero_le _), List.drop_zero, entryIp]
  congr 1
  exact List.prefix_iff_eq_take.mp (List.takeWhile_prefix _) |>.symm

theorem rightStr_entry {svr : List Byte} (colon : 58 ∈ svr) :
    rightStr svr (svr.length - ((entryIp svr).length + 1)) =
      some (svr.drop ((entryIp svr).length + 1)) := by
  have inside := entryIp_length_lt colon
  have front : svr.length - (svr.length - ((entryIp svr).length + 1)) =
      (entryIp svr).length + 1 := by omega
  rw [rightStr, front, substr_eq_some (by omega), List.take_of_length_le]
  rw [List.length_drop]

theorem place_eq_some {part : Section} {svr ip : List Byte} {port : Int} {net net' : THNetOption}
    {cnt : Nat} (placed : place part svr ip port net cnt = some net') : cnt < 16 := by
  unfold place at placed
  split at placed
  · assumption
  · cases placed

theorem parseLoop_pass (part : Nat → Section) {svr : List Byte} (lines : List (List Byte))
    (net : THNetOption) {cnt : Nat} (passed : 58 ∉ svr ∨ (part cnt).bounded = true ∧ 16 ≤ cnt) :
    parseLoop part (svr :: lines) net cnt = parseLoop part lines net cnt := by
  rw [parseLoop]
  rcases passed with absent | ⟨bounded, full⟩
  · split
    · rw [posChar_eq, if_neg absent]
      exact if_neg (Nat.lt_irrefl 0)
    · rfl
  · exact if_neg fun test => Nat.not_lt.mpr full (test.2 bounded)

theorem parseLoop_entry (part : Nat → Section) {svr : List Byte} (lines : List (List Byte))
    (net : THNetOption) {cnt : Nat} (colon : 58 ∈ svr)
    (allowed : (part cnt).bounded = true → cnt < 16) :
    parseLoop part (svr :: lines) net cnt =
      (place (part cnt) svr (entryIp svr) (entryPort svr) net cnt).bind fun net =>
        parseLoop part lines net (cnt + 1) := by
  have inside := entryIp_length_lt colon
  rw [parseLoop, if_pos ⟨by omega, allowed⟩, posChar_eq, if_pos colon]
  simp only [gt_iff_lt, Nat.succ_pos, if_true, rightStr_entry colon, Option.bind_some, tryStrToInt,
    Nat.add_sub_cancel, leftStr_entry]
  refine Option.bind_congr fun net' placed => ?_
  rw [if_neg (Nat.not_le.mpr (place_eq_some placed))]

/-! ## Filled slots -/

/-- A slot holds an entry of a list. -/
def Holds (server : THServer) (entry : TServerType × List Byte) : Prop :=
  server.ip = entryIp entry.2 ∧ server.port = entryPort entry.2 ∧ server.type = entry.1 ∧
    server.stat = .ssDisconnected

/-- The slots from the first hold the entries, and the index knows them and no others. -/
structure Filled (net : THNetOption) (entries : List (TServerType × List Byte)) : Prop where
  few : entries.length ≤ 16
  holds : ∀ i entry, entries[i]? = some entry → Holds (net.servers i) entry
  mapped : ∀ entry ∈ entries, ∃ slot other, net.serverIndex.find entry.2 = some slot ∧
    entries[slot]? = some other ∧ other.2 = entry.2
  only : ∀ key ∈ net.serverIndex.map, key ∈ entries.map (·.2)

namespace Filled

theorem nil (servers : Nat → THServer) :
    Filled { servers, serverIndex := .empty } [] where
  few := Nat.zero_le _
  holds i entry found := by cases found
  mapped entry present := absurd present List.not_mem_nil
  only key present := absurd present (AList.notMem_empty key)

variable {net : THNetOption} {entries : List (TServerType × List Byte)}

/-- The index knows at most the filled slots. -/
theorem keys_subperm (filled : Filled net entries) :
    net.serverIndex.map.keys.Subperm (entries.map (·.2)) :=
  net.serverIndex.map.keys_nodup.subperm filled.only

theorem mem_iff (filled : Filled net entries) (key : List Byte) :
    key ∈ net.serverIndex.map ↔ key ∈ entries.map (·.2) := by
  refine ⟨filled.only key, fun present => ?_⟩
  obtain ⟨entry, member, rfl⟩ := List.mem_map.mp present
  obtain ⟨slot, -, found, -⟩ := filled.mapped entry member
  exact AList.lookup_isSome.mp (Option.isSome_of_eq_some found)

/-- The index counts the filled slots exactly if no entry is repeated. -/
theorem count_eq_iff (filled : Filled net entries) :
    net.serverIndex.count = entries.length ↔ (entries.map (·.2)).Nodup := by
  rw [ServerIndex.count, ← List.length_map (fun entry : TServerType × List Byte => entry.2)]
  constructor
  · intro counted
    have same := filled.keys_subperm.perm_of_length_le (Nat.le_of_eq counted.symm)
    exact same.nodup net.serverIndex.map.keys_nodup
  · intro distinct
    have same := (List.perm_ext_iff_of_nodup net.serverIndex.map.keys_nodup distinct).mpr
      filled.mem_iff
    exact same.length_eq

/-- One more entry goes to the next slot. -/
theorem place (filled : Filled net entries) (part : Section) (svr : List Byte)
    (room : entries.length < 16) :
    ∃ net', place part svr (entryIp svr) (entryPort svr) net entries.length = some net' ∧
      Filled net' (entries ++ [(part.type, svr)]) := by
  refine ⟨_, if_pos room, ?_⟩
  have known := filled.keys_subperm.length_le
  rw [List.length_map] at known
  have space : ¬ net.serverIndex.map.keys.length = 16 := by omega
  constructor
  · rw [List.length_append]
    exact room
  · intro i entry found
    rcases Nat.lt_trichotomy i entries.length with before | rfl | behind
    · rw [List.getElem?_append_left before] at found
      simpa [Function.update_of_ne (Nat.ne_of_lt before)] using filled.holds i entry found
    · rw [List.getElem?_concat_length, Option.some.injEq] at found
      simp [← found, Holds]
    · rw [List.getElem?_eq_none (by rw [List.length_append]; exact behind)] at found
      cases found
  · intro entry member
    have extended {slot : Nat} {other : TServerType × List Byte}
        (found : entries[slot]? = some other) :
        (entries ++ [(part.type, svr)])[slot]? = some other := by
      rw [List.getElem?_append_left (List.getElem?_eq_some_iff.mp found).1, found]
    simp only [ServerIndex.find, ServerIndex.addS, dif_neg space]
    by_cases present : svr ∈ net.serverIndex.map
    · rw [dif_pos present]
      rcases List.mem_append.mp member with old | new
      · obtain ⟨slot, other, found, at_slot, same⟩ := filled.mapped entry old
        exact ⟨slot, other, found, extended at_slot, same⟩
      · obtain rfl := List.mem_singleton.mp new
        obtain ⟨twin, old, same⟩ := List.mem_map.mp (filled.only svr present)
        obtain ⟨slot, other, found, at_slot, same'⟩ := filled.mapped twin old
        rw [same] at found same'
        exact ⟨slot, other, found, extended at_slot, same'⟩
    · rw [dif_neg present]
      by_cases same : entry.2 = svr
      · exact ⟨entries.length, (part.type, svr), by rw [same, AList.lookup_insert],
          List.getElem?_concat_length, same.symm⟩
      · have old : entry ∈ entries := by
          rcases List.mem_append.mp member with old | new
          · exact old
          · exact absurd (congrArg Prod.snd (List.mem_singleton.mp new)) same
        obtain ⟨slot, other, found, at_slot, same'⟩ := filled.mapped entry old
        refine ⟨slot, other, ?_, extended at_slot, same'⟩
        rw [AList.lookup_insert_ne same]
        exact found
  · intro key present
    rw [List.map_append, List.mem_append]
    simp only [ServerIndex.addS, dif_neg space] at present
    split at present
    · exact .inl (filled.only key present)
    · rcases (AList.mem_insert _).mp present with rfl | old
      · exact .inr (by simp)
      · exact .inl (filled.only key old)

end Filled

/-- The entries among the lines of a list. -/
def entriesOf (type : TServerType) (lines : List (List Byte)) : List (TServerType × List Byte) :=
  (lines.filter (58 ∈ ·)).map (type, ·)

theorem entriesOf_cons_entry (type : TServerType) {svr : List Byte} (colon : 58 ∈ svr)
    (lines : List (List Byte)) :
    entriesOf type (svr :: lines) = (type, svr) :: entriesOf type lines := by
  simp [entriesOf, colon]

theorem entriesOf_cons_other (type : TServerType) {svr : List Byte} (absent : 58 ∉ svr)
    (lines : List (List Byte)) : entriesOf type (svr :: lines) = entriesOf type lines := by
  simp [entriesOf, absent]

/-- The first loop needs a slot for each entry. -/
theorem authLoop_spec (clock : Nat → UInt32) (lines : List (List Byte)) {net : THNetOption}
    {entries : List (TServerType × List Byte)} (filled : Filled net entries) :
    let later := entries ++ entriesOf .stManage lines
    let result := parseLoop (fun cnt => authSection (clock cnt)) lines net entries.length
    if later.length ≤ 16 then ∃ net', result = some (net', later.length) ∧ Filled net' later
    else result = none := by
  induction lines generalizing net entries with
  | nil =>
      simp only [entriesOf, List.filter_nil, List.map_nil, List.append_nil, if_pos filled.few]
      exact ⟨net, rfl, filled⟩
  | cons svr lines induction =>
      by_cases colon : 58 ∈ svr
      · rw [parseLoop_entry _ lines net colon (fun bounded => by cases bounded),
          entriesOf_cons_entry .stManage colon]
        rcases Nat.lt_or_ge entries.length 16 with room | full
        · obtain ⟨net', placed, filled'⟩ :=
            filled.place (authSection (clock entries.length)) svr room
          have later := induction filled'
          have grown : (entries ++ [((authSection (clock entries.length)).type, svr)]).length =
              entries.length + 1 := List.length_append
          rw [grown, List.append_assoc, List.singleton_append] at later
          rw [placed, Option.bind_some]
          exact later
        · have long : ¬ (entries ++ (TServerType.stManage, svr) ::
              entriesOf .stManage lines).length ≤ 16 := by
            rw [List.length_append, List.length_cons]
            omega
          rw [if_neg long, place, if_neg (Nat.not_lt.mpr full)]
          rfl
      · rw [parseLoop_pass _ lines net (.inl colon), entriesOf_cons_other .stManage colon]
        exact induction filled

/-- The second loop takes the entries that fit. -/
theorem auditLoop_spec (lines : List (List Byte)) {net : THNetOption}
    {entries : List (TServerType × List Byte)} (filled : Filled net entries) :
    let later := entries ++ (entriesOf .stAudit lines).take (16 - entries.length)
    ∃ net', parseLoop (fun _ => auditSection) lines net entries.length =
      some (net', later.length) ∧ Filled net' later := by
  induction lines generalizing net entries with
  | nil =>
      simp only [entriesOf, List.filter_nil, List.map_nil, List.take_nil, List.append_nil]
      exact ⟨net, rfl, filled⟩
  | cons svr lines induction =>
      by_cases colon : 58 ∈ svr
      · rw [entriesOf_cons_entry .stAudit colon]
        rcases Nat.lt_or_ge entries.length 16 with room | full
        · obtain ⟨net', placed, filled'⟩ := filled.place auditSection svr room
          have later := induction filled'
          have one_more : 16 - entries.length = 16 - (entries.length + 1) + 1 := by omega
          have grown : (entries ++ [(auditSection.type, svr)]).length = entries.length + 1 :=
            List.length_append
          rw [grown, List.append_assoc, List.singleton_append] at later
          rw [one_more, List.take_succ_cons, parseLoop_entry _ lines net colon (fun _ => room),
            placed, Option.bind_some]
          exact later
        · have later := induction filled
          rw [Nat.sub_eq_zero_of_le full, List.take_zero] at later ⊢
          rw [parseLoop_pass _ lines net (.inr ⟨rfl, full⟩)]
          exact later
      · rw [entriesOf_cons_other .stAudit colon, parseLoop_pass _ lines net (.inl colon)]
        exact induction filled

/-! ## The parsed lists -/

/-- The lines of a list. -/
def splitLines (text : List Byte) : List (List Byte) :=
  ((newStringList.setText text [59]).map (·.buf)).getD []

def authEntries (other : THOtherOption) : List (TServerType × List Byte) :=
  if other.shouldAuth then entriesOf .stManage (splitLines other.authServ) else []

def auditEntries (other : THOtherOption) : List (TServerType × List Byte) :=
  if other.shouldAudit then entriesOf .stAudit (splitLines other.auditServ) else []

/-- The accepted entries: those of the first list and, as far as there are slots, of the second. -/
def accepted (other : THOtherOption) : List (TServerType × List Byte) :=
  authEntries other ++ (auditEntries other).take (16 - (authEntries other).length)

theorem setText_splitLines (list : TStringList) (text : List Byte) :
    ∃ tmp, list.setText text [59] = some tmp ∧ tmp.buf = splitLines text := by
  obtain ⟨fields, last, split_eq⟩ := Separator.exists_split_eq [59] text
  have nonempty : ([59] : List Byte) ≠ [] := List.cons_ne_nil _ _
  refine ⟨_, list.setText_eq nonempty split_eq, ?_⟩
  rw [splitLines, TStringList.setText_eq newStringList nonempty split_eq]
  rfl

/-- Each of the first entries has a slot, or the first loop leaves the array. -/
theorem parseServers_spec (other : THOtherOption) (clock : Nat → UInt32)
    (servers : Nat → THServer) :
    if (authEntries other).length ≤ 16 then
      ∃ net, parseServers other clock { servers, serverIndex := .empty } =
        some (net, (accepted other).length) ∧ Filled net (accepted other)
    else parseServers other clock { servers, serverIndex := .empty } = none := by
  have start := Filled.nil servers
  have second (tmp : TStringList) {net : THNetOption} {entries : List (TServerType × List Byte)}
      (filled : Filled net entries) :
      let later := entries ++ (auditEntries other).take (16 - entries.length)
      ∃ net', (if other.shouldAudit then
          (tmp.clear.setText other.auditServ [59]).bind fun tmp =>
            parseLoop (fun _ => auditSection) tmp.buf net entries.length
        else some (net, entries.length)) = some (net', later.length) ∧ Filled net' later := by
    rw [auditEntries]
    split
    · obtain ⟨list, split_eq, lines_eq⟩ := setText_splitLines tmp.clear other.auditServ
      rw [split_eq, Option.bind_some, lines_eq]
      exact auditLoop_spec _ filled
    · simpa using filled
  rw [parseServers, accepted]
  by_cases auth : other.shouldAuth = true
  · have first : authEntries other = entriesOf .stManage (splitLines other.authServ) :=
      if_pos auth
    obtain ⟨tmp, split_eq, lines_eq⟩ := setText_splitLines newStringList other.authServ
    have run := authLoop_spec clock (splitLines other.authServ) start
    simp only [List.nil_append, List.length_nil, ← first] at run
    simp only [if_pos auth, split_eq, Option.bind_some, lines_eq]
    split
    · rename_i few
      rw [if_pos few] at run
      obtain ⟨net, result, filled⟩ := run
      rw [result]
      exact second tmp filled
    · rename_i many
      rw [if_neg many] at run
      rw [run]
      rfl
  · have first : authEntries other = [] := if_neg auth
    simp only [if_neg auth, first, List.length_nil, Nat.zero_le, if_true, List.nil_append]
    exact second newStringList start

/-- The loops stay inside the array, the index counts the filled slots, each entry is mapped to a
slot with its address and port, and the slots hold the entries in order. -/
def Parsed (entries : List (TServerType × List Byte)) (result : Option (THNetOption × Nat)) :
    Prop :=
  ∃ net cnt, result = some (net, cnt) ∧ cnt = entries.length ∧ net.serverIndex.count = cnt ∧
    (∀ entry ∈ entries, ∃ slot < cnt, net.serverIndex.find entry.2 = some slot ∧
      (net.servers slot).ip = entryIp entry.2 ∧ (net.servers slot).port = entryPort entry.2) ∧
    ∀ i entry, entries[i]? = some entry → Holds (net.servers i) entry

/-- At most 16 entries are in the first list, and no accepted entry is repeated. -/
def Fitting (other : THOtherOption) : Prop :=
  (authEntries other).length ≤ 16 ∧ ((accepted other).map (·.2)).Nodup

theorem Filled.parsed_iff {net : THNetOption} {entries : List (TServerType × List Byte)}
    (filled : Filled net entries) :
    Parsed entries (some (net, entries.length)) ↔ (entries.map (·.2)).Nodup := by
  rw [← filled.count_eq_iff]
  constructor
  · rintro ⟨net', cnt, same, rfl, counted, -⟩
    obtain rfl := (Prod.mk.inj (Option.some.inj same)).1
    exact counted
  · intro counted
    refine ⟨net, _, rfl, rfl, counted, ?_, filled.holds⟩
    intro entry member
    obtain ⟨slot, other, found, at_slot, same⟩ := filled.mapped entry member
    obtain ⟨ip, port, -⟩ := filled.holds slot other at_slot
    rw [same] at ip port
    exact ⟨slot, (List.getElem?_eq_some_iff.mp at_slot).1, found, ip, port⟩

theorem parseServers_iff (other : THOtherOption) (clock : Nat → UInt32)
    (servers : Nat → THServer) :
    Parsed (accepted other) (parseServers other clock { servers, serverIndex := .empty }) ↔
      Fitting other := by
  have run := parseServers_spec other clock servers
  by_cases few : (authEntries other).length ≤ 16
  · rw [if_pos few] at run
    obtain ⟨net, result, filled⟩ := run
    rw [result, filled.parsed_iff, Fitting, and_iff_right few]
  · rw [if_neg few] at run
    rw [run]
    constructor
    · rintro ⟨_, _, returned, -⟩
      cases returned
    · exact fun fitting => absurd fitting.1 few

/-- Both copies of the parser keep slots and index in step exactly for fitting lists. -/
theorem parsed_iff_fitting (other : THOtherOption) (clock : Nat → UInt32)
    (servers : Nat → THServer) (net : THNetOption) :
    (Parsed (accepted other) (initOption other clock servers) ↔ Fitting other) ∧
      (Parsed (accepted other) (rebuildIndex other clock net) ↔ Fitting other) :=
  ⟨parseServers_iff other clock _, parseServers_iff other clock _⟩

def blankServer : THServer where
  ip := []
  port := 0
  type := .stUnknown
  stat := .ssUnknown
  date := 0

/-- With `auth` as the first list and no second one. -/
def onlyAuth (authServ : List Byte) : THOtherOption where
  whitelist := []
  blacklist := []
  authServ
  auditServ := []
  shouldAuth := true
  shouldAudit := false
  apInterval := 30
  userInterval := 30
  auditInterval := 30

/-- A repeated entry takes two slots and is counted once, and a 17th entry leaves the array. -/
theorem initOption_repeated :
    ¬ Parsed (accepted (onlyAuth (ascii "a:1;a:1")))
        (initOption (onlyAuth (ascii "a:1;a:1")) (fun _ => 0) fun _ => blankServer) ∧
      initOption (onlyAuth (ascii ":;:;:;:;:;:;:;:;:;:;:;:;:;:;:;:;:;")) (fun _ => 0)
        (fun _ => blankServer) = none := by
  constructor
  · rintro ⟨net, cnt, result, -, counted, -⟩
    have known : (initOption (onlyAuth (ascii "a:1;a:1")) (fun _ => 0) fun _ => blankServer).map
        (fun parsed => (parsed.1.serverIndex.count, parsed.2)) = some (1, 2) := by decide +kernel
    rw [result, Option.map_some, counted, Option.some.injEq, Prod.mk.injEq] at known
    omega
  · have left_array : (initOption (onlyAuth (ascii ":;:;:;:;:;:;:;:;:;:;:;:;:;:;:;:;:;"))
        (fun _ => 0) fun _ => blankServer).isNone = true := by decide +kernel
    exact Option.isNone_iff_eq_none.mp left_array

end ServerList
end CommonLib
