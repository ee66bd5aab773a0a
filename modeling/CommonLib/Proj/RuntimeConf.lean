import CommonLib.Library.Fetch
import CommonLib.Library.Layout
import CommonLib.Proj.CommandReads
import CommonLib.Proj.Refinement

/-!
# The walk over a network configuration

`on_ap_runtime_conf` walks over the entries of an `ap_net_conf2` and hands each of them to a handler
of its kind.  The offsets of the variable tails are added to the base in the loop over the vlans and
kept apart from it in the loop over the wlans.
-/

namespace CommonLib
namespace RuntimeConf

/-- The handlers `on_ap_lan_conf`, `on_ap_vlan_conf`, `on_ap_wan_conf` and `on_ap_wlan_conf`. -/
inductive Handler
  | lan | vlan | wan | wlan
  deriving DecidableEq

/-- A handler is called with a pointer into the body. -/
structure Call where
  handler : Handler
  pointer : Nat
  deriving DecidableEq

/-- The loops over the lans and the wans, whose entries have the size `size`. -/
def entityLoop (handler : Handler) (size tp : Nat) : Nat → Nat → List Call → List Call
  | 0, _, calls => calls
  | turns + 1, i, calls =>
      entityLoop handler size tp turns (i + 1) (calls ++ [⟨handler, tp + size * i⟩])

/-- The loop over the vlans. -/
def vlanLoop (body : Nat → Byte) : Nat → Nat → Nat → List Call → Nat × List Call
  | 0, _, tp, calls => (tp, calls)
  | turns + 1, i, tp, calls =>
      let tvlan := tp + 60 * i
      let calls := calls ++ [⟨.vlan, tvlan⟩]
      vlanLoop body turns (i + 1) (tp + MsgHead2.word body (tvlan + 58) * 8) calls

/-- The loop over the wlans. -/
def wlanLoop (body : Nat → Byte) (tp : Nat) : Nat → Nat → Nat → List Call → List Call
  | 0, _, _, calls => calls
  | turns + 1, i, len, calls =>
      let twlan := tp + len + 342 * i
      let len := len + (MsgHead2.word body (twlan + 338) + MsgHead2.word body (twlan + 340))
      wlanLoop body tp turns (i + 1) len (calls ++ [⟨.wlan, twlan⟩])

/-- `on_ap_runtime_conf`; the handlers leave the body as it is. -/
def onApRuntimeConf (body : Nat → Byte) : List Call :=
  let tp := 8
  let lanCount := MsgHead2.word body 0
  let calls := entityLoop .lan 80 tp lanCount 0 []
  let vlanCount := MsgHead2.word body 2
  let tp := tp + 80 * lanCount
  let (tp, calls) := vlanLoop body vlanCount 0 tp calls
  let wanCount := MsgHead2.word body 4
  let tp := tp + vlanCount * 60
  let calls := entityLoop .wan 420 tp wanCount 0 calls
  let wlanCount := MsgHead2.word body 6
  let tp := tp + wanCount * 420
  wlanLoop body tp wlanCount 0 0 calls

/-! ## Well-formed bodies -/

/-- The size of a structure of `ap_type2s.hpp` and the length of what follows it. -/
structure Layout where
  handler : Handler
  size : Nat
  tail : (Nat → Byte) → Nat

def lanEntity : Layout where
  handler := .lan
  size := 80
  tail _ := 0

def vlanEntity : Layout where
  handler := .vlan
  size := 60
  tail entity := MsgHead2.word entity 58 * 8

def wanEntity : Layout where
  handler := .wan
  size := 420
  tail _ := 0

def wlanEntity : Layout where
  handler := .wlan
  size := 342
  tail entity := MsgHead2.word entity 338 + MsgHead2.word entity 340

/-- An entry: a structure and the bytes whose length it tells. -/
structure Entry (layout : Layout) where
  entity : List Byte
  rest : List Byte
  entity_length : entity.length = layout.size
  rest_length : rest.length = layout.tail (TeWiFiClient.memory entity)

def Entry.bytes {layout : Layout} (entry : Entry layout) : List Byte := entry.entity ++ entry.rest

/-- An `ap_net_conf2`. -/
structure NetConf2 where
  lan : List (Entry lanEntity)
  vlan : List (Entry vlanEntity)
  wan : List (Entry wanEntity)
  wlan : List (Entry wlanEntity)
  lan_few : lan.length < 65536
  vlan_few : vlan.length < 65536
  wan_few : wan.length < 65536
  wlan_few : wlan.length < 65536

/-- The entries of one kind with their handler. -/
def tagged {layout : Layout} (entries : List (Entry layout)) : List (Handler × List Byte) :=
  entries.map fun entry => (layout.handler, entry.bytes)

/-- The bytes of some entries. -/
def spelled (entries : List (Handler × List Byte)) : List Byte := (entries.map (·.2)).flatten

namespace NetConf2

variable (conf : NetConf2)

/-- The counts in network order. -/
def counts : List Byte :=
  bigEndian 2 conf.lan.length ++ bigEndian 2 conf.vlan.length ++ bigEndian 2 conf.wan.length ++
    bigEndian 2 conf.wlan.length

/-- The entries in the order of the body. -/
def entries : List (Handler × List Byte) :=
  tagged conf.lan ++ tagged conf.vlan ++ tagged conf.wan ++ tagged conf.wlan

/-- The body of the message. -/
def bytes : List Byte := conf.counts ++ spelled conf.entries

end NetConf2

theorem spelled_cons (entry : Handler × List Byte) (entries : List (Handler × List Byte)) :
    spelled (entry :: entries) = entry.2 ++ spelled entries := rfl

theorem spelled_append (first second : List (Handler × List Byte)) :
    spelled (first ++ second) = spelled first ++ spelled second := by
  rw [spelled, List.map_append, List.flatten_append]
  rfl

/-! ## Loops -/

/-- The calls for entries that stand from `start` on. -/
def callsFrom (start : Nat) (entries : List (Handler × List Byte)) : List Call :=
  entries.zipWith (fun entry pointer => ⟨entry.1, pointer⟩) (offsets start (entries.map (·.2)))

theorem callsFrom_cons (start : Nat) (entry : Handler × List Byte)
    (entries : List (Handler × List Byte)) :
    callsFrom start (entry :: entries) =
      ⟨entry.1, start⟩ :: callsFrom (start + entry.2.length) entries := rfl

theorem callsFrom_append (start : Nat) (first second : List (Handler × List Byte)) :
    callsFrom start (first ++ second) =
      callsFrom start first ++ callsFrom (start + (spelled first).length) second := by
  induction first generalizing start with
  | nil => rfl
  | cons entry first induction =>
      rw [List.cons_append, callsFrom_cons, induction, callsFrom_cons, spelled_cons,
        List.length_append, Nat.add_assoc, List.cons_append]

/-- The lengths are read from the structure where it stands. -/
theorem word_of_spells {body : Nat → Byte} {start : Nat} {entity : List Byte}
    (spells : Spells body start entity) {offset : Nat} (inside : offset + 1 < entity.length) :
    MsgHead2.word body (start + offset) = MsgHead2.word (TeWiFiClient.memory entity) offset := by
  have high := spells.apply (Nat.lt_of_succ_lt inside)
  have low := spells.apply inside
  rw [MsgHead2.word, MsgHead2.word, high, Nat.add_assoc, low,
    TeWiFiClient.memory_apply (Nat.lt_of_succ_lt inside), TeWiFiClient.memory_apply inside]

theorem word_bigEndian {body : Nat → Byte} {start number : Nat}
    (spells : Spells body start (bigEndian 2 number)) (small : number < 65536) :
    MsgHead2.word body start = number := by
  have high := @Spells.apply _ _ _ _ spells 0 (by simp)
  have low := @Spells.apply _ _ _ _ spells 1 (by simp)
  rw [Nat.add_zero] at high
  rw [MsgHead2.word, high, low]
  simp [bigEndian, littleEndian]
  omega

theorem Entry.length_bytes {layout : Layout} (entry : Entry layout) :
    entry.bytes.length = layout.size + layout.tail (TeWiFiClient.memory entry.entity) := by
  rw [Entry.bytes, List.length_append, entry.entity_length, entry.rest_length]

theorem tagged_cons {layout : Layout} (entry : Entry layout) (entries : List (Entry layout)) :
    tagged (entry :: entries) = (layout.handler, entry.bytes) :: tagged entries := rfl

/-- The loops over the lans and the wans. -/
theorem entityLoop_eq {layout : Layout} (plain : ∀ entity, layout.tail entity = 0)
    (entries : List (Entry layout)) (tp i : Nat) (calls : List Call) :
    entityLoop layout.handler layout.size tp entries.length i calls =
      calls ++ callsFrom (tp + layout.size * i) (tagged entries) := by
  induction entries generalizing i calls with
  | nil => exact (List.append_nil calls).symm
  | cons entry entries induction =>
      have next : tp + layout.size * i + entry.bytes.length = tp + layout.size * (i + 1) := by
        rw [entry.length_bytes, plain, Nat.add_zero, Nat.mul_succ, Nat.add_assoc]
      rw [List.length_cons, entityLoop, induction, tagged_cons, callsFrom_cons, next,
        List.append_assoc, List.singleton_append]

/-- The loop over the vlans moves its base by the tails. -/
theorem vlanLoop_eq {body : Nat → Byte} (entries : List (Entry vlanEntity)) {tp i : Nat}
    (calls : List Call)
    (spells : Spells body (tp + 60 * i) (spelled (tagged entries))) :
    let result := vlanLoop body entries.length i tp calls
    result.1 + 60 * (i + entries.length) =
        tp + 60 * i + (spelled (tagged entries)).length ∧
      result.2 = calls ++ callsFrom (tp + 60 * i) (tagged entries) := by
  induction entries generalizing tp i calls with
  | nil => exact ⟨rfl, (List.append_nil calls).symm⟩
  | cons entry entries induction =>
      rw [tagged_cons, spelled_cons, spells_append] at spells
      obtain ⟨here, later⟩ := spells
      rw [Entry.bytes, spells_append] at here
      have inside : 58 + 1 < entry.entity.length := by
        rw [entry.entity_length]
        decide
      have nodeLen := word_of_spells here.1 inside
      have length_eq : entry.bytes.length =
          60 + MsgHead2.word (TeWiFiClient.memory entry.entity) 58 * 8 := entry.length_bytes
      have next : tp + 60 * i + entry.bytes.length =
          tp + MsgHead2.word body (tp + 60 * i + 58) * 8 + 60 * (i + 1) := by omega
      rw [next] at later
      obtain ⟨base, called⟩ := induction (calls ++ [⟨.vlan, tp + 60 * i⟩]) later
      constructor
      · rw [tagged_cons, spelled_cons, List.length_append, List.length_cons]
        simp only [vlanLoop]
        omega
      · rw [tagged_cons, callsFrom_cons, next]
        simp only [List.length_cons, vlanLoop]
        rw [called, List.append_assoc]
        rfl

/-- The loop over the wlans keeps its base and the length of the tails. -/
theorem wlanLoop_eq {body : Nat → Byte} (entries : List (Entry wlanEntity)) {tp len i : Nat}
    (calls : List Call)
    (spells : Spells body (tp + len + 342 * i) (spelled (tagged entries))) :
    wlanLoop body tp entries.length i len calls =
      calls ++ callsFrom (tp + len + 342 * i) (tagged entries) := by
  induction entries generalizing len i calls with
  | nil => exact (List.append_nil calls).symm
  | cons entry entries induction =>
      rw [tagged_cons, spelled_cons, spells_append] at spells
      obtain ⟨here, later⟩ := spells
      rw [Entry.bytes, spells_append] at here
      have size_eq : entry.entity.length = 342 := entry.entity_length
      have whiteLen := @word_of_spells _ _ _ here.1 338 (by omega)
      have blackLen := @word_of_spells _ _ _ here.1 340 (by omega)
      have length_eq : entry.bytes.length = 342 +
          (MsgHead2.word (TeWiFiClient.memory entry.entity) 338 +
            MsgHead2.word (TeWiFiClient.memory entry.entity) 340) := entry.length_bytes
      have next : tp + len + 342 * i + entry.bytes.length =
          tp + (len + (MsgHead2.word body (tp + len + 342 * i + 338) +
            MsgHead2.word body (tp + len + 342 * i + 340))) + 342 * (i + 1) := by omega
      rw [next] at later
      rw [tagged_cons, callsFrom_cons, next, List.length_cons, wlanLoop]
      dsimp only
      rw [induction _ later, List.append_assoc]
      rfl

/-! ## The walk -/

theorem length_spelled {layout : Layout} (plain : ∀ entity, layout.tail entity = 0)
    (entries : List (Entry layout)) :
    (spelled (tagged entries)).length = layout.size * entries.length := by
  induction entries with
  | nil => rfl
  | cons entry entries induction =>
      have length_eq := entry.length_bytes
      rw [plain, Nat.add_zero] at length_eq
      rw [tagged_cons, spelled_cons, List.length_append, length_eq, induction, List.length_cons,
        Nat.mul_succ, Nat.add_comm]

namespace NetConf2

variable {conf : NetConf2} {body : Nat → Byte}

/-- The four counts stand in front of the entries. -/
theorem counts_of_spells (spells : Spells body 0 conf.bytes) :
    MsgHead2.word body 0 = conf.lan.length ∧ MsgHead2.word body 2 = conf.vlan.length ∧
      MsgHead2.word body 4 = conf.wan.length ∧ MsgHead2.word body 6 = conf.wlan.length ∧
      Spells body 8 (spelled conf.entries) := by
  rw [bytes, counts, spells_append, spells_append, spells_append, spells_append] at spells
  simp only [List.length_append, bigEndian_length] at spells
  obtain ⟨⟨⟨⟨lan, vlan⟩, wan⟩, wlan⟩, rest⟩ := spells
  exact ⟨word_bigEndian lan conf.lan_few, word_bigEndian vlan conf.vlan_few,
    word_bigEndian wan conf.wan_few, word_bigEndian wlan conf.wlan_few, rest⟩

/-- The entries of the four kinds stand one behind the other. -/
theorem callsFrom_entries (conf : NetConf2) :
    callsFrom 8 conf.entries =
      callsFrom 8 (tagged conf.lan) ++
        callsFrom (8 + (spelled (tagged conf.lan)).length) (tagged conf.vlan) ++
        callsFrom (8 + (spelled (tagged conf.lan)).length + (spelled (tagged conf.vlan)).length)
          (tagged conf.wan) ++
        callsFrom (8 + (spelled (tagged conf.lan)).length + (spelled (tagged conf.vlan)).length +
          (spelled (tagged conf.wan)).length) (tagged conf.wlan) := by
  simp only [entries, callsFrom_append, spelled_append, List.length_append, Nat.add_assoc]

/-- The walk makes one call for each entry, where the entry stands. -/
theorem onApRuntimeConf_eq (spells : Spells body 0 conf.bytes) :
    onApRuntimeConf body = callsFrom 8 conf.entries := by
  obtain ⟨lan_count, vlan_count, wan_count, wlan_count, rest⟩ := counts_of_spells spells
  have lan_length : (spelled (tagged conf.lan)).length = 80 * conf.lan.length :=
    length_spelled (fun _ => rfl) conf.lan
  have wan_length : (spelled (tagged conf.wan)).length = 420 * conf.wan.length :=
    length_spelled (fun _ => rfl) conf.wan
  simp only [entries, spelled_append, spells_append, List.length_append, ← Nat.add_assoc] at rest
  obtain ⟨⟨⟨-, vlan⟩, -⟩, wlan⟩ := rest
  rw [callsFrom_entries, onApRuntimeConf, lan_count, vlan_count, wan_count, wlan_count]
  rw [lan_length] at vlan wlan ⊢
  rw [wan_length, Nat.mul_comm 420] at wlan ⊢
  have lans : entityLoop .lan 80 8 conf.lan.length 0 [] = callsFrom 8 (tagged conf.lan) :=
    entityLoop_eq (fun _ => rfl) conf.lan 8 0 []
  obtain ⟨base, vlans⟩ := @vlanLoop_eq body conf.vlan (8 + 80 * conf.lan.length) 0
    (callsFrom 8 (tagged conf.lan)) vlan
  rcases run : vlanLoop body conf.vlan.length 0 (8 + 80 * conf.lan.length)
    (callsFrom 8 (tagged conf.lan)) with ⟨tp, calls⟩
  rw [run] at base vlans
  dsimp only at base vlans ⊢
  rw [lans, run]
  have wan_base : tp + conf.vlan.length * 60 =
      8 + 80 * conf.lan.length + (spelled (tagged conf.vlan)).length := by omega
  have wans := entityLoop_eq (fun _ => rfl) conf.wan (tp + conf.vlan.length * 60) 0 calls
  have wlans := @wlanLoop_eq body conf.wlan _ 0 0
    (calls ++ callsFrom (tp + conf.vlan.length * 60) (tagged conf.wan)) (wan_base ▸ wlan)
  change wlanLoop body _ _ 0 0 (entityLoop wanEntity.handler wanEntity.size _ _ 0 calls) = _
  rw [wans]
  refine wlans.trans ?_
  rw [vlans, wan_base]
  rfl

end NetConf2

/-- For a well-formed body, whatever stands behind it, the walk calls the handler of each entry
once, in the order of the entries, with the place at which the entry stands. -/
theorem onApRuntimeConf_calls (conf : NetConf2) (behind : Nat → Byte) :
    let body := move conf.bytes behind 0
    (onApRuntimeConf body).length = conf.entries.length ∧
      ∀ i handler entry, conf.entries[i]? = some (handler, entry) →
        ∃ pointer, (onApRuntimeConf body)[i]? = some ⟨handler, pointer⟩ ∧
          pointer = 8 + (spelled (conf.entries.take i)).length ∧
          cells body pointer entry.length = entry := by
  intro body
  have spells : Spells body 0 conf.bytes := cells_move conf.bytes behind 0
  obtain ⟨-, -, -, -, rest⟩ := NetConf2.counts_of_spells spells
  rw [NetConf2.onApRuntimeConf_eq spells]
  constructor
  · rw [callsFrom, List.length_zipWith, length_offsets, List.length_map, Nat.min_self]
  · intro i handler entry found
    have inside : i < (conf.entries.map (·.2)).length := by
      rw [List.length_map]
      exact (List.getElem?_eq_some_iff.mp found).1
    have place := getElem?_offsets 8 inside
    have stands := rest.entry inside
    rw [← List.map_take] at place stands
    have entry_eq : (conf.entries.map (·.2))[i] = entry := by
      rw [List.getElem_map, (List.getElem?_eq_some_iff.mp found).2]
    rw [entry_eq] at stands
    refine ⟨_, ?_, rfl, stands⟩
    rw [callsFrom, List.getElem?_zipWith, found, place]
    rfl

/-- Two vlans, of which the first has a node, and a wlan. -/
example : onApRuntimeConf (fun i => if i = 3 then 2 else if i = 7 ∨ i = 67 then 1 else 0) =
    [⟨.vlan, 8⟩, ⟨.vlan, 76⟩, ⟨.wlan, 136⟩] := by decide +kernel

/-! ## The reads of the walk -/

open CommandHandler

theorem entityLoop_range (handler : Handler) (size tp turns i : Nat) (calls : List Call) :
    entityLoop handler size tp turns i calls =
      calls ++ (List.range' i turns).map fun k => ⟨handler, tp + size * k⟩ := by
  induction turns generalizing i calls with
  | zero => exact (List.append_nil calls).symm
  | succ turns induction =>
      rw [entityLoop, induction, List.range'_succ, List.map_cons, List.append_assoc,
        List.singleton_append]

theorem vlanLoop_range (body : Nat → Byte) (start turns i : Nat) (calls : List Call) :
    vlanLoop body turns i (vlanTp body start i) calls =
      (vlanTp body start (i + turns),
        calls ++ (List.range' i turns).map fun k => ⟨.vlan, vlanTp body start k + 60 * k⟩) := by
  induction turns generalizing i calls with
  | zero => rw [List.range'_zero, List.map_nil, List.append_nil, vlanLoop, Nat.add_zero]
  | succ turns induction =>
      have later := induction (i + 1) (calls ++ [⟨.vlan, vlanTp body start i + 60 * i⟩])
      rw [List.append_assoc, List.singleton_append, Nat.add_assoc, Nat.add_comm 1] at later
      rw [vlanLoop, List.range'_succ, List.map_cons]
      exact later

theorem wlanLoop_range (body : Nat → Byte) (tp turns : Nat) {len i : Nat} (calls : List Call)
    (passed : tp + len = wlanTp body tp i) :
    wlanLoop body tp turns i len calls =
      calls ++ (List.range' i turns).map fun k => ⟨.wlan, wlanTp body tp k + 342 * k⟩ := by
  induction turns generalizing len i calls with
  | zero => exact (List.append_nil calls).symm
  | succ turns induction =>
      rw [wlanLoop, List.range'_succ, List.map_cons]
      rw [induction, List.append_assoc, List.singleton_append, passed]
      rw [← Nat.add_assoc, passed]
      rfl

/-- The calls by the numbers of the entries. -/
theorem onApRuntimeConf_ranges (body : Nat → Byte) :
    let vlans := 8 + 80 * halfAt body 0
    let wans := vlanTp body vlans (halfAt body 2) + 60 * halfAt body 2
    let wlans := wans + 420 * halfAt body 4
    onApRuntimeConf body =
      ((List.range (halfAt body 0)).map fun k => ⟨.lan, 8 + 80 * k⟩) ++
        ((List.range (halfAt body 2)).map fun k => ⟨.vlan, vlanTp body vlans k + 60 * k⟩) ++
        ((List.range (halfAt body 4)).map fun k => ⟨.wan, wans + 420 * k⟩) ++
        (List.range (halfAt body 6)).map fun k => ⟨.wlan, wlanTp body wlans k + 342 * k⟩ := by
  intro vlans wans wlans
  have counts (offset : Nat) : MsgHead2.word body offset = halfAt body offset := rfl
  have run : vlanLoop body (halfAt body 2) 0 (8 + 80 * halfAt body 0)
      (entityLoop .lan 80 8 (halfAt body 0) 0 []) = _ := vlanLoop_range body vlans _ 0 _
  rw [Nat.zero_add, entityLoop_range, List.nil_append] at run
  simp only [onApRuntimeConf, counts, entityLoop_range, List.nil_append, run]
  rw [Nat.mul_comm _ 60, Nat.mul_comm _ 420, wlanLoop_range body _ _ _ rfl]
  simp only [List.range_eq_range']
  rfl

/-- What a handler looks at lies in the body. -/
def Call.Fits (call : Call) (body : Nat → Byte) (size : Nat) : Prop :=
  match call.handler with
  | .lan => call.pointer + lanExtent body call.pointer ≤ size
  | .vlan => call.pointer + 60 ≤ size
  | .wan => WanFits body size call.pointer
  | .wlan => WlanFits body size call.pointer

/-- The walk reads nothing behind the body exactly if the counts and the entry of each call lie in
the body. -/
theorem within_onApRuntimeConf_iff {body : Nat → Byte} {bound limit : Nat} (room : bound < limit) :
    (CommandHandler.onApRuntimeConf limit).Within body bound 0 ↔
      8 ≤ bound ∧ ∀ call ∈ onApRuntimeConf body, call.Fits body bound := by
  rw [CommandHandler.within_onApRuntimeConf room, NetConfFits, onApRuntimeConf_ranges]
  simp only [List.forall_mem_append, List.forall_mem_map, List.mem_range, Call.Fits, and_assoc]

end RuntimeConf
end CommonLib
