import CommonLib.Library.LongestSuffix
import CommonLib.Hlib.PasUtils
import CommonLib.Hlib.Utf8

/-!
# The code page of `hcp936.cpp`

`UTF8ToDBCS` and `DBCSToUTF8` convert between UTF-8 and code page 936 with the tables of
`hcp936.cpp`, which are parameters.  A string is read as the memory that holds its bytes and its
terminator, and the buffers of the results are counted.
-/

namespace CommonLib
namespace Cp936

open PasUtils

/-- What can stop a loop without a result: it takes more turns, or it reads outside the string and
its terminator. -/
inductive Fault
  | turns
  | outside
  deriving DecidableEq

/-- The entries of each table. -/
def CP936High : Nat := 22047

/-- The tables. -/
structure CodePage where
  uni936U : Nat → UInt16
  cp936CU : Nat → UInt16
  cp936CC : Nat → UInt16
  uni936C : Nat → UInt16

/-! ## Tables -/

/-- The loop of `SearchTable`. -/
def searchLoop (codePageArr : Nat → UInt16) (id : Nat) : Nat → Int → Int → Option Nat
  | 0, _, _ => none
  | turns + 1, idLow, idHigh =>
      if idLow ≤ idHigh then
        if idLow = idHigh then
          some (if (codePageArr idLow.toNat).toNat = id then idLow.toNat else 0)
        else
          let idMid := (idLow + idHigh) / 2
          let entry := (codePageArr idMid.toNat).toNat
          if entry = id then some idMid.toNat
          else
            searchLoop codePageArr id turns (if entry < id then idMid + 1 else idLow)
              (if entry > id then idMid - 1 else idHigh)
      else some 0

/-- `SearchTable`; each turn halves the interval. -/
def searchTable (codePageArr : Nat → UInt16) (id : Nat) : Option Nat :=
  searchLoop codePageArr id 15 0 (CP936High - 1)

/-- `UnicodeToCP936`. -/
def unicodeToCP936 (page : CodePage) (unicode : Nat) : Option Int :=
  if unicode < 128 then some unicode
  else (searchTable page.uni936U unicode).map fun index => (page.cp936CU index).toNat

/-- The code points of `DBCSToUTF8`. -/
def codePoint (page : CodePage) (codeP : Int) (code : Nat) : Option Nat :=
  if codeP = 936 then
    (searchTable page.cp936CC code).map fun index => (page.uni936C index).toNat
  else some 0

/-! ## Conversions -/

/-- The bytes that `UTF8ToDBCS` writes for a code. -/
def putCode (i : Int) : List Byte :=
  if i ≥ 0 then
    if i > 255 then [UInt8.ofNat (i.toNat >>> 8), UInt8.ofNat (i.toNat &&& 255)]
    else [UInt8.ofNat i.toNat]
  else []

/-- The loop of `UTF8ToDBCS` on the memory of a string of `len` bytes, where `Src` has passed so
many bytes and `dest` has been written. -/
def utf8ToDBCSLoop (utf8CharConvFunc : Nat → Option Int) (memory : List Byte) (len : Nat) :
    Nat → Nat → List Byte → Except Fault (List Byte)
  | 0, _, _ => .error .turns
  | turns + 1, src, dest =>
      match memory[src]? with
      | none => .error .outside
      | some c =>
          if c.toNat < 128 then
            if c = 0 ∧ src ≥ len then .ok dest
            else utf8ToDBCSLoop utf8CharConvFunc memory len turns (src + 1) (dest ++ [c])
          else
            match utf8CharacterToUnicode (some (memory.drop src)) with
            | none => .error .outside
            | some (unicode, charLen) =>
                match utf8CharConvFunc unicode with
                | none => .error .turns
                | some i =>
                    utf8ToDBCSLoop utf8CharConvFunc memory len turns (src + charLen)
                      (dest ++ putCode i)

/-- The bytes that `UTF8ToDBCS` writes to `Result`; each turn but the last passes a byte. -/
def utf8ToDBCSResult (utf8CharConvFunc : Nat → Option Int) (s : List Byte) :
    Except Fault (List Byte) :=
  (utf8ToDBCSLoop utf8CharConvFunc (s ++ [0]) s.length (s.length + 1) 0 []).map (· ++ [0])

/-- `UTF8ToDBCS`. -/
def utf8ToDBCS (s : List Byte) (utf8CharConvFunc : Nat → Option Int) : Except Fault (List Byte) :=
  if s = [] then .ok [] else (utf8ToDBCSResult utf8CharConvFunc s).map cString

/-- The loop of `DBCSToUTF8`, as above. -/
def dbcsToUTF8Loop (page : CodePage) (codeP : Int) (memory : List Byte) (len : Nat) :
    Nat → Nat → List Byte → Except Fault (List Byte)
  | 0, _, _ => .error .turns
  | turns + 1, src, dest =>
      match memory[src]? with
      | none => .error .outside
      | some c =>
          if c.toNat < 128 then
            if c = 0 ∧ dest.length ≥ len then .ok dest
            else dbcsToUTF8Loop page codeP memory len turns (src + 1) (dest ++ [c])
          else
            match memory[src + 1]? with
            | none => .error .outside
            | some d =>
                if d = 0 ∧ dest.length ≥ len then .ok dest
                else
                  match codePoint page codeP ((c.toNat <<< 8) + d.toNat) with
                  | none => .error .turns
                  | some code =>
                      dbcsToUTF8Loop page codeP memory len turns (src + 2)
                        (dest ++ if code > 0 then unicodeToUTF8Inline code else [])

/-- The bytes that `DBCSToUTF8` writes to `Result`; each turn but the last two passes a byte of the
string. -/
def dbcsToUTF8Result (page : CodePage) (codeP : Int) (s : List Byte) : Except Fault (List Byte) :=
  (dbcsToUTF8Loop page codeP (s ++ [0]) s.length (s.length + 2) 0 []).map (· ++ [0])

/-- `DBCSToUTF8`. -/
def dbcsToUTF8 (page : CodePage) (s : List Byte) (codeP : Int) : Except Fault (List Byte) :=
  if s = [] then .ok s else (dbcsToUTF8Result page codeP s).map cString

/-- `UTF8ToCP936`. -/
def utf8ToCP936 (page : CodePage) (s : List Byte) : Except Fault (List Byte) :=
  utf8ToDBCS s (unicodeToCP936 page)

/-- `CP936ToUTF8`. -/
def cp936ToUTF8 (page : CodePage) (s : List Byte) : Except Fault (List Byte) :=
  dbcsToUTF8 page s 936

/-! ## Searching -/

/-- The search ends at an entry of the interval or at the first one. -/
theorem searchLoop_total (codePageArr : Nat → UInt16) (id : Nat) {turns : Nat} {idLow idHigh : Int}
    (positive : 0 < turns) (enough : idHigh - idLow + 2 ≤ (2 ^ turns : Nat)) (low : 0 ≤ idLow)
    {size : Nat} (high : idHigh < size) (nonempty : 0 < size) :
    ∃ index, searchLoop codePageArr id turns idLow idHigh = some index ∧ index < size := by
  induction turns generalizing idLow idHigh with
  | zero => exact absurd positive (Nat.lt_irrefl 0)
  | succ turns ih =>
      rw [Nat.pow_succ] at enough
      rw [searchLoop]
      by_cases inside : idLow ≤ idHigh
      · rw [if_pos inside]
        by_cases single : idLow = idHigh
        · rw [if_pos single]
          refine ⟨_, rfl, ?_⟩
          split <;> omega
        · rw [if_neg single]
          generalize mid_eq : (idLow + idHigh) / 2 = idMid
          simp only []
          have more : 0 < turns := by
            rcases Nat.eq_zero_or_pos turns with rfl | more
            · simp at enough
              omega
            · exact more
          split
          · exact ⟨_, rfl, by omega⟩
          · apply ih more <;> split <;> omega
      · exact ⟨0, if_neg inside, nonempty⟩

theorem searchTable_total (codePageArr : Nat → UInt16) (id : Nat) :
    ∃ index, searchTable codePageArr id = some index ∧ index < CP936High :=
  searchLoop_total codePageArr id (by decide) (by decide) (by decide) (by decide) (by decide)

/-- The code of a code point. -/
def codeOf (page : CodePage) (unicode : Nat) : Nat :=
  if unicode < 128 then unicode
  else (page.cp936CU ((searchTable page.uni936U unicode).getD 0)).toNat

theorem unicodeToCP936_eq (page : CodePage) (unicode : Nat) :
    unicodeToCP936 page unicode = some (codeOf page unicode : Int) := by
  obtain ⟨index, found, -⟩ := searchTable_total page.uni936U unicode
  rw [unicodeToCP936, codeOf, found]
  split <;> rfl

/-- The code point of a code. -/
def pointOf (page : CodePage) (code : Nat) : Nat :=
  (page.uni936C ((searchTable page.cp936CC code).getD 0)).toNat

theorem codePoint_eq (page : CodePage) (code : Nat) :
    codePoint page 936 code = some (pointOf page code) := by
  obtain ⟨index, found, -⟩ := searchTable_total page.cp936CC code
  rw [codePoint, pointOf, found]
  rfl

/-! ## From UTF-8 -/

/-- Reading tails ends at the terminator at the latest. -/
theorem continued_terminated (s : List Byte) (count : Nat) {i : Nat} (inside : i ≤ s.length) :
    ∃ whole, continued (s ++ [0]) (List.range' i count) = some whole ∧
      (whole = true → i + count ≤ s.length) := by
  induction count generalizing i with
  | zero => exact ⟨true, rfl, fun _ => inside⟩
  | succ count ih =>
      rw [List.range'_succ, continued_cons]
      rcases Nat.lt_or_eq_of_le inside with before | rfl
      · rw [List.getElem?_append_left before, List.getElem?_eq_getElem before, Option.bind_some]
        split
        · obtain ⟨whole, whole_eq, fits⟩ := ih (Nat.succ_le_of_lt before)
          exact ⟨whole, whole_eq, fun is_whole => by have := fits is_whole; omega⟩
        · exact ⟨false, rfl, fun is_whole => Bool.noConfusion is_whole⟩
      · rw [List.getElem?_concat_length, Option.bind_some, if_neg (by decide)]
        exact ⟨false, rfl, fun is_whole => Bool.noConfusion is_whole⟩

/-- A character is read within the string and its terminator, and its bytes are some of the
string. -/
theorem utf8CharacterToUnicode_terminated {s : List Byte} (nonempty : s ≠ []) :
    ∃ u n, utf8CharacterToUnicode (some (s ++ [0])) = some (u, n) ∧ 1 ≤ n ∧ n ≤ s.length := by
  obtain ⟨x, rest, rfl⟩ := List.exists_cons_of_ne_nil nonempty
  have formed : ∀ bound value c count,
      ∃ u n, (continued ((x :: rest) ++ [0]) (List.range' 1 count)).map
          (formValue bound value (1 + count) c) = some (u, n) ∧ 1 ≤ n ∧
            n ≤ (x :: rest).length := by
    intro bound value c count
    obtain ⟨whole, whole_eq, fits⟩ :=
      continued_terminated (x :: rest) count (Nat.succ_le_of_lt (Nat.succ_pos rest.length))
    rw [whole_eq]
    cases whole with
    | true => exact ⟨_, _, rfl, Nat.le_add_right 1 count, fits rfl⟩
    | false => exact ⟨_, _, rfl, Nat.le_refl 1, Nat.succ_le_of_lt (Nat.succ_pos rest.length)⟩
  rw [List.cons_append, utf8CharacterToUnicode_cons]
  split
  · exact formed 128 _ _ 1
  split
  · exact formed 2048 _ _ 2
  split
  · exact formed 32768 _ _ 3
  · exact ⟨_, _, rfl, Nat.le_refl 1, Nat.succ_le_of_lt (Nat.succ_pos rest.length)⟩

/-- The character at the front of a string and the number of its bytes. -/
def character (s : List Byte) : Nat × Nat :=
  (utf8CharacterToUnicode (some (s ++ [0]))).getD (0, 1)

theorem character_spec {s : List Byte} (nonempty : s ≠ []) :
    utf8CharacterToUnicode (some (s ++ [0])) = some (character s) ∧ 1 ≤ (character s).2 ∧
      (character s).2 ≤ s.length := by
  obtain ⟨u, n, read, positive, fits⟩ := utf8CharacterToUnicode_terminated nonempty
  rw [character, read]
  exact ⟨rfl, positive, fits⟩

/-- The characters behind the first bytes. -/
def charactersFrom : Nat → List Byte → List (Nat × Nat)
  | _, [] => []
  | skip + 1, _ :: rest => charactersFrom skip rest
  | 0, x :: rest => character (x :: rest) :: charactersFrom ((character (x :: rest)).2 - 1) rest

/-- The characters of a string. -/
def characters (s : List Byte) : List (Nat × Nat) := charactersFrom 0 s

theorem charactersFrom_eq_drop (skip : Nat) (s : List Byte) :
    charactersFrom skip s = characters (s.drop skip) := by
  induction skip generalizing s with
  | zero => rfl
  | succ skip ih =>
      cases s with
      | nil => rfl
      | cons x rest =>
          rw [charactersFrom, List.drop_succ_cons]
          exact ih rest

theorem characters_of_ne_nil {s : List Byte} (nonempty : s ≠ []) :
    characters s = character s :: characters (s.drop (character s).2) := by
  obtain ⟨x, rest, rfl⟩ := List.exists_cons_of_ne_nil nonempty
  obtain ⟨-, positive, -⟩ := character_spec nonempty
  obtain ⟨n, n_eq⟩ : ∃ n, (character (x :: rest)).2 = n + 1 := ⟨_, (Nat.succ_pred (by omega)).symm⟩
  rw [characters, charactersFrom, charactersFrom_eq_drop, n_eq, Nat.add_sub_cancel,
    List.drop_succ_cons]

/-- A byte below 128 is a character. -/
theorem character_ascii {x : Byte} (ascii : x.toNat < 128) (rest : List Byte) :
    character (x :: rest) = (x.toNat, 1) := by
  rw [character, List.cons_append, utf8CharacterToUnicode_cons, if_neg (by omega),
    if_neg (by omega), if_neg (by omega)]
  rfl

/-- The bytes that are written for a character. -/
def codeBytes (page : CodePage) (unicode : Nat) : List Byte := putCode (codeOf page unicode)

theorem codeBytes_ascii (page : CodePage) {x : Byte} (ascii : x.toNat < 128) :
    codeBytes page x.toNat = [x] := by
  rw [codeBytes, codeOf, if_pos ascii, putCode, if_pos (by omega), if_neg (by omega)]
  exact congrArg (fun y => [y]) (eq_ofNat rfl)

/-- A turn in front of the terminator passes a character. -/
theorem utf8ToDBCSLoop_step (page : CodePage) (turns : Nat) (front : List Byte) {rest : List Byte}
    (nonempty : rest ≠ []) (dest : List Byte) :
    utf8ToDBCSLoop (unicodeToCP936 page) (front ++ rest ++ [0]) (front ++ rest).length (turns + 1)
        front.length dest =
      utf8ToDBCSLoop (unicodeToCP936 page) (front ++ rest ++ [0]) (front ++ rest).length turns
        (front.length + (character rest).2) (dest ++ codeBytes page (character rest).1) := by
  have read := (character_spec nonempty).1
  obtain ⟨x, rest, rfl⟩ := List.exists_cons_of_ne_nil nonempty
  have here : (front ++ x :: rest ++ [0])[front.length]? = some x := by
    rw [List.append_assoc, List.getElem?_append_right (Nat.le_refl _), Nat.sub_self]
    rfl
  rw [utf8ToDBCSLoop, here]
  by_cases ascii : x.toNat < 128
  · have inside : ¬ (x = 0 ∧ front.length ≥ (front ++ x :: rest).length) := by
      rw [List.length_append, List.length_cons]
      omega
    rw [character_ascii ascii, codeBytes_ascii page ascii]
    simp only [if_pos ascii, if_neg inside]
  · simp only [if_neg ascii, List.append_assoc, List.drop_left, read, unicodeToCP936_eq]
    rfl

/-- The loop writes what stands for the characters of the rest. -/
theorem utf8ToDBCSLoop_eq (page : CodePage) {turns : Nat} (front : List Byte) {rest : List Byte}
    (enough : rest.length < turns) (dest : List Byte) :
    utf8ToDBCSLoop (unicodeToCP936 page) (front ++ rest ++ [0]) (front ++ rest).length turns
        front.length dest =
      .ok (dest ++ (characters rest).flatMap fun character => codeBytes page character.1) := by
  induction turns generalizing front rest dest with
  | zero => exact absurd enough (Nat.not_lt_zero _)
  | succ turns ih =>
      by_cases nonempty : rest = []
      · rw [nonempty, List.append_nil, utf8ToDBCSLoop, List.getElem?_concat_length]
        simp [characters, charactersFrom]
      · obtain ⟨-, positive, fits⟩ := character_spec nonempty
        have later := @ih (front ++ rest.take (character rest).2)
          (rest.drop (character rest).2) (by rw [List.length_drop]; omega)
          (dest ++ codeBytes page (character rest).1)
        have passed : (front ++ rest.take (character rest).2).length =
            front.length + (character rest).2 := by
          rw [List.length_append, List.length_take, Nat.min_eq_left fits]
        rw [List.append_assoc front, List.take_append_drop, passed] at later
        rw [utf8ToDBCSLoop_step page turns front nonempty, later, characters_of_ne_nil nonempty,
          List.flatMap_cons, List.append_assoc]

theorem utf8ToDBCSResult_eq (page : CodePage) (s : List Byte) :
    utf8ToDBCSResult (unicodeToCP936 page) s =
      .ok (((characters s).flatMap fun character => codeBytes page character.1) ++ [0]) := by
  have run := utf8ToDBCSLoop_eq page [] (Nat.lt_succ_self s.length) []
  rw [List.nil_append, List.nil_append] at run
  rw [utf8ToDBCSResult]
  exact congrArg (Except.map (· ++ [0])) run

/-- The characters of which one byte becomes two. -/
def grown (page : CodePage) (s : List Byte) : Nat :=
  (characters s).countP fun character =>
    character.2 == 1 && decide (255 < codeOf page character.1)

/-- The bytes of a character's code. -/
def codeLength (page : CodePage) (unicode : Nat) : Nat := if 255 < codeOf page unicode then 2 else 1

/-- The bytes that the other characters save. -/
def saved (page : CodePage) (s : List Byte) : Nat :=
  totalWeight (fun character => character.2 - codeLength page character.1) (characters s)

theorem length_codeBytes (page : CodePage) (unicode : Nat) :
    (codeBytes page unicode).length = codeLength page unicode := by
  rw [codeBytes, putCode, if_pos (by omega), codeLength]
  by_cases two : 255 < codeOf page unicode
  · rw [if_pos (by omega), if_pos two]
    rfl
  · rw [if_neg (by omega), if_neg two]
    rfl

/-- The characters make up the string. -/
theorem totalWeight_characters (s : List Byte) :
    totalWeight (fun character => character.2) (characters s) = s.length := by
  induction length_eq : s.length using Nat.strongRecOn generalizing s with
  | ind length ih =>
      by_cases nonempty : s = []
      · rw [nonempty] at length_eq ⊢
        exact length_eq
      · obtain ⟨-, positive, fits⟩ := character_spec nonempty
        have dropped : (s.drop (character s).2).length = length - (character s).2 := by
          rw [List.length_drop, length_eq]
        rw [characters_of_ne_nil nonempty, totalWeight,
          ih (length - (character s).2) (by omega) (s.drop (character s).2) dropped]
        omega

theorem one_le_of_mem_characters {s : List Byte} {member : Nat × Nat}
    (among : member ∈ characters s) : 1 ≤ member.2 := by
  induction length_eq : s.length using Nat.strongRecOn generalizing s with
  | ind length ih =>
      by_cases nonempty : s = []
      · rw [nonempty] at among
        exact absurd among List.not_mem_nil
      · obtain ⟨-, positive, fits⟩ := character_spec nonempty
        rw [characters_of_ne_nil nonempty] at among
        rcases List.mem_cons.mp among with rfl | later
        · exact positive
        · exact ih _ (by rw [List.length_drop]; omega) later rfl

/-- The balance of the characters. -/
theorem length_flatMap_codeBytes (page : CodePage) (s : List Byte) :
    ((characters s).flatMap fun character => codeBytes page character.1).length + saved page s =
      s.length + grown page s := by
  have positive := @one_le_of_mem_characters s
  rw [← totalWeight_characters s, saved, grown]
  generalize characters s = list at positive ⊢
  induction list with
  | nil => rfl
  | cons first list ih =>
      have rest_eq := ih fun later => positive (List.mem_cons_of_mem first later)
      have here := @positive first List.mem_cons_self
      simp only [List.flatMap_cons, List.length_append, length_codeBytes, totalWeight,
        List.countP_cons, codeLength, Bool.and_eq_true, beq_iff_eq, decide_eq_true_eq] at rest_eq ⊢
      split <;> split <;> omega

/-- What `UTF8ToCP936` should keep to: it ends without reading outside the string and its
terminator, and `Result` has room for what it writes. -/
def Utf8ToCP936Fits (page : CodePage) (s : List Byte) : Prop :=
  ∃ written, utf8ToDBCSResult (unicodeToCP936 page) s = .ok written ∧
    written.length ≤ s.length + 1

/-- `UTF8ToCP936` always ends within the string, and it keeps to its buffer exactly if the bytes
that become two are no more than those that are saved. -/
theorem utf8ToCP936Fits_iff (page : CodePage) (s : List Byte) :
    (∃ written, utf8ToDBCSResult (unicodeToCP936 page) s = .ok written) ∧
      (Utf8ToCP936Fits page s ↔ grown page s ≤ saved page s) := by
  have balance := length_flatMap_codeBytes page s
  refine ⟨⟨_, utf8ToDBCSResult_eq page s⟩, ?_⟩
  simp only [Utf8ToCP936Fits, utf8ToDBCSResult_eq, Except.ok.injEq, exists_eq_left',
    List.length_append, List.length_singleton]
  omega

/-- Tables that hold the middle dot where the tables of the source hold it. -/
def dotPage : CodePage where
  uni936U index := if index < 260 then 0 else if index = 260 then 0xB7 else 0xFFFF
  cp936CU index := if index = 260 then 0xA1A4 else 0x81
  cp936CC index := UInt16.ofNat (index + 35041)
  uni936C index := if index = 6339 then 0xB7 else 0

/-- A byte that is no UTF-8 is taken for the middle dot, for whose code there is no room. -/
theorem utf8ToCP936_dot :
    utf8ToDBCSResult (unicodeToCP936 dotPage) [0xB7] = .ok [0xA1, 0xA4, 0] ∧
      ¬ ∀ (page : CodePage) (s : List Byte), Utf8ToCP936Fits page s := by
  have run : utf8ToDBCSResult (unicodeToCP936 dotPage) [0xB7] = .ok [0xA1, 0xA4, 0] := by
    decide +kernel
  refine ⟨run, fun fits => ?_⟩
  obtain ⟨written, written_eq, few⟩ := fits dotPage [0xB7]
  obtain rfl := Except.ok.inj (run.symm.trans written_eq)
  exact absurd few (by decide)

/-! ## To UTF-8 -/

/-- The bytes that are written for a code. -/
def pointBytes (page : CodePage) (c d : Byte) : List Byte :=
  let code := pointOf page (c.toNat * 256 + d.toNat)
  if code > 0 then unicodeToUTF8Inline code else []

/-- The bytes that the characters of a string take in UTF-8; a single lead byte at the end is
none. -/
def utf8Length (page : CodePage) : List Byte → Nat
  | [] => 0
  | [c] => if c.toNat < 128 then 1 else 0
  | c :: d :: rest =>
      if c.toNat < 128 then 1 + utf8Length page (d :: rest)
      else (pointBytes page c d).length + utf8Length page rest

theorem utf8Length_ascii (page : CodePage) {c : Byte} (ascii : c.toNat < 128) (rest : List Byte) :
    utf8Length page (c :: rest) = 1 + utf8Length page rest := by
  cases rest with
  | nil => exact if_pos ascii
  | cons d rest => exact if_pos ascii

theorem utf8Length_pair (page : CodePage) {c : Byte} (lead : ¬ c.toNat < 128) (d : Byte)
    (rest : List Byte) :
    utf8Length page (c :: d :: rest) = (pointBytes page c d).length + utf8Length page rest :=
  if_neg lead

theorem length_unicodeToUTF8Inline_le (codePoint : Nat) :
    (unicodeToUTF8Inline codePoint).length ≤ 4 := by
  unfold unicodeToUTF8Inline
  repeat (split; · simp)
  simp

theorem length_pointBytes_le (page : CodePage) (c d : Byte) : (pointBytes page c d).length ≤ 4 := by
  simp only [pointBytes]
  split
  · exact length_unicodeToUTF8Inline_le _
  · exact Nat.zero_le 4

/-- A turn at a byte of the memory below 128 that does not end the loop. -/
theorem dbcsToUTF8Loop_ascii (page : CodePage) {memory : List Byte} {len turns src : Nat} {c : Byte}
    {dest : List Byte} (here : memory[src]? = some c) (ascii : c.toNat < 128)
    (goes_on : ¬ (c = 0 ∧ dest.length ≥ len)) :
    dbcsToUTF8Loop page 936 memory len (turns + 1) src dest =
      dbcsToUTF8Loop page 936 memory len turns (src + 1) (dest ++ [c]) := by
  rw [dbcsToUTF8Loop, here]
  simp only [if_pos ascii, if_neg goes_on]

/-- A turn at a lead byte of the memory that does not end the loop. -/
theorem dbcsToUTF8Loop_pair (page : CodePage) {memory : List Byte} {len turns src : Nat}
    {c d : Byte} {dest : List Byte} (here : memory[src]? = some c) (lead : ¬ c.toNat < 128)
    (behind : memory[src + 1]? = some d) (goes_on : ¬ (d = 0 ∧ dest.length ≥ len)) :
    dbcsToUTF8Loop page 936 memory len (turns + 1) src dest =
      dbcsToUTF8Loop page 936 memory len turns (src + 2) (dest ++ pointBytes page c d) := by
  have code_eq : (c.toNat <<< 8) + d.toNat = c.toNat * 256 + d.toNat := by
    rw [Nat.shiftLeft_eq]
  rw [dbcsToUTF8Loop, here]
  simp only [if_neg lead, behind, if_neg goes_on, code_eq, codePoint_eq]
  rfl

theorem dbcsToUTF8Loop_outside (page : CodePage) {memory : List Byte} (len : Nat) {turns src : Nat}
    (positive : 0 < turns) (beyond : memory.length ≤ src) (dest : List Byte) :
    dbcsToUTF8Loop page 936 memory len turns src dest = .error .outside := by
  obtain ⟨turns, rfl⟩ := Nat.exists_eq_succ_of_ne_zero (Nat.pos_iff_ne_zero.mp positive)
  rw [dbcsToUTF8Loop, List.getElem?_eq_none beyond]

theorem memory_at (front rest : List Byte) (i : Nat) :
    (front ++ rest ++ [0])[front.length + i]? = (rest ++ [0])[i]? := by
  rw [List.append_assoc, List.getElem?_append_right (Nat.le_add_right _ _),
    Nat.add_sub_cancel_left]

/-- A byte of the memory below 128 ends the loop if it is NUL and enough is written. -/
theorem dbcsToUTF8Loop_ascii_ends (page : CodePage) {memory : List Byte} {len src : Nat} {c : Byte}
    {dest : List Byte} (turns : Nat) (here : memory[src]? = some c) (ascii : c.toNat < 128)
    (ends : c = 0 ∧ dest.length ≥ len) :
    dbcsToUTF8Loop page 936 memory len (turns + 1) src dest = .ok dest := by
  rw [dbcsToUTF8Loop, here]
  simp only [if_pos ascii, if_pos ends]

/-- A NUL behind a lead byte ends the loop if enough is written. -/
theorem dbcsToUTF8Loop_pair_ends (page : CodePage) {memory : List Byte} {len src : Nat}
    {c d : Byte} {dest : List Byte} (turns : Nat) (here : memory[src]? = some c)
    (lead : ¬ c.toNat < 128) (behind : memory[src + 1]? = some d)
    (ends : d = 0 ∧ dest.length ≥ len) :
    dbcsToUTF8Loop page 936 memory len (turns + 1) src dest = .ok dest := by
  rw [dbcsToUTF8Loop, here]
  simp only [if_neg lead, behind, if_pos ends]

/-- What becomes of the loop in front of `rest`: it ends within the string if enough is written, and
reads behind the terminator otherwise. -/
def Settled (page : CodePage) (len : Nat) (dest rest : List Byte)
    (result : Except Fault (List Byte)) : Prop :=
  (len ≤ dest.length + utf8Length page rest ∧
      ∃ written, result = .ok written ∧ written.length ≤ dest.length + 4 * rest.length) ∨
    (dest.length + utf8Length page rest < len ∧ result = .error .outside)

theorem Settled.ends (page : CodePage) {len : Nat} {dest : List Byte} (done : dest.length ≥ len)
    (rest : List Byte) : Settled page len dest rest (.ok dest) :=
  .inl ⟨Nat.le_add_right_of_le done, dest, rfl, Nat.le_add_right ..⟩

/-- A turn passes some bytes of the string and writes what they take. -/
theorem Settled.turn {page : CodePage} {len : Nat} {dest rest bytes passed : List Byte}
    {result : Except Fault (List Byte)} (settled : Settled page len (dest ++ bytes) rest result)
    (taken : utf8Length page (passed ++ rest) = bytes.length + utf8Length page rest)
    (few : bytes.length ≤ 4 * passed.length) : Settled page len dest (passed ++ rest) result := by
  rw [Settled, List.length_append, Nat.add_assoc, ← taken] at settled
  refine settled.imp_left fun ⟨reached, written, run, length_le⟩ => ⟨reached, written, run, ?_⟩
  rw [List.length_append, Nat.mul_add]
  omega

theorem dbcsToUTF8Loop_settled (page : CodePage) {turns : Nat} (front : List Byte)
    {rest : List Byte} (enough : rest.length + 1 < turns) (dest : List Byte) :
    Settled page (front ++ rest).length dest rest
      (dbcsToUTF8Loop page 936 (front ++ rest ++ [0]) (front ++ rest).length turns front.length
        dest) := by
  induction turns generalizing front rest dest with
  | zero => exact absurd enough (Nat.not_lt_zero _)
  | succ turns ih =>
      have end_length : (front ++ rest ++ [0]).length = front.length + rest.length + 1 := by
        simp only [List.length_append, List.length_singleton]
      cases rest with
      | nil =>
          have here : (front ++ [] ++ [0])[front.length]? = some 0 := memory_at front [] 0
          by_cases done : dest.length ≥ (front ++ []).length
          · rw [dbcsToUTF8Loop_ascii_ends page turns here (by decide) ⟨rfl, done⟩]
            exact Settled.ends page done []
          · refine .inr ⟨Nat.lt_of_not_le done, ?_⟩
            rw [dbcsToUTF8Loop_ascii page here (by decide) fun stops => done stops.2]
            exact dbcsToUTF8Loop_outside page _ (by omega) (Nat.le_of_eq end_length) _
      | cons c rest =>
          have here : (front ++ c :: rest ++ [0])[front.length]? = some c :=
            memory_at front (c :: rest) 0
          by_cases ascii : c.toNat < 128
          · by_cases stops : c = 0 ∧ dest.length ≥ (front ++ c :: rest).length
            · rw [dbcsToUTF8Loop_ascii_ends page turns here ascii stops]
              exact Settled.ends page stops.2 _
            · have front_length : (front ++ [c]).length = front.length + 1 := List.length_append
              have later := @ih (front ++ [c]) rest (Nat.lt_of_succ_lt_succ enough) (dest ++ [c])
              rw [List.append_assoc front, List.singleton_append, front_length] at later
              rw [dbcsToUTF8Loop_ascii page here ascii stops]
              exact @Settled.turn page _ dest rest [c] [c] _ later
                (utf8Length_ascii page ascii rest) (show 1 ≤ 4 * 1 by decide)
          · cases rest with
            | nil =>
                have behind : (front ++ [c] ++ [0])[front.length + 1]? = some 0 :=
                  memory_at front [c] 1
                have nothing : utf8Length page [c] = 0 := if_neg ascii
                by_cases done : dest.length ≥ (front ++ [c]).length
                · rw [dbcsToUTF8Loop_pair_ends page turns here ascii behind ⟨rfl, done⟩]
                  exact Settled.ends page done [c]
                · refine .inr ⟨by omega, ?_⟩
                  rw [dbcsToUTF8Loop_pair page here ascii behind fun stops => done stops.2]
                  exact dbcsToUTF8Loop_outside page _ (by simp at enough; omega)
                    (Nat.le_of_eq end_length) _
            | cons d rest =>
                have behind : (front ++ c :: d :: rest ++ [0])[front.length + 1]? = some d :=
                  memory_at front (c :: d :: rest) 1
                by_cases stops : d = 0 ∧ dest.length ≥ (front ++ c :: d :: rest).length
                · rw [dbcsToUTF8Loop_pair_ends page turns here ascii behind stops]
                  exact Settled.ends page stops.2 _
                · have front_length : (front ++ [c, d]).length = front.length + 2 :=
                    List.length_append
                  have later := @ih (front ++ [c, d]) rest
                    (by simp only [List.length_cons] at enough; omega)
                    (dest ++ pointBytes page c d)
                  rw [List.append_assoc front, List.cons_append, List.singleton_append,
                    front_length] at later
                  rw [dbcsToUTF8Loop_pair page here ascii behind stops]
                  have short : (pointBytes page c d).length ≤ 4 * 2 :=
                    Nat.le_trans (length_pointBytes_le page c d) (by decide)
                  exact @Settled.turn page _ dest rest _ [c, d] _ later
                    (utf8Length_pair page ascii d rest) short

/-- What `CP936ToUTF8` should keep to: it ends without reading behind the terminator, and `Result`
has room for what it writes. -/
def Cp936ToUTF8Fits (page : CodePage) (s : List Byte) : Prop :=
  ∃ written, dbcsToUTF8Result page 936 s = .ok written ∧ written.length ≤ 4 * s.length + 1

/-- `CP936ToUTF8` keeps to the string and to its buffer exactly if the characters of the string take
at least as many bytes in UTF-8 as the string has.  Otherwise it reads behind the terminator. -/
theorem cp936ToUTF8Fits_iff (page : CodePage) (s : List Byte) :
    (Cp936ToUTF8Fits page s ↔ s.length ≤ utf8Length page s) ∧
      (utf8Length page s < s.length → dbcsToUTF8Result page 936 s = .error .outside) := by
  have settled := dbcsToUTF8Loop_settled page [] (Nat.lt_succ_self (s.length + 1)) []
  simp only [Settled, List.nil_append, List.length_nil, Nat.zero_add] at settled
  rcases settled with ⟨reached, written, run, few⟩ | ⟨short, run⟩
  · have result : dbcsToUTF8Result page 936 s = .ok (written ++ [0]) :=
      congrArg (Except.map (· ++ [0])) run
    refine ⟨iff_of_true ⟨_, result, ?_⟩ reached, fun short => absurd reached (Nat.not_le.mpr short)⟩
    rw [List.length_append]
    exact Nat.succ_le_succ few
  · have result : dbcsToUTF8Result page 936 s = .error .outside :=
      congrArg (Except.map (· ++ [0])) run
    refine ⟨iff_of_false ?_ (Nat.not_le.mpr short), fun _ => result⟩
    rintro ⟨written, written_eq, -⟩
    rw [result] at written_eq
    cases written_eq

/-- A lead byte at the end takes the terminator for its second byte. -/
theorem cp936ToUTF8_lead :
    dbcsToUTF8Result dotPage 936 [0x81] = .error .outside ∧
      ¬ ∀ (page : CodePage) (s : List Byte), Cp936ToUTF8Fits page s := by
  have run : dbcsToUTF8Result dotPage 936 [0x81] = .error .outside := by decide +kernel
  refine ⟨run, fun fits => ?_⟩
  obtain ⟨written, written_eq, -⟩ := fits dotPage [0x81]
  rw [run] at written_eq
  cases written_eq

end Cp936
end CommonLib
