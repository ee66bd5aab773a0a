import CommonLib.Hlib.CodePage

/-!
# UTF-8 through the code page and back

A code point that the tables hold on both sides goes to its code of two bytes and back.  None of the
bytes is NUL, and the text in UTF-8 is not shorter than in the code page, so that both loops end at
the end of their strings.
-/

namespace CommonLib
namespace Cp936

open PasUtils

/-! ## Searching in order -/

def Nondecreasing (codePageArr : Nat → UInt16) : Prop :=
  ∀ i j, i ≤ j → j < CP936High → (codePageArr i).toNat ≤ (codePageArr j).toNat

def StrictlyIncreasing (codePageArr : Nat → UInt16) : Prop :=
  ∀ i j, i < j → j < CP936High → (codePageArr i).toNat < (codePageArr j).toNat

theorem StrictlyIncreasing.nondecreasing {codePageArr : Nat → UInt16}
    (increasing : StrictlyIncreasing codePageArr) : Nondecreasing codePageArr := by
  intro i j le inside
  rcases Nat.lt_or_eq_of_le le with lt | rfl
  · exact Nat.le_of_lt (increasing i j lt inside)
  · exact Nat.le_refl _

/-- An entry of the interval is found, or an equal one. -/
theorem searchLoop_finds {codePageArr : Nat → UInt16} (sorted : Nondecreasing codePageArr)
    {id turns : Nat} {idLow idHigh : Int} (positive : 0 < turns)
    (enough : idHigh - idLow + 2 ≤ (2 ^ turns : Nat)) (low : 0 ≤ idLow) (high : idHigh < CP936High)
    {p : Nat} (from_low : idLow ≤ p) (to_high : p ≤ idHigh) (held : (codePageArr p).toNat = id) :
    ∃ index, searchLoop codePageArr id turns idLow idHigh = some index ∧ index < CP936High ∧
      (codePageArr index).toNat = id := by
  induction turns generalizing idLow idHigh with
  | zero => exact absurd positive (Nat.lt_irrefl 0)
  | succ turns ih =>
      rw [Nat.pow_succ] at enough
      rw [searchLoop, if_pos (by omega)]
      by_cases single : idLow = idHigh
      · have only : idLow.toNat = p := by omega
        rw [if_pos single, only, if_pos held]
        exact ⟨p, rfl, by omega, held⟩
      · rw [if_neg single]
        generalize mid_eq : (idLow + idHigh) / 2 = idMid
        simp only []
        have more : 0 < turns := by
          rcases Nat.eq_zero_or_pos turns with rfl | more
          · simp at enough
            omega
          · exact more
        rcases Nat.lt_trichotomy (codePageArr idMid.toNat).toNat id with below | met | above
        · have right : idMid < p := by
            by_contra left
            have := sorted p idMid.toNat (by omega) (by omega)
            omega
          rw [if_neg (Nat.ne_of_lt below), if_pos below, if_neg (Nat.lt_asymm below)]
          exact ih more (by omega) (by omega) high (by omega) to_high
        · rw [if_pos met]
          exact ⟨_, rfl, by omega, met⟩
        · have left : (p : Int) < idMid := by
            by_contra right
            have := sorted idMid.toNat p (by omega) (by omega)
            omega
          rw [if_neg (Nat.ne_of_gt above), if_neg (Nat.lt_asymm above), if_pos above]
          exact ih more (by omega) low (by omega) from_low (by omega)

theorem searchTable_finds {codePageArr : Nat → UInt16} (sorted : Nondecreasing codePageArr)
    {id p : Nat} (inside : p < CP936High) (held : (codePageArr p).toNat = id) :
    ∃ index, searchTable codePageArr id = some index ∧ index < CP936High ∧
      (codePageArr index).toNat = id :=
  searchLoop_finds sorted (by decide) (by decide) (by decide) (by decide) (Int.natCast_nonneg p)
    (by rw [CP936High] at inside ⊢; omega) held

/-! ## Characters -/

/-- The tables hold a code point, and the code of two bytes at its place leads back to it. -/
structure Mapped (page : CodePage) (c : Nat) : Prop where
  large : 0x80 ≤ c
  occurs : ∃ p, p < CP936High ∧ (page.uni936U p).toNat = c
  back : ∀ p, p < CP936High → (page.uni936U p).toNat = c →
    0x8140 ≤ (page.cp936CU p).toNat ∧ (page.cp936CU p).toNat % 256 ≠ 0 ∧
      ∃ q, q < CP936High ∧ page.cp936CC q = page.cp936CU p ∧ (page.uni936C q).toNat = c

/-- What stands for a code point in the code page. -/
def TwoBytes (page : CodePage) (c : Nat) (hi lo : Byte) : Prop :=
  codeBytes page c = [hi, lo] ∧ ¬ hi.toNat < 128 ∧ lo ≠ 0 ∧
    pointBytes page hi lo = unicodeToUTF8Inline c

variable {page : CodePage}

theorem Mapped.valid {c : Nat} (mapped : Mapped page c) : c < 0x110000 := by
  obtain ⟨p, -, rfl⟩ := mapped.occurs
  have := (page.uni936U p).toNat_lt
  omega

/-- A code point that the tables hold goes there and back. -/
theorem Mapped.twoBytes (sorted : Nondecreasing page.uni936U)
    (increasing : StrictlyIncreasing page.cp936CC) {c : Nat} (mapped : Mapped page c) :
    ∃ hi lo, TwoBytes page c hi lo := by
  obtain ⟨p, inside, held⟩ := mapped.occurs
  obtain ⟨index, found, index_lt, index_held⟩ := searchTable_finds sorted inside held
  obtain ⟨large, low_nonzero, q, q_lt, same, point⟩ := mapped.back index index_lt index_held
  generalize code_eq : page.cp936CU index = d at large low_nonzero same
  have code_lt := d.toNat_lt
  have codeOf_eq : codeOf page c = d.toNat := by
    rw [codeOf, if_neg (Nat.not_lt.mpr mapped.large), found, Option.getD_some, code_eq]
  obtain ⟨index', found', index_lt', index_held'⟩ :=
    searchTable_finds increasing.nondecreasing q_lt (congrArg UInt16.toNat same)
  have unique : index' = q := by
    rcases Nat.lt_trichotomy index' q with before | rfl | after
    · have := increasing index' q before q_lt
      rw [index_held', same] at this
      exact absurd this (Nat.lt_irrefl _)
    · rfl
    · have := increasing q index' after index_lt'
      rw [index_held', same] at this
      exact absurd this (Nat.lt_irrefl _)
  have pointOf_eq : pointOf page d.toNat = c := by
    rw [pointOf, found', Option.getD_some, unique, point]
  have hi_eq := @toNat_ofNat_byte (d.toNat / 256) (by omega)
  have lo_eq := @toNat_ofNat_byte (d.toNat % 256) (by omega)
  refine ⟨UInt8.ofNat (d.toNat / 256), UInt8.ofNat (d.toNat % 256), ?_, by omega, ?_, ?_⟩
  · rw [codeBytes, codeOf_eq, putCode, if_pos (by omega), if_pos (by omega), Int.toNat_natCast,
      Nat.shiftRight_eq_div_pow, show d.toNat &&& 255 = d.toNat % 256 from
        Nat.and_two_pow_sub_one_eq_mod d.toNat 8]
  · intro zero
    rw [zero] at lo_eq
    exact low_nonzero lo_eq.symm
  · have code : d.toNat / 256 * 256 + d.toNat % 256 = d.toNat := by omega
    have nonzero : c > 0 := Nat.lt_of_lt_of_le (by decide) mapped.large
    simp only [pointBytes, hi_eq, lo_eq, code, pointOf_eq, if_pos nonzero]

/-! ## Texts -/

/-- The UTF-8 encoding of a sequence of code points. -/
def utf8Encode (text : List Nat) : List Byte := text.flatMap unicodeToUTF8Inline

/-- The sequence in the code page. -/
def codeText (page : CodePage) (text : List Nat) : List Byte := text.flatMap (codeBytes page)

/-- A code point of ASCII but NUL, or one that the tables hold. -/
def Convertible (page : CodePage) (c : Nat) : Prop := 1 ≤ c ∧ c ≤ 127 ∨ Mapped page c

/-- The first code point is the first character. -/
theorem characters_utf8Encode {text : List Nat} (valid : ∀ c ∈ text, c < 0x110000) :
    characters (utf8Encode text) = text.map fun c => (c, (unicodeToUTF8Inline c).length) := by
  induction text with
  | nil => rfl
  | cons c text ih =>
      have read := utf8CharacterToUnicode_unicodeToUTF8Inline (valid c List.mem_cons_self)
        (utf8Encode text ++ [0])
      have split : utf8Encode (c :: text) = unicodeToUTF8Inline c ++ utf8Encode text := rfl
      have first : character (utf8Encode (c :: text)) = (c, (unicodeToUTF8Inline c).length) := by
        rw [character, split, List.append_assoc, read, Option.getD_some]
      have nonempty : utf8Encode (c :: text) ≠ [] := List.append_ne_nil_of_left_ne_nil
        (unicodeToUTF8Inline_ne_nil (valid c List.mem_cons_self)) _
      rw [characters_of_ne_nil nonempty, first, split, List.drop_left,
        ih fun other later => valid other (List.mem_cons_of_mem c later), List.map_cons]

theorem Convertible.valid {c : Nat} (convertible : Convertible page c) : c < 0x110000 := by
  rcases convertible with ascii | mapped
  · omega
  · exact mapped.valid

/-- What a code point of ASCII becomes. -/
theorem ascii_bytes (page : CodePage) {c : Nat} (positive : 1 ≤ c) (ascii : c ≤ 127) :
    ∃ x : Byte, codeBytes page c = [x] ∧ unicodeToUTF8Inline c = [x] ∧ x.toNat < 128 ∧ x ≠ 0 := by
  have toNat_eq := @toNat_ofNat_byte c (by omega)
  have bytes := codeBytes_ascii page (x := UInt8.ofNat c) (by omega)
  rw [toNat_eq] at bytes
  refine ⟨UInt8.ofNat c, bytes, unicodeToUTF8Inline_one (by omega), by omega, fun zero => ?_⟩
  rw [zero] at toNat_eq
  exact absurd toNat_eq.symm (Nat.ne_of_gt positive)

theorem not_mem_utf8Encode {text : List Nat} (positive : ∀ c ∈ text, 0 < c)
    (valid : ∀ c ∈ text, c < 0x110000) : 0 ∉ utf8Encode text := by
  rw [utf8Encode, List.mem_flatMap]
  rintro ⟨c, among, zero⟩
  exact not_mem_unicodeToUTF8Inline (positive c among) (valid c among) zero

section

variable (sorted : Nondecreasing page.uni936U) (increasing : StrictlyIncreasing page.cp936CC)
include sorted increasing

/-- The code of a code point holds no NUL and is not longer than its UTF-8. -/
theorem codeBytes_spec {c : Nat} (convertible : Convertible page c) :
    0 ∉ codeBytes page c ∧ codeBytes page c ≠ [] ∧
      (codeBytes page c).length ≤ (unicodeToUTF8Inline c).length := by
  rcases convertible with ⟨positive, ascii⟩ | mapped
  · obtain ⟨x, code_eq, utf8_eq, -, nonzero⟩ := ascii_bytes page positive ascii
    rw [code_eq, utf8_eq]
    exact ⟨by simpa using nonzero.symm, List.cons_ne_nil _ _, Nat.le_refl _⟩
  · obtain ⟨hi, lo, code_eq, high, nonzero, -⟩ := mapped.twoBytes sorted increasing
    have long := two_le_length_unicodeToUTF8Inline mapped.large mapped.valid
    have hi_nonzero : hi ≠ 0 := by
      rintro rfl
      exact high (by decide)
    rw [code_eq]
    exact ⟨by simp [hi_nonzero.symm, nonzero.symm], List.cons_ne_nil _ _, long⟩

theorem codeText_spec {text : List Nat} (convertible : ∀ c ∈ text, Convertible page c) :
    0 ∉ codeText page text ∧ (codeText page text).length ≤ (utf8Encode text).length := by
  induction text with
  | nil => exact ⟨List.not_mem_nil, Nat.le_refl 0⟩
  | cons c text ih =>
      obtain ⟨no_nul, -, not_longer⟩ :=
        codeBytes_spec sorted increasing (convertible c List.mem_cons_self)
      obtain ⟨no_nul', not_longer'⟩ :=
        ih fun other later => convertible other (List.mem_cons_of_mem c later)
      simp only [codeText, utf8Encode] at no_nul' not_longer' ⊢
      simp only [List.flatMap_cons, List.mem_append, List.length_append]
      exact ⟨not_or.mpr ⟨no_nul, no_nul'⟩, Nat.add_le_add not_longer not_longer'⟩

/-- The loop of `DBCSToUTF8` reads one code point after the other. -/
theorem dbcsToUTF8Loop_codeText {text : List Nat} (convertible : ∀ c ∈ text, Convertible page c)
    (front : List Byte) {dest : List Byte} {turns : Nat}
    (enough : (codeText page text).length < turns)
    (reached : (front ++ codeText page text).length ≤ dest.length + (utf8Encode text).length) :
    dbcsToUTF8Loop page 936 (front ++ codeText page text ++ [0])
        (front ++ codeText page text).length turns front.length dest =
      .ok (dest ++ utf8Encode text) := by
  induction text generalizing front dest turns with
  | nil =>
      obtain ⟨turns, rfl⟩ := Nat.exists_eq_succ_of_ne_zero (Nat.ne_zero_of_lt enough)
      have here : (front ++ [] ++ [0])[front.length]? = some 0 := memory_at front [] 0
      show dbcsToUTF8Loop page 936 (front ++ [] ++ [0]) (front ++ []).length _ _ _ = _
      rw [dbcsToUTF8Loop, here]
      simp only [UInt8.toNat_zero, Nat.zero_lt_succ, if_true, utf8Encode, List.flatMap_nil,
        List.append_nil]
      exact if_pos ⟨trivial, by simpa [codeText, utf8Encode] using reached⟩
  | cons c text ih =>
      have others : ∀ other ∈ text, Convertible page other := fun other later =>
        convertible other (List.mem_cons_of_mem c later)
      have utf8_eq : utf8Encode (c :: text) = unicodeToUTF8Inline c ++ utf8Encode text := rfl
      rcases convertible c List.mem_cons_self with ⟨positive, ascii⟩ | mapped
      · obtain ⟨x, code_eq, point_eq, small, nonzero⟩ := ascii_bytes page positive ascii
        have code_text : codeText page (c :: text) = x :: codeText page text := by
          rw [codeText, List.flatMap_cons, code_eq]
          rfl
        rw [code_text] at enough reached ⊢
        rw [utf8_eq, point_eq] at reached ⊢
        have here : (front ++ x :: codeText page text ++ [0])[front.length]? = some x :=
          memory_at front (x :: codeText page text) 0
        have front_length : (front ++ [x]).length = front.length + 1 := List.length_append
        have later := @ih others (front ++ [x]) (dest ++ [x])
        obtain ⟨turns, rfl⟩ := Nat.exists_eq_succ_of_ne_zero (Nat.ne_zero_of_lt enough)
        rw [dbcsToUTF8Loop_ascii page here small fun stops => nonzero stops.1]
        have run := @later turns (Nat.lt_of_succ_lt_succ enough) (by
          simp only [List.length_append, List.length_cons, List.length_nil] at reached ⊢
          omega)
        rwa [List.append_assoc front, List.singleton_append, front_length, List.append_assoc dest]
          at run
      · obtain ⟨hi, lo, code_eq, lead, nonzero, point_eq⟩ := mapped.twoBytes sorted increasing
        have code_text : codeText page (c :: text) = hi :: lo :: codeText page text := by
          rw [codeText, List.flatMap_cons, code_eq]
          rfl
        rw [code_text] at enough reached ⊢
        rw [utf8_eq] at reached ⊢
        have here : (front ++ hi :: lo :: codeText page text ++ [0])[front.length]? = some hi :=
          memory_at front (hi :: lo :: codeText page text) 0
        have behind :
            (front ++ hi :: lo :: codeText page text ++ [0])[front.length + 1]? = some lo :=
          memory_at front (hi :: lo :: codeText page text) 1
        have front_length : (front ++ [hi, lo]).length = front.length + 2 := List.length_append
        have later := @ih others (front ++ [hi, lo]) (dest ++ unicodeToUTF8Inline c)
        obtain ⟨turns, rfl⟩ := Nat.exists_eq_succ_of_ne_zero (Nat.ne_zero_of_lt enough)
        rw [dbcsToUTF8Loop_pair page here lead behind fun stops => nonzero stops.1, point_eq]
        have run := @later turns (by simp only [List.length_cons] at enough; omega) (by
          simp only [List.length_append, List.length_cons, List.length_nil] at reached ⊢
          omega)
        rwa [List.append_assoc front, List.cons_append, List.singleton_append, front_length,
          List.append_assoc dest] at run

theorem utf8ToCP936_utf8Encode {text : List Nat} (convertible : ∀ c ∈ text, Convertible page c) :
    utf8ToCP936 page (utf8Encode text) = .ok (codeText page text) := by
  have valid : ∀ c ∈ text, c < 0x110000 := fun c among => (convertible c among).valid
  rw [utf8ToCP936, utf8ToDBCS]
  split
  · rename_i nothing
    have none_left : text = [] := by
      cases text with
      | nil => rfl
      | cons c text =>
          exact absurd (List.append_eq_nil_iff.mp nothing).1
            (unicodeToUTF8Inline_ne_nil (valid c List.mem_cons_self))
    rw [none_left]
    rfl
  · have written : (characters (utf8Encode text)).flatMap
        (fun character => codeBytes page character.1) = codeText page text := by
      rw [characters_utf8Encode valid, List.flatMap_map]
      rfl
    rw [utf8ToDBCSResult_eq, written]
    exact congrArg Except.ok (cString_terminated (codeText_spec sorted increasing convertible).1)

theorem cp936ToUTF8_codeText {text : List Nat} (convertible : ∀ c ∈ text, Convertible page c) :
    cp936ToUTF8 page (codeText page text) = .ok (utf8Encode text) := by
  have positive : ∀ c ∈ text, 0 < c := by
    intro c among
    rcases convertible c among with ascii | mapped
    · exact ascii.1
    · exact Nat.lt_of_lt_of_le (by decide) mapped.large
  rw [cp936ToUTF8, dbcsToUTF8]
  split
  · rename_i nothing
    have none_left : text = [] := by
      cases text with
      | nil => rfl
      | cons c text =>
          exact absurd (List.append_eq_nil_iff.mp nothing).1
            (codeBytes_spec sorted increasing (convertible c List.mem_cons_self)).2.1
    rw [none_left]
    rfl
  · have run := @dbcsToUTF8Loop_codeText page sorted increasing text convertible [] []
      ((codeText page text).length + 2) (by omega)
      (by simpa using (codeText_spec sorted increasing convertible).2)
    rw [List.nil_append, List.nil_append] at run
    have result : dbcsToUTF8Result page 936 (codeText page text) = .ok (utf8Encode text ++ [0]) :=
      congrArg (Except.map (· ++ [0])) run
    rw [result]
    exact congrArg Except.ok (cString_terminated
      (not_mem_utf8Encode positive fun c among => (convertible c among).valid))

/-- UTF-8 that encodes ASCII but NUL, and code points that the tables hold, goes through the code
page and back. -/
theorem cp936ToUTF8_utf8ToCP936 {M : Nat → Prop} (mapped : ∀ c, M c → Mapped page c)
    {text : List Nat} (within : ∀ c ∈ text, 1 ≤ c ∧ c ≤ 127 ∨ M c) :
    (utf8ToCP936 page (utf8Encode text)).bind (cp936ToUTF8 page) = .ok (utf8Encode text) := by
  have convertible : ∀ c ∈ text, Convertible page c := fun c among =>
    (within c among).imp_right (mapped c)
  rw [utf8ToCP936_utf8Encode sorted increasing convertible]
  exact cp936ToUTF8_codeText sorted increasing convertible

end

theorem dotPage_nondecreasing : Nondecreasing dotPage.uni936U := by
  intro i j le inside
  simp only [dotPage]
  rcases Nat.lt_or_ge i 260 with before | behind
  · rw [if_pos before]
    exact Nat.zero_le _
  · rw [if_neg (Nat.not_lt.mpr behind), if_neg (by omega : ¬ j < 260)]
    by_cases dot : j = 260
    · obtain rfl : i = j := by omega
      exact Nat.le_refl _
    · rw [if_neg dot]
      split <;> decide

theorem dotPage_increasing : StrictlyIncreasing dotPage.cp936CC := by
  intro i j lt inside
  rw [CP936High] at inside
  simp only [dotPage, UInt16.toNat_ofNat']
  omega

theorem dotPage_mapped : Mapped dotPage 0xB7 where
  large := by decide
  occurs := ⟨260, by decide, by decide⟩
  back := by
    intro p inside held
    obtain rfl : p = 260 := by
      by_contra other
      simp only [dotPage, if_neg other] at held
      split at held <;> simp at held
    exact ⟨by decide, by decide, 6339, by decide, by decide, by decide⟩

/-- A letter and the middle dot. -/
theorem cp936ToUTF8_utf8ToCP936_dot :
    (utf8ToCP936 dotPage (utf8Encode [0x61, 0xB7])).bind (cp936ToUTF8 dotPage) =
      .ok (utf8Encode [0x61, 0xB7]) :=
  @cp936ToUTF8_utf8ToCP936 dotPage dotPage_nondecreasing dotPage_increasing (· = 0xB7)
    (fun _ same => same ▸ dotPage_mapped) [0x61, 0xB7] (by simp)

end Cp936
end CommonLib
