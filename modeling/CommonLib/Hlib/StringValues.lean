import CommonLib.Hlib.StringList

/-!
# Names and values in a string list of `hclasses.cpp`

A line `name = value` is cut at the first separator and the name is trimmed.  `Values` and
`SetValue` cut the lines one after the other until one has the name.
-/

namespace CommonLib

open PasUtils Separator

namespace PasUtils

/-! ## Trimming -/

/-- The characters that `Trim` takes for white space. -/
def isWhite (c : Byte) : Bool := c == 32 || c == 9 || c == 13 || c == 10

/-- The local variables of `Trim`. -/
structure TrimState where
  data : Bool
  chunck : Bool
  buf : List Byte
  buf2 : List Byte

/-- The loop of `Trim`. -/
def trimStep (state : TrimState) (c : Byte) : TrimState :=
  if isWhite c then
    if !state.data then state
    else { state with chunck := true, buf2 := state.buf2 ++ [c] }
  else
    let state := { state with data := true }
    let state :=
      if state.chunck then
        { state with buf := state.buf ++ state.buf2, buf2 := [], chunck := false }
      else state
    { state with buf := state.buf ++ [c] }

/-- `Trim`. -/
def trim (s : List Byte) : List Byte :=
  (s.foldl trimStep { data := false, chunck := false, buf := [], buf2 := [] }).buf

/-- Once a character has been found, `buf` and `buf2` hold the text. -/
structure TrimState.Holds (state : TrimState) (text : List Byte) : Prop where
  data : state.data = true
  chunck : state.chunck = false → state.buf2 = []
  text_eq : state.buf ++ state.buf2 = text

theorem trimStep_white {state : TrimState} {text : List Byte} (holds : state.Holds text) {c : Byte}
    (white : isWhite c = true) : (trimStep state c).Holds (text ++ [c]) := by
  obtain ⟨data, -, rfl⟩ := holds
  rw [trimStep, if_pos white, data, Bool.not_true, if_neg Bool.false_ne_true]
  exact ⟨rfl, fun no_chunck => Bool.noConfusion no_chunck, (List.append_assoc ..).symm⟩

theorem trimStep_black {state : TrimState} {text : List Byte} (holds : state.Holds text) {c : Byte}
    (black : ¬ isWhite c = true) :
    (trimStep state c).Holds (text ++ [c]) ∧ (trimStep state c).buf2 = [] := by
  obtain ⟨-, no_chunck, rfl⟩ := holds
  rw [trimStep, if_neg black]
  cases chunck_eq : state.chunck with
  | true => exact ⟨⟨rfl, fun _ => rfl, List.append_nil _⟩, rfl⟩
  | false =>
      have nothing := no_chunck chunck_eq
      refine ⟨⟨rfl, fun _ => nothing, ?_⟩, nothing⟩
      simp [nothing]

theorem foldl_trimStep {rest text : List Byte} {state : TrimState} (holds : state.Holds text) :
    (rest.foldl trimStep state).Holds (text ++ rest) := by
  induction rest generalizing state text with
  | nil =>
      rw [List.append_nil]
      exact holds
  | cons c rest ih =>
      have step_holds : (trimStep state c).Holds (text ++ [c]) := by
        by_cases white : isWhite c = true
        · exact trimStep_white holds white
        · exact (trimStep_black holds white).1
      have rest_holds := ih step_holds
      rwa [List.append_assoc, List.singleton_append] at rest_holds

/-- No white space stands at the ends. -/
def Trimmed (s : List Byte) : Prop :=
  (∀ c ∈ s.head?, ¬ isWhite c = true) ∧ ∀ c ∈ s.getLast?, ¬ isWhite c = true

/-- A text without white space at its ends is left as it is. -/
theorem trim_of_trimmed {s : List Byte} (trimmed : Trimmed s) : trim s = s := by
  obtain ⟨front_black, end_black⟩ := trimmed
  cases s with
  | nil => rfl
  | cons first rest =>
      have first_black := front_black first rfl
      have start : (trimStep ⟨false, false, [], []⟩ first).Holds [first] ∧
          (trimStep ⟨false, false, [], []⟩ first).buf2 = [] := by
        rw [trimStep, if_neg first_black]
        exact ⟨⟨rfl, fun _ => rfl, rfl⟩, rfl⟩
      rw [trim, List.foldl_cons]
      rcases List.eq_nil_or_concat rest with rfl | ⟨middle, last, rfl⟩
      · have text_eq := start.1.text_eq
        rwa [start.2, List.append_nil] at text_eq
      · rw [List.concat_eq_append] at end_black ⊢
        have last_black : ¬ isWhite last = true := by
          refine end_black last ?_
          rw [← List.cons_append, List.getLast?_concat]
          rfl
        have before := @foldl_trimStep middle _ _ start.1
        obtain ⟨⟨-, -, text_eq⟩, nothing⟩ := trimStep_black before last_black
        rw [List.foldl_append, List.foldl_cons, List.foldl_nil]
        rw [nothing, List.append_nil] at text_eq
        rw [text_eq, List.append_assoc, List.singleton_append]

end PasUtils

namespace TStringList

/-! ## Looking a name up -/

/-- The loop of `Values`. -/
def valuesLoop (seperator name : List Byte) : List (List Byte) → Option (List Byte)
  | [] => some []
  | it :: rest =>
      match find it seperator 0 with
      | none => valuesLoop seperator name rest
      | some i =>
          (substr it 0 i).bind fun s =>
            if trim s = name then
              substr it (i + seperator.length) (it.length - i - seperator.length)
            else valuesLoop seperator name rest

/-- `TStringList::Values`. -/
def values (list : TStringList) (name : List Byte) : Option (List Byte) :=
  valuesLoop list.seperator name list.buf

/-- The loop of `SetValue`, which returns where it has found the name. -/
def setValueLoop (seperator name value : List Byte) :
    List (List Byte) → Option (Bool × List (List Byte))
  | [] => some (false, [])
  | it :: rest =>
      let next := (setValueLoop seperator name value rest).map fun (found, rest) =>
        (found, it :: rest)
      match find it seperator 0 with
      | none => next
      | some i =>
          (substr it 0 i).bind fun s =>
            if trim s = name then
              (substr it (i + seperator.length) (it.length - i - seperator.length)).map fun _ =>
                (true, (name ++ seperator ++ value) :: rest)
            else next

/-- `TStringList::SetValue`. -/
def setValue (list : TStringList) (name value : List Byte) : Option TStringList :=
  (setValueLoop list.seperator name value list.buf).map fun (found, buf) =>
    { list with buf := if found then buf else buf ++ [name ++ list.seperator ++ value] }

/-- A line belongs to the name in front of its first separator. -/
def belongs (seperator name line : List Byte) : Bool :=
  (find line seperator 0).any fun i => trim (line.take i) == name

/-- A name holds no character of the separator and no white space at its ends. -/
def PlainName (seperator name : List Byte) : Prop :=
  (∀ c ∈ seperator, c ∉ name) ∧ Trimmed name

theorem plainName_singleton {seperator : List Byte} {c : Byte} (absent : c ∉ seperator)
    (black : ¬ isWhite c = true) : PlainName seperator [c] := by
  refine ⟨fun d among same => ?_, fun d first => ?_, fun d last => ?_⟩
  · rw [List.mem_singleton.mp same] at among
    exact absent among
  · rwa [← Option.some.inj first]
  · rwa [← Option.some.inj last]

variable {seperator name : List Byte}

theorem find_zero_eq_some {line : List Byte} {i : Nat} (found : find line seperator 0 = some i) :
    i + seperator.length ≤ line.length := by
  rw [find, if_pos (Nat.zero_le _), List.drop_zero] at found
  obtain ⟨p, first, rfl⟩ := Option.map_eq_some_iff.mp found
  have inside := (firstMatch_eq_some first).2
  omega

/-- The first separator of the line that `SetValue` writes stands behind the name. -/
theorem find_written (plain : PlainName seperator name) (separated : seperator ≠ [] ∨ name = [])
    (value : List Byte) : find (name ++ seperator ++ value) seperator 0 = some name.length := by
  rw [find, if_pos (Nat.zero_le _), List.drop_zero, List.append_assoc]
  rcases seperator with _ | ⟨a, rest⟩
  · obtain rfl := separated.resolve_left fun nonempty => nonempty rfl
    rw [firstMatch.eq_def, if_pos List.isPrefixOf_nil_left]
    rfl
  · rw [firstMatch_append rest (plain.1 a List.mem_cons_self), Option.map_some, Nat.zero_add]

theorem belongs_written (plain : PlainName seperator name)
    (separated : seperator ≠ [] ∨ name = []) (other value : List Byte) :
    belongs seperator other (name ++ seperator ++ value) = true ↔ name = other := by
  rw [belongs, find_written plain separated, Option.any_some, List.append_assoc, List.take_left,
    trim_of_trimmed plain.2, beq_iff_eq]

theorem belongs_iff {line : List Byte} {i : Nat} (found : find line seperator 0 = some i) :
    belongs seperator name line = true ↔ trim (line.take i) = name := by
  rw [belongs, found, Option.any_some, beq_iff_eq]

theorem valuesLoop_cons_of_not {line : List Byte} (apart : ¬ belongs seperator name line = true)
    (rest : List (List Byte)) :
    valuesLoop seperator name (line :: rest) = valuesLoop seperator name rest := by
  rw [valuesLoop]
  cases found : find line seperator 0 with
  | none => rfl
  | some i =>
      rw [belongs_iff found] at apart
      simp only [substr_eq_some (Nat.zero_le _), Option.bind_some, List.drop_zero, if_neg apart]

theorem valuesLoop_skip {line : List Byte} (apart : ¬ belongs seperator name line = true)
    (front back : List (List Byte)) :
    valuesLoop seperator name (front ++ line :: back) =
      valuesLoop seperator name (front ++ back) := by
  induction front with
  | nil => exact valuesLoop_cons_of_not apart back
  | cons first front ih => simp only [List.cons_append, valuesLoop, ih]

/-- The lines in front of the first one with the name are passed. -/
theorem valuesLoop_first {front : List (List Byte)}
    (before : ∀ line ∈ front, ¬ belongs seperator name line = true) (rest : List (List Byte)) :
    valuesLoop seperator name (front ++ rest) = valuesLoop seperator name rest := by
  induction front with
  | nil => rfl
  | cons first front ih =>
      rw [List.cons_append, valuesLoop_cons_of_not (before first List.mem_cons_self)]
      exact ih fun line among => before line (List.mem_cons_of_mem _ among)

theorem valuesLoop_written (plain : PlainName seperator name)
    (separated : seperator ≠ [] ∨ name = []) (value : List Byte) (rest : List (List Byte)) :
    valuesLoop seperator name ((name ++ seperator ++ value) :: rest) = some value := by
  have same : trim ((name ++ seperator ++ value).take name.length) = name := by
    rw [List.append_assoc, List.take_left, trim_of_trimmed plain.2]
  have inside : name.length + seperator.length ≤ (name ++ seperator ++ value).length := by
    simp only [List.length_append]
    omega
  have length_eq : (name ++ seperator ++ value).length - name.length - seperator.length =
      value.length := by
    simp only [List.length_append]
    omega
  rw [valuesLoop, find_written plain separated]
  simp only [substr_eq_some (Nat.zero_le _), Option.bind_some, List.drop_zero, if_pos same]
  rw [substr_eq_some inside, length_eq, ← List.length_append, List.drop_left, List.take_length]

/-- `SetValue` replaces the first line with the name, or finds none. -/
theorem setValueLoop_cases (seperator name value : List Byte) (lines : List (List Byte)) :
    ((∀ line ∈ lines, ¬ belongs seperator name line = true) ∧
        setValueLoop seperator name value lines = some (false, lines)) ∨
      ∃ front line back, lines = front ++ line :: back ∧
        (∀ line ∈ front, ¬ belongs seperator name line = true) ∧
        belongs seperator name line = true ∧
        setValueLoop seperator name value lines =
          some (true, front ++ (name ++ seperator ++ value) :: back) := by
  induction lines with
  | nil => exact .inl ⟨fun _ among => absurd among List.not_mem_nil, rfl⟩
  | cons it rest ih =>
      by_cases here : belongs seperator name it = true
      · refine .inr ⟨[], it, rest, rfl, fun _ among => absurd among List.not_mem_nil, here, ?_⟩
        rw [belongs, Option.any_eq_true] at here
        obtain ⟨i, found, same⟩ := here
        rw [beq_iff_eq] at same
        simp only [setValueLoop, found, substr_eq_some (Nat.zero_le _), Option.bind_some,
          List.drop_zero, if_pos same, substr_eq_some (find_zero_eq_some found), Option.map_some,
          List.nil_append]
      · have passed : setValueLoop seperator name value (it :: rest) =
            (setValueLoop seperator name value rest).map fun result =>
              (result.1, it :: result.2) := by
          rw [setValueLoop]
          cases found : find it seperator 0 with
          | none => rfl
          | some i =>
              rw [belongs_iff found] at here
              simp only [substr_eq_some (Nat.zero_le _), Option.bind_some, List.drop_zero,
                if_neg here]
        rw [passed]
        rcases ih with ⟨none_has, loop_eq⟩ | ⟨front, line, back, rfl, before, has, loop_eq⟩
        · refine .inl ⟨?_, by rw [loop_eq]; rfl⟩
          intro line among
          rcases List.mem_cons.mp among with rfl | later
          · exact here
          · exact none_has line later
        · refine .inr ⟨it :: front, line, back, rfl, ?_, has, by rw [loop_eq]; rfl⟩
          intro line among
          rcases List.mem_cons.mp among with rfl | later
          · exact here
          · exact before line later

/-- `SetValue` maps the name to the value and leaves the other names and lines as they are, if the
separator or the name is not empty. -/
theorem setValue_maps (list : TStringList) {name : List Byte} (value : List Byte)
    (plain : PlainName list.seperator name) (separated : list.seperator ≠ [] ∨ name = []) :
    ∃ list', list.setValue name value = some list' ∧ list'.seperator = list.seperator ∧
      list'.values name = some value ∧
      (∀ other, PlainName list.seperator other → other ≠ name →
        list'.values other = list.values other) ∧
      list'.buf.filter (fun line => !belongs list.seperator name line) =
        list.buf.filter (fun line => !belongs list.seperator name line) := by
  obtain ⟨buf, seperator⟩ := list
  have mine := (belongs_written plain separated name value).mpr rfl
  have not_others : ∀ other, other ≠ name →
      ¬ belongs seperator other (name ++ seperator ++ value) = true := fun other different same =>
    different ((belongs_written plain separated other value).mp same).symm
  rcases setValueLoop_cases seperator name value buf with
    ⟨none_has, loop_eq⟩ | ⟨front, line, back, rfl, before, has, loop_eq⟩
  · refine ⟨⟨buf ++ [name ++ seperator ++ value], seperator⟩, by rw [setValue, loop_eq]; rfl, rfl,
      ?_, fun other _ different => ?_, ?_⟩
    · exact (valuesLoop_first none_has _).trans (valuesLoop_written plain separated value [])
    · have skipped := valuesLoop_skip (not_others other different) buf []
      rw [List.append_nil] at skipped
      exact skipped
    · simp only [Bool.false_eq_true, if_false, List.filter_append, List.filter_cons, mine,
        Bool.not_true, List.filter_nil, List.append_nil]
  · refine ⟨⟨front ++ (name ++ seperator ++ value) :: back, seperator⟩,
      by rw [setValue, loop_eq]; rfl, rfl, ?_, fun other _ different => ?_, ?_⟩
    · exact (valuesLoop_first before _).trans (valuesLoop_written plain separated value back)
    · have line_apart : ¬ belongs seperator other line = true := by
        rw [belongs, Option.any_eq_true] at has ⊢
        rintro ⟨i, found, other_eq⟩
        obtain ⟨i', found', name_eq⟩ := has
        obtain rfl : i = i' := Option.some.inj (found.symm.trans found')
        rw [beq_iff_eq] at other_eq name_eq
        exact different (other_eq.symm.trans name_eq)
      exact (valuesLoop_skip (not_others other different) front back).trans
        (valuesLoop_skip line_apart front back).symm
    · simp only [List.filter_append, List.filter_cons, mine, has, Bool.not_true,
        Bool.false_eq_true, if_false]

/-- The second line has the name with white space around it, and the third has it again. -/
theorem setValue_maps_padded :
    ∃ list', setValue ⟨[[98], [32, 97, 9, 61, 49], [97, 61, 50]], [61]⟩ [97] [51] = some list' ∧
      list'.seperator = [61] ∧ list'.values [97] = some [51] ∧
      (∀ other, PlainName [61] other → other ≠ [97] →
        list'.values other =
          values ⟨[[98], [32, 97, 9, 61, 49], [97, 61, 50]], [61]⟩ other) ∧
      list'.buf.filter (fun line => !belongs [61] [97] line) =
        List.filter (fun line => !belongs [61] [97] line)
          [[98], [32, 97, 9, 61, 49], [97, 61, 50]] :=
  setValue_maps ⟨[[98], [32, 97, 9, 61, 49], [97, 61, 50]], [61]⟩ [51]
    (plainName_singleton (by decide) (by decide))
    (.inl (by decide))

/-- With an empty separator every line has the empty name. -/
theorem setValue_empty_separator :
    (setValue ⟨[], []⟩ [97] [98]).bind (·.values [97]) = some [] ∧
      ¬ ∀ (list : TStringList) (name value : List Byte), PlainName list.seperator name →
        (list.setValue name value).bind (·.values name) = some value := by
  have stored : (setValue ⟨[], []⟩ [97] [98]).bind (·.values [97]) = some [] := by decide +kernel
  refine ⟨stored, fun maps => ?_⟩
  have value_eq := maps ⟨[], []⟩ [97] [98] (plainName_singleton (by decide) (by decide))
  rw [stored] at value_eq
  exact absurd value_eq (by decide)

end TStringList
end CommonLib
