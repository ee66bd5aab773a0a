import CommonLib.Hlib.HashMemory

/-!
# `ExchangeElement` of `hhmii.cpp`

The root of a tree of keys has to stand at the slot of their hash code.  When a rotation has lifted
another element, or when an element of another tree stands at the slot, `ExchangeElement` lets two
elements change places.
-/

namespace CommonLib
namespace HashTable

open CommonLib.Tree

variable {κ β : Type} {dict dict' : Dict κ β}

/-- The elements `first` and `second` after the copies of `ExchangeElement`. -/
def swapped (dict : Dict κ β) (first second : Nat) : Dict κ β :=
  modify (modify dict first fun element => element.copyFrom (dict second)) second fun element =>
    element.copyFrom (dict first)

theorem swapped_first {first second : Nat} (ne : first ≠ second) :
    swapped dict first second first = (dict first).copyFrom (dict second) := by
  rw [swapped, modify_of_ne ne, modify_self]

theorem swapped_second {first second : Nat} (ne : first ≠ second) :
    swapped dict first second second = (dict second).copyFrom (dict first) := by
  rw [swapped, modify_self, modify_of_ne ne.symm]

theorem swapped_of_ne {first second a : Nat} (notFirst : a ≠ first) (notSecond : a ≠ second) :
    swapped dict first second a = dict a := by
  rw [swapped, modify_of_ne notSecond, modify_of_ne notFirst]

/-- Step 3 of `ExchangeElement`. -/
def fixLinks (dict : Dict κ β) (root new : Nat) : Option (Dict κ β) :=
  let r := (dict root).left = some root
  let dict :=
    if r then
      adopt (modify dict root fun element => element.setChild .left (some new)) (some new) root
    else adopt dict (dict root).left root
  if (dict root).right = some root then
    some (adoptChildren
      (adopt (modify dict root fun element => element.setChild .right (some new)) (some new) root)
      new)
  else
    let dict := adopt dict (dict root).right root
    if r then some (adoptChildren dict new)
    else
      (dict new).parent.map fun parent =>
        adoptChildren
          (modify dict parent fun element =>
            element.setChild (if element.left = some root then .left else .right) (some new))
          new

theorem exchangeElement_eq (dict : Dict κ β) (root new : Nat) :
    exchangeElement dict root new = fixLinks (swapped dict root new) root new := rfl

theorem adoptChildren_apply {n : Nat} {y z : Tree Nat} (left_eq : (dict n).left = y.root)
    (right_eq : (dict n).right = z.root) (nY : ¬ n ∈ y) (a : Nat) :
    adoptChildren dict n a =
      if some a = y.root ∨ some a = z.root then (dict a).setParent (some n) else dict a := by
  simp only [adoptChildren, left_eq, adopt_apply, if_neg (not_root nY), right_eq]
  have twice (element : THElement κ β) :
      (element.setParent (some n)).setParent (some n) = element.setParent (some n) := rfl
  grind

/-- What `ExchangeElement` does to the pointers when `r` is a child of `n`: after the copies `r`
points to itself. -/
theorem fixLinks_root {side : Side} {r n : Nat} {x : Tree Nat} (ne : r ≠ n)
    (child_eq : (dict r).child side = some r) (other_eq : (dict r).child side.other = x.root)
    (rX : ¬ r ∈ x) (nX : ¬ n ∈ x) :
    fixLinks dict r n = some (adoptChildren (fun a =>
      if a = r then (dict r).setChild side (some n)
      else if a = n then (dict n).setParent (some r)
      else if some a = x.root then (dict a).setParent (some r)
      else dict a) n) := by
  have ne' := ne.symm
  have rX' := not_root rX
  have nX' := not_root nX
  cases side with
  | left =>
      simp only [THElement.child, Side.other] at child_eq other_eq
      simp only [fixLinks, child_eq, other_eq, adopt_apply, modify_apply, ne, rX'.symm,
        THElement.setChild,
        if_true, if_false, Option.some.injEq]
      congr 2
      funext a
      simp only [adopt_apply, modify_apply, Option.some.injEq]
      grind
  | right =>
      simp only [THElement.child, Side.other] at child_eq other_eq
      simp only [fixLinks, child_eq, other_eq, adopt_apply, rX', rX'.symm, THElement.setChild,
        if_true, if_false, Option.some.injEq]
      congr 2
      funext a
      simp only [adopt_apply, modify_apply, Option.some.injEq]
      grind

/-- What `ExchangeElement` of the root `n` of a tree and its child `r` writes. -/
theorem exchangeElement_root_eq {side : Side} {r n : Nat} {bf bf' : Int} {x y z : Tree Nat}
    (linked : Linked dict none (join side n bf (node r bf' y z) x))
    (nodup : (join side n bf (node r bf' y z) x).Nodup) :
    ∃ dict', exchangeElement dict r n = some dict' ∧
      dict' r = ((dict r).copyFrom (dict n)).setChild side (some n) ∧
      dict' n = ((dict n).copyFrom (dict r)).setParent (some r) ∧
      ∀ a, a ≠ r → a ≠ n → dict' a =
        if some a = y.root ∨ some a = z.root then (dict a).setParent (some n)
        else if some a = x.root then (dict a).setParent (some r) else dict a := by
  rw [show node r bf' y z = join .left r bf' y z from rfl] at linked nodup
  simp only [nodup_join, mem_join, not_or] at nodup
  simp only [linked_join, root_join] at linked
  obtain ⟨⟨⟨ne, nY, nZ⟩, nX⟩, disjoint, ⟨⟨rY, rZ⟩, -⟩, -⟩ := nodup
  obtain ⟨⟨-, -, child_eq, other_eq⟩, ⟨⟨-, -, left_eq, right_eq⟩, -⟩, -⟩ := linked
  have rX : ¬ r ∈ x := disjoint r (.inl rfl)
  have ne' : r ≠ n := fun same => ne same.symm
  have first_eq := (swapped_first ne' : swapped dict r n r = _)
  have second_eq := (swapped_second ne' : swapped dict r n n = _)
  let base : Dict κ β := fun a =>
    if a = r then (swapped dict r n r).setChild side (some n)
    else if a = n then (swapped dict r n n).setParent (some r)
    else if some a = x.root then (swapped dict r n a).setParent (some r)
    else swapped dict r n a
  have base_left : (base n).left = y.root := by
    simp only [base, if_neg ne, if_true, second_eq]
    exact left_eq
  have base_right : (base n).right = z.root := by
    simp only [base, if_neg ne, if_true, second_eq]
    exact right_eq
  have written := adoptChildren_apply base_left base_right nY
  refine ⟨adoptChildren base n, ?_, ?_, ?_, fun a notR notN => ?_⟩
  · rw [exchangeElement_eq]
    exact fixLinks_root ne' (by rw [first_eq, THElement.child_copyFrom, child_eq])
      (by rw [first_eq, THElement.child_copyFrom, other_eq]) rX nX
  · rw [written, if_neg (not_or.mpr ⟨not_root rY, not_root rZ⟩)]
    simp only [base, if_true, first_eq]
  · rw [written, if_neg (not_or.mpr ⟨not_root nY, not_root nZ⟩)]
    simp only [base, if_neg ne, if_true, second_eq]
  · have xApart : some a = x.root → ¬ (some a = y.root ∨ some a = z.root) := by
      rintro root_eq (root_eq' | root_eq')
      · exact disjoint a (.inr (.inl (root_mem root_eq'.symm))) (root_mem root_eq.symm)
      · exact disjoint a (.inr (.inr (root_mem root_eq'.symm))) (root_mem root_eq.symm)
    rw [written]
    simp only [base, if_neg notR, if_neg notN, swapped_of_ne notR notN]
    grind

/-- `ExchangeElement` of the root `n` of a tree and its child `r` lets them change places. -/
theorem exchangeElement_root {side : Side} {r n : Nat} {bf bf' : Int} {x y z : Tree Nat}
    (linked : Linked dict none (join side n bf (node r bf' y z) x))
    (nodup : (join side n bf (node r bf' y z) x).Nodup) :
    ∃ dict', exchangeElement dict r n = some dict' ∧
      Linked dict' none (join side r bf (node n bf' y z) x) ∧
      Rearranged (join side n bf (node r bf' y z) x) dict (join side r bf (node n bf' y z) x)
        dict' := by
  obtain ⟨dict', exchange_eq, at_r, at_n, elsewhere⟩ := exchangeElement_root_eq linked nodup
  rw [show node r bf' y z = join .left r bf' y z from rfl] at linked nodup ⊢
  rw [show node n bf' y z = join .left n bf' y z from rfl]
  simp only [nodup_join, mem_join, not_or] at nodup
  simp only [linked_join, root_join] at linked ⊢
  obtain ⟨⟨⟨ne, nY, nZ⟩, nX⟩, disjoint, ⟨⟨rY, rZ⟩, yz, yNodup, zNodup⟩, xNodup⟩ := nodup
  obtain ⟨⟨bf_eq, parent_eq, child_eq, other_eq⟩,
    ⟨⟨bf_eq', parent_eq', left_eq, right_eq⟩, yLinked, zLinked⟩, xLinked⟩ := linked
  have rX : ¬ r ∈ x := disjoint r (.inl rfl)
  refine ⟨dict', exchange_eq, ⟨⟨?_, ?_, ?_, ?_⟩, ⟨⟨?_, ?_, ?_, ?_⟩, ?_, ?_⟩, ?_⟩, ?_⟩
  · rw [at_r, THElement.bf_setChild]
    exact bf_eq
  · rw [at_r, THElement.parent_setChild]
    exact parent_eq
  · rw [at_r, THElement.child_setChild]
  · rw [at_r, THElement.child_setChild_other, THElement.child_copyFrom, other_eq]
  · rw [at_n, THElement.bf_setParent]
    exact bf_eq'
  · rw [at_n, THElement.parent_setParent]
  · rw [at_n, THElement.child_setParent, THElement.child_copyFrom, left_eq]
  · rw [at_n, THElement.child_setParent, THElement.child_copyFrom, right_eq]
  · refine yLinked.adopted yNodup fun a inside => ?_
    have notX := disjoint a (.inr (.inl inside))
    have notZ := yz a inside
    rw [elsewhere a (ne_of_mem_of_not_mem inside rY) (ne_of_mem_of_not_mem inside nY), adopt_apply]
    simp only [if_neg (not_root notX), or_iff_left (not_root notZ)]
  · refine zLinked.adopted zNodup fun a inside => ?_
    have notX := disjoint a (.inr (.inr inside))
    have notY : ¬ a ∈ y := fun other => yz a other inside
    rw [elsewhere a (ne_of_mem_of_not_mem inside rZ) (ne_of_mem_of_not_mem inside nZ), adopt_apply]
    simp only [if_neg (not_root notX), or_iff_right (not_root notY)]
  · refine xLinked.adopted xNodup fun a inside => ?_
    have notY : ¬ a ∈ y := fun other => disjoint a (.inr (.inl other)) inside
    have notZ : ¬ a ∈ z := fun other => disjoint a (.inr (.inr other)) inside
    rw [elsewhere a (ne_of_mem_of_not_mem inside rX) (ne_of_mem_of_not_mem inside nX), adopt_apply,
      if_neg (not_or.mpr ⟨not_root notY, not_root notZ⟩)]
  · have entry_eq {a : Nat} (notR : a ≠ r) (notN : a ≠ n) :
        (dict' a).entry = (dict a).entry := by
      rw [elsewhere a notR notN]
      split_ifs <;> rfl
    have entries_eq {tree : Tree Nat} (notR : ¬ r ∈ tree) (notN : ¬ n ∈ tree) :
        tree.labels.map (fun a => (dict' a).entry) =
          tree.labels.map fun a => (dict a).entry :=
      List.map_congr_left fun a inside =>
        entry_eq (ne_of_mem_of_not_mem inside notR) (ne_of_mem_of_not_mem inside notN)
    have entry_r : (dict' r).entry = (dict n).entry := by
      rw [at_r, THElement.entry_setChild]
      rfl
    have entry_n : (dict' n).entry = (dict r).entry := by
      rw [at_n]
      rfl
    exact
      { outside := by
          intro a outside
          simp only [mem_join, not_or] at outside
          obtain ⟨notN, ⟨notR, notY, notZ⟩, notX⟩ := outside
          rw [elsewhere a notR notN, if_neg (not_or.mpr ⟨not_root notY, not_root notZ⟩),
            if_neg (not_root notX)]
        members := by
          intro a
          simp only [mem_join]
          tauto
        index := by
          intro a
          by_cases atR : a = r
          · rw [atR, at_r, THElement.index_setChild]
            rfl
          by_cases atN : a = n
          · rw [atN, at_n]
            rfl
          · rw [elsewhere a atR atN]
            split_ifs <;> rfl
        entries := by
          cases side <;>
            simp only [join, labels, List.map_append, List.map_cons, entries_eq rX nX,
              entries_eq rY nY, entries_eq rZ nZ, entry_r, entry_n] }

/-- What `ExchangeElement` of an element `r` below the path and an element `n` without relations
writes. -/
theorem exchangeElement_apart_eq {frame : Frame Nat} {frames : List (Frame Nat)} {r n : Nat}
    {bf : Int} {left right : Tree Nat}
    (linked : Linked dict none (plug (frame :: frames) (node r bf left right)))
    (nodup : (plug (frame :: frames) (node r bf left right)).Nodup)
    (apart : ¬ n ∈ plug (frame :: frames) (node r bf left right))
    (noLeft : (dict n).left = none) (noRight : (dict n).right = none) :
    ∃ dict', exchangeElement dict r n = some dict' ∧
      dict' r = (dict r).copyFrom (dict n) ∧ dict' n = (dict n).copyFrom (dict r) ∧
      dict' frame.label = (dict frame.label).setChild frame.side (some n) ∧
      ∀ a, a ≠ r → a ≠ n → a ≠ frame.label → dict' a =
        if some a = left.root ∨ some a = right.root then (dict a).setParent (some n)
        else dict a := by
  obtain ⟨hereNodup, notPath⟩ := nodup_plug nodup
  have labelPath : OnPath (frame :: frames) frame.label := ⟨frame, .head _, .inl rfl⟩
  have labelHere : ¬ frame.label ∈ node r bf left right := fun inside =>
    notPath frame.label inside labelPath
  obtain ⟨⟨rLeft, rRight⟩, -⟩ := (nodup_join : (join .left r bf left right).Nodup ↔ _).mp hereNodup
  simp only [mem_plug, mem_node, not_or] at apart labelHere
  obtain ⟨⟨ne, nLeft, nRight⟩, nPath⟩ := apart
  obtain ⟨label_ne_r, labelLeft, labelRight⟩ := labelHere
  have ne' : r ≠ n := fun same => ne same.symm
  have label_ne_n : frame.label ≠ n := fun same => nPath (same ▸ labelPath)
  obtain ⟨⟨-, parent_eq, left_eq, right_eq, -⟩, path⟩ := linked_plug.mp linked
  have first_eq := (swapped_first ne' : swapped dict r n r = _)
  have second_eq := (swapped_second ne' : swapped dict r n n = _)
  have label_eq : swapped dict r n frame.label = dict frame.label :=
    swapped_of_ne label_ne_r label_ne_n
  have rSibling : ¬ r ∈ frame.sibling := fun inside =>
    notPath r (mem_node.mpr (.inl rfl)) ⟨frame, .head _, .inr inside⟩
  have side_eq : (if (dict frame.label).left = some r then Side.left else .right) = frame.side :=
    path.side_eq rSibling
  let base : Dict κ β := modify (swapped dict r n) frame.label fun element =>
    element.setChild (if element.left = some r then .left else .right) (some n)
  have base_n : base n = (dict n).copyFrom (dict r) := by
    simp only [base]
    rw [modify_of_ne label_ne_n.symm, second_eq]
  have written := adoptChildren_apply (show (base n).left = left.root by rw [base_n]; exact left_eq)
    (show (base n).right = right.root by rw [base_n]; exact right_eq) nLeft
  have notRoot {a : Nat} (notLeft : ¬ a ∈ left) (notRight : ¬ a ∈ right) :
      adoptChildren base n a = base a := by
    rw [written, if_neg (not_or.mpr ⟨not_root notLeft, not_root notRight⟩)]
  refine ⟨adoptChildren base n, ?_, ?_, ?_, ?_, fun a notR notN notLabel => ?_⟩
  · have first_left : ((dict r).copyFrom (dict n)).left = none := noLeft
    have first_right : ((dict r).copyFrom (dict n)).right = none := noRight
    have second_parent : ((dict n).copyFrom (dict r)).parent = some frame.label := parent_eq
    rw [exchangeElement_eq, fixLinks]
    simp only [first_eq, first_left, first_right, adopt, reduceCtorEq, if_false, second_eq,
      second_parent, Option.map_some, base]
  · rw [notRoot rLeft rRight]
    simp only [base]
    rw [modify_of_ne (fun same => label_ne_r same.symm), first_eq]
  · rw [notRoot nLeft nRight, base_n]
  · rw [notRoot labelLeft labelRight]
    simp only [base, modify_self, label_eq, side_eq]
  · have base_a : base a = dict a := by
      simp only [base]
      rw [modify_of_ne notLabel, swapped_of_ne notR notN]
    rw [written, base_a]

/-- `ExchangeElement` of an element `r` below the path and an element `n` without relations moves
the former to the place of the latter. -/
theorem exchangeElement_apart {frame : Frame Nat} {frames : List (Frame Nat)} {r n : Nat} {bf : Int}
    {left right : Tree Nat}
    (linked : Linked dict none (plug (frame :: frames) (node r bf left right)))
    (nodup : (plug (frame :: frames) (node r bf left right)).Nodup)
    (apart : ¬ n ∈ plug (frame :: frames) (node r bf left right))
    (noLeft : (dict n).left = none) (noRight : (dict n).right = none) :
    ∃ dict', exchangeElement dict r n = some dict' ∧
      Linked dict' none (plug (frame :: frames) (node n bf left right)) ∧
      dict' r = (dict r).copyFrom (dict n) ∧ (dict' n).entry = (dict r).entry ∧
      (dict' n).index = (dict n).index ∧
      (∀ a, a ≠ r → a ≠ n → (dict' a).entry = (dict a).entry ∧ (dict' a).index = (dict a).index) ∧
      ∀ a, ¬ a ∈ plug (frame :: frames) (node r bf left right) → a ≠ n → dict' a = dict a := by
  obtain ⟨dict', exchange_eq, at_r, at_n, at_label, elsewhere⟩ :=
    exchangeElement_apart_eq linked nodup apart noLeft noRight
  obtain ⟨hereNodup, notPath⟩ := nodup_plug nodup
  have nodup' : (plug frames (join frame.side frame.label frame.bf (node r bf left right)
      frame.sibling)).Nodup := nodup
  obtain ⟨joinNodup, notAbove⟩ := nodup_plug nodup'
  obtain ⟨⟨notHere, notSibling⟩, -, -, -⟩ := nodup_join.mp joinNodup
  have labelPath : OnPath (frame :: frames) frame.label := ⟨frame, .head _, .inl rfl⟩
  have labelAbove := notAbove frame.label (mem_join.mpr (.inl rfl))
  obtain ⟨⟨rLeft, rRight⟩, disjoint, leftNodup, rightNodup⟩ :=
    (nodup_join : (join .left r bf left right).Nodup ↔ _).mp hereNodup
  simp only [mem_plug, mem_node, not_or] at apart
  obtain ⟨⟨-, nLeft, nRight⟩, nPath⟩ := apart
  simp only [mem_node, not_or] at notHere
  obtain ⟨-, labelLeft, labelRight⟩ := notHere
  obtain ⟨⟨bf_eq, parent_eq, left_eq, right_eq, leftLinked, rightLinked⟩, path⟩ :=
    linked_plug.mp linked
  have notRoot {a : Nat} (notR : a ≠ r) (notN : a ≠ n) (notLabel : a ≠ frame.label)
      (notLeft : ¬ a ∈ left) (notRight : ¬ a ∈ right) : dict' a = dict a := by
    rw [elsewhere a notR notN notLabel,
      if_neg (not_or.mpr ⟨not_root notLeft, not_root notRight⟩)]
  refine ⟨dict', exchange_eq, linked_plug.mpr ⟨⟨?_, ?_, ?_, ?_, ?_, ?_⟩, ?_⟩, at_r, ?_, ?_, ?_, ?_⟩
  · rw [at_n]
    exact bf_eq
  · rw [at_n]
    exact parent_eq
  · rw [at_n]
    exact left_eq
  · rw [at_n]
    exact right_eq
  · refine leftLinked.adopted leftNodup fun a inside => ?_
    rw [elsewhere a (ne_of_mem_of_not_mem inside rLeft) (ne_of_mem_of_not_mem inside nLeft)
      (ne_of_mem_of_not_mem inside labelLeft), adopt_apply]
    simp only [or_iff_left (not_root (disjoint a inside))]
  · refine rightLinked.adopted rightNodup fun a inside => ?_
    have notLeft : ¬ a ∈ left := fun other => disjoint a other inside
    rw [elsewhere a (ne_of_mem_of_not_mem inside rRight) (ne_of_mem_of_not_mem inside nRight)
      (ne_of_mem_of_not_mem inside labelRight), adopt_apply]
    simp only [or_iff_right (not_root notLeft)]
  · refine path.setChild ⟨notSibling, labelAbove⟩ (some n) ?_ fun a onPath notLabel => ?_
    · rw [at_label]
    · have apart : ¬ a ∈ node r bf left right := fun inside => notPath a inside onPath
      simp only [mem_node, not_or] at apart
      rw [notRoot apart.1 _ notLabel apart.2.1 apart.2.2]
      rintro rfl
      exact nPath onPath
  · rw [at_n]
    rfl
  · rw [at_n]
    rfl
  · intro a notR notN
    by_cases atLabel : a = frame.label
    · rw [atLabel, at_label]
      exact ⟨THElement.entry_setChild .., THElement.index_setChild ..⟩
    · rw [elsewhere a notR notN atLabel]
      split_ifs <;> exact ⟨rfl, rfl⟩
  · intro a outside notN
    simp only [mem_plug, mem_node, not_or] at outside
    obtain ⟨⟨notR, notLeft, notRight⟩, offPath⟩ := outside
    refine notRoot notR notN ?_ notLeft notRight
    rintro rfl
    exact offPath labelPath

end HashTable
end CommonLib
