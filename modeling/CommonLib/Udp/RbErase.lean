import CommonLib.Udp.RbMemory

/-!
# Removal from a red-black tree

The walk pushes a red node down in front of it: a black node with two black children takes red from
its parent, or from the other child of its parent by a rotation.
-/

namespace CommonLib.JswRbtree

open CommonLib.Tree

variable {α : Type} {memory : RbMemory α}

theorem setRed_recolour {frames : List (Frame ℕ)} {tree : Tree ℕ}
    (linked : Linked memory (plug frames tree)) (nodup : (plug frames tree).Nodup)
    (ne : tree ≠ .nil) (red : Int) :
    ∃ memory', setRed memory (ptr tree) red = some memory' ∧
      Rebuilt (plug frames tree) (plug frames (tree.recolour red)) memory memory' := by
  cases tree with
  | nil => exact absurd rfl ne
  | node a colour left right => exact @setRed_plug _ _ frames .left a colour left right linked nodup red

/-- The children of a node are made black, the left one first. -/
theorem blacken_children {frames : List (Frame ℕ)} {a : ℕ} {red : Int} {left right : Tree ℕ}
    (linked : Linked memory (plug frames (.node a red left right)))
    (nodup : (plug frames (.node a red left right)).Nodup) (left_ne : left ≠ .nil)
    (right_ne : right ≠ .nil) :
    ∃ memory', (do
        let memory ← setRed memory ((← memory a).link .left) 0
        setRed memory ((← memory a).link .right) 0) = some memory' ∧
      Rebuilt (plug frames (.node a red left right))
        (plug frames (.node a red (left.recolour 0) (right.recolour 0))) memory memory' := by
  obtain ⟨memory₁, first, rebuilt⟩ :
      ∃ memory', setRed memory (ptr left) 0 = some memory' ∧ Rebuilt _ (plug
        (⟨.right, a, red, left.recolour 0⟩ :: frames) right) _ memory' :=
    @setRed_recolour _ _ (⟨.left, a, red, right⟩ :: frames) left linked nodup left_ne 0
  obtain ⟨memory₂, second, rebuilt'⟩ :=
    setRed_recolour rebuilt.linked (rebuilt.nodup nodup) right_ne 0
  obtain ⟨⟨-, node, here, -, left_eq, -⟩, -⟩ := (linked_plug.mp linked).1
  obtain ⟨-, ⟨-, node', here', -, right_eq, -⟩, -⟩ := linked_plug.mp rebuilt.linked
  exact ⟨memory₂, by simp [here, here', left_eq, right_eq, first, second], rebuilt.trans rebuilt'⟩

theorem blacken_children_join {frames : List (Frame ℕ)} {side : Side} {a : ℕ} {red : Int}
    {child sibling : Tree ℕ} (linked : Linked memory (plug frames (join side a red child sibling)))
    (nodup : (plug frames (join side a red child sibling)).Nodup) (child_ne : child ≠ .nil)
    (sibling_ne : sibling ≠ .nil) :
    ∃ memory', (do
        let memory ← setRed memory ((← memory a).link .left) 0
        setRed memory ((← memory a).link .right) 0) = some memory' ∧
      Rebuilt (plug frames (join side a red child sibling))
        (plug frames (join side a red (child.recolour 0) (sibling.recolour 0))) memory memory' := by
  cases side with
  | left => exact blacken_children linked nodup child_ne sibling_ne
  | right => exact blacken_children linked nodup sibling_ne child_ne

/-- After a rotation the new top is red, its children are black and `q` is red. -/
theorem settle_rebuilt {third : Frame ℕ} {frames : List (Frame ℕ)} {last dir : Side}
    {top p q : ℕ} {red red₁ red₂ : Int} {outer inner child sibling : Tree ℕ}
    (linked : Linked memory (plug (third :: frames)
      (join last.other top red outer (join last.other p red₁ inner (join dir q red₂ child sibling)))))
    (nodup : (plug (third :: frames)
      (join last.other top red outer
        (join last.other p red₁ inner (join dir q red₂ child sibling)))).Nodup)
    (outer_ne : outer ≠ .nil) :
    ∃ memory', settle memory third.label third.side q = some memory' ∧
      Rebuilt (plug (third :: frames) (join last.other top red outer
          (join last.other p red₁ inner (join dir q red₂ child sibling))))
        (plug (⟨dir, q, 1, sibling⟩ :: ⟨last, p, 0, inner⟩ ::
          ⟨last, top, 1, outer.recolour 0⟩ :: third :: frames) child) memory memory' := by
  obtain ⟨-, ⟨-, node, here, -, link_eq, -⟩, -⟩ := linked_plug.mp linked
  rw [ptr_join] at link_eq
  obtain ⟨memory₁, first, rebuilt⟩ := setRed_plug linked nodup 1
  have nodup₁ := rebuilt.nodup nodup
  have around : ∀ red₂, join last.other top 1 outer
      (join last.other p red₁ inner (join dir q red₂ child sibling)) =
      join last top 1 (join last p red₁ (join dir q red₂ child sibling) inner) outer := fun red₂ => by
    rw [join_other, join_other]
  rw [around] at rebuilt nodup₁
  obtain ⟨memory₂, second, rebuilt'⟩ := @setRed_plug _ _
    (⟨last, p, red₁, inner⟩ :: ⟨last, top, 1, outer⟩ :: third :: frames) dir q red₂ child sibling
    rebuilt.linked nodup₁ 1
  have rebuilt'' : Rebuilt _ (plug (third :: frames) (join last top 1
    (join last p red₁ (join dir q 1 child sibling) inner) outer)) memory₁ memory₂ := rebuilt'
  obtain ⟨memory₃, third', rebuilt₃⟩ := blacken_children_join rebuilt''.linked
    (rebuilt''.nodup nodup₁) (by cases last <;> simp [join]) outer_ne
  rw [recolour_join] at rebuilt₃
  refine ⟨memory₃, ?_, (rebuilt.trans rebuilt'').trans rebuilt₃⟩
  simp only [settle, here, link_eq, first, second, bind, Option.bind_some]
  exact third'

/-! ## Borrowing -/

variable {walk : Pursuit α} {last dir : Side} {q p s : ℕ} {red : Int}
  {child sibling outer inner : Tree ℕ} {third : Frame ℕ} {frames : List (Frame ℕ)}

/-- The path with the sibling `s` of the node at which the walk stands. -/
def beside (last dir : Side) (q p s : ℕ) (red : Int) (sibling outer inner : Tree ℕ)
    (frames : List (Frame ℕ)) : List (Frame ℕ) :=
  ⟨dir, q, 0, sibling⟩ :: ⟨last, p, red, join last.other s 0 outer inner⟩ :: frames

theorem beside_linked
    (linked : Linked memory (plug (beside last dir q p s red sibling outer inner frames) child)) :
    ∃ node, memory s = some node ∧
      isRed memory (node.link last.other) = some (decide outer.IsRed) ∧
      isRed memory (node.link last) = some (decide inner.IsRed) := by
  obtain ⟨-, -, -, -, beside, -⟩ := linked_plug.mp linked
  obtain ⟨⟨-, node, here, -, outer_eq, inner_eq⟩, outer_linked, inner_linked⟩ :=
    linked_join.mp beside
  rw [other_other] at inner_eq
  exact ⟨node, here, outer_eq ▸ outer_linked.isRed, inner_eq ▸ inner_linked.isRed⟩

/-- Black children of the sibling: the parent gives its red to both of its children. -/
theorem borrow_colours
    (linked : Linked walk.memory
      (plug (beside last dir q p s red sibling outer inner frames) child))
    (nodup : (plug (beside last dir q p s red sibling outer inner frames) child).Nodup)
    (q_eq : walk.q = q) (p_eq : walk.p = p) (outer_black : ¬outer.IsRed)
    (inner_black : ¬inner.IsRed) :
    ∃ memory', borrow walk last s = some memory' ∧
      Rebuilt (plug (beside last dir q p s red sibling outer inner frames) child)
        (plug (⟨dir, q, 1, sibling⟩ :: ⟨last, p, 0, join last.other s 1 outer inner⟩ :: frames)
          child) walk.memory memory' := by
  obtain ⟨node, here, outer_red, inner_red⟩ := beside_linked linked
  obtain ⟨memory₁, first, rebuilt⟩ := @setRed_plug _ _ frames last p red
    (join dir q 0 child sibling) (join last.other s 0 outer inner) linked nodup 0
  have nodup₁ := rebuilt.nodup nodup
  have turned : ∀ red, join last p 0 (join dir q 0 child sibling) (join last.other s red outer inner) =
      join last.other p 0 (join last.other s red outer inner) (join dir q 0 child sibling) := fun _ =>
    (join_other ..).symm
  rw [turned] at rebuilt nodup₁
  obtain ⟨memory₂, second, rebuilt'⟩ := @setRed_plug _ _
    (⟨last.other, p, 0, join dir q 0 child sibling⟩ :: frames) last.other s 0 outer inner
    rebuilt.linked nodup₁ 1
  have rebuilt'' : Rebuilt _ (plug frames (join last.other p 0 (join last.other s 1 outer inner)
    (join dir q 0 child sibling))) memory₁ memory₂ := rebuilt'
  have nodup₂ := rebuilt''.nodup nodup₁
  rw [← turned] at rebuilt'' nodup₂
  obtain ⟨memory₃, third, rebuilt₃⟩ := @setRed_plug _ _
    (⟨last, p, 0, join last.other s 1 outer inner⟩ :: frames) dir q 0 child sibling
    rebuilt''.linked nodup₂ 1
  refine ⟨memory₃, ?_, (rebuilt.trans rebuilt'').trans rebuilt₃⟩
  have both : (!decide outer.IsRed && !decide inner.IsRed) = true := by
    simp [outer_black, inner_black]
  simp only [borrow, here, outer_red, inner_red, bind, Option.bind_some, both, if_true, p_eq, q_eq,
    first, second, third]

theorem beside_third
    (linked : Linked memory
      (plug (beside last dir q p s red sibling outer inner (third :: frames)) child))
    (nodup : (plug (beside last dir q p s red sibling outer inner (third :: frames)) child).Nodup) :
    ∃ node, memory third.label = some node ∧ sideOf node p = third.side := by
  obtain ⟨-, -, -, ⟨p_ne, -⟩, -, third_holds, -⟩ := linked_plug.mp linked
  obtain ⟨-, node, here, -⟩ := id third_holds
  refine ⟨node, here, third_holds.sideOf_eq p_ne (fun inside => ?_) here⟩
  have apart := (nodup_plug (show (plug (third :: frames)
    (plug (beside last dir q p s red sibling outer inner []) child)).Nodup from nodup)).2
  refine apart p ?_ ⟨third, .head _, .inr inside⟩
  exact mem_plug.mpr (.inr ⟨⟨last, p, red, join last.other s 0 outer inner⟩, by simp [beside],
    .inl rfl⟩)

/-- The tree at the end of a path with a sibling, seen from the sibling. -/
theorem plug_beside :
    plug (beside last dir q p s red sibling outer inner frames) child =
      plug frames (join last.other p red (join last.other s 0 outer inner)
        (join dir q 0 child sibling)) := by
  rw [join_other last p]
  rfl

/-- A red inner child of the sibling becomes the parent of both. -/
theorem borrow_double {top : ℕ} {near far : Tree ℕ}
    (linked : Linked walk.memory (plug (beside last dir q p s red sibling outer
      (join last.other top 1 near far) (third :: frames)) child))
    (nodup : (plug (beside last dir q p s red sibling outer
      (join last.other top 1 near far) (third :: frames)) child).Nodup)
    (q_eq : walk.q = q) (p_eq : walk.p = p) (g_eq : walk.g = third.label) :
    ∃ memory', borrow walk last s = some memory' ∧
      Rebuilt (plug (beside last dir q p s red sibling outer
          (join last.other top 1 near far) (third :: frames)) child)
        (plug (⟨dir, q, 1, sibling⟩ :: ⟨last, p, 0, far⟩ ::
          ⟨last, top, 1, join last.other s 0 outer near⟩ :: third :: frames) child)
        walk.memory memory' := by
  obtain ⟨node, here, outer_red, inner_red⟩ := beside_linked linked
  obtain ⟨node', here', side_eq⟩ := beside_third linked nodup
  rw [plug_beside] at linked nodup ⊢
  obtain ⟨memory₁, rotated, rebuilt⟩ :=
    double_rebuilt (linked_plug.mp linked).1 (nodup_plug nodup).1
  rw [other_other] at rotated
  obtain ⟨memory₂, hung, rebuilt'⟩ := rebuilt.hung linked nodup
  rw [ptr_join] at hung
  obtain ⟨memory₃, settled, rebuilt''⟩ := settle_rebuilt rebuilt'.linked (rebuilt'.nodup nodup)
    (by cases last <;> simp [join, Side.other])
  rw [recolour_join] at rebuilt''
  refine ⟨memory₃, ?_, rebuilt'.trans rebuilt''⟩
  have inner_true : decide (join last.other top 1 near far).IsRed = true := by simp
  simp only [borrow, here, outer_red, inner_red, inner_true, bind, Option.bind_some,
    Bool.not_true, Bool.and_false, Bool.false_eq_true, if_false, if_true, g_eq, here', p_eq,
    side_eq, rotated, hung, q_eq, settled]

/-- A red outer child of the sibling, and a black inner one: the sibling becomes the parent. -/
theorem borrow_single
    (linked : Linked walk.memory
      (plug (beside last dir q p s red sibling outer inner (third :: frames)) child))
    (nodup : (plug (beside last dir q p s red sibling outer inner (third :: frames)) child).Nodup)
    (q_eq : walk.q = q) (p_eq : walk.p = p) (g_eq : walk.g = third.label)
    (outer_red : outer.IsRed) (inner_black : ¬inner.IsRed) :
    ∃ memory', borrow walk last s = some memory' ∧
      Rebuilt (plug (beside last dir q p s red sibling outer inner (third :: frames)) child)
        (plug (⟨dir, q, 1, sibling⟩ :: ⟨last, p, 0, inner⟩ ::
          ⟨last, s, 1, outer.recolour 0⟩ :: third :: frames) child) walk.memory memory' := by
  obtain ⟨node, here, outer_eq, inner_eq⟩ := beside_linked linked
  obtain ⟨node', here', side_eq⟩ := beside_third linked nodup
  rw [plug_beside] at linked nodup ⊢
  obtain ⟨memory₁, rotated, rebuilt⟩ :=
    single_rebuilt (linked_plug.mp linked).1 (nodup_plug nodup).1
  rw [other_other] at rotated
  obtain ⟨memory₂, hung, rebuilt'⟩ := rebuilt.hung linked nodup
  rw [ptr_join] at hung
  have outer_ne : outer ≠ .nil := by
    rintro rfl
    exact not_isRed_nil outer_red
  obtain ⟨memory₃, settled, rebuilt''⟩ :=
    settle_rebuilt rebuilt'.linked (rebuilt'.nodup nodup) outer_ne
  refine ⟨memory₃, ?_, rebuilt'.trans rebuilt''⟩
  rw [decide_eq_true outer_red] at outer_eq
  rw [decide_eq_false inner_black] at inner_eq
  simp only [borrow, here, outer_eq, inner_eq, bind, Option.bind_some, Bool.not_true,
    Bool.not_false, Bool.false_and, Bool.false_eq_true, if_false, if_true, g_eq, here', p_eq,
    side_eq, rotated, hung, q_eq, settled]

end CommonLib.JswRbtree
