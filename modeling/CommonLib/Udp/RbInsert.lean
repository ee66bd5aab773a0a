import CommonLib.Udp.RbMemory

/-!
# Insertion into a red-black tree

The tree is red-black again after every pass of the loop.  A rotation leaves `t`, and a double one
`g` too, at a node beside the path; the walk then meets black nodes that it does not split until
the pointers are right again.
-/

namespace CommonLib.JswRbtree

open CommonLib.Tree

variable {α : Type} {memory memory' : RbMemory α}

/-! ## The parts of a pass -/

theorem visit_stay {dup : α → α} {fresh : ℕ} {data : α} {walk : Descent α} {side : Side} {q : ℕ}
    {red : Int} {child sibling : Tree ℕ}
    (linked : Linked walk.memory (join side q red child sibling)) (here : walk.q = q)
    (black : ¬(child.IsRed ∧ sibling.IsRed)) :
    visit dup fresh data walk = some (q, walk.memory) := by
  obtain ⟨⟨ne, node, node_eq, -, child_eq, sibling_eq⟩, child_linked, sibling_linked⟩ :=
    linked_join.mp linked
  have child_red := child_linked.isRed
  have sibling_red := sibling_linked.isRed
  rw [← child_eq] at child_red
  rw [← sibling_eq] at sibling_red
  rw [visit, here, if_neg ne]
  cases side with
  | left =>
      rw [Side.other] at sibling_red
      have both : ¬(decide child.IsRed && decide sibling.IsRed) = true := by simpa using black
      simp only [node_eq, bind, Option.bind_some, child_red, sibling_red, both]
      rfl
  | right =>
      rw [Side.other] at sibling_red
      have both : ¬(decide sibling.IsRed && decide child.IsRed) = true := by
        simpa [and_comm] using black
      simp only [node_eq, bind, Option.bind_some, child_red, sibling_red, both]
      rfl

/-- A node with two red children is split. -/
theorem visit_split (dup : α → α) (fresh : ℕ) (data : α) {walk : Descent α}
    {frames : List (Frame ℕ)} {q : ℕ} {red : Int} {left right : Tree ℕ}
    (linked : Linked walk.memory (plug frames (.node q red left right)))
    (nodup : (plug frames (.node q red left right)).Nodup) (here : walk.q = q)
    (left_red : left.IsRed) (right_red : right.IsRed) :
    ∃ memory', visit dup fresh data walk = some (q, memory') ∧
      Rebuilt (plug frames (.node q red left right))
        (plug frames (.node q 1 (left.recolour 0) (right.recolour 0))) walk.memory memory' := by
  obtain ⟨⟨ne, node, node_eq, -, left_eq, right_eq⟩, left_linked, right_linked⟩ :=
    (linked_plug.mp linked).1
  have left_isRed := left_linked.isRed
  have right_isRed := right_linked.isRed
  rw [← left_eq] at left_isRed
  rw [Side.other] at right_eq
  rw [← right_eq] at right_isRed
  cases left with
  | nil => exact absurd left_red not_isRed_nil
  | node a red₁ x y =>
      cases right with
      | nil => exact absurd right_red not_isRed_nil
      | node b red₂ z w =>
          obtain ⟨memory₁, first, rebuilt⟩ :
              ∃ memory', setRed walk.memory q 1 = some memory' ∧ Rebuilt _ (plug
                (⟨.left, q, 1, .node b red₂ z w⟩ :: frames) (.node a red₁ x y)) _ memory' :=
            @setRed_plug _ _ frames .left q red (.node a red₁ x y) (.node b red₂ z w) linked nodup 1
          have nodup₁ := rebuilt.nodup nodup
          obtain ⟨memory₂, second, rebuilt'⟩ :
              ∃ memory', setRed memory₁ a 0 = some memory' ∧ Rebuilt _ (plug
                (⟨.right, q, 1, .node a 0 x y⟩ :: frames) (.node b red₂ z w)) _ memory' :=
            @setRed_plug _ _ (⟨.left, q, 1, .node b red₂ z w⟩ :: frames) .left a red₁ x y
              rebuilt.linked nodup₁ 0
          obtain ⟨memory₃, third, rebuilt''⟩ :
              ∃ memory', setRed memory₂ b 0 = some memory' ∧ Rebuilt _ (plug
                (⟨.right, q, 1, .node a 0 x y⟩ :: frames) (.node b 0 z w)) _ memory' :=
            @setRed_plug _ _ (⟨.right, q, 1, .node a 0 x y⟩ :: frames) .left b red₂ z w
              rebuilt'.linked (rebuilt'.nodup nodup₁) 0
          refine ⟨memory₃, ?_, (rebuilt.trans rebuilt').trans rebuilt''⟩
          have both : (decide (Tree.node a red₁ x y).IsRed &&
              decide (Tree.node b red₂ z w).IsRed) = true := by simpa using ⟨left_red, right_red⟩
          rw [visit, here, if_neg ne]
          simp only [node_eq, bind, Option.bind_some, left_isRed, right_isRed, both, if_true, first]
          simp [left_eq, right_eq, second, third]

/-- A new node is hung up at the end of the path. -/
theorem visit_new (dup : α → α) {fresh : ℕ} (data : α) {walk : Descent α} {frame : Frame ℕ}
    {frames : List (Frame ℕ)} (linked : Linked walk.memory (plug (frame :: frames) .nil))
    (nodup : (plug (frame :: frames) .nil).Nodup) (here : walk.q = 0) (p_eq : walk.p = frame.label)
    (dir_eq : walk.dir = frame.side) (new : fresh ∉ plug (frame :: frames) .nil)
    (fresh_ne : fresh ≠ 0) :
    ∃ memory', visit dup fresh data walk = some (fresh, memory') ∧
      Linked memory' (plug (frame :: frames) (.node fresh 1 .nil .nil)) ∧
      (∀ a, a ≠ fresh → dataAt memory' a = dataAt walk.memory a) ∧
      dataAt memory' fresh = some (dup data) ∧
      ∀ a, a ∉ plug (frame :: frames) .nil → a ≠ fresh → memory' a = walk.memory a := by
  obtain ⟨label_tree, label_sibling, label_path⟩ := label_apart nodup
  have off : ∀ a, OnPath (frame :: frames) a → a ≠ fresh := by
    rintro a onPath rfl
    exact new (mem_plug.mpr (.inr onPath))
  have label_ne : frame.label ≠ fresh := off _ ⟨frame, .head _, .inl rfl⟩
  let added := Function.update walk.memory fresh (some (newNode dup data))
  have added_ne : ∀ {a}, a ≠ fresh → added a = walk.memory a := fun different =>
    Function.update_of_ne different _ _
  have added_fresh : added fresh = some (newNode dup data) := Function.update_self ..
  have path : LinkedPath added (frame :: frames) 0 :=
    (linked_plug.mp linked).2.congr fun a onPath => added_ne (off a onPath)
  have single : Linked added (.node fresh 1 .nil .nil) :=
    ⟨⟨fresh_ne, _, added_fresh, rfl, rfl, rfl⟩, trivial, trivial⟩
  obtain ⟨memory', made, linked', data_eq, other⟩ := setLink_path path single
    ⟨by simpa using label_ne, label_sibling, label_path⟩
  rw [ptr_node] at made
  refine ⟨memory', ?_, linked', fun a different => ?_, ?_, fun a outside different => ?_⟩
  · rw [visit, if_pos here, p_eq, dir_eq]
    simp only [bind]
    rw [show Function.update walk.memory fresh (some (newNode dup data)) = added from rfl, made]
    rfl
  · rw [data_eq, dataAt, dataAt, added_ne different]
  · rw [data_eq, dataAt, added_fresh]
    rfl
  · refine (other a ?_).trans (added_ne different)
    rintro rfl
    exact outside (mem_plug.mpr (.inr ⟨frame, .head _, .inl rfl⟩))

theorem repair_none {walk : Descent α} {q : ℕ} {red red' : Bool}
    (q_red : isRed memory q = some red) (p_red : isRed memory walk.p = some red')
    (apart : ¬(red = true ∧ red' = true)) : repair walk q memory = some memory := by
  have both : ¬(red && red') = true := by simpa using apart
  simp only [repair, q_red, p_red, bind, Option.bind_some, both]
  rfl

/-- The pointers to the last three nodes of a path. -/
structure Near (walk : Descent α) (first second third : Frame ℕ) : Prop where
  p : walk.p = first.label
  g : walk.g = second.label
  t : walk.t = third.label
  last : walk.last = second.side

theorem repair_eq {walk : Descent α} {first second third : Frame ℕ} {frames : List (Frame ℕ)}
    {tree : Tree ℕ} (linked : Linked memory (plug (first :: second :: third :: frames) tree))
    (nodup : (plug (first :: second :: third :: frames) tree).Nodup)
    (near : Near walk first second third) (red : tree.IsRed) (red' : first.bf = 1) :
    repair walk (ptr tree) memory = (do
      let (top, memory) ←
        if first.side = second.side then single memory second.label second.side.other
        else double memory second.label second.side.other
      setLink memory third.label third.side top) := by
  obtain ⟨tree_linked, ⟨first_ne, node, node_eq, node_red, below_eq, sibling_eq⟩, sibling_linked,
    second_holds, -, third_holds, -⟩ := linked_plug.mp linked
  have tree_red := tree_linked.isRed
  rw [decide_eq_true red] at tree_red
  have tree_ne : ptr tree ≠ 0 := by
    rw [Ne, tree_linked.ptr_eq_zero]
    rintro rfl
    exact not_isRed_nil red
  have first_red : isRed memory first.label = some true := by
    rw [isRed, if_neg first_ne, node_eq]
    simp [node_red, red']
  obtain ⟨-, thirdNode, third_eq, -⟩ := id third_holds
  have dir2 : sideOf thirdNode second.label = third.side := by
    refine third_holds.sideOf_eq second_holds.1 (fun inside => ?_) third_eq
    have apart := (nodup_plug (show (plug (third :: frames) (plug [first, second] tree)).Nodup
      from nodup)).2
    refine apart second.label ?_ ⟨third, .head _, .inr inside⟩
    exact mem_plug.mpr (.inr ⟨second, by simp, .inl rfl⟩)
  have test : ptr tree = node.link second.side ↔ first.side = second.side := by
    constructor
    · intro same
      by_contra different
      rw [eq_other_of_ne different, sibling_eq] at same
      have apart := (nodup_plug nodup).2 (ptr tree) (ptr_mem tree_ne)
      exact apart ⟨first, .head _, .inr (same ▸ ptr_mem (same ▸ tree_ne))⟩
    · intro same
      rw [← same, below_eq]
  have both : (true && true) = true := rfl
  simp only [repair, tree_red, near.p, first_red, bind, Option.bind_some, both, if_true, near.t,
    third_eq, near.g, dir2, node_eq, near.last, test]

/-- An outer red child of a red node. -/
theorem repair_single {walk : Descent α} {first second third : Frame ℕ} {frames : List (Frame ℕ)}
    {tree : Tree ℕ} (linked : Linked memory (plug (first :: second :: third :: frames) tree))
    (nodup : (plug (first :: second :: third :: frames) tree).Nodup)
    (near : Near walk first second third) (red : tree.IsRed) (red' : first.bf = 1)
    (outer : first.side = second.side) :
    ∃ memory', repair walk (ptr tree) memory = some memory' ∧
      Rebuilt (plug (first :: second :: third :: frames) tree)
        (plug (third :: frames) (join second.side first.label 0 tree
          (join second.side second.label 1 first.sibling second.sibling))) memory memory' := by
  have whole : plug (first :: second :: third :: frames) tree = plug (third :: frames)
      (join second.side second.label second.bf
        (join second.side first.label first.bf tree first.sibling) second.sibling) :=
    congrArg (fun side => plug (third :: frames) (join second.side second.label second.bf
      (join side first.label first.bf tree first.sibling) second.sibling)) outer
  rw [repair_eq linked nodup near red red', if_pos outer]
  rw [whole] at linked nodup ⊢
  obtain ⟨memory₁, rotated, rebuilt⟩ :=
    single_rebuilt (linked_plug.mp linked).1 (nodup_plug nodup).1
  obtain ⟨memory₂, hung, rebuilt'⟩ := rebuilt.hung linked nodup
  rw [ptr_join] at hung
  exact ⟨memory₂, by simp [rotated, hung], rebuilt'⟩

/-- An inner red child of a red node. -/
theorem repair_double {walk : Descent α} {first second third : Frame ℕ} {frames : List (Frame ℕ)}
    {q : ℕ} {red₀ : Int} {near' far : Tree ℕ}
    (linked : Linked memory
      (plug (first :: second :: third :: frames) (join second.side q red₀ near' far)))
    (nodup : (plug (first :: second :: third :: frames) (join second.side q red₀ near' far)).Nodup)
    (near : Near walk first second third) (red : red₀ = 1) (red' : first.bf = 1)
    (inner : first.side = second.side.other) :
    ∃ memory', repair walk q memory = some memory' ∧
      Rebuilt (plug (first :: second :: third :: frames) (join second.side q red₀ near' far))
        (plug (third :: frames) (join second.side q 0
          (join second.side first.label 1 first.sibling near')
          (join second.side second.label 1 far second.sibling))) memory memory' := by
  have whole : plug (first :: second :: third :: frames) (join second.side q red₀ near' far) =
      plug (third :: frames) (join second.side second.label second.bf
        (join second.side first.label first.bf first.sibling (join second.side q red₀ near' far))
        second.sibling) := by
    rw [← join_other second.side first.label, ← inner]
    rfl
  have differ : first.side ≠ second.side := by
    rw [inner]
    exact Side.other_ne _
  have equation := repair_eq linked nodup near (isRed_join.mpr red) red'
  rw [ptr_join, if_neg differ] at equation
  rw [equation]
  rw [whole] at linked nodup ⊢
  obtain ⟨memory₁, rotated, rebuilt⟩ :=
    double_rebuilt (linked_plug.mp linked).1 (nodup_plug nodup).1
  obtain ⟨memory₂, hung, rebuilt'⟩ := rebuilt.hung linked nodup
  rw [ptr_join] at hung
  exact ⟨memory₂, by simp [rotated, hung], rebuilt'⟩

end CommonLib.JswRbtree
