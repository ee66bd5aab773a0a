import CommonLib.Udp.RbRun

/-!
# The deletion of a red-black tree

The loop of `jsw_rbdelete` needs no stack: it turns the left children up to the right spine, and
releases the nodes from there in the order of their keys.
-/

namespace CommonLib.JswRbtree

open CommonLib.Tree CommonLib.Execution

variable {α κ : Type} [LinearOrder κ] {cmp : α → α → Int} {dup : α → α} {key : α → κ}
  {memory : RbMemory α}

/-- The loop of `jsw_rbdelete`. -/
def deleteFrom : ℕ → RbMemory α → List α → ℕ → Option (RbMemory α × List α)
  | 0, _, _, _ => none
  | fuel + 1, memory, released, it =>
      if it = 0 then some (memory, released)
      else do
        let node ← memory it
        if node.link .left = 0 then
          deleteFrom fuel (Function.update memory it none) (released ++ [node.data])
            (node.link .right)
        else
          let save := node.link .left
          let memory ← setLink memory it .left ((← memory save).link .right)
          let memory ← setLink memory save .right it
          deleteFrom fuel memory released save

/-- `jsw_rbdelete`; a node is visited once to be turned up and once to be released. -/
def delete (tree : JswRbtree α) : Option (RbMemory α × List α) :=
  deleteFrom (2 * tree.fresh) tree.memory tree.released tree.root

/-- The passes that the loop needs for a tree: two for a node beside the right spine. -/
def passes : Tree ℕ → ℕ
  | .nil => 0
  | .node _ _ left right => 2 * left.labels.length + passes right + 1

theorem passes_le (tree : Tree ℕ) : passes tree ≤ 2 * tree.labels.length := by
  induction tree with
  | nil => exact le_rfl
  | node a red left right leftInduction rightInduction =>
      simp only [passes, labels, List.length_append, List.length_cons]
      omega

/-- A left child is turned up. -/
theorem turn_rebuilt {a b : ℕ} {red red' : Int} {low middle high : Tree ℕ}
    (linked : Linked memory (.node a red (.node b red' low middle) high))
    (nodup : (Tree.node a red (.node b red' low middle) high).Nodup) :
    ∃ node node' memory₁ memory₂, memory a = some node ∧ node.link .left = b ∧
      memory b = some node' ∧ setLink memory a .left (node'.link .right) = some memory₁ ∧
      setLink memory₁ b .right a = some memory₂ ∧
      Rebuilt (.node a red (.node b red' low middle) high)
        (.node b red' low (.node a red middle high)) memory memory₂ := by
  obtain ⟨⟨a_ne, node, here, red_eq, left_eq, high_eq⟩,
    ⟨⟨b_ne, node', here', red_eq', low_eq, middle_eq⟩, low_linked, middle_linked⟩, high_linked⟩ :=
    linked
  obtain ⟨⟨a_left, a_high⟩, disjoint, left_nodup, -⟩ := nodup_join.mp
    (show (join .left a red (.node b red' low middle) high).Nodup from nodup)
  obtain ⟨⟨b_low, b_middle⟩, -⟩ :=
    nodup_join.mp (show (join .left b red' low middle).Nodup from left_nodup)
  have ne : b ≠ a := fun same => a_left (mem_node.mpr (.inl same.symm))
  have b_high : b ∉ high := disjoint b (mem_node.mpr (.inl rfl))
  have a_low : a ∉ low := fun inside => a_left (mem_node.mpr (.inr (.inl inside)))
  have a_middle : a ∉ middle := fun inside => a_left (mem_node.mpr (.inr (.inr inside)))
  let memory₁ : RbMemory α := Function.update memory a
    (some { node with link := Function.update node.link .left (node'.link .right) })
  let memory₂ : RbMemory α := Function.update memory₁ b
    (some { node' with link := Function.update node'.link .right a })
  have here₁ : memory₁ b = some node' := (Function.update_of_ne ne ..).trans here'
  have at_b : memory₂ b = some { node' with link := Function.update node'.link .right a } :=
    Function.update_self ..
  have at_a : memory₂ a =
      some { node with link := Function.update node.link .left (node'.link .right) } :=
    (Function.update_of_ne (Ne.symm ne) ..).trans (Function.update_self ..)
  have other : ∀ {c}, c ≠ a → c ≠ b → memory₂ c = memory c := fun c_a c_b =>
    (Function.update_of_ne c_b ..).trans (Function.update_of_ne c_a ..)
  refine ⟨node, node', memory₁, memory₂, here, left_eq, here', by rw [setLink, here]; rfl,
    by rw [setLink, here₁]; rfl, ⟨⟨b_ne, _, at_b, red_eq', ?_, ?_⟩, ?_,
      ⟨a_ne, _, at_a, red_eq, ?_, ?_⟩, ?_, ?_⟩, by simp [labels], fun c => ?_, fun c out => ?_⟩
  · exact (@Function.update_of_ne Side _ _ .left .right (by decide) a node'.link).trans low_eq
  · exact @Function.update_self Side _ _ .right a node'.link
  · exact low_linked.congr fun c inside =>
      other (ne_of_mem_of_not_mem inside a_low) (ne_of_mem_of_not_mem inside b_low)
  · exact (@Function.update_self Side _ _ .left _ node.link).trans middle_eq
  · exact (@Function.update_of_ne Side _ _ .right .left (by decide) (node'.link .right)
      node.link).trans high_eq
  · exact middle_linked.congr fun c inside =>
      other (ne_of_mem_of_not_mem inside a_middle) (ne_of_mem_of_not_mem inside b_middle)
  · exact high_linked.congr fun c inside =>
      other (ne_of_mem_of_not_mem inside a_high) (ne_of_mem_of_not_mem inside b_high)
  · by_cases c_b : c = b
    · rw [c_b, dataAt, at_b, dataAt, here']
      rfl
    · by_cases c_a : c = a
      · rw [c_a, dataAt, at_a, dataAt, here]
        rfl
      · rw [dataAt, other c_a c_b, dataAt]
  · simp only [mem_node, not_or] at out
    exact other out.1 out.2.1.1

/-- The loop releases every element of the tree in order, and every node once. -/
theorem deleteFrom_releases {tree : Tree ℕ} {contents released : List α}
    (linked : Linked memory tree) (nodup : tree.Nodup)
    (data_eq : tree.labels.map (dataAt memory) = contents.map some) {fuel : ℕ}
    (enough : passes tree < fuel) :
    ∃ memory', deleteFrom fuel memory released (ptr tree) =
        some (memory', released ++ contents) ∧
      (∀ a ∈ tree, memory' a = none) ∧ ∀ a, a ∉ tree → memory' a = memory a := by
  induction fuel generalizing tree memory contents released with
  | zero => exact absurd enough (Nat.not_lt_zero _)
  | succ fuel induction =>
      cases tree with
      | nil =>
          obtain rfl : contents = [] := by simpa [labels] using data_eq.symm
          exact ⟨memory, by simp [deleteFrom], fun a inside => absurd inside (not_mem_nil a),
            fun a _ => rfl⟩
      | node a red left right =>
          cases left with
          | nil =>
              -- the node is released
              obtain ⟨⟨a_ne, node, here, -, left_eq, right_eq⟩, -, right_linked⟩ := linked
              obtain ⟨a_right, right_nodup⟩ := List.nodup_cons.mp
                (show (a :: right.labels).Nodup from nodup)
              obtain ⟨x, rest, rfl, x_eq, rest_eq⟩ := List.map_eq_cons_iff.mp
                (show contents.map some = dataAt memory a :: right.labels.map (dataAt memory) from
                  data_eq.symm)
              have x_data : node.data = x := by
                rw [dataAt, here] at x_eq
                exact (Option.some.inj x_eq).symm
              have kept : ∀ b ∈ right, Function.update memory a none b = memory b :=
                fun b inside => Function.update_of_ne (ne_of_mem_of_not_mem inside a_right) _ _
              obtain ⟨memory', made, gone, same⟩ :=
                @induction (Function.update memory a none) right rest (released ++ [x])
                  (right_linked.congr kept) right_nodup
                  ((List.map_congr_left fun b inside => by
                    rw [dataAt, kept b inside, dataAt]).trans rest_eq.symm)
                  (by simp only [passes, labels] at enough; omega)
              refine ⟨memory', ?_, fun b inside => ?_, fun b out => ?_⟩
              · rw [Side.other] at right_eq
                rw [ptr_nil] at left_eq
                rw [List.append_assoc, List.singleton_append] at made
                simp only [deleteFrom, ptr_node, if_neg a_ne, here, left_eq, right_eq, x_data, bind,
                  Option.bind_some, if_true]
                exact made
              · rcases mem_node.mp inside with rfl | inside | inside
                · rw [same b a_right, Function.update_self]
                · exact absurd inside (not_mem_nil b)
                · exact gone b inside
              · simp only [mem_node, not_or] at out
                rw [same b out.2.2, Function.update_of_ne out.1]
          | node b red' low middle =>
              -- the left child is turned up
              obtain ⟨node, node', memory₁, memory₂, here, left_eq, here', first, second, rebuilt⟩ :=
                turn_rebuilt linked nodup
              have b_ne : b ≠ 0 := linked.2.1.1.1
              obtain ⟨memory', made, gone, same⟩ :=
                @induction memory₂ _ contents released rebuilt.linked (rebuilt.nodup nodup)
                  (by
                    rw [rebuilt.labels, ← data_eq]
                    exact List.map_congr_left fun c _ => rebuilt.data c)
                  (by
                    simp only [passes, labels, List.length_append, List.length_cons] at enough ⊢
                    omega)
              refine ⟨memory', ?_, fun c inside => gone c (rebuilt.mem_iff.mpr inside),
                fun c out => (same c (mt rebuilt.mem_iff.mp out)).trans (rebuilt.outside c out)⟩
              simp only [deleteFrom, ptr_node, if_neg linked.1.1, here, left_eq, if_neg b_ne, here',
                first, second, bind, Option.bind_some]
              exact made

end CommonLib.JswRbtree
