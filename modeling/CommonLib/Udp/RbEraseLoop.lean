import CommonLib.Udp.RbErase

/-!
# The loop of `jsw_rberase`

The tree stays red-black, its root of any colour.  The walk stands at a red node or before one, or at
a root with black children, and the nodes before and after its place stay the same.
-/

namespace CommonLib.JswRbtree

open CommonLib.Tree

variable {α : Type} {cmp : α → α → Int} {data : α} {memory₀ memory : RbMemory α} {tree₀ : Tree ℕ}

/-- The same nodes stand on the left and on the right of the ends of the paths. -/
def SamePlace (frames frames' : List (Frame ℕ)) : Prop :=
  before frames' = before frames ∧ after frames' = after frames

/-- The variables of the loop are those of a path, at whose end a red node is at hand. -/
structure Follows (walk : Pursuit α) (frames : List (Frame ℕ)) (sub : Tree ℕ) : Prop where
  q : walk.q = top head frames
  p : frames ≠ [] → walk.p = top head frames.tail
  dir : walk.dir = turn frames
  balanced : ∃ height, sub.RedBlack height ∧ Accepts frames height ∧ ¬(sub.IsRed ∧ EndsRed frames)
  pushed : EndsRed frames ∨ sub.IsRed ∨ frames = [] ∨
    ∃ frame, frames = [frame] ∧ ¬frame.sibling.IsRed

/-- The parent of a black node from which the walk may take red. -/
theorem borrow_rebuilt {walk : Pursuit α} {last dir : Side} {q p height : ℕ} {red : Int}
    {child sibling uncle : Tree ℕ} {above : List (Frame ℕ)}
    (linked : Linked walk.memory
      (plug (⟨dir, q, 0, sibling⟩ :: ⟨last, p, red, uncle⟩ :: above ++ [headFrame]) child))
    (nodup : (plug (⟨dir, q, 0, sibling⟩ :: ⟨last, p, red, uncle⟩ :: above ++ [headFrame])
      child).Nodup)
    (q_eq : walk.q = q) (p_eq : walk.p = p) (g_eq : walk.g = top head above)
    (uncle_redBlack : uncle.RedBlack (height + 1)) (uncle_black : ¬uncle.IsRed)
    (accepts : Accepts above (height + 1)) (ends : ¬EndsRed above) :
    ∃ memory' uncle' above', borrow walk last (ptr uncle) = some memory' ∧
      Rebuilt (plug (⟨dir, q, 0, sibling⟩ :: ⟨last, p, red, uncle⟩ :: above ++ [headFrame]) child)
        (plug (⟨dir, q, 1, sibling⟩ :: ⟨last, p, 0, uncle'⟩ :: above' ++ [headFrame]) child)
        walk.memory memory' ∧
      uncle'.RedBlack height ∧ Accepts above' (height + 1) ∧
      SamePlace (⟨dir, q, 0, sibling⟩ :: ⟨last, p, red, uncle⟩ :: above)
        (⟨dir, q, 1, sibling⟩ :: ⟨last, p, 0, uncle'⟩ :: above') := by
  obtain ⟨third, others, split, third_eq, -⟩ := exists_owner above
  cases uncle with
  | nil => exact absurd uncle_redBlack (Nat.succ_ne_zero height)
  | node s colour left right =>
      obtain ⟨outer, inner, shape⟩ := exists_side last.other s colour left right
      rw [shape] at linked nodup uncle_redBlack uncle_black ⊢
      obtain rfl : colour = 0 := by
        rcases uncle_redBlack.colour with red | ⟨black, -⟩
        · exact absurd (isRed_join.mpr red) uncle_black
        · exact black
      obtain ⟨outer_redBlack, inner_redBlack⟩ := redBlack_black.mp uncle_redBlack
      rw [ptr_join]
      by_cases inner_red : inner.IsRed
      · cases inner with
        | nil => exact absurd inner_red not_isRed_nil
        | node a colour left right =>
            obtain ⟨near, far, shape⟩ := exists_side last.other a colour left right
            rw [shape] at linked nodup inner_redBlack inner_red ⊢
            obtain rfl : colour = 1 := isRed_join.mp inner_red
            obtain ⟨⟨near_black, near_redBlack⟩, far_black, far_redBlack⟩ :=
              redBlack_red.mp inner_redBlack
            simp only [List.cons_append, split] at linked nodup ⊢
            obtain ⟨memory', made, rebuilt⟩ :=
              borrow_double linked nodup q_eq p_eq (g_eq.trans third_eq.symm)
            refine ⟨memory', far, ⟨last, a, 1, join last.other s 0 outer near⟩ :: above, made,
              by simpa only [beside, List.cons_append, ← split] using rebuilt, far_redBlack,
              ⟨redBlack_black.mpr ⟨outer_redBlack, near_redBlack⟩, .inl ⟨rfl, by simp, ends,
                accepts⟩⟩, ?_, ?_⟩
            · cases dir <;> cases last <;> simp [before, join, labels, Side.other]
            · cases dir <;> cases last <;> simp [after, join, labels, Side.other]
      · by_cases outer_red : outer.IsRed
        · simp only [List.cons_append, split] at linked nodup ⊢
          obtain ⟨memory', made, rebuilt⟩ := borrow_single linked nodup q_eq p_eq
            (g_eq.trans third_eq.symm) outer_red inner_red
          obtain ⟨outer_redBlack', outer_black⟩ := outer_redBlack.recolour_red outer_red
          refine ⟨memory', inner, ⟨last, s, 1, outer.recolour 0⟩ :: above, made,
            by simpa only [beside, List.cons_append, ← split] using rebuilt, inner_redBlack,
            ⟨outer_redBlack', .inl ⟨rfl, outer_black, ends, accepts⟩⟩, ?_, ?_⟩
          · cases dir <;> cases last <;> simp [before, join, labels, Side.other]
          · cases dir <;> cases last <;> simp [after, join, labels, Side.other]
        · obtain ⟨memory', made, rebuilt⟩ := borrow_colours linked nodup q_eq p_eq outer_red inner_red
          refine ⟨memory', _, above, made, rebuilt, redBlack_red.mpr
            ⟨⟨outer_red, outer_redBlack⟩, inner_red, inner_redBlack⟩, accepts, ?_, ?_⟩
          · cases dir <;> cases last <;> simp [before, join, labels, Side.other]
          · cases dir <;> cases last <;> simp [after, join, labels, Side.other]

theorem top_owner {frames : List (Frame ℕ)} {sub : Tree ℕ}
    (linked : Linked memory (plug (frames ++ [headFrame]) sub)) :
    ∃ owner others node, frames ++ [headFrame] = owner :: others ∧
      memory (top head frames) = some node ∧ node.link (turn frames) = ptr sub ∧
      node.link (turn frames).other = ptr owner.sibling ∧
      owner.label = top head frames ∧ owner.side = turn frames := by
  obtain ⟨owner, others, split, label_eq, side_eq⟩ := exists_owner frames
  have path := (linked_plug.mp linked).2
  rw [split] at path
  obtain ⟨-, node, here, -, below_eq, sibling_eq⟩ := path.1
  exact ⟨owner, others, node, split, label_eq ▸ here, side_eq ▸ below_eq, side_eq ▸ sibling_eq,
    label_eq, side_eq⟩

/-- Where the walk stands after a pass. -/
structure Pushes (walk walk' : Pursuit α) (frames frames' : List (Frame ℕ)) (sub : Tree ℕ) :
    Prop where
  rebuilt : Rebuilt (plug (frames ++ [headFrame]) sub) (plug (frames' ++ [headFrame]) sub)
    walk.memory walk'.memory
  place : SamePlace frames frames'
  follows : Follows walk' frames' sub
  f : walk'.f = walk.f

theorem pushRed_pushes {walk : Pursuit α} {frames : List (Frame ℕ)} {dir : Side} {q : ℕ} {red : Int}
    {child sibling : Tree ℕ}
    (linked : Linked walk.memory (plug (⟨dir, q, red, sibling⟩ :: frames ++ [headFrame]) child))
    (nodup : (plug (⟨dir, q, red, sibling⟩ :: frames ++ [headFrame]) child).Nodup)
    (q_eq : walk.q = q) (p_eq : walk.p = top head frames)
    (g_eq : frames ≠ [] → walk.g = top head frames.tail) (dir_eq : walk.dir = dir)
    (balanced : ∃ height, child.RedBlack height ∧ Accepts (⟨dir, q, red, sibling⟩ :: frames) height ∧
      ¬(child.IsRed ∧ EndsRed (⟨dir, q, red, sibling⟩ :: frames)))
    (pushed : EndsRed frames ∨ red = 1 ∨ frames = [] ∨
      ∃ frame, frames = [frame] ∧ ¬frame.sibling.IsRed) :
    ∃ walk' frames', pushRed walk (turn frames) = some walk' ∧
      Pushes walk walk' (⟨dir, q, red, sibling⟩ :: frames) frames' child := by
  obtain ⟨child_linked, ⟨q_ne, node, here, red_eq, child_eq, sibling_eq⟩, sibling_linked, -⟩ :=
    linked_plug.mp linked
  have linked' : Linked walk.memory (plug (frames ++ [headFrame]) (join dir q red child sibling)) :=
    linked
  have nodup' : (plug (frames ++ [headFrame]) (join dir q red child sibling)).Nodup := nodup
  have stay : Follows walk (⟨dir, q, red, sibling⟩ :: frames) child →
      Pushes walk walk (⟨dir, q, red, sibling⟩ :: frames) (⟨dir, q, red, sibling⟩ :: frames) child :=
    fun follows => ⟨Rebuilt.refl linked, ⟨rfl, rfl⟩, follows, rfl⟩
  have q_red : isRed walk.memory q = some (decide (red = 1)) := by
    rw [isRed, if_neg q_ne, here]
    simp [red_eq, beq_eq_decide]
  have child_red := child_linked.isRed
  have sibling_red := sibling_linked.isRed
  rw [← child_eq] at child_red
  rw [← sibling_eq] at sibling_red
  by_cases at_hand : red = 1 ∨ child.IsRed
  · refine ⟨walk, _, ?_, stay ⟨q_eq, fun _ => p_eq, dir_eq, balanced, ?_⟩⟩
    · have test : ¬(!decide (red = 1) && !decide child.IsRed) = true := by
        rcases at_hand with red | red <;> simp [red]
      simp only [pushRed, q_eq, dir_eq, here, q_red, child_red, bind, Option.bind_some, test]
      rfl
    · rcases at_hand with red | red
      · exact .inl red
      · exact .inr (.inl red)
  · obtain ⟨red_ne, child_black⟩ := not_or.mp at_hand
    obtain ⟨height, child_redBlack, ⟨sibling_redBlack, ⟨red, -⟩ | ⟨black, accepts⟩⟩, -⟩ := balanced
    · exact absurd red red_ne
    · obtain rfl : red = 0 := black
      have test : (!decide ((0 : Int) = 1) && !decide child.IsRed) = true := by simp [child_black]
      obtain ⟨owner, others, above, split, above_eq, -, link_eq, owner_eq, turn_eq⟩ :=
        top_owner linked'
      by_cases sibling_is_red : sibling.IsRed
      · -- the other child goes up, and the node becomes red
        cases sibling with
        | nil => exact absurd sibling_is_red not_isRed_nil
        | node a colour left right =>
            obtain ⟨outer, inner, shape⟩ := exists_side dir.other a colour left right
            rw [shape] at linked' nodup' sibling_redBlack sibling_is_red sibling_red ⊢
            obtain rfl : colour = 1 := isRed_join.mp sibling_is_red
            obtain ⟨⟨outer_black, outer_redBlack⟩, inner_black, inner_redBlack⟩ :=
              redBlack_red.mp sibling_redBlack
            rw [← join_other dir q, split] at linked' nodup'
            obtain ⟨memory₁, rotated, rebuilt⟩ :=
              single_rebuilt (linked_plug.mp linked').1 (nodup_plug nodup').1
            rw [other_other] at rotated
            obtain ⟨memory₂, hung, rebuilt'⟩ := rebuilt.hung linked' nodup'
            rw [ptr_join, owner_eq, turn_eq, ← p_eq] at hung
            rw [← split, join_other dir q 0, join_other dir a 0, join_other dir q 1] at rebuilt'
            refine ⟨{ walk with p := a, memory := memory₂ },
              ⟨dir, q, 1, inner⟩ :: ⟨dir, a, 0, outer⟩ :: frames, ?_, ⟨rebuilt', ⟨?_, ?_⟩,
                ⟨q_eq, fun _ => rfl, dir_eq, ⟨height, child_redBlack, ⟨inner_redBlack, .inl
                  ⟨rfl, inner_black, by simp [EndsRed], outer_redBlack, .inr ⟨rfl, accepts⟩⟩⟩,
                  fun both => child_black both.1⟩, .inl rfl⟩, rfl⟩⟩
            · simp only [pushRed, q_eq, dir_eq, here, q_red, child_red, bind, Option.bind_some, test,
                if_true, sibling_red, sibling_is_red, decide_true, rotated, hung]
              rfl
            · cases dir <;> simp [before, join, labels, Side.other]
            · cases dir <;> simp [after, join, labels, Side.other]
      · have sibling_test : ¬decide sibling.IsRed = true := by simpa using sibling_is_red
        cases frames with
        | nil =>
            -- the root has black children
            obtain ⟨rfl, -⟩ := List.cons.inj split
            refine ⟨walk, _, ?_, stay ⟨q_eq, fun _ => p_eq, dir_eq, ⟨height, child_redBlack,
              ⟨sibling_redBlack, .inr ⟨rfl, accepts⟩⟩, fun both => child_black both.1⟩,
              .inr (.inr (.inr ⟨_, rfl, sibling_is_red⟩))⟩⟩
            have none : above.link (turn []).other = 0 := link_eq
            simp only [pushRed, q_eq, dir_eq, here, q_red, child_red, bind, Option.bind_some, test,
              if_true, sibling_red, sibling_test, p_eq, above_eq, none]
            rfl
        | cons first frames =>
            obtain ⟨last, p, red, uncle⟩ := first
            obtain ⟨uncle_redBlack, around⟩ := accepts
            obtain ⟨rfl, -⟩ := List.cons.inj split
            have near : ¬uncle.IsRed ∧ ¬EndsRed frames ∧ Accepts frames (height + 1) := by
              rcases around with ⟨-, uncle_black, ends, rest⟩ | ⟨black, rest⟩
              · exact ⟨uncle_black, ends, rest⟩
              · rcases pushed with red | red | empty | ⟨frame, single, uncle_black⟩
                · exact absurd (black.symm.trans red) (by decide)
                · exact absurd red (by decide)
                · cases empty
                · obtain ⟨rfl, rfl⟩ := List.cons.inj single
                  exact ⟨uncle_black, id, trivial⟩
            obtain ⟨memory', uncle', above', made, rebuilt, uncle_redBlack', accepts', place⟩ :=
              borrow_rebuilt linked nodup q_eq p_eq (g_eq (List.cons_ne_nil _ _)) uncle_redBlack
                near.1 near.2.2 near.2.1
            refine ⟨{ walk with memory := memory' }, _, ?_, ⟨rebuilt, place, ⟨q_eq, fun _ => p_eq,
              dir_eq, ⟨height, child_redBlack, ⟨sibling_redBlack, .inl ⟨rfl, sibling_is_red,
                by simp [EndsRed], uncle_redBlack', .inr ⟨rfl, accepts'⟩⟩⟩,
                fun both => child_black both.1⟩, .inl rfl⟩, rfl⟩⟩
            have uncle_ne : ptr uncle ≠ 0 := by
              cases uncle with
              | nil => exact absurd uncle_redBlack (Nat.succ_ne_zero height)
              | node s colour left right =>
                  obtain ⟨-, -, -, -, uncle_linked, -⟩ := linked_plug.mp linked
                  exact uncle_linked.1.1
            simp only [pushRed, q_eq, dir_eq, here, q_red, child_red, bind, Option.bind_some, test,
              if_true, sibling_red, sibling_test, p_eq, above_eq, link_eq]
            rw [if_pos uncle_ne]
            simp [turn, made]

/-! ## The place of the data -/

/-- The nodes with less than the data, and the others, of which only the first may have it. -/
structure Parted (cmp : α → α → Int) (data : α) (memory : RbMemory α) (lows uppers : List ℕ) :
    Prop where
  below : ∀ a ∈ lows, ∃ found, dataAt memory a = some found ∧ cmp found data < 0
  upper : ∀ a ∈ uppers, ∃ found, dataAt memory a = some found ∧ 0 ≤ cmp found data
  above : ∀ a ∈ uppers.tail, ∃ found, dataAt memory a = some found ∧ 0 < cmp found data

/-- The place between the parts is below the end of the path. -/
def Place (lows uppers : List ℕ) (frames : List (Frame ℕ)) (sub : Tree ℕ) : Prop :=
  ∃ left right, sub.labels = left ++ right ∧ before frames ++ left = lows ∧
    right ++ after frames = uppers

/-- The node found among those on the right of the path. -/
def Finds (cmp : α → α → Int) (data : α) (memory : RbMemory α) (frames : List (Frame ℕ))
    (f : ℕ) : Prop :=
  (f = 0 ∧ ∀ a ∈ after frames, ∀ found, dataAt memory a = some found → cmp found data ≠ 0) ∨
    f ∈ after frames ∧ ∃ found, dataAt memory f = some found ∧ cmp found data = 0

variable {lows uppers : List ℕ} {frames frames' : List (Frame ℕ)}

theorem SamePlace.place {sub : Tree ℕ} (same : SamePlace frames frames')
    (place : Place lows uppers frames sub) : Place lows uppers frames' sub := by
  rw [Place, same.1, same.2]
  exact place

theorem SamePlace.finds {f : ℕ} (same : SamePlace frames frames')
    (finds : Finds cmp data memory frames f) : Finds cmp data memory frames' f := by
  rw [Finds, same.2]
  exact finds

theorem split_middle {left right lower upper : List ℕ} {a : ℕ}
    (same : lower ++ a :: upper = left ++ right) :
    (∃ rest, left = lower ++ a :: rest ∧ upper = rest ++ right) ∨
      ∃ rest, lower = left ++ rest ∧ right = rest ++ a :: upper := by
  rcases List.append_eq_append_iff.mp same with ⟨rest, rfl, tail⟩ | ⟨rest, rfl, tail⟩
  · cases rest with
    | nil => exact .inr ⟨[], by simp, tail.symm⟩
    | cons b rest =>
        obtain ⟨rfl, rfl⟩ := List.cons.inj tail
        exact .inl ⟨rest, rfl, rfl⟩
  · exact .inr ⟨rest, rfl, tail⟩

/-- The walk keeps the place below it, and the data among the nodes that it has on its right. -/
theorem Parted.down {side : Side} {a f : ℕ} {red : Int} {child sibling : Tree ℕ} {found : α}
    (parted : Parted cmp data memory lows uppers)
    (place : Place lows uppers frames (join side a red child sibling))
    (finds : Finds cmp data memory frames f) (data_eq : dataAt memory a = some found)
    (side_eq : side = dirOf (cmp found data)) :
    Place lows uppers (⟨side, a, red, sibling⟩ :: frames) child ∧
      Finds cmp data memory (⟨side, a, red, sibling⟩ :: frames)
        (if cmp found data = 0 then a else f) := by
  obtain ⟨left, right, labels_eq, low_eq, upper_eq⟩ := place
  by_cases low : cmp found data < 0
  · rw [dirOf, if_pos low] at side_eq
    subst side_eq
    rcases split_middle labels_eq with ⟨rest, rfl, child_eq⟩ | ⟨rest, sibling_eq, rfl⟩
    · refine ⟨⟨rest, right, child_eq, ?_, upper_eq⟩, ?_⟩
      · rw [← low_eq]
        simp [before]
      · rw [if_neg low.ne]
        exact finds
    · obtain ⟨found', data_eq', high⟩ := parted.upper a (by rw [← upper_eq]; simp)
      obtain rfl := Option.some.inj (data_eq.symm.trans data_eq')
      omega
  · rw [dirOf, if_neg low] at side_eq
    subst side_eq
    rcases split_middle labels_eq with ⟨rest, rfl, sibling_eq⟩ | ⟨rest, child_eq, rfl⟩
    · obtain ⟨found', data_eq', low'⟩ := parted.below a (by rw [← low_eq]; simp)
      obtain rfl := Option.some.inj (data_eq.symm.trans data_eq')
      exact absurd low' low
    · refine ⟨⟨left, rest, child_eq, by simpa [before] using low_eq, ?_⟩, ?_⟩
      · rw [← upper_eq]
        simp [after]
      · by_cases same : cmp found data = 0
        · rw [if_pos same]
          exact .inr ⟨by simp [after], found, data_eq, same⟩
        · rw [if_neg same]
          rcases finds with ⟨f_eq, none⟩ | ⟨inside, some⟩
          · refine .inl ⟨f_eq, fun b among found' data_eq' same' => ?_⟩
            rcases List.mem_append.mp among with among | among
            · rcases List.mem_cons.mp among with rfl | among
              · obtain rfl := Option.some.inj (data_eq.symm.trans data_eq')
                exact same same'
              · -- a node after another one in the upper part
                have later : b ∈ uppers.tail := by
                  rw [← upper_eq]
                  cases rest <;> simp [among]
                obtain ⟨found'', data_eq'', above⟩ := parted.above b later
                obtain rfl := Option.some.inj (data_eq'.symm.trans data_eq'')
                omega
            · exact none b among found' data_eq' same'
          · exact .inr ⟨List.mem_append_right _ inside, some⟩

/-! ## The loop -/

/-- Between the passes of the loop. -/
structure Chase (cmp : α → α → Int) (data : α) (memory₀ : RbMemory α) (tree₀ : Tree ℕ)
    (lows uppers : List ℕ) (walk : Pursuit α) (frames : List (Frame ℕ)) (sub : Tree ℕ) : Prop where
  rebuilt : Rebuilt (plug [headFrame] tree₀) (plug (frames ++ [headFrame]) sub) memory₀ walk.memory
  nodup : (plug (frames ++ [headFrame]) sub).Nodup
  follows : Follows walk frames sub
  place : Place lows uppers frames sub
  finds : Finds cmp data memory₀ frames walk.f

theorem Chase.step {fuel a : ℕ} {red : Int} {left right : Tree ℕ} {walk : Pursuit α}
    (parted : Parted cmp data memory₀ lows uppers)
    (chase : Chase cmp data memory₀ tree₀ lows uppers walk frames (.node a red left right)) :
    ∃ walk' frames' sub, eraseFrom cmp data (fuel + 1) walk = eraseFrom cmp data fuel walk' ∧
      Chase cmp data memory₀ tree₀ lows uppers walk' frames' sub ∧
      sub.labels.length ≤ left.labels.length + right.labels.length := by
  obtain ⟨rebuilt, nodup, ⟨q_eq, p_eq, dir_eq, balanced, pushed⟩, place, finds⟩ := chase
  have linked := rebuilt.linked
  obtain ⟨-, -, above, -, above_eq, next_eq, -⟩ := top_owner linked
  obtain ⟨⟨a_ne, node, here, -⟩, -⟩ := (linked_plug.mp linked).1
  have data_eq : dataAt memory₀ a = some node.data := by
    rw [← rebuilt.data, dataAt, here]
    rfl
  obtain ⟨child, sibling, shape⟩ := exists_side (dirOf (cmp node.data data)) a red left right
  have size : child.labels.length ≤ left.labels.length + right.labels.length := by
    obtain ⟨-, -, ⟨rfl, rfl⟩ | ⟨rfl, rfl⟩⟩ := node_eq_join shape
    · exact Nat.le_add_right _ _
    · exact Nat.le_add_left _ _
  rw [shape] at rebuilt nodup balanced pushed place linked
  obtain ⟨place', finds'⟩ := parted.down place finds data_eq rfl
  let next : Pursuit α := { walk with
    q := a
    p := walk.q
    g := walk.p
    f := if cmp node.data data = 0 then a else walk.f
    dir := dirOf (cmp node.data data) }
  obtain ⟨walk', frames', pushed', pushes⟩ := @pushRed_pushes _ next _ _ _ _ _ _ linked nodup rfl
    q_eq p_eq rfl (redBlack_cons.mp balanced) (by simpa using pushed)
  refine ⟨walk', frames', child, ?_, ⟨rebuilt.trans pushes.rebuilt, pushes.rebuilt.nodup nodup,
    pushes.follows, pushes.place.place place', pushes.f ▸ pushes.place.finds finds'⟩, size⟩
  rw [ptr_node] at next_eq
  simp only [eraseFrom, q_eq, dir_eq, above_eq, next_eq, if_neg a_ne, here, bind, Option.bind_some]
  rw [← q_eq, pushed']
  rfl

/-- The loop comes to the end of a path. -/
theorem eraseFrom_ends {sub : Tree ℕ} {walk : Pursuit α}
    (parted : Parted cmp data memory₀ lows uppers)
    (chase : Chase cmp data memory₀ tree₀ lows uppers walk frames sub) {fuel : ℕ}
    (enough : sub.labels.length < fuel) :
    ∃ walk' frames', eraseFrom cmp data fuel walk = some walk' ∧
      Chase cmp data memory₀ tree₀ lows uppers walk' frames' .nil := by
  induction fuel generalizing sub walk frames with
  | zero => exact absurd enough (Nat.not_lt_zero _)
  | succ fuel induction =>
      cases sub with
      | nil =>
          obtain ⟨-, -, above, -, above_eq, next_eq, -⟩ := top_owner chase.rebuilt.linked
          refine ⟨walk, frames, ?_, chase⟩
          rw [ptr_nil] at next_eq
          simp [eraseFrom, chase.follows.q, chase.follows.dir, above_eq, next_eq]
      | node a red left right =>
          obtain ⟨walk', frames', sub, pass, chase', size⟩ := chase.step parted
          rw [pass]
          refine induction chase' ?_
          simp only [labels, List.length_append, List.length_cons] at enough
          omega

/-! ## The end of the removal -/

theorem Chase.labels_eq {sub : Tree ℕ} {walk : Pursuit α}
    (chase : Chase cmp data memory₀ tree₀ lows uppers walk frames sub) :
    (plug frames sub).labels = tree₀.labels := by
  have labels := chase.rebuilt.labels
  rw [plug_append] at labels
  simpa [labels_plug, before, after, headFrame] using labels

theorem Linked.setData {tree : Tree ℕ} {a : ℕ} {new : α} {memory' : RbMemory α}
    (linked : Linked memory tree) (made : setData memory a new = some memory') :
    Linked memory' tree := by
  obtain ⟨old, here, rfl⟩ := Option.map_eq_some_iff.mp made
  have kept : ∀ {side b red child sibling}, Holds memory side b red child sibling →
      Holds (Function.update memory a (some { old with data := new })) side b red child sibling := by
    rintro side b red child sibling ⟨ne, node, here', red_eq, child_eq, sibling_eq⟩
    by_cases same : b = a
    · subst same
      obtain rfl := Option.some.inj (here.symm.trans here')
      exact ⟨ne, _, Function.update_self .., red_eq, child_eq, sibling_eq⟩
    · exact ⟨ne, node, (Function.update_of_ne same ..).trans here', red_eq, child_eq, sibling_eq⟩
  induction tree with
  | nil => trivial
  | node b red left right leftInduction rightInduction =>
      exact ⟨kept linked.1, leftInduction linked.2.1, rightInduction linked.2.2⟩

/-- At the end the walk stands at a leaf, whose removal leaves a red-black tree. -/
theorem Follows.leaf {walk : Pursuit α} (follows : Follows walk frames .nil) (ne : frames ≠ []) :
    ∃ side red rest, frames = ⟨side, walk.q, red, .nil⟩ :: rest ∧ walk.p = top head rest ∧
      ∃ height, (plug rest .nil).RedBlack height := by
  cases frames with
  | nil => exact absurd rfl ne
  | cons first rest =>
      obtain ⟨side, q, red, sibling⟩ := first
      have q_eq : walk.q = q := follows.q
      obtain ⟨height, rfl, ⟨sibling_redBlack, around⟩, -⟩ := follows.balanced
      have empty : ¬sibling.IsRed → sibling = .nil := by
        intro black
        cases sibling with
        | nil => rfl
        | node a colour left right =>
            rcases sibling_redBlack with ⟨is_red, -⟩ | ⟨-, lower, zero, -⟩
            · exact absurd is_red black
            · exact absurd zero.symm (Nat.succ_ne_zero lower)
      have leaf : sibling = .nil ∧ ∃ height, (plug rest .nil).RedBlack height := by
        rcases around with ⟨-, black, ends, accepts⟩ | ⟨black, accepts⟩
        · exact ⟨empty black, redBlack_plug.mpr ⟨0, rfl, accepts, fun both => ends both.2⟩⟩
        · rcases follows.pushed with is_red | is_red | none | ⟨frame, single, sibling_black⟩
          · exact absurd (black.symm.trans is_red) (by decide)
          · exact absurd is_red not_isRed_nil
          · cases none
          · obtain ⟨rfl, rfl⟩ := List.cons.inj single
            exact ⟨empty sibling_black, 0, rfl⟩
      obtain ⟨rfl, redBlack⟩ := leaf
      exact ⟨side, red, rest, by rw [q_eq], follows.p (List.cons_ne_nil _ _), redBlack⟩

/-- The leaf is hung off and released, and its data goes to the found node. -/
theorem takeOut_linked {walk : Pursuit α} {side : Side} {red : Int} {path : List (Frame ℕ)}
    (linked : Linked walk.memory (plug (⟨side, walk.q, red, .nil⟩ :: path ++ [headFrame]) .nil))
    (nodup : (plug (⟨side, walk.q, red, .nil⟩ :: path ++ [headFrame]) .nil).Nodup)
    (p_eq : walk.p = top head path)
    (inside : walk.f ∈ plug (⟨side, walk.q, red, .nil⟩ :: path ++ [headFrame]) .nil) :
    ∃ found leaf memory', dataAt walk.memory walk.f = some found ∧
      dataAt walk.memory walk.q = some leaf ∧ takeOut walk = some (found, memory') ∧
      Linked memory' (plug (path ++ [headFrame]) .nil) ∧ memory' walk.q = none ∧
      (walk.f ≠ walk.q → dataAt memory' walk.f = some leaf) ∧
      (∀ a, a ≠ walk.f → a ≠ walk.q → dataAt memory' a = dataAt walk.memory a) ∧
      ∀ a, a ∉ plug (⟨side, walk.q, red, .nil⟩ :: path ++ [headFrame]) .nil →
        memory' a = walk.memory a := by
  obtain ⟨node, here⟩ := linked.allocated inside
  obtain ⟨-, ⟨q_ne, leaf, leaf_eq, -, below_eq, beside_eq⟩, -⟩ := linked_plug.mp linked
  have empty : ∀ side, leaf.link side = 0 := by
    intro side'
    by_cases toward : side' = side
    · rw [toward]
      exact below_eq
    · rw [eq_other_of_ne (Ne.symm toward)]
      exact beside_eq
  -- the data goes to the found node
  obtain ⟨memory₁, first⟩ : ∃ memory₁, setData walk.memory walk.f leaf.data = some memory₁ :=
    ⟨_, by rw [setData, here]; rfl⟩
  have linked₁ := linked.setData first
  have memory₁_eq : memory₁ = Function.update walk.memory walk.f
      (some { node with data := leaf.data }) := by
    rw [setData, here] at first
    exact (Option.some.inj first).symm
  -- the leaf is hung off
  obtain ⟨owner, others, split, owner_eq, -⟩ := exists_owner path
  rw [List.cons_append, split] at linked₁ nodup inside ⊢
  obtain ⟨-, -, -, path₁⟩ := linked_plug.mp linked₁
  obtain ⟨-, label_sibling, label_path⟩ := label_apart (show (plug (owner :: others)
    (join side walk.q red .nil .nil)).Nodup from nodup)
  have q_apart := (nodup_plug (show (plug (owner :: others)
    (join side walk.q red .nil .nil)).Nodup from nodup)).2 walk.q (mem_join.mpr (.inl rfl))
  obtain ⟨-, above, above_eq, -⟩ := id path₁.1
  have side_eq : sideOf above walk.q = owner.side :=
    path₁.1.sideOf_eq q_ne (fun among => q_apart ⟨owner, .head _, .inr among⟩) above_eq
  obtain ⟨memory₂, second, linked₂, data₂, other₂⟩ :=
    @setLink_path _ _ owner others walk.q .nil path₁ trivial
      ⟨not_mem_nil _, label_sibling, label_path⟩
  have q_out : walk.q ∉ plug (owner :: others) .nil := by
    rw [mem_plug]
    exact not_or.mpr ⟨not_mem_nil _, q_apart⟩
  refine ⟨node.data, leaf.data, Function.update memory₂ walk.q none, by rw [dataAt, here]; rfl,
    by rw [dataAt, leaf_eq]; rfl, ?_, linked₂.congr fun a among => Function.update_of_ne ?_ _ _,
    Function.update_self .., fun different => ?_, fun a differ_f differ_q => ?_, fun a out => ?_⟩
  · rw [ptr_nil] at second
    simp only [takeOut, here, leaf_eq, first, p_eq, ← owner_eq, above_eq, side_eq, empty, second,
      bind, Option.bind_some]
    rfl
  · rintro rfl
    exact q_out among
  · rw [dataAt, Function.update_of_ne different, ← dataAt, data₂, memory₁_eq, dataAt,
      Function.update_self]
    rfl
  · rw [dataAt, Function.update_of_ne differ_q, ← dataAt, data₂, memory₁_eq, dataAt,
      Function.update_of_ne differ_f, dataAt]
  · have out_q : a ≠ walk.q := by
      rintro rfl
      exact out (mem_plug.mpr (.inr ⟨_, .head _, .inl rfl⟩))
    have out_owner : a ≠ owner.label := by
      rintro rfl
      exact out (mem_plug.mpr (.inr ⟨owner, .tail _ (.head _), .inl rfl⟩))
    rw [Function.update_of_ne out_q, other₂ a out_owner, memory₁_eq, Function.update_of_ne]
    rintro rfl
    exact out inside

/-- What the exchange of the found node and the leaf leaves. -/
structure TakenOut (memory₀ : RbMemory α) (tree₀ : Tree ℕ) (kept : List ℕ) (q : ℕ)
    (memory' : RbMemory α) (tree' : Tree ℕ) : Prop where
  linked : Linked memory' (plug [headFrame] tree')
  nodup : tree'.Nodup
  balanced : ∃ height, tree'.RedBlack height
  data : tree'.labels.map (dataAt memory') = kept.map (dataAt memory₀)
  inside : ∀ a, a ∈ tree₀ ↔ a ∈ tree' ∨ a = q
  removed : q ∉ tree' ∧ memory' q = none
  outside : ∀ a, a ∉ plug [headFrame] tree₀ → memory' a = memory₀ a

theorem takeOut_takenOut {walk : Pursuit α} (parted : Parted cmp data memory₀ lows uppers)
    (chase : Chase cmp data memory₀ tree₀ lows uppers walk frames .nil) (ne : tree₀ ≠ .nil)
    (f_ne : walk.f ≠ 0) :
    ∃ found memory' tree' rest, takeOut walk = some (found, memory') ∧ uppers = walk.f :: rest ∧
      dataAt memory₀ walk.f = some found ∧ cmp found data = 0 ∧
      TakenOut memory₀ tree₀ (lows ++ rest) walk.q memory' tree' := by
  obtain ⟨left, right, labels_eq, low_eq, upper_eq⟩ := chase.place
  obtain ⟨rfl, rfl⟩ := List.append_eq_nil_iff.mp labels_eq.symm
  simp only [List.append_nil, List.nil_append] at low_eq upper_eq
  have whole := chase.labels_eq
  have frames_ne : frames ≠ [] := by
    rintro rfl
    cases tree₀ with
    | nil => exact ne rfl
    | node => simp [plug, labels] at whole
  obtain ⟨side, red, path, rfl, p_eq, balanced⟩ := chase.follows.leaf frames_ne
  -- the found node is the first one that is not before the data
  obtain ⟨rest, uppers_eq, found, data_eq, same⟩ : ∃ rest, uppers = walk.f :: rest ∧
      ∃ found, dataAt memory₀ walk.f = some found ∧ cmp found data = 0 := by
    rcases chase.finds with ⟨zero, -⟩ | ⟨inside, found, data_eq, same⟩
    · exact absurd zero f_ne
    · rw [upper_eq] at inside
      cases uppers with
      | nil => cases inside
      | cons first rest =>
          rcases List.mem_cons.mp inside with rfl | later
          · exact ⟨rest, rfl, found, data_eq, same⟩
          · obtain ⟨found', data_eq', above⟩ := parted.above _ later
            obtain rfl := Option.some.inj (data_eq.symm.trans data_eq')
            exact absurd same above.ne'
  have kept : tree₀.labels = lows ++ walk.f :: rest := by
    rw [← whole, labels_plug, low_eq, upper_eq, uppers_eq]
    simp [labels]
  have inside : walk.f ∈ plug (⟨side, walk.q, red, .nil⟩ :: path ++ [headFrame]) .nil := by
    rw [chase.rebuilt.mem_iff, plug, plug, mem_join, mem_def, kept]
    simp
  obtain ⟨found', leaf, memory', found_eq, leaf_eq, made, linked, q_none, f_data, other, outside⟩ :=
    takeOut_linked chase.rebuilt.linked chase.nodup p_eq inside
  rw [chase.rebuilt.data] at found_eq leaf_eq
  obtain rfl := Option.some.inj (data_eq.symm.trans found_eq)
  have whole_nodup : (plug (⟨side, walk.q, red, .nil⟩ :: path) .nil).Nodup := by
    have nodup := chase.nodup
    rw [plug_append] at nodup
    exact (nodup_plug nodup).1
  have nodup : (lows ++ walk.f :: rest).Nodup := by
    rw [← kept, ← whole]
    exact whole_nodup
  obtain ⟨f_apart, -⟩ := List.nodup_cons.mp (List.nodup_middle.mp nodup)
  refine ⟨found, memory', plug path .nil, rest, made, uppers_eq, data_eq, same,
    ⟨by rwa [← plug_append], ?_, balanced, ?_, ?_, ⟨?_, q_none⟩, ?_⟩⟩
  · have less : (plug path .nil).labels.Sublist
        (plug (⟨side, walk.q, red, .nil⟩ :: path) .nil).labels := by
      rw [plug, labels_plug, labels_plug]
      exact (List.nil_sublist _).append_left _ |>.append_right _
    exact less.nodup whole_nodup
  · rw [labels_plug]
    cases side with
    | left =>
        simp only [before, after, uppers_eq, List.append_nil, List.cons_append, List.nil_append,
          List.cons.injEq, labels] at low_eq upper_eq ⊢
        obtain ⟨q_eq, rfl⟩ := upper_eq
        subst low_eq
        refine List.map_congr_left fun a among => ?_
        have differ : a ≠ walk.f := ne_of_mem_of_not_mem among f_apart
        rw [other a differ (q_eq ▸ differ), chase.rebuilt.data]
    | right =>
        simp only [before, after, uppers_eq, List.append_nil, List.nil_append, labels]
          at low_eq upper_eq ⊢
        subst low_eq
        rw [upper_eq]
        simp only [List.append_assoc, List.singleton_append, List.map_append, List.map_cons]
        have others : ∀ a ∈ before path ++ rest, dataAt memory' a = dataAt memory₀ a := by
          intro a among
          have differ : a ≠ walk.f := by
            rintro rfl
            exact f_apart (by simpa using (List.mem_append.mp among).imp_right .inr)
          have differ' : a ≠ walk.q := by
            rintro rfl
            exact (List.nodup_cons.mp (List.nodup_middle.mp (by simpa using nodup))).1
              (by simpa using (List.mem_append.mp among).imp_right .inr)
          rw [other a differ differ', chase.rebuilt.data]
        have f_ne_q : walk.f ≠ walk.q := by
          rintro same
          exact f_apart (by simp [same])
        rw [f_data f_ne_q, leaf_eq,
          List.map_congr_left fun a among => others a (List.mem_append_left _ among),
          List.map_congr_left fun a among => others a (List.mem_append_right _ among)]
  · intro a
    rw [mem_def, ← whole, ← mem_def, plug, mem_plug, mem_plug, mem_join]
    simp only [not_mem_nil, or_false, false_or]
    exact or_comm
  · rw [mem_plug]
    exact not_or.mpr ⟨not_mem_nil _, (nodup_plug (show (plug path
      (join side walk.q red .nil .nil)).Nodup from whole_nodup)).2 _ (mem_join.mpr (.inl rfl))⟩
  · intro a out
    rw [outside a (mt chase.rebuilt.mem_iff.mp out)]
    exact chase.rebuilt.outside a out

end CommonLib.JswRbtree
