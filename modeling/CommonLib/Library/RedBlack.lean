import CommonLib.Library.BalancedTree

/-!
# Red-black trees

The trees and paths are those of `BalancedTree`; the number that a node stores is its colour, 1 for
red and 0 for black.  A path accepts a tree of a certain black height, and a red one if its last
node is black.
-/

namespace CommonLib.Tree

variable {α : Type*}

/-- The root is red. -/
def IsRed : Tree α → Prop
  | nil => False
  | node _ colour _ _ => colour = 1

instance (tree : Tree α) : Decidable tree.IsRed := by
  cases tree <;> unfold IsRed <;> infer_instance

@[simp] theorem not_isRed_nil : ¬(nil : Tree α).IsRed := id

@[simp] theorem isRed_join {side : Side} {label : α} {colour : Int} {child sibling : Tree α} :
    (join side label colour child sibling).IsRed ↔ colour = 1 := by
  cases side <;> rfl

/-- No red node has a red child, and so many black nodes stand on every path to a leaf. -/
def RedBlack : Tree α → ℕ → Prop
  | nil, height => height = 0
  | node _ colour left right, height =>
      colour = 1 ∧ ¬left.IsRed ∧ ¬right.IsRed ∧ left.RedBlack height ∧ right.RedBlack height ∨
        colour = 0 ∧ ∃ lower, height = lower + 1 ∧ left.RedBlack lower ∧ right.RedBlack lower

theorem redBlack_join {side : Side} {label : α} {colour : Int} {child sibling : Tree α}
    {height : ℕ} :
    (join side label colour child sibling).RedBlack height ↔
      colour = 1 ∧ ¬child.IsRed ∧ ¬sibling.IsRed ∧ child.RedBlack height ∧
          sibling.RedBlack height ∨
        colour = 0 ∧ ∃ lower, height = lower + 1 ∧ child.RedBlack lower ∧ sibling.RedBlack lower := by
  cases side with
  | left => rfl
  | right =>
      simp only [join, RedBlack]
      tauto

/-- Seen from either side, a red node has black children of its own black height. -/
theorem redBlack_red {side : Side} {label : α} {child sibling : Tree α} {height : ℕ} :
    (join side label 1 child sibling).RedBlack height ↔
      (¬child.IsRed ∧ child.RedBlack height) ∧ ¬sibling.IsRed ∧ sibling.RedBlack height := by
  rw [redBlack_join]
  simp only [true_and, one_ne_zero, false_and, or_false]
  tauto

/-- A black node has children of any colours. -/
theorem redBlack_black {side : Side} {label : α} {child sibling : Tree α} {height : ℕ} :
    (join side label 0 child sibling).RedBlack (height + 1) ↔
      child.RedBlack height ∧ sibling.RedBlack height := by
  rw [redBlack_join]
  simp

theorem RedBlack.colour {side : Side} {label : α} {colour : Int} {child sibling : Tree α}
    {height : ℕ} (tree : (join side label colour child sibling).RedBlack height) :
    colour = 1 ∨ colour = 0 ∧ 0 < height := by
  rcases redBlack_join.mp tree with ⟨red, -⟩ | ⟨black, lower, rfl, -⟩
  · exact .inl red
  · exact .inr ⟨black, Nat.succ_pos lower⟩

/-- A path on which the last node is red. -/
def EndsRed : List (Frame α) → Prop
  | [] => False
  | frame :: _ => frame.bf = 1

instance (frames : List (Frame α)) : Decidable (EndsRed frames) := by
  cases frames <;> unfold EndsRed <;> infer_instance

/-- The path accepts black trees of the given black height at its end. -/
def Accepts : List (Frame α) → ℕ → Prop
  | [], _ => True
  | frame :: frames, height =>
      frame.sibling.RedBlack height ∧
        (frame.bf = 1 ∧ ¬frame.sibling.IsRed ∧ ¬EndsRed frames ∧ Accepts frames height ∨
          frame.bf = 0 ∧ Accepts frames (height + 1))

/-- A node may stand at the end of a path if its child may do so at the end of a longer one. -/
theorem redBlack_cons {frame : Frame α} {frames : List (Frame α)} {tree : Tree α} :
    (∃ height, (join frame.side frame.label frame.bf tree frame.sibling).RedBlack height ∧
        Accepts frames height ∧
        ¬((join frame.side frame.label frame.bf tree frame.sibling).IsRed ∧ EndsRed frames)) ↔
      ∃ height, tree.RedBlack height ∧ Accepts (frame :: frames) height ∧
        ¬(tree.IsRed ∧ EndsRed (frame :: frames)) := by
  constructor
  · rintro ⟨height, joined, accepts, apart⟩
    rcases redBlack_join.mp joined with
      ⟨red, black, black', lower, lower'⟩ | ⟨black, height, rfl, lower, lower'⟩
    · refine ⟨height, lower, ⟨lower', .inl ⟨red, black', fun ends => ?_, accepts⟩⟩,
        fun both => black both.1⟩
      exact apart ⟨isRed_join.mpr red, ends⟩
    · refine ⟨height, lower, ⟨lower', .inr ⟨black, accepts⟩⟩, fun both => ?_⟩
      exact absurd (black.symm.trans both.2) (by decide)
  · rintro ⟨height, lower, ⟨lower', ⟨red, black', ends, accepts⟩ | ⟨black, accepts⟩⟩, apart⟩
    · refine ⟨height, redBlack_join.mpr (.inl ⟨red, fun red' => apart ⟨red', red⟩, black',
        lower, lower'⟩), accepts, fun both => ends both.2⟩
    · refine ⟨height + 1, redBlack_join.mpr (.inr ⟨black, height, rfl, lower, lower'⟩),
        accepts, fun both => ?_⟩
      exact absurd (black.symm.trans (isRed_join.mp both.1)) (by decide)

/-- A whole tree is red-black if the path accepts the tree at its end. -/
theorem redBlack_plug {frames : List (Frame α)} {tree : Tree α} :
    (∃ height, (plug frames tree).RedBlack height) ↔
      ∃ height, tree.RedBlack height ∧ Accepts frames height ∧
        ¬(tree.IsRed ∧ EndsRed frames) := by
  induction frames generalizing tree with
  | nil => simp [plug, Accepts, EndsRed]
  | cons frame frames induction =>
      rw [plug, induction]
      exact redBlack_cons

/-! ## Colours and rotations -/

/-- The tree with a root of another colour. -/
def recolour (colour : Int) : Tree α → Tree α
  | nil => nil
  | node label _ left right => node label colour left right

@[simp] theorem labels_recolour (colour : Int) (tree : Tree α) :
    (tree.recolour colour).labels = tree.labels := by
  cases tree <;> rfl

theorem recolour_join (side : Side) (label : α) (colour colour' : Int) (child sibling : Tree α) :
    (join side label colour child sibling).recolour colour' =
      join side label colour' child sibling := by
  cases side <;> rfl

/-- A red root may be made black. -/
theorem RedBlack.blacken {tree : Tree α} {height : ℕ} (redBlack : tree.RedBlack height) :
    ∃ height', (tree.recolour 0).RedBlack height' ∧ ¬(tree.recolour 0).IsRed := by
  cases tree with
  | nil => exact ⟨height, redBlack, id⟩
  | node label colour left right =>
      rcases redBlack with ⟨-, -, -, lower, lower'⟩ | ⟨-, lower, rfl, sub, sub'⟩
      · exact ⟨height + 1, .inr ⟨rfl, height, rfl, lower, lower'⟩, by simp [recolour, IsRed]⟩
      · exact ⟨lower + 1, .inr ⟨rfl, lower, rfl, sub, sub'⟩, by simp [recolour, IsRed]⟩

/-- A red tree becomes a black one that is higher by one. -/
theorem RedBlack.recolour_red {tree : Tree α} {height : ℕ} (redBlack : tree.RedBlack height)
    (red : tree.IsRed) :
    (tree.recolour 0).RedBlack (height + 1) ∧ ¬(tree.recolour 0).IsRed := by
  cases tree with
  | nil => exact absurd red not_isRed_nil
  | node label colour left right =>
      rcases redBlack with ⟨-, -, -, lower, lower'⟩ | ⟨black, -⟩
      · exact ⟨.inr ⟨rfl, height, rfl, lower, lower'⟩, by simp [recolour, IsRed]⟩
      · exact absurd (black.symm.trans red) (by decide)

/-- A rotation keeps the order of the nodes. -/
theorem labels_rotate (side : Side) (root next : α) (c₁ c₂ c₃ c₄ : Int)
    (outer inner light : Tree α) :
    (join side root c₁ (join side next c₂ outer inner) light).labels =
      (join side next c₃ outer (join side root c₄ inner light)).labels := by
  cases side <;> simp [join, labels]

/-- The number of nodes is exponential in the black height. -/
theorem RedBlack.two_pow_le {tree : Tree α} {height : ℕ} (redBlack : tree.RedBlack height) :
    2 ^ height ≤ tree.labels.length + 1 := by
  induction tree generalizing height with
  | nil =>
      obtain rfl : height = 0 := redBlack
      exact le_rfl
  | node label colour left right leftInduction rightInduction =>
      simp only [labels, List.length_append, List.length_cons]
      rcases redBlack with ⟨-, -, -, lower, lower'⟩ | ⟨-, height, rfl, lower, lower'⟩
      · have first := leftInduction lower
        omega
      · have first := leftInduction lower
        have second := rightInduction lower'
        rw [pow_succ]
        omega

/-- At most every other node of a path is red. -/
theorem RedBlack.height_le {tree : Tree α} {height : ℕ} (redBlack : tree.RedBlack height) :
    tree.height ≤ 2 * height + if tree.IsRed then 1 else 0 := by
  induction tree generalizing height with
  | nil => exact Nat.zero_le _
  | node label colour left right leftInduction rightInduction =>
      rcases redBlack with ⟨red, black, black', lower, lower'⟩ | ⟨black, height, rfl, lower, lower'⟩
      · have first := leftInduction lower
        have second := rightInduction lower'
        rw [if_neg black] at first
        rw [if_neg black'] at second
        rw [Tree.height, if_pos (show (node label colour left right).IsRed from red)]
        omega
      · have first := leftInduction lower
        have second := rightInduction lower'
        rw [Tree.height]
        split at first <;> split at second <;> omega

end CommonLib.Tree
