import Mathlib.Data.List.Nodup
import Mathlib.Data.Nat.Fib.Basic
import Mathlib.Tactic.Linarith

/-!
# Height-balanced trees with stored balance factors

Each node of a `Tree` stores a balance factor, which a `Balanced` tree has equal to the height of
its left subtree minus that of its right one.  A `Frame` is a node on a search path, together with
the subtree beside the path; `grow` and `shrink` walk up a path after its end has become one level
higher or lower.  Left and right cases are one case on a `Side`.
-/

namespace CommonLib

inductive Side
  | left
  | right
  deriving DecidableEq

namespace Side

def other : Side → Side
  | left => right
  | right => left

/-- The balance factor of a node which is one level higher on this side. -/
def sign : Side → Int
  | left => 1
  | right => -1

@[simp] theorem other_ne (side : Side) : side.other ≠ side := by cases side <;> decide

@[simp] theorem sign_other (side : Side) : side.other.sign = -side.sign := by cases side <;> rfl

theorem sign_eq (side : Side) : side.sign = 1 ∨ side.sign = -1 := by
  cases side with
  | left => exact .inl rfl
  | right => exact .inr rfl

end Side

inductive Tree (α : Type*)
  | nil
  | node (label : α) (bf : Int) (left right : Tree α)

namespace Tree

variable {α β : Type*}

/-! ## Nodes seen from a side -/

/-- The node with `child` on `side` and `sibling` on the other side. -/
def join (side : Side) (label : α) (bf : Int) (child sibling : Tree α) : Tree α :=
  match side with
  | .left => node label bf child sibling
  | .right => node label bf sibling child

/-- The parts of a node, the child on `side` first. -/
def split (side : Side) : Tree α → Option (α × Int × Tree α × Tree α)
  | nil => none
  | node label bf left right =>
      match side with
      | .left => some (label, bf, left, right)
      | .right => some (label, bf, right, left)

@[simp] theorem split_join (side : Side) (label : α) (bf : Int) (child sibling : Tree α) :
    (join side label bf child sibling).split side = some (label, bf, child, sibling) := by
  cases side <;> rfl

theorem join_other (side : Side) (label : α) (bf : Int) (child sibling : Tree α) :
    join side.other label bf child sibling = join side label bf sibling child := by
  cases side <;> rfl

/-- The labels from left to right. -/
def labels : Tree α → List α
  | nil => []
  | node label _ left right => left.labels ++ label :: right.labels

instance : Membership α (Tree α) := ⟨fun tree label => label ∈ tree.labels⟩

theorem mem_def {tree : Tree α} {label : α} : label ∈ tree ↔ label ∈ tree.labels := Iff.rfl

def root : Tree α → Option α
  | nil => none
  | node label _ _ _ => some label

def height : Tree α → Nat
  | nil => 0
  | node _ _ left right => max left.height right.height + 1

/-- The stored factors are the height differences, and no difference exceeds one. -/
def Balanced : Tree α → Prop
  | nil => True
  | node _ bf left right =>
      bf = left.height - right.height ∧ -1 ≤ bf ∧ bf ≤ 1 ∧ left.Balanced ∧ right.Balanced

@[simp] theorem not_mem_nil (label : α) : ¬ label ∈ (nil : Tree α) := List.not_mem_nil

@[simp] theorem mem_node {label root : α} {bf : Int} {left right : Tree α} :
    label ∈ node root bf left right ↔ label = root ∨ label ∈ left ∨ label ∈ right := by
  simp only [mem_def, labels, List.mem_append, List.mem_cons]
  exact or_left_comm

@[simp] theorem mem_join {side : Side} {label root : α} {bf : Int} {child sibling : Tree α} :
    label ∈ join side root bf child sibling ↔
      label = root ∨ label ∈ child ∨ label ∈ sibling := by
  cases side with
  | left => exact mem_node
  | right => exact mem_node.trans (or_congr_right or_comm)

@[simp] theorem root_join (side : Side) (label : α) (bf : Int) (child sibling : Tree α) :
    (join side label bf child sibling).root = some label := by
  cases side <;> rfl

@[simp] theorem height_join (side : Side) (label : α) (bf : Int) (child sibling : Tree α) :
    (join side label bf child sibling).height = max child.height sibling.height + 1 := by
  cases side with
  | left => rfl
  | right => rw [join, height, max_comm]

theorem balanced_join {side : Side} {label : α} {bf : Int} {child sibling : Tree α} :
    (join side label bf child sibling).Balanced ↔
      bf = side.sign * (child.height - sibling.height) ∧ -1 ≤ bf ∧ bf ≤ 1 ∧
        child.Balanced ∧ sibling.Balanced := by
  cases side with
  | left => simp [join, Balanced, Side.sign]
  | right =>
      simp only [join, Balanced, Side.sign, neg_one_mul, neg_sub]
      tauto

/-- The only child of a balanced node has no children of its own. -/
theorem eq_nil_of_only_child {side : Side} {label root : α} {bf bf' : Int} {left right : Tree α}
    (balanced : (join side label bf (node root bf' left right) nil).Balanced) :
    left = nil ∧ right = nil := by
  obtain ⟨bf_eq, low, high, -⟩ := balanced_join.mp balanced
  have low' : (node root bf' left right).height ≤ 1 := by
    rw [height] at bf_eq
    rcases side.sign_eq with sign | sign <;> rw [sign] at bf_eq <;> omega
  rw [height] at low'
  constructor
  · cases left with
    | nil => rfl
    | node => rw [height] at low'; omega
  · cases right with
    | nil => rfl
    | node => rw [height] at low'; omega

/-- No label occurs twice. -/
def Nodup (tree : Tree α) : Prop := tree.labels.Nodup

theorem nodup_join {side : Side} {label : α} {bf : Int} {child sibling : Tree α} :
    (join side label bf child sibling).Nodup ↔
      (¬ label ∈ child ∧ ¬ label ∈ sibling) ∧ (∀ a, a ∈ child → ¬ a ∈ sibling) ∧
        child.Nodup ∧ sibling.Nodup := by
  cases side with
  | left =>
      simp only [join, Nodup, labels, List.nodup_append, List.nodup_cons, mem_def, List.mem_cons]
      grind
  | right =>
      simp only [join, Nodup, labels, List.nodup_append, List.nodup_cons, mem_def, List.mem_cons]
      grind

theorem labels_join_bf (side : Side) (label : α) (bf bf' : Int) (child sibling : Tree α) :
    (join side label bf child sibling).labels = (join side label bf' child sibling).labels := by
  cases side <;> rfl

theorem root_mem {tree : Tree α} {label : α} (root_eq : tree.root = some label) : label ∈ tree := by
  cases tree with
  | nil => cases root_eq
  | node =>
      obtain rfl := Option.some.inj root_eq
      exact mem_node.mpr (.inl rfl)

/-- A tree with a level has a node, whichever side it is seen from. -/
theorem exists_join (side : Side) {tree : Tree α} (tall : 0 < tree.height) :
    ∃ label bf child sibling, tree = join side label bf child sibling := by
  cases tree with
  | nil => cases tall
  | node label bf left right =>
      cases side with
      | left => exact ⟨label, bf, left, right, rfl⟩
      | right => exact ⟨label, bf, right, left, rfl⟩

theorem eq_nil_of_root {tree : Tree α} (root_eq : tree.root = none) : tree = nil := by
  cases tree with
  | nil => rfl
  | node => cases root_eq

/-- A balanced tree of a given height has at least Fibonacci many nodes. -/
theorem Balanced.fib_le {tree : Tree α} (balanced : tree.Balanced) :
    Nat.fib (tree.height + 2) ≤ tree.labels.length + 1 := by
  induction tree with
  | nil => exact le_rfl
  | node label bf left right leftInduction rightInduction =>
      obtain ⟨bf_eq, low, high, leftBalanced, rightBalanced⟩ := balanced
      have leftCount := leftInduction leftBalanced
      have rightCount := rightInduction rightBalanced
      have low_le : Nat.fib (min left.height right.height + 2) ≥
          Nat.fib (max left.height right.height + 1) := Nat.fib_mono (by omega)
      have sum : Nat.fib (max left.height right.height + 1 + 2) =
          Nat.fib (max left.height right.height + 1) +
            Nat.fib (max left.height right.height + 2) := Nat.fib_add_two
      simp only [height, labels, List.length_append, List.length_cons, sum]
      rcases le_total left.height right.height with le | le
      · rw [max_eq_right le, min_eq_left le] at *
        omega
      · rw [max_eq_left le, min_eq_right le] at *
        omega

theorem height_le_length (tree : Tree α) : tree.height ≤ tree.labels.length := by
  induction tree with
  | nil => exact le_rfl
  | node label bf left right leftInduction rightInduction =>
      simp only [height, labels, List.length_append, List.length_cons]
      omega

/-! ## Images -/

/-! ## Rotations -/

/-- The single rotation which lifts `next` above `root`; `next` may be even, when a removal made
the node too low on the other side. -/
def single (side : Side) (root next : α) (bf : Int) (outer inner light : Tree α) : Tree α :=
  if bf = side.sign then join side next 0 outer (join side root 0 inner light)
  else join side next (-side.sign) outer (join side root side.sign inner light)

/-- The double rotation which lifts `top` above `next` and `root`. -/
def double (side : Side) (root next top : α) (bf : Int) (outer near far light : Tree α) : Tree α :=
  join side top 0
    (join side next (if bf = -side.sign then side.sign else 0) outer near)
    (join side root (if bf = side.sign then -side.sign else 0) far light)

/-- Rotate a node which is two levels higher on `side`, and tell whether it becomes lower. -/
def rotate (side : Side) (root : α) (heavy light : Tree α) : Option (Tree α × Bool) :=
  (heavy.split side).bind fun (next, bf, outer, inner) =>
    if bf = -side.sign then
      (inner.split side).map fun (top, bf, near, far) =>
        (double side root next top bf outer near far light, true)
    else some (single side root next bf outer inner light, bf = side.sign)

/-- The factor of the root, zero for an empty tree. -/
def rootBf : Tree α → Int
  | nil => 0
  | node _ bf _ _ => bf

@[simp] theorem rootBf_join (side : Side) (label : α) (bf : Int) (child sibling : Tree α) :
    (join side label bf child sibling).rootBf = bf := by
  cases side <;> rfl

theorem labels_single (side : Side) (root next : α) (bf bf' bf'' : Int)
    (outer inner light : Tree α) :
    (single side root next bf outer inner light).labels =
      (join side root bf' (join side next bf'' outer inner) light).labels := by
  unfold single
  split <;> cases side <;> simp [join, labels]

theorem labels_double (side : Side) (root next top : α) (bf bf₁ bf₂ bf₃ : Int)
    (outer near far light : Tree α) :
    (double side root next top bf outer near far light).labels =
      (join side root bf₁ (join side next bf₂ outer (join side top bf₃ near far)) light).labels := by
  cases side <;> simp [double, join, labels]

theorem balanced_single {side : Side} (root : α) {next : α} {bf : Int} {outer inner light : Tree α}
    (heavy : (join side next bf outer inner).Balanced) (bf_ne : bf ≠ -side.sign)
    (balanced : light.Balanced)
    (height_eq : (join side next bf outer inner).height = light.height + 2) :
    (single side root next bf outer inner light).Balanced ∧
      (single side root next bf outer inner light).height =
        if bf = side.sign then light.height + 2 else light.height + 3 := by
  obtain ⟨bf_eq, low, high, outerBalanced, innerBalanced⟩ := balanced_join.mp heavy
  rw [height_join] at height_eq
  unfold single
  by_cases outward : bf = side.sign
  · rw [if_pos outward, if_pos outward]
    simp only [balanced_join, height_join]
    rcases side.sign_eq with sign | sign <;> simp only [sign] at * <;>
      refine ⟨⟨?_, by omega, by omega, outerBalanced, ?_, by omega, by omega, innerBalanced,
        balanced⟩, ?_⟩ <;> omega
  · rw [if_neg outward, if_neg outward]
    simp only [balanced_join, height_join]
    rcases side.sign_eq with sign | sign <;> simp only [sign] at * <;>
      refine ⟨⟨?_, by omega, by omega, outerBalanced, ?_, by omega, by omega, innerBalanced,
        balanced⟩, ?_⟩ <;> omega

theorem balanced_double {side : Side} (root : α) {next top : α} {bf : Int}
    {outer near far light : Tree α}
    (heavy : (join side next (-side.sign) outer (join side top bf near far)).Balanced)
    (balanced : light.Balanced)
    (height_eq : (join side next (-side.sign) outer (join side top bf near far)).height =
      light.height + 2) :
    (double side root next top bf outer near far light).Balanced ∧
      (double side root next top bf outer near far light).height = light.height + 2 := by
  obtain ⟨bf_eq, low, high, outerBalanced, inner⟩ := balanced_join.mp heavy
  obtain ⟨bf_eq', low', high', nearBalanced, farBalanced⟩ := balanced_join.mp inner
  simp only [height_join] at height_eq bf_eq
  simp only [double, balanced_join, height_join]
  rcases side.sign_eq with sign | sign <;> simp only [sign] at * <;>
    refine ⟨⟨?_, by omega, by omega, ⟨?_, ?_, ?_, outerBalanced, nearBalanced⟩, ?_, ?_, ?_,
      farBalanced, balanced⟩, ?_⟩ <;> (try split) <;> omega

theorem rotate_labels {side : Side} {root : α} (bf : Int) {heavy light tree : Tree α}
    {lower : Bool} (rotation : rotate side root heavy light = some (tree, lower)) :
    tree.labels = (join side root bf heavy light).labels := by
  cases heavy with
  | nil => cases rotation
  | node next bf' left right =>
      obtain ⟨next, bf', outer, inner, heavy_eq⟩ :=
        exists_join side (show 0 < (node next bf' left right).height from Nat.succ_pos _)
      simp only [heavy_eq, rotate, split_join, Option.bind_some] at rotation ⊢
      split at rotation
      · cases inner with
        | nil => cases rotation
        | node top bf'' left right =>
            obtain ⟨top, bf'', near, far, inner_eq⟩ :=
              exists_join side (show 0 < (node top bf'' left right).height from Nat.succ_pos _)
            simp only [inner_eq, split_join, Option.map_some, Option.some.injEq,
              Prod.mk.injEq] at rotation ⊢
            rw [← rotation.1]
            exact labels_double ..
      · obtain ⟨rfl, -⟩ := Prod.mk.inj (Option.some.inj rotation)
        exact labels_single ..

/-- A rotation restores the balance of a node which is two levels higher on `side`. -/
theorem rotate_spec (side : Side) (root : α) {heavy light : Tree α}
    (heavyBalanced : heavy.Balanced) (lightBalanced : light.Balanced)
    (height_eq : heavy.height = light.height + 2) :
    ∃ tree, rotate side root heavy light = some (tree, decide (heavy.rootBf ≠ 0)) ∧
      tree.Balanced ∧
      tree.height = if heavy.rootBf ≠ 0 then light.height + 2 else light.height + 3 := by
  obtain ⟨next, bf, outer, inner, rfl⟩ := exists_join side (by omega : 0 < heavy.height)
  obtain ⟨bf_eq, low, high, -, -⟩ := balanced_join.mp heavyBalanced
  simp only [rotate, split_join, Option.bind_some, rootBf_join]
  by_cases inward : bf = -side.sign
  · subst inward
    have tall : 0 < inner.height := by
      rw [height_join] at height_eq
      rcases side.sign_eq with sign | sign <;> simp only [sign] at bf_eq <;> omega
    obtain ⟨top, bf', near, far, rfl⟩ := exists_join side tall
    have sign_ne : -side.sign ≠ 0 := by
      rcases side.sign_eq with sign | sign <;> rw [sign] <;> decide
    obtain ⟨balanced, height_eq'⟩ :=
      balanced_double root heavyBalanced lightBalanced height_eq
    refine ⟨_, by simp [sign_ne], balanced, ?_⟩
    rw [if_pos sign_ne, height_eq']
  · obtain ⟨balanced, height_eq'⟩ :=
      balanced_single root heavyBalanced inward lightBalanced height_eq
    have outward : bf = side.sign ↔ bf ≠ 0 := by
      rcases side.sign_eq with sign | sign <;> simp only [sign] at low high inward ⊢ <;> omega
    refine ⟨_, by rw [if_neg inward]; simp only [outward], balanced, ?_⟩
    simpa only [outward] using height_eq'

/-! ## Search paths -/

end Tree

/-- A node on a search path, which continues on `side`. -/
structure Frame (α : Type*) where
  side : Side
  label : α
  bf : Int
  sibling : Tree α

namespace Tree

/-- Close a path, its last node first, over the tree below it. -/
def plug : List (Frame α) → Tree α → Tree α
  | [], tree => tree
  | frame :: frames, tree =>
      plug frames (join frame.side frame.label frame.bf tree frame.sibling)

theorem plug_append (path frames : List (Frame α)) (tree : Tree α) :
    plug (path ++ frames) tree = plug frames (plug path tree) := by
  induction path generalizing tree with
  | nil => rfl
  | cons frame path induction => exact induction _

/-- The labels to the left of a path. -/
def before : List (Frame α) → List α
  | [] => []
  | frame :: frames =>
      before frames ++
        match frame.side with
        | .left => []
        | .right => frame.sibling.labels ++ [frame.label]

/-- The labels to the right of a path. -/
def after : List (Frame α) → List α
  | [] => []
  | frame :: frames =>
      (match frame.side with
        | .left => frame.label :: frame.sibling.labels
        | .right => []) ++
      after frames

theorem after_eq_nil {frames : List (Frame α)} (sides : ∀ frame ∈ frames, frame.side = .right) :
    after frames = [] := by
  induction frames with
  | nil => rfl
  | cons frame frames induction =>
      rw [after, sides frame (.head _), induction fun other among => sides other (.tail _ among)]
      rfl

theorem labels_plug (frames : List (Frame α)) (tree : Tree α) :
    (plug frames tree).labels = before frames ++ tree.labels ++ after frames := by
  induction frames generalizing tree with
  | nil => simp [plug, before, after]
  | cons frame frames induction =>
      obtain ⟨side, label, bf, sibling⟩ := frame
      rw [plug, induction]
      cases side <;> simp [before, after, join, labels]

/-- Below the left child of a frame, along right children only, the tree stands before the frame's
label. -/
theorem labels_plug_left {path : List (Frame α)} (sides : ∀ frame ∈ path, frame.side = .right)
    (label : α) (bf : Int) (right : Tree α) (frames : List (Frame α)) (tree : Tree α) :
    (plug (path ++ ⟨.left, label, bf, right⟩ :: frames) tree).labels =
      (before frames ++ (before path ++ tree.labels)) ++
        label :: (right.labels ++ after frames) := by
  rw [plug_append]
  simp [plug, labels_plug, labels, join, after_eq_nil sides]

theorem labels_plug_congr {frames : List (Frame α)} {first second : Tree α}
    (same : first.labels = second.labels) :
    (plug frames first).labels = (plug frames second).labels := by
  rw [labels_plug, labels_plug, same]

/-- The path is balanced above a tree of the given height. -/
def Balances : List (Frame α) → Nat → Prop
  | [], _ => True
  | frame :: frames, height =>
      frame.bf = frame.side.sign * (height - frame.sibling.height) ∧
        -1 ≤ frame.bf ∧ frame.bf ≤ 1 ∧ frame.sibling.Balanced ∧
        Balances frames (max height frame.sibling.height + 1)

theorem balanced_plug {frames : List (Frame α)} {tree : Tree α} :
    (plug frames tree).Balanced ↔ tree.Balanced ∧ Balances frames tree.height := by
  induction frames generalizing tree with
  | nil => simp [plug, Balances]
  | cons frame frames induction =>
      rw [plug, induction, balanced_join, height_join, Balances]
      tauto

/-- A label of a node on the path or of a subtree beside it. -/
def OnPath (frames : List (Frame α)) (label : α) : Prop :=
  ∃ frame ∈ frames, label = frame.label ∨ label ∈ frame.sibling

theorem mem_plug {frames : List (Frame α)} {tree : Tree α} {label : α} :
    label ∈ plug frames tree ↔ label ∈ tree ∨ OnPath frames label := by
  induction frames generalizing tree with
  | nil => simp [plug, OnPath]
  | cons frame frames induction =>
      rw [plug, induction, mem_join]
      simp only [OnPath, List.mem_cons, exists_eq_or_imp]
      rw [or_left_comm, or_assoc]

/-- Each node stands at the end of some path. -/
theorem exists_plug {tree : Tree α} {label : α} (inside : label ∈ tree) (frames : List (Frame α)) :
    ∃ path bf left right, plug frames tree = plug path (node label bf left right) := by
  induction tree generalizing frames with
  | nil => exact absurd inside (not_mem_nil label)
  | node root bf left right leftInduction rightInduction =>
      rcases mem_node.mp inside with rfl | inside | inside
      · exact ⟨frames, bf, left, right, rfl⟩
      · exact leftInduction inside (⟨.left, root, bf, right⟩ :: frames)
      · exact rightInduction inside (⟨.right, root, bf, left⟩ :: frames)

theorem length_add_height_le (frames : List (Frame α)) (tree : Tree α) :
    frames.length + tree.height ≤ (plug frames tree).height := by
  induction frames generalizing tree with
  | nil => simp [plug]
  | cons frame frames induction =>
      have above := induction (join frame.side frame.label frame.bf tree frame.sibling)
      rw [height_join] at above
      rw [plug, List.length_cons]
      omega

/-- The tree at the end of a path shares no label with the path. -/
theorem nodup_plug {frames : List (Frame α)} {tree : Tree α} (nodup : (plug frames tree).Nodup) :
    tree.Nodup ∧ ∀ label ∈ tree, ¬ OnPath frames label := by
  induction frames generalizing tree with
  | nil => exact ⟨nodup, fun label _ ⟨frame, inside, _⟩ => List.not_mem_nil inside⟩
  | cons frame frames induction =>
      obtain ⟨joined, apart⟩ := induction nodup
      obtain ⟨⟨notTree, -⟩, disjoint, treeNodup, -⟩ := nodup_join.mp joined
      refine ⟨treeNodup, fun label inside => ?_⟩
      rintro ⟨frame', among, here⟩
      rcases List.mem_cons.mp among with rfl | among
      · rcases here with rfl | here
        · exact notTree inside
        · exact disjoint label inside here
      · exact apart label (mem_join.mpr (.inr (.inl inside))) ⟨frame', among, here⟩

section Relabel

variable {frames : List (Frame α)} {old new : α} {bf : Int} {left right : Tree α}

/-- A new label for a node takes the place of the old one among the labels. -/
theorem mem_plug_relabel (nodup : (plug frames (node old bf left right)).Nodup) (label : α) :
    label ∈ plug frames (node new bf left right) ↔
      label = new ∨ label ∈ plug frames (node old bf left right) ∧ label ≠ old := by
  obtain ⟨hereNodup, notPath⟩ := nodup_plug nodup
  obtain ⟨⟨oldLeft, oldRight⟩, -⟩ :=
    (nodup_join : (join .left old bf left right).Nodup ↔ _).mp hereNodup
  have oldPath := notPath old (mem_node.mpr (.inl rfl))
  simp only [mem_plug, mem_node]
  constructor
  · rintro ((same | inLeft | inRight) | onPath)
    · exact .inl same
    · exact .inr ⟨.inl (.inr (.inl inLeft)), ne_of_mem_of_not_mem inLeft oldLeft⟩
    · exact .inr ⟨.inl (.inr (.inr inRight)), ne_of_mem_of_not_mem inRight oldRight⟩
    · refine .inr ⟨.inr onPath, ?_⟩
      rintro rfl
      exact oldPath onPath
  · rintro (same | ⟨(same | below) | onPath, ne⟩)
    · exact .inl (.inl same)
    · exact absurd same ne
    · exact .inl (.inr below)
    · exact .inr onPath

/-- What the labels stand for, from left to right, when the new label stands for what the old one
did. -/
theorem map_labels_plug_relabel {f g : α → β}
    (nodup : (plug frames (node old bf left right)).Nodup)
    (notInside : ¬ new ∈ plug frames (node old bf left right)) (here : g new = f old)
    (elsewhere : ∀ label, label ≠ old → label ≠ new → g label = f label) :
    (plug frames (node new bf left right)).labels.map g =
      (plug frames (node old bf left right)).labels.map f := by
  rw [Tree.Nodup, labels_plug, labels] at nodup
  rw [mem_def, labels_plug, labels] at notInside
  simp only [List.nodup_append, List.nodup_cons, List.mem_append, List.mem_cons] at nodup
  simp only [List.mem_append, List.mem_cons, not_or] at notInside
  obtain ⟨⟨newBefore, newLeft, -, newRight⟩, newAfter⟩ := notInside
  have oldLeft : ¬ old ∈ left.labels := by grind
  have oldRight : ¬ old ∈ right.labels := by grind
  have oldBefore : ¬ old ∈ before frames := by grind
  have oldAfter : ¬ old ∈ after frames := by grind
  have same {list : List α} (notOld : ¬ old ∈ list) (notNew : ¬ new ∈ list) :
      list.map g = list.map f :=
    List.map_congr_left fun label inside =>
      elsewhere label (ne_of_mem_of_not_mem inside notOld) (ne_of_mem_of_not_mem inside notNew)
  simp only [labels_plug, labels, List.map_append, List.map_cons, same oldBefore newBefore,
    same oldLeft newLeft, same oldRight newRight, same oldAfter newAfter, here]

end Relabel

/-- The tree at the end of an ordered path lies between the nodes of the path. -/
theorem pairwise_plug {order : α → α → Prop} {frames : List (Frame α)} {tree : Tree α}
    (ordered : (plug frames tree).labels.Pairwise order) {label : α} (inside : label ∈ tree)
    {frame : Frame α} (among : frame ∈ frames) :
    match frame.side with
    | .left => order label frame.label
    | .right => order frame.label label := by
  induction frames generalizing tree with
  | nil => cases among
  | cons first frames induction =>
      rcases List.mem_cons.mp among with rfl | among
      · rw [plug, labels_plug, List.append_assoc, List.pairwise_append] at ordered
        have ordered' := (List.pairwise_append.mp ordered.2.1).1
        obtain ⟨side, root, bf, sibling⟩ := frame
        cases side with
        | left =>
            exact (List.pairwise_append.mp ordered').2.2 label inside root (.head _)
        | right =>
            exact (List.pairwise_cons.mp (List.pairwise_append.mp ordered').2.1).1 label inside
      · exact induction ordered (mem_join.mpr (.inr (.inl inside))) among

/-! ## Rebalancing -/

/-- Restore the balance above a tree which has become one level higher. -/
inductive Grows : List (Frame α) → Tree α → Tree α → Prop
  | top (tree : Tree α) : Grows [] tree tree
  | even {frame : Frame α} {frames : List (Frame α)} {tree : Tree α}
      (opposite : frame.bf = -frame.side.sign) :
      Grows (frame :: frames) tree
        (plug frames (join frame.side frame.label 0 tree frame.sibling))
  | turn {frame : Frame α} {frames : List (Frame α)} {tree rotated : Tree α} {lower : Bool}
      (same : frame.bf = frame.side.sign) (balanced : tree.Balanced)
      (rotation : rotate frame.side frame.label tree frame.sibling = some (rotated, lower)) :
      Grows (frame :: frames) tree (plug frames rotated)
  | up {frame : Frame α} {frames : List (Frame α)} {tree grown : Tree α} (level : frame.bf = 0)
      (above : Grows frames (join frame.side frame.label frame.side.sign tree frame.sibling)
        grown) :
      Grows (frame :: frames) tree grown

/-- Restore the balance above a tree which has become one level lower. -/
inductive Shrinks : List (Frame α) → Tree α → Tree α → Prop
  | top (tree : Tree α) : Shrinks [] tree tree
  | stop {frame : Frame α} {frames : List (Frame α)} {tree : Tree α} (level : frame.bf = 0) :
      Shrinks (frame :: frames) tree
        (plug frames (join frame.side frame.label (-frame.side.sign) tree frame.sibling))
  | turnStop {frame : Frame α} {frames : List (Frame α)} {tree rotated : Tree α}
      (opposite : frame.bf = -frame.side.sign) (balanced : frame.sibling.Balanced)
      (rotation : rotate frame.side.other frame.label frame.sibling tree = some (rotated, false)) :
      Shrinks (frame :: frames) tree (plug frames rotated)
  | up {frame : Frame α} {frames : List (Frame α)} {tree shrunk : Tree α}
      (same : frame.bf = frame.side.sign)
      (above : Shrinks frames (join frame.side frame.label 0 tree frame.sibling) shrunk) :
      Shrinks (frame :: frames) tree shrunk
  | turn {frame : Frame α} {frames : List (Frame α)} {tree rotated shrunk : Tree α}
      (opposite : frame.bf = -frame.side.sign) (balanced : frame.sibling.Balanced)
      (rotation : rotate frame.side.other frame.label frame.sibling tree = some (rotated, true))
      (above : Shrinks frames rotated shrunk) :
      Shrinks (frame :: frames) tree shrunk

theorem Grows.labels_eq {frames : List (Frame α)} {tree grown : Tree α}
    (grows : Grows frames tree grown) : grown.labels = (plug frames tree).labels := by
  induction grows with
  | top tree => rfl
  | even opposite => exact labels_plug_congr (labels_join_bf ..)
  | turn same balanced rotation => exact labels_plug_congr (rotate_labels _ rotation)
  | up level above induction => exact induction.trans (labels_plug_congr (labels_join_bf ..))

theorem Shrinks.labels_eq {frames : List (Frame α)} {tree shrunk : Tree α}
    (shrinks : Shrinks frames tree shrunk) : shrunk.labels = (plug frames tree).labels := by
  have turned {frame : Frame α} {frames : List (Frame α)} {tree rotated : Tree α} {lower : Bool}
      (rotation : rotate frame.side.other frame.label frame.sibling tree = some (rotated, lower)) :
      (plug frames rotated).labels = (plug (frame :: frames) tree).labels := by
    refine labels_plug_congr ((rotate_labels frame.bf rotation).trans ?_)
    rw [join_other]
  induction shrinks with
  | top tree => rfl
  | stop level => exact labels_plug_congr (labels_join_bf ..)
  | turnStop opposite balanced rotation => exact turned rotation
  | up same above induction => exact induction.trans (labels_plug_congr (labels_join_bf ..))
  | turn opposite balanced rotation above induction => exact induction.trans (turned rotation)

/-- The balance can be restored when the higher tree is a first node or leans to a side. -/
theorem exists_grows {frames : List (Frame α)} {tree : Tree α} {height : Nat}
    (balances : Balances frames height) (balanced : tree.Balanced)
    (height_eq : tree.height = height + 1) (leans : tree.rootBf ≠ 0 ∨ height = 0) :
    ∃ grown, Grows frames tree grown ∧ grown.Balanced := by
  induction frames generalizing tree height with
  | nil => exact ⟨tree, .top tree, balanced⟩
  | cons frame frames induction =>
      obtain ⟨bf_eq, low, high, siblingBalanced, rest⟩ := balances
      have cases : frame.bf = -frame.side.sign ∨ frame.bf = frame.side.sign ∨ frame.bf = 0 := by
        rcases frame.side.sign_eq with sign | sign <;> rw [sign] <;> omega
      have sign := frame.side.sign_eq
      rcases cases with opposite | same | level
      · have node : (join frame.side frame.label 0 tree frame.sibling).Balanced := by
          refine balanced_join.mpr ⟨?_, by omega, by omega, balanced, siblingBalanced⟩
          rcases sign with sign | sign <;> simp only [sign] at * <;> omega
        have height_eq' : (join frame.side frame.label 0 tree frame.sibling).height =
            max height frame.sibling.height + 1 := by
          rw [height_join]
          rcases sign with sign | sign <;> simp only [sign] at * <;> omega
        exact ⟨_, .even opposite, balanced_plug.mpr ⟨node, height_eq' ▸ rest⟩⟩
      · have heavy : tree.height = frame.sibling.height + 2 := by
          rcases sign with sign | sign <;> simp only [sign] at * <;> omega
        obtain ⟨rotated, rotation, rotatedBalanced, rotatedHeight⟩ :=
          rotate_spec frame.side frame.label balanced siblingBalanced heavy
        rw [if_pos (leans.resolve_right (by omega))] at rotatedHeight
        have height_eq' : rotated.height = max height frame.sibling.height + 1 := by omega
        exact ⟨_, .turn same balanced rotation,
          balanced_plug.mpr ⟨rotatedBalanced, height_eq' ▸ rest⟩⟩
      · have node : (join frame.side frame.label frame.side.sign tree frame.sibling).Balanced := by
          refine balanced_join.mpr ⟨?_, by omega, by omega, balanced, siblingBalanced⟩
          rcases sign with sign | sign <;> simp only [sign] at * <;> omega
        have height_eq' : (join frame.side frame.label frame.side.sign tree
            frame.sibling).height = max height frame.sibling.height + 1 + 1 := by
          rw [height_join]
          rcases sign with sign | sign <;> simp only [sign] at * <;> omega
        have leans' : (join frame.side frame.label frame.side.sign tree
            frame.sibling).rootBf ≠ 0 := by
          rw [rootBf_join]
          omega
        obtain ⟨grown, above, grownBalanced⟩ := induction rest node height_eq' (.inl leans')
        exact ⟨grown, .up level above, grownBalanced⟩

theorem exists_shrinks {frames : List (Frame α)} {tree : Tree α}
    (balances : Balances frames (tree.height + 1)) (balanced : tree.Balanced) :
    ∃ shrunk, Shrinks frames tree shrunk ∧ shrunk.Balanced := by
  induction frames generalizing tree with
  | nil => exact ⟨tree, .top tree, balanced⟩
  | cons frame frames induction =>
      obtain ⟨bf_eq, low, high, siblingBalanced, rest⟩ := balances
      have cases : frame.bf = -frame.side.sign ∨ frame.bf = frame.side.sign ∨ frame.bf = 0 := by
        rcases frame.side.sign_eq with sign | sign <;> rw [sign] <;> omega
      have sign := frame.side.sign_eq
      rcases cases with opposite | same | level
      · have heavy : frame.sibling.height = tree.height + 2 := by
          rcases sign with sign | sign <;> simp only [sign] at * <;> omega
        obtain ⟨rotated, rotation, rotatedBalanced, rotatedHeight⟩ :=
          rotate_spec frame.side.other frame.label siblingBalanced balanced heavy
        by_cases leans : frame.sibling.rootBf ≠ 0
        · rw [decide_eq_true leans] at rotation
          rw [if_pos leans] at rotatedHeight
          have height_eq : rotated.height + 1 =
              max (tree.height + 1) frame.sibling.height + 1 := by omega
          obtain ⟨shrunk, above, shrunkBalanced⟩ :=
            induction (height_eq ▸ rest) rotatedBalanced
          exact ⟨shrunk, .turn opposite siblingBalanced rotation above, shrunkBalanced⟩
        · rw [decide_eq_false leans] at rotation
          rw [if_neg leans] at rotatedHeight
          have height_eq : rotated.height = max (tree.height + 1) frame.sibling.height + 1 := by
            omega
          exact ⟨_, .turnStop opposite siblingBalanced rotation,
            balanced_plug.mpr ⟨rotatedBalanced, height_eq ▸ rest⟩⟩
      · have node : (join frame.side frame.label 0 tree frame.sibling).Balanced := by
          refine balanced_join.mpr ⟨?_, by omega, by omega, balanced, siblingBalanced⟩
          rcases sign with sign | sign <;> simp only [sign] at * <;> omega
        have height_eq : (join frame.side frame.label 0 tree frame.sibling).height + 1 =
            max (tree.height + 1) frame.sibling.height + 1 := by
          rw [height_join]
          rcases sign with sign | sign <;> simp only [sign] at * <;> omega
        obtain ⟨shrunk, above, shrunkBalanced⟩ := induction (height_eq ▸ rest) node
        exact ⟨shrunk, .up same above, shrunkBalanced⟩
      · have node : (join frame.side frame.label (-frame.side.sign) tree
            frame.sibling).Balanced := by
          refine balanced_join.mpr ⟨?_, by omega, by omega, balanced, siblingBalanced⟩
          rcases sign with sign | sign <;> simp only [sign] at * <;> omega
        have height_eq : (join frame.side frame.label (-frame.side.sign) tree
            frame.sibling).height = max (tree.height + 1) frame.sibling.height + 1 := by
          rw [height_join]
          rcases sign with sign | sign <;> simp only [sign] at * <;> omega
        exact ⟨_, .stop level, balanced_plug.mpr ⟨node, height_eq ▸ rest⟩⟩

end Tree
end CommonLib
