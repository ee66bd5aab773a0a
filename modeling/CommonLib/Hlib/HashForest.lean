import CommonLib.Hlib.HashRebalance

/-!
# The trees of a hash table

The used elements of a table form one tree for each slot, with the element at the slot as its root.
The searches of `Add`, `Remove` and the `Find` functions are described on these trees.
-/

namespace CommonLib
namespace HashTable

open CommonLib.Tree

variable {κ β : Type} {dict dict' : Dict κ β}

theorem Linked.parent_ne_none {b : Nat} {tree : Tree Nat} (linked : Linked dict (some b) tree)
    {a : Nat} (inside : a ∈ tree) : (dict a).parent ≠ none := by
  induction tree generalizing b with
  | nil => exact absurd inside (not_mem_nil a)
  | node root bf left right leftInduction rightInduction =>
      obtain ⟨-, parent_eq, -, -, leftLinked, rightLinked⟩ := linked
      rcases mem_node.mp inside with rfl | inside | inside
      · rw [parent_eq]
        exact Option.some_ne_none b
      · exact leftInduction leftLinked inside
      · exact rightInduction rightLinked inside

/-- The root of a tree is its only element without a parent. -/
theorem Linked.parent_eq_none {tree : Tree Nat} (linked : Linked dict none tree) {a : Nat}
    (inside : a ∈ tree) : (dict a).parent = none ↔ tree.root = some a := by
  cases tree with
  | nil => exact absurd inside (not_mem_nil a)
  | node root bf left right =>
      obtain ⟨-, parent_eq, -, -, leftLinked, rightLinked⟩ := linked
      constructor
      · intro parent_none
        rcases mem_node.mp inside with rfl | inside | inside
        · rfl
        · exact absurd parent_none (leftLinked.parent_ne_none inside)
        · exact absurd parent_none (rightLinked.parent_ne_none inside)
      · intro root_eq
        obtain rfl := Option.some.inj root_eq
        exact parent_eq

theorem Rearranged.entry_mem {tree tree' : Tree Nat} (rearranged : Rearranged tree dict tree' dict')
    {a : Nat} (inside : a ∈ tree') : ∃ b ∈ tree, (dict b).entry = (dict' a).entry := by
  have among : (dict' a).entry ∈ tree'.labels.map fun a => (dict' a).entry :=
    List.mem_map_of_mem inside
  rw [rearranged.entries] at among
  exact List.mem_map.mp among

variable [LinearOrder κ]

/-! ## Searching -/

/-- What a search for a key in a tree has found. -/
def Found (dict : Dict κ β) (key : κ) (tree : Tree Nat) : Search → Prop
  | .found a above =>
      ∃ frames bf left right, tree = plug frames (node a bf left right) ∧
        above = frames.map (·.label) ∧ (dict a).key = key ∧
        ∀ frame ∈ frames, Toward key frame.side (dict frame.label).key
  | .absent side path =>
      ∃ frames, tree = plug frames nil ∧ path = frames.map (·.label) ∧
        (∀ frame ∈ frames.head?, side = frame.side) ∧
        ∀ frame ∈ frames, Toward key frame.side (dict frame.label).key

theorem search_found {key : κ} {frames : List (Frame Nat)} {tree : Tree Nat} {room : Nat}
    {side : Side} {result : Search} (linked : Linked dict (top none frames) tree)
    (toward : ∀ frame ∈ frames, Toward key frame.side (dict frame.label).key)
    (last : ∀ frame ∈ frames.head?, side = frame.side)
    (search_eq : search dict key room side (frames.map (·.label)) tree.root = some result) :
    Found dict key (plug frames tree) result := by
  induction tree generalizing frames room side with
  | nil =>
      obtain rfl := Option.some.inj ((by rw [root, search] at search_eq; exact search_eq) :
        some (Search.absent side (frames.map (·.label))) = some result)
      exact ⟨frames, rfl, rfl, last, toward⟩
  | node a bf left right leftInduction rightInduction =>
      cases room with
      | zero => cases search_eq
      | succ room =>
          obtain ⟨-, -, left_eq, right_eq, leftLinked, rightLinked⟩ := linked
          have further {side : Side} (here : Toward key side (dict a).key) (sibling : Tree Nat) :
              ∀ frame ∈ (⟨side, a, bf, sibling⟩ : Frame Nat) :: frames,
                Toward key frame.side (dict frame.label).key := by
            intro frame among
            rcases List.mem_cons.mp among with rfl | among
            · exact here
            · exact toward frame among
          have head {side : Side} (sibling : Tree Nat) :
              ∀ frame ∈ ((⟨side, a, bf, sibling⟩ : Frame Nat) :: frames).head?,
                side = frame.side := by
            rintro frame ⟨⟩
            rfl
          rw [root, search] at search_eq
          split at search_eq
          · rename_i same
            obtain rfl := Option.some.inj search_eq
            exact ⟨frames, bf, left, right, rfl, rfl, same.symm, toward⟩
          · rename_i ne
            split at search_eq
            · rename_i less
              have here : Toward key .left (dict a).key := less
              rw [left_eq] at search_eq
              exact @leftInduction (⟨.left, a, bf, right⟩ :: frames) _ _ leftLinked
                (further here right) (head right) search_eq
            · rename_i notLess
              have here : Toward key .right (dict a).key :=
                lt_of_le_of_ne (not_lt.mp notLess) (Ne.symm ne)
              rw [right_eq] at search_eq
              exact @rightInduction (⟨.right, a, bf, left⟩ :: frames) _ _ rightLinked
                (further here left) (head left) search_eq

theorem search_isSome {key : κ} {parent : Option Nat} {tree : Tree Nat} {room : Nat} {side : Side}
    {path : List Nat} (linked : Linked dict parent tree) (fits : tree.height ≤ room) :
    ∃ result, search dict key room side path tree.root = some result := by
  induction tree generalizing parent room side path with
  | nil => exact ⟨_, by rw [root, search]⟩
  | node a bf left right leftInduction rightInduction =>
      obtain ⟨-, -, left_eq, right_eq, leftLinked, rightLinked⟩ := linked
      rw [height] at fits
      cases room with
      | zero => omega
      | succ room =>
          rw [root, search, left_eq, right_eq]
          split
          · exact ⟨_, rfl⟩
          · split
            · exact leftInduction leftLinked (by omega)
            · exact rightInduction rightLinked (by omega)

/-- The path of a key divides the other keys of the tree. -/
theorem toward_plug {key : κ} {frames : List (Frame Nat)} {tree : Tree Nat}
    (ordered : Ordered dict (plug frames tree))
    (toward : ∀ frame ∈ frames, Toward key frame.side (dict frame.label).key) :
    (∀ a ∈ before frames, (dict a).key < key) ∧ ∀ a ∈ after frames, key < (dict a).key := by
  induction frames generalizing tree with
  | nil => exact ⟨fun a inside => absurd inside List.not_mem_nil,
      fun a inside => absurd inside List.not_mem_nil⟩
  | cons frame frames induction =>
      obtain ⟨above, below⟩ := induction ordered fun other among => toward other (.tail _ among)
      have here := toward frame (.head _)
      have joined : (join frame.side frame.label frame.bf tree frame.sibling).labels.Pairwise
          fun a b => (dict a).key < (dict b).key := by
        rw [Ordered, plug, labels_plug] at ordered
        exact (List.pairwise_append.mp (List.pairwise_append.mp ordered).1).2.1
      obtain ⟨side, label, bf, sibling⟩ := frame
      cases side with
      | left =>
          have later := (List.pairwise_append.mp joined).2.1
          refine ⟨fun a inside => ?_, fun a inside => ?_⟩
          · rw [before, List.append_nil] at inside
            exact above a inside
          · rcases List.mem_append.mp inside with inside | inside
            · rcases List.mem_cons.mp inside with rfl | inside
              · exact here
              · exact lt_trans here (List.rel_of_pairwise_cons later inside)
            · exact below a inside
      | right =>
          have earlier := (List.pairwise_append.mp joined).2.2
          refine ⟨fun a inside => ?_, fun a inside => ?_⟩
          · rcases List.mem_append.mp inside with inside | inside
            · exact above a inside
            · rcases List.mem_append.mp inside with inside | inside
              · exact lt_trans (earlier a inside label (.head _)) here
              · rw [List.mem_singleton.mp inside]
                exact here
          · exact below a inside

theorem findNode_succ (dict : Dict κ β) (key : κ) (steps node : Nat) :
    findNode dict key (steps + 1) node =
      if key = (dict node).key then some (some node)
      else (if key < (dict node).key then (dict node).left else (dict node).right).elim (some none)
        (findNode dict key steps) := by
  rw [findNode]
  split
  · rfl
  · cases (if key < (dict node).key then (dict node).left else (dict node).right) <;> rfl

/-- The loop of the `Find` functions finds the element with the key. -/
theorem findNode_spec {key : κ} {parent : Option Nat} {tree : Tree Nat} {steps node : Nat}
    (linked : Linked dict parent tree) (ordered : Ordered dict tree)
    (root_eq : tree.root = some node) (fits : tree.height ≤ steps) :
    ∃ result, findNode dict key steps node = some result ∧
      ∀ a, result = some a ↔ a ∈ tree ∧ (dict a).key = key := by
  induction tree generalizing parent steps node with
  | nil => cases root_eq
  | node root bf left right leftInduction rightInduction =>
      obtain rfl := Option.some.inj root_eq
      obtain ⟨-, -, left_eq, right_eq, leftLinked, rightLinked⟩ := linked
      obtain ⟨leftOrdered, ordered', less⟩ := List.pairwise_append.mp ordered
      obtain ⟨greater, rightOrdered⟩ := List.pairwise_cons.mp ordered'
      rw [height] at fits
      cases steps with
      | zero => omega
      | succ steps =>
          rw [findNode_succ, left_eq, right_eq]
          -- the search goes on in a subtree which holds all elements with the key
          have descend {tree : Tree Nat} (subtree : ∀ a, a ∈ node root bf left right →
              (dict a).key = key → a ∈ tree) (within : ∀ a ∈ tree, a ∈ node root bf left right)
              (found : ∀ next, tree.root = some next →
                ∃ result, findNode dict key steps next = some result ∧
                  ∀ a, result = some a ↔ a ∈ tree ∧ (dict a).key = key) :
              ∃ result, tree.root.elim (some none) (findNode dict key steps) =
                  some result ∧
                ∀ a, result = some a ↔ a ∈ node root bf left right ∧ (dict a).key = key := by
            cases tree_root : tree.root with
            | none =>
                refine ⟨none, rfl, fun a => ⟨fun found => ?_, ?_⟩⟩
                · cases found
                · rintro ⟨inside, same⟩
                  have inside' := subtree a inside same
                  rw [eq_nil_of_root tree_root] at inside'
                  exact absurd inside' (not_mem_nil a)
            | some next =>
                obtain ⟨result, find_eq, result_iff⟩ := found next tree_root
                refine ⟨result, find_eq, fun a => (result_iff a).trans ⟨?_, ?_⟩⟩
                · rintro ⟨inside, same⟩
                  exact ⟨within a inside, same⟩
                · rintro ⟨inside, same⟩
                  exact ⟨subtree a inside same, same⟩
          split
          · rename_i same
            refine ⟨some root, rfl, fun a => ⟨?_, ?_⟩⟩
            · rintro ⟨⟩
              exact ⟨mem_node.mpr (.inl rfl), same.symm⟩
            · rintro ⟨inside, same'⟩
              rcases mem_node.mp inside with rfl | inside | inside
              · rfl
              · exact absurd (same'.trans same) (less a inside root (.head _)).ne
              · exact absurd (same'.trans same) (greater a inside).ne'
          · rename_i ne
            split
            · rename_i toLeft
              refine descend (fun a inside same => ?_)
                (fun a inside => mem_node.mpr (.inr (.inl inside)))
                fun next root_eq => leftInduction leftLinked leftOrdered root_eq (by omega)
              rcases mem_node.mp inside with rfl | inside | inside
              · exact absurd same toLeft.ne'
              · exact inside
              · exact absurd same (toLeft.trans (greater a inside)).ne'
            · rename_i notLeft
              have toRight := lt_of_le_of_ne (not_lt.mp notLeft) (Ne.symm ne)
              refine descend (fun a inside same => ?_)
                (fun a inside => mem_node.mpr (.inr (.inr inside)))
                fun next root_eq => rightInduction rightLinked rightOrdered root_eq (by omega)
              rcases mem_node.mp inside with rfl | inside | inside
              · exact absurd same toRight.ne
              · exact absurd same ((less a inside root (.head _)).trans toRight).ne
              · exact inside

/-! ## Forests -/

/-- The tree of the keys which belong to the slot `i`. -/
structure Stands (dict : Dict κ β) (size : Nat) (home : κ → Nat) (i : Nat) (tree : Tree Nat) :
    Prop where
  linked : Linked dict none tree
  root_eq : tree = nil ∨ tree.root = some i
  inside : ∀ a ∈ tree, a < size ∧ (dict a).isUsing = true ∧ home (dict a).key = i
  ordered : Ordered dict tree
  balanced : tree.Balanced

/-- The used elements form the trees of the slots, and each element knows its slot. -/
structure Forest (dict : Dict κ β) (size : Nat) (home : κ → Nat) (trees : Nat → Tree Nat) :
    Prop where
  stands : ∀ i < size, Stands dict size home i (trees i)
  covers : ∀ a < size, (dict a).isUsing = true → a ∈ trees (home (dict a).key)
  index : ∀ a < size, (dict a).index = a

section Forest

variable {size : Nat} {home : κ → Nat} {trees : Nat → Tree Nat}

theorem Stands.congr {i : Nat} {tree : Tree Nat} (stands : Stands dict size home i tree)
    (same : ∀ a ∈ tree, dict' a = dict a) : Stands dict' size home i tree where
  linked := stands.linked.congr fun a inside => by rw [same a inside]
  root_eq := stands.root_eq
  inside := fun a inside => by
    rw [same a inside]
    exact stands.inside a inside
  ordered := stands.ordered.imp_of_mem fun {a b} first second less => by
    rw [same a first, same b second]
    exact less
  balanced := stands.balanced

theorem Stands.length_le {i : Nat} {tree : Tree Nat} (stands : Stands dict size home i tree) :
    tree.labels.length ≤ size := by
  have subset : tree.labels ⊆ List.range size := fun a inside =>
    List.mem_range.mpr (stands.inside a inside).1
  simpa using (stands.ordered.nodup.subperm subset).length_le

theorem Forest.unique (forest : Forest dict size home trees) {i j a : Nat} (i_lt : i < size)
    (j_lt : j < size) (first : a ∈ trees i) (second : a ∈ trees j) : i = j := by
  rw [← ((forest.stands i i_lt).inside a first).2.2, ((forest.stands j j_lt).inside a second).2.2]

theorem Forest.root_eq (forest : Forest dict size home trees)
    (home_lt : ∀ key, home key < size) {i : Nat} (i_lt : i < size)
    (isUsing : (dict i).isUsing = true) (parent_eq : (dict i).parent = none) :
    (trees i).root = some i := by
  have covered := forest.covers i i_lt isUsing
  have stands := forest.stands _ (home_lt (dict i).key)
  have root_eq := (stands.linked.parent_eq_none covered).mp parent_eq
  rcases stands.root_eq with empty | root_eq'
  · rw [empty] at root_eq
    cases root_eq
  · rwa [← Option.some.inj (root_eq'.symm.trans root_eq)]

/-- The search from the home of a key ends in the tree there, unless the path array is too short. -/
theorem Forest.search_home (forest : Forest dict size home trees)
    (home_lt : ∀ key, home key < size) (key : κ) (isUsing : (dict (home key)).isUsing = true)
    (parent_eq : (dict (home key)).parent = none) (room : Nat) :
    (∃ found, search dict key room .right [] (some (home key)) = some found ∧
        Found dict key (trees (home key)) found) ∨
      search dict key room .right [] (some (home key)) = none ∧
        room ≤ (trees (home key)).height := by
  have stands := forest.stands _ (home_lt key)
  have root_eq := forest.root_eq home_lt (home_lt key) isUsing parent_eq
  cases search_eq : search dict key room .right [] (some (home key)) with
  | none =>
      refine .inr ⟨rfl, not_lt.mp fun fits => ?_⟩
      obtain ⟨result, search_eq'⟩ := search_isSome stands.linked fits.le
      rw [root_eq, search_eq] at search_eq'
      cases search_eq'
  | some found =>
      rw [← root_eq] at search_eq
      have spec : Found dict key (plug [] (trees (home key))) found :=
        search_found stands.linked (by simp) (by simp) search_eq
      exact .inl ⟨found, rfl, spec⟩

/-- Where a slot is free, or an element of another tree stands there, its own tree is empty. -/
theorem Forest.eq_nil (forest : Forest dict size home trees) {i : Nat} (i_lt : i < size)
    (other : (dict i).isUsing = false ∨ (dict i).parent ≠ none) : trees i = nil := by
  have stands := forest.stands i i_lt
  refine stands.root_eq.resolve_right fun root_eq => ?_
  have inside := root_mem root_eq
  rcases other with free | parent_ne
  · rw [(stands.inside i inside).2.1] at free
    cases free
  · exact parent_ne ((stands.linked.parent_eq_none inside).mpr root_eq)

theorem Forest.absent (forest : Forest dict size home trees) {key : κ}
    (empty : trees (home key) = nil) {a : Nat} (a_lt : a < size)
    (isUsing : (dict a).isUsing = true) : (dict a).key ≠ key := by
  rintro rfl
  have covered := forest.covers a a_lt isUsing
  rw [empty] at covered
  exact not_mem_nil a covered

/-- The table holds this value under the key. -/
def Stores (dict : Dict κ β) (size : Nat) (key : κ) (value : β) : Prop :=
  ∃ a < size, (dict a).entry = (true, key, value)

theorem Forest.stores_iff (forest : Forest dict size home trees)
    (home_lt : ∀ key, home key < size) {key : κ} {value : β} :
    Stores dict size key value ↔
      (true, key, value) ∈ (trees (home key)).labels.map fun a => (dict a).entry := by
  constructor
  · rintro ⟨a, a_lt, entry_eq⟩
    obtain ⟨isUsing, rfl, rfl⟩ : (dict a).isUsing = true ∧ (dict a).key = key ∧
        (dict a).value = value := by simpa [THElement.entry] using entry_eq
    exact List.mem_map.mpr ⟨a, forest.covers a a_lt isUsing, entry_eq⟩
  · intro among
    obtain ⟨a, inside, entry_eq⟩ := List.mem_map.mp among
    exact ⟨a, ((forest.stands _ (home_lt key)).inside a inside).1, entry_eq⟩

theorem Forest.not_stores (forest : Forest dict size home trees) {key : κ}
    (empty : trees (home key) = nil) (value : β) : ¬ Stores dict size key value := by
  rintro ⟨a, a_lt, entry_eq⟩
  simp only [THElement.entry, Prod.mk.injEq] at entry_eq
  exact forest.absent empty a_lt entry_eq.1 entry_eq.2.1

theorem Forest.not_stores_path {key : κ} {frames : List (Frame Nat)}
    (forest : Forest dict size home trees) (home_lt : ∀ key, home key < size)
    (tree_eq : trees (home key) = plug frames nil)
    (toward : ∀ frame ∈ frames, Toward key frame.side (dict frame.label).key) (value : β) :
    ¬ Stores dict size key value := by
  intro stored
  obtain ⟨a, inside, entry_eq⟩ := List.mem_map.mp ((forest.stores_iff home_lt).mp stored)
  simp only [THElement.entry, Prod.mk.injEq] at entry_eq
  have ordered := (forest.stands _ (home_lt key)).ordered
  rw [tree_eq] at ordered inside
  obtain ⟨above, below⟩ := toward_plug ordered toward
  simp only [labels_plug, labels, List.append_nil] at inside
  rcases List.mem_append.mp inside with inside | inside
  · exact absurd entry_eq.2.1 (above a inside).ne
  · exact absurd entry_eq.2.1 (below a inside).ne'

/-- Two elements with one key are one element. -/
theorem Forest.same (forest : Forest dict size home trees) (home_lt : ∀ key, home key < size)
    {a b : Nat} (a_lt : a < size) (b_lt : b < size) (first : (dict a).isUsing = true)
    (second : (dict b).isUsing = true) (key_eq : (dict a).key = (dict b).key) : a = b := by
  have inside := forest.covers a a_lt first
  have inside' := forest.covers b b_lt second
  rw [← key_eq] at inside'
  have ordered := (forest.stands _ (home_lt (dict a).key)).ordered
  have nodup : ((trees (home (dict a).key)).labels.map fun a => (dict a).key).Nodup :=
    List.Pairwise.imp (fun less => less.ne) (ordered_iff.mp ordered)
  exact List.inj_on_of_nodup_map nodup inside inside' key_eq

theorem Forest.stores_unique (forest : Forest dict size home trees)
    (home_lt : ∀ key, home key < size) {key : κ} {value value' : β}
    (first : Stores dict size key value) (second : Stores dict size key value') :
    value = value' := by
  obtain ⟨a, a_lt, entry_eq⟩ := first
  obtain ⟨b, b_lt, entry_eq'⟩ := second
  simp only [THElement.entry, Prod.mk.injEq] at entry_eq entry_eq'
  obtain rfl := forest.same home_lt a_lt b_lt entry_eq.1 entry_eq'.1
    (entry_eq.2.1.trans entry_eq'.2.1.symm)
  exact entry_eq.2.2.symm.trans entry_eq'.2.2

/-! ## One tree is replaced -/

/-- The new tree of a slot, which elements enter that were free and leave that become free. -/
structure Replaced (dict : Dict κ β) (size : Nat) (home : κ → Nat) (old : Tree Nat) (i : Nat)
    (tree : Tree Nat) (dict' : Dict κ β) : Prop where
  stands : Stands dict' size home i tree
  outside : ∀ a, ¬ a ∈ old → ¬ a ∈ tree → dict' a = dict a
  fresh : ∀ a ∈ tree, ¬ a ∈ old → (dict a).isUsing = false
  dropped : ∀ a ∈ old, ¬ a ∈ tree → (dict' a).isUsing = false
  index : ∀ a, (dict' a).index = (dict a).index

section Replaced

variable {i : Nat} {tree : Tree Nat}

theorem Forest.apart (forest : Forest dict size home trees) (i_lt : i < size)
    (replaced : Replaced dict size home (trees i) i tree dict') {j : Nat} (j_lt : j < size)
    (ne : j ≠ i) {a : Nat} (inside : a ∈ trees j) : dict' a = dict a := by
  have notOld : ¬ a ∈ trees i := fun other => ne (forest.unique j_lt i_lt inside other)
  refine replaced.outside a notOld fun entered => ?_
  have free := replaced.fresh a entered notOld
  rw [((forest.stands j j_lt).inside a inside).2.1] at free
  cases free

theorem Forest.update (forest : Forest dict size home trees) (i_lt : i < size)
    (replaced : Replaced dict size home (trees i) i tree dict') :
    Forest dict' size home (Function.update trees i tree) := by
  refine ⟨fun j j_lt => ?_, fun a a_lt isUsing => ?_, fun a a_lt => ?_⟩
  · by_cases same : j = i
    · subst same
      rw [Function.update_self]
      exact replaced.stands
    · rw [Function.update_of_ne same]
      exact (forest.stands j j_lt).congr fun a inside => forest.apart i_lt replaced j_lt same inside
  · by_cases entered : a ∈ tree
    · rwa [(replaced.stands.inside a entered).2.2, Function.update_self]
    · have notOld : ¬ a ∈ trees i := fun old => by
        rw [replaced.dropped a old entered] at isUsing
        cases isUsing
      rw [replaced.outside a notOld entered] at isUsing ⊢
      have covered := forest.covers a a_lt isUsing
      have ne : home (dict a).key ≠ i := fun same => notOld (same ▸ covered)
      rwa [Function.update_of_ne ne]
  · rw [replaced.index, forest.index a a_lt]

theorem Forest.update_stores (forest : Forest dict size home trees)
    (home_lt : ∀ key, home key < size) (i_lt : i < size)
    (replaced : Replaced dict size home (trees i) i tree dict') (key : κ) (value : β) :
    Stores dict' size key value ↔
      if home key = i then (true, key, value) ∈ tree.labels.map fun a => (dict' a).entry
      else Stores dict size key value := by
  rw [(forest.update i_lt replaced).stores_iff home_lt, forest.stores_iff home_lt]
  by_cases same : home key = i
  · rw [if_pos same, same, Function.update_self]
  · rw [if_neg same, Function.update_of_ne same]
    have entries_eq : (trees (home key)).labels.map (fun a => (dict' a).entry) =
        (trees (home key)).labels.map fun a => (dict a).entry :=
      List.map_congr_left fun a inside => by
        rw [forest.apart i_lt replaced (home_lt key) same inside]
    rw [entries_eq]

theorem Forest.update_isUsing (forest : Forest dict size home trees)
    (home_lt : ∀ key, home key < size) (i_lt : i < size)
    (replaced : Replaced dict size home (trees i) i tree dict') {a : Nat} (a_lt : a < size) :
    (dict' a).isUsing = true ↔ a ∈ tree ∨ (dict a).isUsing = true ∧ ¬ a ∈ trees i := by
  constructor
  · intro isUsing
    refine or_iff_not_imp_left.mpr fun left => ?_
    have notOld : ¬ a ∈ trees i := fun old => by
      rw [replaced.dropped a old left] at isUsing
      cases isUsing
    rw [replaced.outside a notOld left] at isUsing
    exact ⟨isUsing, notOld⟩
  · rintro (entered | ⟨isUsing, notOld⟩)
    · exact (replaced.stands.inside a entered).2.1
    · have covered := forest.covers a a_lt isUsing
      rw [forest.apart i_lt replaced (home_lt _) (fun same => notOld (same ▸ covered)) covered]
      exact isUsing

end Replaced

end Forest

/-- After rebalancing, the tree stands at its slot again. -/
theorem Rebalanced.stands {size : Nat} {home : κ → Nat} {i : Nat} {tree goal tree' : Tree Nat}
    (rebalanced : Rebalanced tree dict goal tree' dict') (ordered : Ordered dict tree)
    (balanced : goal.Balanced) (root_eq : tree.root = some i)
    (inside : ∀ a ∈ tree, a < size ∧ (dict a).isUsing = true ∧ home (dict a).key = i) :
    Stands dict' size home i tree' where
  linked := rebalanced.linked
  root_eq := .inr (rebalanced.root_eq.trans root_eq)
  inside := fun a among => by
    obtain ⟨b, among', entry_eq⟩ := rebalanced.rearranged.entry_mem among
    simp only [THElement.entry, Prod.mk.injEq] at entry_eq
    rw [← entry_eq.1, ← entry_eq.2.1]
    exact ⟨(inside a ((rebalanced.rearranged.members a).mp among)).1, (inside b among').2⟩
  ordered := ordered.rearranged rebalanced.rearranged
  balanced := rebalanced.balanced balanced

/-! ## `Find` -/

theorem Forest.mem_iff {dict : Dict κ β} {size : Nat} {home : κ → Nat} {trees : Nat → Tree Nat}
    (forest : Forest dict size home trees) {i : Nat} (i_lt : i < size) (a : Nat) :
    a ∈ trees i ↔ a < size ∧ (dict a).isUsing = true ∧ home (dict a).key = i := by
  refine ⟨fun inside => (forest.stands i i_lt).inside a inside, ?_⟩
  rintro ⟨a_lt, isUsing, rfl⟩
  exact forest.covers a a_lt isUsing

/-- A search finds a key from its own slot only. -/
theorem find_spec_of_hash {table : HashTable κ β} {hash : κ → Nat} {trees : Nat → Tree Nat}
    (forest : Forest table.dict table.dictSize (fun key => table.slot (hash key)) trees)
    (home_lt : ∀ key, table.slot (hash key) < table.dictSize) {other : κ → Nat} {key : κ}
    (slot_lt : table.slot (other key) < table.dictSize) :
    ∃ result, table.find other key = some result ∧
      ∀ a, result = some a ↔ table.slot (hash key) = table.slot (other key) ∧
        a < table.dictSize ∧ (table.dict a).isUsing = true ∧ (table.dict a).key = key := by
  have among (a : Nat) : (a ∈ trees (table.slot (other key)) ∧ (table.dict a).key = key) ↔
      table.slot (hash key) = table.slot (other key) ∧
        a < table.dictSize ∧ (table.dict a).isUsing = true ∧ (table.dict a).key = key := by
    rw [forest.mem_iff slot_lt]
    constructor
    · rintro ⟨⟨a_lt, isUsing, slot_eq⟩, rfl⟩
      exact ⟨slot_eq, a_lt, isUsing, rfl⟩
    · rintro ⟨slot_eq, a_lt, isUsing, rfl⟩
      exact ⟨⟨a_lt, isUsing, slot_eq⟩, rfl⟩
  rw [find]
  split
  · rename_i elsewhere
    have empty := forest.eq_nil slot_lt elsewhere
    refine ⟨none, rfl, fun a => ⟨nofun, fun here => ?_⟩⟩
    have inside := ((among a).mpr here).1
    rw [empty] at inside
    exact absurd inside (not_mem_nil a)
  · rename_i here
    obtain ⟨isUsing, parent_eq⟩ : (table.dict (table.slot (other key))).isUsing = true ∧
        (table.dict (table.slot (other key))).parent = none := by simpa using here
    have stands := forest.stands _ slot_lt
    obtain ⟨result, find_eq, result_iff⟩ := findNode_spec stands.linked stands.ordered
      (forest.root_eq home_lt slot_lt isUsing parent_eq)
      ((height_le_length _).trans stands.length_le)
    exact ⟨result, find_eq, fun a => (result_iff a).trans (among a)⟩

theorem find_spec {table : HashTable κ β} {hash : κ → Nat} {trees : Nat → Tree Nat}
    (forest : Forest table.dict table.dictSize (fun key => table.slot (hash key)) trees)
    (home_lt : ∀ key, table.slot (hash key) < table.dictSize) (key : κ) :
    ∃ result, table.find hash key = some result ∧
      ∀ a, result = some a ↔
        a < table.dictSize ∧ (table.dict a).isUsing = true ∧ (table.dict a).key = key := by
  obtain ⟨result, find_eq, result_iff⟩ := find_spec_of_hash forest home_lt (home_lt key)
  exact ⟨result, find_eq, fun a => (result_iff a).trans (and_iff_right rfl)⟩

end HashTable
end CommonLib
