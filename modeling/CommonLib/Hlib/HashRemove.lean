import CommonLib.Hlib.HashForest
import CommonLib.Hlib.HashFree

/-!
# `Remove` of the hash table

The element with the key is taken out of its tree, or takes over the entry of a neighbour which is
taken out in its place.
-/

namespace CommonLib
namespace HashTable

open CommonLib.Tree

variable {κ β : Type} {dict dict' : Dict κ β}

/-- The walk to the last element of a tree extends the path above the tree to the right. -/
theorem rightmost_spec {parent : Option Nat} {tree : Tree Nat} {start : Nat}
    (linked : Linked dict parent tree) (root_eq : tree.root = some start) (room : Nat)
    (frames : List (Frame Nat)) :
    (∃ path tmp bf left, rightmost dict room start (frames.map (·.label)) =
        some (tmp, (path ++ frames).map (·.label)) ∧
      (∀ frame ∈ path, frame.side = .right) ∧
      tree = plug path (join .left tmp bf left nil)) ∨
      rightmost dict room start (frames.map (·.label)) = none ∧ room < tree.height := by
  induction tree generalizing parent start room frames with
  | nil => cases root_eq
  | node a bf left right leftInduction rightInduction =>
      obtain rfl := Option.some.inj root_eq
      obtain ⟨-, -, left_eq, right_eq, leftLinked, rightLinked⟩ := linked
      cases room with
      | zero => exact .inr ⟨rfl, Nat.succ_pos _⟩
      | succ room =>
          rw [rightmost]
          cases next_eq : right.root with
          | none =>
              rw [right_eq, next_eq, eq_nil_of_root next_eq]
              exact .inl ⟨[], a, bf, left, rfl, nofun, rfl⟩
          | some next =>
              rw [right_eq, next_eq]
              rcases rightInduction rightLinked next_eq room (⟨.right, a, bf, left⟩ :: frames) with
                ⟨path, tmp, bf', left', rightmost_eq, sides, plug_eq⟩ | ⟨rightmost_eq, long⟩
              · refine .inl ⟨path ++ [⟨.right, a, bf, left⟩], tmp, bf', left', ?_, ?_, ?_⟩
                · rw [List.append_assoc]
                  exact rightmost_eq
                · intro frame among
                  rcases List.mem_append.mp among with among | among
                  · exact sides frame among
                  · rw [List.mem_singleton.mp among]
                · rw [plug_append, ← plug_eq]
                  rfl
              · refine .inr ⟨rightmost_eq, ?_⟩
                rw [height]
                omega

/-! ## A node with one child is taken out -/

/-- The element above `p` gets its child, and `p` is released. -/
def detached (dict : Dict κ β) (frame : Frame Nat) (p : Nat) (child : Option Nat) : Dict κ β :=
  modify (adopt (modify dict frame.label fun element => element.setChild frame.side child) child
    frame.label) p fun element => { element with isUsing := false }

section Detached

variable {frame : Frame Nat} {frames : List (Frame Nat)} {side : Side} {p : Nat} {bf : Int}
  {child : Tree Nat}

theorem detached_entry {a : Nat} (ne : a ≠ p) (pointer : Option Nat) :
    (detached dict frame p pointer a).entry = (dict a).entry := by
  rw [detached, modify_of_ne ne, adopt_apply, modify_apply]
  split <;> split <;> first | rfl | exact THElement.entry_setChild ..

theorem detached_index (a : Nat) (pointer : Option Nat) :
    (detached dict frame p pointer a).index = (dict a).index := by
  rw [detached, modify_apply, adopt_apply, modify_apply]
  split <;> split <;> split <;> first | rfl | exact THElement.index_setChild ..

theorem detached_key (a : Nat) (pointer : Option Nat) :
    (detached dict frame p pointer a).key = (dict a).key := by
  rw [detached, modify_apply, adopt_apply, modify_apply]
  split <;> split <;> split <;> first | rfl | exact THElement.key_setChild ..

theorem detached_outside {a : Nat}
    (outside : ¬ a ∈ plug (frame :: frames) (join side p bf child nil)) :
    detached dict frame p child.root a = dict a := by
  simp only [mem_plug, mem_join, not_or] at outside
  obtain ⟨⟨notP, notChild, -⟩, notPath⟩ := outside
  have notLabel : a ≠ frame.label := by
    rintro rfl
    exact notPath ⟨frame, .head _, .inl rfl⟩
  rw [detached, modify_of_ne notP, adopt_apply, if_neg (not_root notChild), modify_of_ne notLabel]

theorem detached_links {a : Nat} (pointer : Option Nat) :
    (detached dict frame p pointer a).links =
      (adopt (modify dict frame.label fun element => element.setChild frame.side pointer) pointer
        frame.label a).links := by
  rw [detached, modify_apply]
  split <;> rfl

theorem detached_linked
    (linked : Linked dict none (plug (frame :: frames) (join side p bf child nil)))
    (nodup : (plug (frame :: frames) (join side p bf child nil)).Nodup) :
    Linked (detached dict frame p child.root) none (plug (frame :: frames) child) := by
  obtain ⟨hereNodup, notPath⟩ := nodup_plug nodup
  have nodup' : (plug frames (join frame.side frame.label frame.bf (join side p bf child nil)
      frame.sibling)).Nodup := nodup
  obtain ⟨joinNodup, notAbove⟩ := nodup_plug nodup'
  obtain ⟨⟨notHere, notSibling⟩, -, -, -⟩ := nodup_join.mp joinNodup
  obtain ⟨-, -, childNodup, -⟩ := nodup_join.mp hereNodup
  have labelAbove := notAbove frame.label (mem_join.mpr (.inl rfl))
  obtain ⟨treeLinked, path⟩ := linked_plug.mp linked
  obtain ⟨-, childLinked, -⟩ := linked_join.mp treeLinked
  have notChild : ¬ frame.label ∈ child := fun inside =>
    notHere (mem_join.mpr (.inr (.inl inside)))
  refine linked_plug.mpr ⟨childLinked.adopted childNodup fun a inside => ?_,
    path.setChild ⟨notSibling, labelAbove⟩ child.root ?_ fun a onPath notLabel => ?_⟩
  · have ne : a ≠ frame.label := ne_of_mem_of_not_mem inside notChild
    rw [detached_links, adopt_apply, adopt_apply, modify_of_ne ne]
  · rw [detached_links, adopt_apply, if_neg (not_root notChild), modify_self]
  · have apart : ¬ a ∈ child := fun inside =>
      notPath a (mem_join.mpr (.inr (.inl inside))) onPath
    rw [detached_links, adopt_apply, if_neg (not_root apart), modify_of_ne notLabel]

end Detached

/-- The root takes over its only child, which is freed. -/
def promoted (dict : Dict κ β) (a tmp : Nat) : Dict κ β :=
  let dict' := modify dict a fun element => element.copyFrom (dict tmp)
  let dict' := modify dict' a fun element => element.setParent none
  modify dict' tmp fun element => { element with isUsing := false }

theorem promoted_root {a tmp : Nat} (ne : tmp ≠ a) :
    promoted dict a tmp a = ((dict a).copyFrom (dict tmp)).setParent none := by
  simp only [promoted, modify_of_ne ne.symm, modify_self]

/-- The only child's entry stands beside the root's. -/
theorem only_child_entries (dict : Dict κ β) (side : Side) (a tmp : Nat) (bf bf' : Int) :
    ∃ first second, (join side a bf (node tmp bf' nil nil) nil).labels.map
        (fun b => (dict b).entry) = first ++ (dict a).entry :: second ∧
      [(dict tmp).entry] = first ++ second := by
  cases side with
  | left => exact ⟨[(dict tmp).entry], [], rfl, rfl⟩
  | right => exact ⟨[], [(dict tmp).entry], rfl, rfl⟩

/-- Only keys and values of elements of the tree are written. -/
structure Rewritten (tree : Tree Nat) (dict dict' : Dict κ β) : Prop where
  links : ∀ a, (dict' a).links = (dict a).links
  index : ∀ a, (dict' a).index = (dict a).index
  outside : ∀ a, ¬ a ∈ tree → dict' a = dict a

/-- The element takes over the entry of the last element to its left. -/
def overwritten (dict : Dict κ β) (a tmp : Nat) : Dict κ β :=
  modify dict a fun element => { element with key := (dict tmp).key, value := (dict tmp).value }

theorem overwritten_rewritten {tree : Tree Nat} {a : Nat} (inside : a ∈ tree) (dict : Dict κ β)
    (tmp : Nat) : Rewritten tree dict (overwritten dict a tmp) where
  links := fun b => by
    rw [overwritten, modify_apply]
    split <;> rfl
  index := fun b => by
    rw [overwritten, modify_apply]
    split <;> rfl
  outside := fun b outside => modify_of_ne (ne_of_mem_of_not_mem inside outside).symm _

/-- In a row of elements, `a` behind `tmp`, the entry of `a` is the one that goes. -/
theorem overwritten_entries {a tmp : Nat} {front back : List Nat}
    (nodup : (front ++ tmp :: a :: back).Nodup)
    (same : (dict a).isUsing = (dict tmp).isUsing) :
    (front ++ a :: back).map (fun b => (overwritten dict a tmp b).entry) =
      front.map (fun b => (dict b).entry) ++
        (dict tmp).entry :: back.map fun b => (dict b).entry := by
  obtain ⟨-, rest, apart⟩ := List.nodup_append.mp nodup
  have notFront : ¬ a ∈ front := fun among => apart a among a (.tail _ (.head _)) rfl
  have notBack : ¬ a ∈ back := (List.nodup_cons.mp (List.nodup_cons.mp rest).2).1
  have kept {list : List Nat} (outside : ¬ a ∈ list) :
      list.map (fun b => (overwritten dict a tmp b).entry) = list.map fun b => (dict b).entry :=
    List.map_congr_left fun b among => by
      rw [overwritten, modify_of_ne (ne_of_mem_of_not_mem among outside)]
  have entry_a : (overwritten dict a tmp a).entry = (dict tmp).entry := by
    rw [overwritten, modify_self]
    simp only [THElement.entry, same]
  rw [List.map_append, List.map_cons, kept notFront, kept notBack, entry_a]

section Order

variable [LinearOrder κ] {size : Nat} {home : κ → Nat} {trees : Nat → Tree Nat}

/-- The entry with the key is gone, and a used element has become free. -/
structure Vacated (dict : Dict κ β) (size : Nat) (home : κ → Nat) (p : Nat) (key : κ)
    (dict' : Dict κ β) : Prop where
  lt : p < size
  used : (dict p).isUsing = true
  forest : ∃ trees, Forest dict' size home trees
  stores : ∀ k v, Stores dict' size k v ↔ k ≠ key ∧ Stores dict size k v
  isUsing : ∀ a < size, (dict' a).isUsing = true ↔ a ≠ p ∧ (dict a).isUsing = true

theorem Forest.vacate {p : Nat} {key : κ} {value : β} {tree : Tree Nat}
    {first second : List (Bool × κ × β)} (forest : Forest dict size home trees)
    (home_lt : ∀ key, home key < size)
    (replaced : Replaced dict size home (trees (home key)) (home key) tree dict')
    (inside : p ∈ trees (home key))
    (members : ∀ a, a ∈ tree ↔ a ∈ trees (home key) ∧ a ≠ p)
    (before_eq : (trees (home key)).labels.map (fun a => (dict a).entry) =
      first ++ (true, key, value) :: second)
    (after_eq : tree.labels.map (fun a => (dict' a).entry) = first ++ second) :
    Vacated dict size home p key dict' := by
  have i_lt := home_lt key
  have stands := forest.stands _ i_lt
  have used := (stands.inside p inside).2.1
  refine ⟨(stands.inside p inside).1, used, ⟨_, forest.update i_lt replaced⟩, fun k v => ?_,
    fun a a_lt => ?_⟩
  · rw [forest.update_stores home_lt i_lt replaced]
    by_cases same : home k = home key
    · rw [if_pos same, forest.stores_iff home_lt, same, before_eq, after_eq]
      have ordered := congrArg (List.map fun entry : Bool × κ × β => entry.2.1) before_eq
      rw [List.map_map, List.map_append, List.map_cons] at ordered
      have sorted : (first.map (fun entry => entry.2.1) ++
          key :: second.map fun entry => entry.2.1).Pairwise (· < ·) :=
        (congrArg (List.Pairwise (· < ·)) ordered).mp (ordered_iff.mp stands.ordered)
      obtain ⟨-, later, earlier⟩ := List.pairwise_append.mp sorted
      have notFirst : (true, k, v) ∈ first → k ≠ key := fun among =>
        (earlier k (List.mem_map.mpr ⟨_, among, rfl⟩) key (.head _)).ne
      have notSecond : (true, k, v) ∈ second → k ≠ key := fun among =>
        (List.rel_of_pairwise_cons later (List.mem_map.mpr ⟨_, among, rfl⟩)).ne'
      simp only [List.mem_append, List.mem_cons, Prod.mk.injEq, true_and]
      tauto
    · rw [if_neg same]
      refine (and_iff_right ?_).symm
      rintro rfl
      exact same rfl
  · rw [forest.update_isUsing home_lt i_lt replaced a_lt, members]
    constructor
    · rintro (⟨inside', ne⟩ | ⟨isUsing, outside⟩)
      · exact ⟨ne, (stands.inside a inside').2.1⟩
      · exact ⟨fun same => outside (same ▸ inside), isUsing⟩
    · rintro ⟨ne, isUsing⟩
      by_cases inside' : a ∈ trees (home key)
      · exact .inl ⟨inside', ne⟩
      · exact .inr ⟨isUsing, inside'⟩

theorem detached_replaced {i p node : Nat} {frame : Frame Nat} {frames : List (Frame Nat)}
    {side : Side} {bf : Int} {child : Tree Nat} {rewritten : Dict κ β}
    (stands : Stands dict size home i (plug (frame :: frames) (join side p bf child nil)))
    (writes : Rewritten (plug (frame :: frames) (join side p bf child nil)) dict rewritten)
    (sublist : ((plug (frame :: frames) child).labels.map fun a => (rewritten a).entry).Sublist
      ((plug (frame :: frames) (join side p bf child nil)).labels.map fun a => (dict a).entry))
    (toward : ∀ other ∈ frame :: frames,
      (rewritten node).key ≤ (rewritten other.label).key ↔ other.side = .left) :
    ∃ dict' tree', rebalanceRemoved node (detached rewritten frame p child.root)
        ((frame :: frames).map (·.label)) = some dict' ∧
      Replaced dict size home (plug (frame :: frames) (join side p bf child nil)) i tree' dict' ∧
      tree'.labels.map (fun a => (dict' a).entry) =
        (plug (frame :: frames) child).labels.map (fun a => (rewritten a).entry) ∧
      ∀ a, a ∈ tree' ↔ a ∈ plug (frame :: frames) (join side p bf child nil) ∧ a ≠ p := by
  have nodup := stands.ordered.nodup
  obtain ⟨hereNodup, notPath⟩ := nodup_plug nodup
  obtain ⟨⟨notChild, -⟩, -⟩ := nodup_join.mp hereNodup
  have members (a : Nat) : a ∈ plug (frame :: frames) child ↔
      a ∈ plug (frame :: frames) (join side p bf child nil) ∧ a ≠ p := by
    have pOff := notPath p (mem_join.mpr (.inl rfl))
    simp only [mem_plug, mem_join, not_mem_nil, or_false]
    constructor
    · rintro (inside | onPath)
      · exact ⟨.inl (.inr inside), ne_of_mem_of_not_mem inside notChild⟩
      · refine ⟨.inr onPath, ?_⟩
        rintro rfl
        exact pOff onPath
    · tauto
  have linked := detached_linked
    (stands.linked.congr fun a _ => writes.links a : Linked rewritten none _) nodup
  have entries_eq : (plug (frame :: frames) child).labels.map
      (fun a => (detached rewritten frame p child.root a).entry) =
      (plug (frame :: frames) child).labels.map fun a => (rewritten a).entry :=
    List.map_congr_left fun a inside => detached_entry ((members a).mp inside).2 _
  have ordered : Ordered (detached rewritten frame p child.root) (plug (frame :: frames) child) := by
    have keys := sublist.map fun entry : Bool × κ × β => entry.2.1
    rw [← entries_eq, List.map_map, List.map_map] at keys
    exact ordered_iff.mpr ((ordered_iff.mp stands.ordered).sublist keys)
  obtain ⟨joinBalanced, balances⟩ := balanced_plug.mp stands.balanced
  obtain ⟨-, -, -, childBalanced, -⟩ := balanced_join.mp joinBalanced
  rw [height_join, height, Nat.max_zero] at balances
  obtain ⟨shrunk, shrinks, shrunkBalanced⟩ := exists_shrinks balances childBalanced
  obtain ⟨dict', tree', rebalance_eq, rebalanced⟩ := rebalanceRemoved_spec linked ordered
    (fun other among => by
      rw [detached_key, detached_key]
      exact toward other among) shrinks
  have root_eq : (plug (frame :: frames) child).root = some i := by
    rw [root_plug_cons frame frames _ (join side p bf child nil)]
    refine stands.root_eq.resolve_left fun empty => ?_
    have inside : p ∈ plug (frame :: frames) (join side p bf child nil) :=
      mem_plug.mpr (.inl (mem_join.mpr (.inl rfl)))
    rw [empty] at inside
    exact not_mem_nil p inside
  have members' (a : Nat) := (rebalanced.rearranged.members a).trans (members a)
  refine ⟨dict', tree', rebalance_eq, ⟨rebalanced.stands ordered shrunkBalanced root_eq
    fun a inside => ?_, fun a old new => ?_, fun a new old => ?_, fun a old new => ?_,
    fun a => ?_⟩, rebalanced.rearranged.entries.trans entries_eq, members'⟩
  · have among : (detached rewritten frame p child.root a).entry ∈
        (plug (frame :: frames) child).labels.map fun a =>
          (detached rewritten frame p child.root a).entry := List.mem_map_of_mem inside
    rw [entries_eq] at among
    obtain ⟨b, inside', entry_eq⟩ := List.mem_map.mp (sublist.subset among)
    simp only [THElement.entry, Prod.mk.injEq] at entry_eq
    rw [← entry_eq.1, ← entry_eq.2.1]
    exact ⟨(stands.inside a ((members a).mp inside).1).1, (stands.inside b inside').2⟩
  · rw [rebalanced.rearranged.outside a fun inside => old ((members a).mp inside).1,
      detached_outside old, writes.outside a old]
  · exact absurd ((members' a).mp new).1 old
  · obtain rfl : a = p := by
      by_contra ne
      exact new ((members' a).mpr ⟨old, ne⟩)
    rw [rebalanced.rearranged.outside a fun inside => ((members a).mp inside).2 rfl, detached,
      modify_self]
  · rw [rebalanced.rearranged.index, detached_index, writes.index]

/-! ## `RemoveNode` -/

/-- What a call of `Remove` does; `p` is the element that is released. -/
inductive RemoveSpec (table : HashTable κ β) (home : κ → Nat) (key : κ) :
    Bool → HashTable κ β → Prop
  | absent (absent : ∀ v, ¬ Stores table.dict table.dictSize key v) :
      RemoveSpec table home key false table
  | removed {p : Nat} {released dict' : Dict κ β}
      (present : ∃ v, Stores table.dict table.dictSize key v)
      (same : ∀ a, (released a).isUsing = (table.dict a).isUsing)
      (vacated : Vacated table.dict table.dictSize home p key dict') :
      RemoveSpec table home key true
        { { table with dict := released }.releaseNode p with dict := dict' }

section Overwritten

variable {a tmp : Nat} {other : Frame Nat}

/-- An element on the way to a smaller key is entered to the left. -/
theorem side_eq_left_of_toward (less : (dict tmp).key < (dict a).key)
    (toward : Toward (dict tmp).key other.side (dict other.label).key) (same : other.label = a) :
    other.side = .left := by
  rw [same] at toward
  cases side_eq : other.side with
  | left => rfl
  | right =>
      rw [side_eq] at toward
      exact absurd less (not_lt.mpr (le_of_lt toward))

/-- The first frame above `tmp` is that of `a`, or `tmp` is a right child. -/
theorem side_of_first {path frames rest : List (Frame Nat)} {frame : Frame Nat} {bf : Int}
    {right : Tree Nat} (less : (dict tmp).key < (dict a).key)
    (sides : ∀ frame ∈ path, frame.side = .right)
    (frames_eq : path ++ ⟨.left, a, bf, right⟩ :: frames = frame :: rest)
    (toward : Toward (dict tmp).key frame.side (dict frame.label).key) :
    (if frame.label = a then Side.left else .right) = frame.side := by
  by_cases same : frame.label = a
  · rw [if_pos same, side_eq_left_of_toward less toward same]
  · rw [if_neg same]
    cases path with
    | nil =>
        obtain ⟨rfl, -⟩ := List.cons.inj frames_eq
        exact absurd rfl same
    | cons first path =>
        obtain ⟨rfl, -⟩ := List.cons.inj frames_eq
        exact (sides first (.head _)).symm

/-- With the new key in `a`, the comparisons on the way to `tmp` turn as before. -/
theorem overwritten_toward (less : (dict tmp).key < (dict a).key)
    (toward : Toward (dict tmp).key other.side (dict other.label).key) :
    (overwritten dict a tmp a).key ≤ (overwritten dict a tmp other.label).key ↔
      other.side = .left := by
  have key_a : (overwritten dict a tmp a).key = (dict tmp).key := by
    rw [overwritten, modify_self]
  by_cases same : other.label = a
  · rw [same]
    exact iff_of_true le_rfl (side_eq_left_of_toward less toward same)
  · rw [key_a, overwritten, modify_of_ne same]
    cases side_eq : other.side with
    | left =>
        rw [side_eq] at toward
        exact iff_of_true (le_of_lt toward) rfl
    | right =>
        rw [side_eq] at toward
        exact iff_of_false (not_le.mpr toward) (by decide)

end Overwritten

/-- A node with two children. -/
theorem removeNode_two {table : HashTable κ β} {a l r : Nat} {bf : Int} {left right : Tree Nat}
    {frames : List (Frame Nat)} (forest : Forest table.dict table.dictSize home trees)
    (home_lt : ∀ key, home key < table.dictSize)
    (tree_eq : trees (home (table.dict a).key) = plug frames (node a bf left right))
    (left_root : left.root = some l) (right_root : right.root = some r) :
    (∃ table', table.removeNode a (frames.map (·.label)) = some table' ∧
        RemoveSpec table home (table.dict a).key true table') ∨
      table.removeNode a (frames.map (·.label)) = none ∧
        pathSize ≤ (trees (home (table.dict a).key)).height := by
  have stands := forest.stands _ (home_lt (table.dict a).key)
  have here : a ∈ trees (home (table.dict a).key) := by
    rw [tree_eq]
    exact mem_plug.mpr (.inl (mem_node.mpr (.inl rfl)))
  have linked := stands.linked
  rw [tree_eq, linked_plug] at linked
  obtain ⟨⟨-, -, left_eq, right_eq, leftLinked, -⟩, -⟩ := linked
  rw [left_root] at left_eq
  rw [right_root] at right_eq
  have deep := length_add_height_le frames (node a bf left right)
  rw [← tree_eq, height] at deep
  rw [removeNode, left_eq, right_eq]
  dsimp only
  rcases rightmost_spec leftLinked left_root (pathSize - ((frames.map (·.label)).length + 1))
    (⟨.left, a, bf, right⟩ :: frames) with
    ⟨path, tmp, bf', left', rightmost_eq, sides, rfl⟩ | ⟨rightmost_eq, long⟩
  · have whole_eq : plug frames (node a bf (plug path (join .left tmp bf' left' nil)) right) =
        plug (path ++ ⟨.left, a, bf, right⟩ :: frames) (join .left tmp bf' left' nil) := by
      rw [plug_append]
      rfl
    rw [whole_eq] at tree_eq
    rw [tree_eq] at stands
    have toward := stands.ordered.toward (mem_join.mpr (.inl rfl))
    have less : (table.dict tmp).key < (table.dict a).key :=
      toward ⟨.left, a, bf, right⟩ (List.mem_append_right _ (.head _))
    have toward' : ∀ other ∈ path ++ ⟨.left, a, bf, right⟩ :: frames,
        (overwritten table.dict a tmp a).key ≤ (overwritten table.dict a tmp other.label).key ↔
          other.side = .left := fun other among =>
      overwritten_toward less (toward other among)
    obtain ⟨frame, rest, frames_eq⟩ : ∃ frame rest,
        path ++ ⟨.left, a, bf, right⟩ :: frames = frame :: rest := by
      cases path with
      | nil => exact ⟨_, _, rfl⟩
      | cons frame path => exact ⟨_, _, rfl⟩
    have frame_side := side_of_first less sides frames_eq (toward frame (frames_eq ▸ .head _))
    rw [List.map_cons] at rightmost_eq
    rw [rightmost_eq, frames_eq]
    rw [frames_eq] at stands tree_eq toward toward' whole_eq
    have tmp_ne : tmp ≠ a := by
      rintro rfl
      exact lt_irrefl _ less
    have tmp_ne' : tmp ≠ frame.label := by
      rintro rfl
      have toward'' := toward frame (.head _)
      revert toward''
      cases frame.side <;> exact lt_irrefl _
    have tmp_left : (table.dict tmp).left = left'.root :=
      (linked_join.mp (linked_plug.mp stands.linked).1).1.2.2.1
    have inside (b : Nat) := stands.inside b
    have writes := overwritten_rewritten (tree_eq ▸ here) table.dict tmp
    have labels_eq : (plug (frame :: rest) (join .left tmp bf' left' nil)).labels =
        (before frames ++ (before path ++ left'.labels)) ++
          tmp :: a :: (right.labels ++ after frames) := by
      rw [← frames_eq, labels_plug_left sides]
      simp [labels, join]
    have labels_eq' : (plug (frame :: rest) left').labels =
        (before frames ++ (before path ++ left'.labels)) ++ a :: (right.labels ++ after frames) := by
      rw [← frames_eq, labels_plug_left sides]
    have nodup := stands.ordered.nodup
    rw [Tree.Nodup, labels_eq] at nodup
    have used_a := (inside a (tree_eq ▸ here)).2.1
    have used_tmp := (inside tmp (mem_plug.mpr (.inl (mem_join.mpr (.inl rfl))))).2.1
    have entries_eq := congrArg (List.map fun b => (table.dict b).entry) labels_eq
    have entries_eq' := congrArg (List.map fun b => (overwritten table.dict a tmp b).entry) labels_eq'
    rw [List.map_append, List.map_cons, List.map_cons] at entries_eq
    rw [overwritten_entries nodup (used_a.trans used_tmp.symm)] at entries_eq'
    obtain ⟨dict', tree', rebalance_eq, replaced, entries, members⟩ :=
      detached_replaced stands writes (by
        rw [entries_eq, entries_eq']
        exact (List.Sublist.refl _).append ((List.sublist_cons_self _ _).cons_cons _)) toward'
    simp only [bind, Option.bind_some, List.map_cons, List.head?_cons, frame_side,
      releaseNode_dict, modify_of_ne tmp_ne, modify_of_ne tmp_ne', tmp_left]
    rw [List.map_cons, detached, overwritten] at rebalance_eq
    rw [rebalance_eq]
    rw [← tree_eq] at replaced members entries_eq
    have value_a : (table.dict a).entry = (true, (table.dict a).key, (table.dict a).value) := by
      rw [THElement.entry, used_a]
    rw [value_a, List.append_cons] at entries_eq
    rw [entries_eq', List.append_cons] at entries
    refine .inl ⟨_, rfl, .removed ⟨_, a, (inside a (tree_eq ▸ here)).1, value_a⟩ (fun b => ?_)
      (forest.vacate home_lt replaced ?_ members entries_eq entries)⟩
    · rw [adopt_apply, modify_apply, modify_apply]
      split <;> split <;> split <;> first | rfl | cases frame.side <;> rfl
    · rw [tree_eq]
      exact mem_plug.mpr (.inl (mem_join.mpr (.inl rfl)))
  · rw [List.map_cons] at rightmost_eq
    rw [rightmost_eq]
    rw [List.length_map] at long
    refine .inr ⟨rfl, ?_⟩
    omega

/-! A node with one child at most. -/

section OneChild

variable {table : HashTable κ β} {a : Nat} {side : Side} {child : Option Nat}

theorem removeNode_cons (child_eq : (table.dict a).child side = child)
    (other_eq : (table.dict a).child side.other = none) (t : Nat) (above : List Nat) :
    table.removeNode a (t :: above) =
      let dict := modify table.dict t fun element =>
        element.setChild (if element.left = some a then .left else .right) child
      let table := { table with dict := adopt dict child t }.releaseNode a
      (rebalanceRemoved a table.dict (t :: above)).bind fun dict => some { table with dict } := by
  cases side with
  | left =>
      simp only [THElement.child, Side.other] at child_eq other_eq
      rw [removeNode, child_eq, other_eq]
      cases child <;> rfl
  | right =>
      simp only [THElement.child, Side.other] at child_eq other_eq
      rw [removeNode, child_eq, other_eq]
      cases child <;> rfl

theorem removeNode_nil (child_eq : (table.dict a).child side = child)
    (other_eq : (table.dict a).child side.other = none) :
    table.removeNode a [] = some (child.elim (table.releaseNode a) fun tmp =>
      let dict := modify table.dict a fun element => element.copyFrom (table.dict tmp)
      let dict := modify dict a fun element => element.setParent none
      { table with dict }.releaseNode tmp) := by
  cases side with
  | left =>
      simp only [THElement.child, Side.other] at child_eq other_eq
      rw [removeNode, child_eq, other_eq]
      cases child <;> rfl
  | right =>
      simp only [THElement.child, Side.other] at child_eq other_eq
      rw [removeNode, child_eq, other_eq]
      cases child <;> rfl

end OneChild

theorem removeNode_below {table : HashTable κ β} {a : Nat} {bf : Int} {side : Side}
    {child : Tree Nat} {frame : Frame Nat} {frames : List (Frame Nat)}
    (forest : Forest table.dict table.dictSize home trees)
    (home_lt : ∀ key, home key < table.dictSize)
    (tree_eq : trees (home (table.dict a).key) =
      plug (frame :: frames) (join side a bf child nil)) :
    ∃ table', table.removeNode a ((frame :: frames).map (·.label)) = some table' ∧
      RemoveSpec table home (table.dict a).key true table' := by
  have stands := forest.stands _ (home_lt (table.dict a).key)
  have inside : a ∈ plug (frame :: frames) (join side a bf child nil) :=
    mem_plug.mpr (.inl (mem_join.mpr (.inl rfl)))
  rw [tree_eq] at stands
  obtain ⟨here, path⟩ := linked_plug.mp stands.linked
  obtain ⟨-, -, child_eq, other_eq⟩ := (linked_join.mp here).1
  rw [root_join] at path
  have notSibling : ¬ a ∈ frame.sibling := fun among =>
    (nodup_plug stands.ordered.nodup).2 a (mem_join.mpr (.inl rfl)) ⟨frame, .head _, .inr among⟩
  have side_eq := path.side_eq notSibling
  have toward : ∀ other ∈ frame :: frames,
      (table.dict a).key ≤ (table.dict other.label).key ↔ other.side = .left := by
    intro other among
    have toward := stands.ordered.toward (mem_join.mpr (.inl rfl)) other among
    cases side_eq : other.side with
    | left =>
        rw [side_eq] at toward
        exact iff_of_true (le_of_lt toward) rfl
    | right =>
        rw [side_eq] at toward
        exact iff_of_false (not_le.mpr toward) (by decide)
  have entry_a : (table.dict a).entry = (true, (table.dict a).key, (table.dict a).value) := by
    rw [THElement.entry, (stands.inside a inside).2.1]
  obtain ⟨first, second, before_eq, after_eq⟩ : ∃ first second,
      (plug (frame :: frames) (join side a bf child nil)).labels.map
          (fun b => (table.dict b).entry) =
        first ++ (true, (table.dict a).key, (table.dict a).value) :: second ∧
      (plug (frame :: frames) child).labels.map (fun b => (table.dict b).entry) =
        first ++ second := by
    cases side with
    | left =>
        refine ⟨(before (frame :: frames) ++ child.labels).map fun b => (table.dict b).entry,
          (after (frame :: frames)).map fun b => (table.dict b).entry, ?_, ?_⟩
        · simp [labels_plug, join, labels, entry_a]
        · simp [labels_plug]
    | right =>
        refine ⟨(before (frame :: frames)).map fun b => (table.dict b).entry,
          (child.labels ++ after (frame :: frames)).map fun b => (table.dict b).entry, ?_, ?_⟩
        · simp [labels_plug, join, labels, entry_a]
        · simp [labels_plug]
  obtain ⟨dict', tree', rebalance_eq, replaced, entries, members⟩ :=
    detached_replaced stands ⟨fun _ => rfl, fun _ => rfl, fun _ _ => rfl⟩ (by
      rw [before_eq, after_eq]
      exact (List.Sublist.refl _).append (List.sublist_cons_self _ _)) toward
  rw [← tree_eq] at replaced members before_eq
  have write_eq : modify table.dict frame.label (fun element =>
      element.setChild (if element.left = some a then .left else .right) child.root) =
      modify table.dict frame.label fun element => element.setChild frame.side child.root := by
    rw [modify, side_eq]
    rfl
  rw [List.map_cons, removeNode_cons child_eq other_eq, write_eq]
  rw [List.map_cons, detached] at rebalance_eq
  simp only [releaseNode_dict, rebalance_eq, Option.bind_some]
  refine ⟨_, rfl, .removed ⟨_, a, (stands.inside a inside).1, entry_a⟩ (fun b => ?_)
    (forest.vacate home_lt replaced (tree_eq ▸ inside) members before_eq (entries.trans after_eq))⟩
  rw [adopt_apply, modify_apply]
  split <;> split <;> first | rfl | cases frame.side <;> rfl

theorem RemoveSpec.of_releaseNode {table : HashTable κ β} {key : κ} {p : Nat} {released : Dict κ β}
    (present : ∃ v, Stores table.dict table.dictSize key v)
    (same : ∀ a, (released a).isUsing = (table.dict a).isUsing)
    (vacated : Vacated table.dict table.dictSize home p key
      (modify released p fun element => { element with isUsing := false })) :
    RemoveSpec table home key true ({ table with dict := released }.releaseNode p) := by
  have spec := RemoveSpec.removed present same vacated
  rwa [← releaseNode_dict { table with dict := released } p] at spec

/-! A root with one child at most. -/

section Root

variable {size i a tmp : Nat} {bf bf' : Int} {side : Side}

/-- A root without children is freed. -/
theorem freed_replaced (dict : Dict κ β) (size : Nat) (home : κ → Nat) (i a : Nat) (bf : Int)
    (side : Side) :
    Replaced dict size home (join side a bf nil nil) i nil
      (modify dict a fun element => { element with isUsing := false }) := by
  have members (b : Nat) : b ∈ join side a bf nil nil ↔ b = a := by simp
  refine ⟨⟨trivial, .inl rfl, fun b inside => absurd inside (not_mem_nil b),
    List.Pairwise.nil, trivial⟩, fun b old _ => ?_, fun b new _ => absurd new (not_mem_nil b),
    fun b old _ => ?_, fun b => ?_⟩
  · exact modify_of_ne (fun same => old ((members b).mpr same)) _
  · rw [(members b).mp old, modify_self]
  · rw [modify_apply]
    split <;> rfl

theorem promoted_replaced (ne : tmp ≠ a) (root_eq : a = i)
    (stands : Stands dict size home i (join side a bf (node tmp bf' nil nil) nil)) :
    Replaced dict size home (join side a bf (node tmp bf' nil nil) nil) i (node a 0 nil nil)
      (promoted dict a tmp) := by
  have members (b : Nat) : b ∈ join side a bf (node tmp bf' nil nil) nil ↔ b = a ∨ b = tmp := by
    rw [mem_join]
    simp
  obtain ⟨-, ⟨tmp_bf, -, tmp_left, tmp_right, -, -⟩, -⟩ := linked_join.mp stands.linked
  obtain ⟨⟨tmp_bf_eq, -⟩, -⟩ := (balanced_join.mp stands.balanced).2.2.2
  rw [height, Nat.cast_zero, sub_zero] at tmp_bf_eq
  refine ⟨⟨⟨?_, ?_, ?_, ?_, trivial, trivial⟩, .inr (congrArg some root_eq), fun b inside => ?_,
    List.pairwise_singleton .., by simp [Tree.Balanced, height]⟩, fun b old _ => ?_,
    fun b new old => ?_, fun b old new => ?_, fun b => ?_⟩
  · rw [promoted_root ne]
    exact tmp_bf.trans tmp_bf_eq
  · rw [promoted_root ne]
    rfl
  · rw [promoted_root ne]
    exact tmp_left
  · rw [promoted_root ne]
    exact tmp_right
  · obtain rfl : b = a := by simpa using inside
    rw [promoted_root ne]
    exact ⟨(stands.inside b ((members b).mpr (.inl rfl))).1,
      (stands.inside tmp ((members tmp).mpr (.inr rfl))).2⟩
  · rw [members, not_or] at old
    simp only [promoted, modify_of_ne old.1, modify_of_ne old.2]
  · refine absurd ((members b).mpr (.inl ?_)) old
    simpa using new
  · obtain rfl : b = tmp := ((members b).mp old).resolve_left fun same =>
      new (mem_node.mpr (.inl same))
    simp only [promoted, modify_self]
  · simp only [promoted, modify_apply]
    split <;> split <;> rfl

end Root

theorem removeNode_root {table : HashTable κ β} {a : Nat} {bf : Int} {side : Side}
    {child : Tree Nat} (forest : Forest table.dict table.dictSize home trees)
    (home_lt : ∀ key, home key < table.dictSize)
    (tree_eq : trees (home (table.dict a).key) = join side a bf child nil) :
    ∃ table', table.removeNode a [] = some table' ∧
      RemoveSpec table home (table.dict a).key true table' := by
  have stands := forest.stands _ (home_lt (table.dict a).key)
  rw [tree_eq] at stands
  have here : a ∈ join side a bf child nil := mem_join.mpr (.inl rfl)
  obtain ⟨⟨-, -, child_eq, other_eq⟩, -, -⟩ := linked_join.mp stands.linked
  have used_a := (stands.inside a here).2.1
  have entry_a : (table.dict a).entry = (true, (table.dict a).key, (table.dict a).value) := by
    rw [THElement.entry, used_a]
  have present : ∃ v, Stores table.dict table.dictSize (table.dict a).key v :=
    ⟨_, a, (stands.inside a here).1, entry_a⟩
  rw [removeNode_nil child_eq other_eq]
  refine ⟨_, rfl, ?_⟩
  cases child with
  | nil =>
      have before_eq : (trees (home (table.dict a).key)).labels.map (fun b => (table.dict b).entry) =
          [] ++ (true, (table.dict a).key, (table.dict a).value) :: [] := by
        rw [tree_eq, ← entry_a]
        cases side <;> rfl
      exact RemoveSpec.of_releaseNode present (fun b => rfl)
        (forest.vacate home_lt (tree_eq ▸ freed_replaced ..) (tree_eq ▸ here)
          (fun b => by simp [tree_eq]) before_eq rfl)
  | node tmp bf' left right =>
      obtain ⟨rfl, rfl⟩ := eq_nil_of_only_child stands.balanced
      have ne : tmp ≠ a := by
        obtain ⟨⟨notChild, -⟩, -⟩ := nodup_join.mp stands.ordered.nodup
        rintro rfl
        exact notChild (mem_node.mpr (.inl rfl))
      have members (b : Nat) : b ∈ join side a bf (node tmp bf' nil nil) nil ↔ b = a ∨ b = tmp := by
        rw [mem_join]
        simp
      have used_tmp := (stands.inside tmp ((members tmp).mpr (.inr rfl))).2.1
      have root_eq : a = home (table.dict a).key := by
        rcases stands.root_eq with empty | root_eq
        · rw [empty] at here
          exact absurd here (not_mem_nil a)
        · rw [root_join] at root_eq
          exact Option.some.inj root_eq
      obtain ⟨first, second, before_eq, after_eq⟩ :=
        only_child_entries table.dict side a tmp bf bf'
      rw [← tree_eq, entry_a] at before_eq
      have entries : (node a 0 nil nil).labels.map (fun b => (promoted table.dict a tmp b).entry) =
          first ++ second := by
        rw [← after_eq]
        simp only [labels, List.nil_append, List.map_cons, List.map_nil, promoted_root ne]
        rfl
      refine RemoveSpec.of_releaseNode present (fun b => ?_) (forest.vacate home_lt
        (tree_eq ▸ promoted_replaced ne root_eq stands)
        (by rw [tree_eq, members]; exact .inr rfl) (fun b => ?_) before_eq entries)
      · simp only [modify_apply]
        split
        · rename_i same
          rw [same, used_a]
          exact used_tmp
        · rfl
      · rw [tree_eq, members]
        simp only [mem_node, not_mem_nil, or_false]
        constructor
        · rintro rfl
          exact ⟨.inl rfl, ne.symm⟩
        · rintro ⟨either, notTmp⟩
          exact either.resolve_right notTmp

/-! ## `Remove` -/

/-- `Remove` does what it should, unless the path array is too short. -/
theorem remove_spec {table : HashTable κ β} {hash : κ → Nat}
    (forest : Forest table.dict table.dictSize (fun key => table.slot (hash key)) trees)
    (home_lt : ∀ key, table.slot (hash key) < table.dictSize) (key : κ) :
    (∃ removed table', table.remove hash key = some (removed, table') ∧
        RemoveSpec table (fun key => table.slot (hash key)) key removed table') ∨
      table.remove hash key = none ∧ pathSize ≤ (trees (table.slot (hash key))).height := by
  rw [remove]
  split
  · rename_i other
    exact .inl ⟨_, _, rfl, .absent (forest.not_stores (forest.eq_nil (home_lt key) other))⟩
  rename_i here
  obtain ⟨isUsing, parent_eq⟩ : (table.dict (table.slot (hash key))).isUsing = true ∧
      (table.dict (table.slot (hash key))).parent = none := by simpa using here
  rcases forest.search_home home_lt key isUsing parent_eq pathSize with
    ⟨found, search_eq, spec⟩ | ⟨search_eq, long⟩
  · rw [search_eq, Option.bind_some]
    cases found with
    | absent side path =>
        obtain ⟨frames, tree_eq, -, -, toward⟩ := spec
        exact .inl ⟨_, _, rfl, .absent (forest.not_stores_path home_lt tree_eq toward)⟩
    | found a above =>
        obtain ⟨frames, bf, left, right, tree_eq, rfl, rfl, -⟩ := spec
        dsimp only
        have oneChild {side : Side} {child : Tree Nat}
            (node_eq : node a bf left right = join side a bf child nil) :
            ∃ table', table.removeNode a (frames.map (·.label)) = some table' ∧
              RemoveSpec table (fun key => table.slot (hash key)) (table.dict a).key true
                table' := by
          rw [node_eq] at tree_eq
          cases frames with
          | nil => exact removeNode_root forest home_lt tree_eq
          | cons frame frames => exact removeNode_below forest home_lt tree_eq
        cases left_root : left.root with
        | none =>
            rw [eq_nil_of_root left_root] at oneChild
            obtain ⟨table', remove_eq, removed⟩ := @oneChild .right right rfl
            exact .inl ⟨true, table', by rw [remove_eq]; rfl, removed⟩
        | some l =>
            cases right_root : right.root with
            | none =>
                rw [eq_nil_of_root right_root] at oneChild
                obtain ⟨table', remove_eq, removed⟩ := @oneChild .left left rfl
                exact .inl ⟨true, table', by rw [remove_eq]; rfl, removed⟩
            | some r =>
                rcases removeNode_two forest home_lt tree_eq left_root right_root with
                  ⟨table', remove_eq, removed⟩ | ⟨remove_eq, long⟩
                · exact .inl ⟨true, table', by rw [remove_eq]; rfl, removed⟩
                · exact .inr ⟨by rw [remove_eq]; rfl, long⟩
  · exact .inr ⟨by rw [search_eq]; rfl, long⟩

end Order

end HashTable
end CommonLib
