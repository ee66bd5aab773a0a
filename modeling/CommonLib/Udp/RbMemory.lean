import CommonLib.Udp.RbTree

/-!
# Red-black trees in memory

A tree of addresses stands in memory if its nodes hold its colours and links.  What the code writes
rebuilds the tree: the nodes keep their order and their data, and nothing else is touched.
-/

namespace CommonLib.JswRbtree

open CommonLib.Tree

variable {α : Type} {memory memory' : RbMemory α}

/-! ## Trees and paths in memory -/

/-- The pointer to a tree. -/
def ptr (tree : Tree ℕ) : ℕ := tree.root.getD 0

/-- A node in memory, its links from one side to the other. -/
def Holds (memory : RbMemory α) (side : Side) (a : ℕ) (red : Int) (child sibling : ℕ) : Prop :=
  a ≠ 0 ∧ ∃ node, memory a = some node ∧ node.red = red ∧ node.link side = child ∧
    node.link side.other = sibling

def Linked (memory : RbMemory α) : Tree ℕ → Prop
  | .nil => True
  | .node a red left right =>
      Holds memory .left a red (ptr left) (ptr right) ∧ Linked memory left ∧ Linked memory right

theorem holds_other {side : Side} {a : ℕ} {red : Int} {child sibling : ℕ} :
    Holds memory side.other a red child sibling ↔ Holds memory side a red sibling child := by
  unfold Holds
  cases side <;> simp only [Side.other] <;> tauto

theorem linked_join {side : Side} {a : ℕ} {red : Int} {child sibling : Tree ℕ} :
    Linked memory (join side a red child sibling) ↔
      Holds memory side a red (ptr child) (ptr sibling) ∧ Linked memory child ∧
        Linked memory sibling := by
  cases side with
  | left => exact Iff.rfl
  | right =>
      simp only [join, Linked]
      rw [show Side.right = Side.left.other from rfl, holds_other]
      tauto

@[simp] theorem ptr_join (side : Side) (a : ℕ) (red : Int) (child sibling : Tree ℕ) :
    ptr (join side a red child sibling) = a := by
  cases side <;> rfl

@[simp] theorem ptr_nil : ptr .nil = 0 := rfl

@[simp] theorem ptr_node (a : ℕ) (red : Int) (left right : Tree ℕ) :
    ptr (.node a red left right) = a := rfl

@[simp] theorem ptr_recolour (red : Int) (tree : Tree ℕ) : ptr (tree.recolour red) = ptr tree := by
  cases tree <;> rfl

theorem ptr_mem {tree : Tree ℕ} (ne : ptr tree ≠ 0) : ptr tree ∈ tree := by
  cases tree with
  | nil => exact absurd rfl ne
  | node => exact mem_node.mpr (.inl rfl)

theorem Holds.congr {side : Side} {a : ℕ} {red : Int} {child sibling : ℕ}
    (holds : Holds memory side a red child sibling) (same : memory' a = memory a) :
    Holds memory' side a red child sibling := by
  rw [Holds, same]
  exact holds

theorem Linked.congr {tree : Tree ℕ} (linked : Linked memory tree)
    (same : ∀ a ∈ tree, memory' a = memory a) : Linked memory' tree := by
  induction tree with
  | nil => trivial
  | node a red left right leftInduction rightInduction =>
      obtain ⟨here, left_linked, right_linked⟩ := linked
      exact ⟨here.congr (same a (mem_node.mpr (.inl rfl))),
        leftInduction left_linked fun b inside => same b (mem_node.mpr (.inr (.inl inside))),
        rightInduction right_linked fun b inside => same b (mem_node.mpr (.inr (.inr inside)))⟩

theorem Linked.zero_notMem {tree : Tree ℕ} (linked : Linked memory tree) : 0 ∉ tree := by
  induction tree with
  | nil => exact not_mem_nil 0
  | node a red left right leftInduction rightInduction =>
      obtain ⟨⟨ne, -⟩, left_linked, right_linked⟩ := linked
      rw [mem_node]
      rintro (same | inside | inside)
      · exact ne same.symm
      · exact leftInduction left_linked inside
      · exact rightInduction right_linked inside

theorem Linked.allocated {tree : Tree ℕ} (linked : Linked memory tree) {a : ℕ} (inside : a ∈ tree) :
    ∃ node, memory a = some node := by
  induction tree with
  | nil => exact absurd inside (not_mem_nil a)
  | node b red left right leftInduction rightInduction =>
      obtain ⟨⟨-, node, here, -⟩, left_linked, right_linked⟩ := linked
      rcases mem_node.mp inside with rfl | inside | inside
      · exact ⟨node, here⟩
      · exact leftInduction left_linked inside
      · exact rightInduction right_linked inside

theorem Linked.ptr_eq_zero {tree : Tree ℕ} (linked : Linked memory tree) :
    ptr tree = 0 ↔ tree = .nil := by
  cases tree with
  | nil => exact iff_of_true rfl rfl
  | node a red left right => exact iff_of_false linked.1.1 (by simp)

theorem Linked.isRed {tree : Tree ℕ} (linked : Linked memory tree) :
    isRed memory (ptr tree) = some (decide tree.IsRed) := by
  cases tree with
  | nil => rfl
  | node a red left right =>
      obtain ⟨ne, node, here, red_eq, -⟩ := linked.1
      rw [JswRbtree.isRed, ptr_node, if_neg ne, here]
      simp [IsRed, red_eq, beq_eq_decide]

/-- The path stands in memory, with the pointer `below` at its end. -/
def LinkedPath (memory : RbMemory α) : List (Frame ℕ) → ℕ → Prop
  | [], _ => True
  | frame :: frames, below =>
      Holds memory frame.side frame.label frame.bf below (ptr frame.sibling) ∧
        Linked memory frame.sibling ∧ LinkedPath memory frames frame.label

theorem linked_plug {frames : List (Frame ℕ)} {tree : Tree ℕ} :
    Linked memory (plug frames tree) ↔
      Linked memory tree ∧ LinkedPath memory frames (ptr tree) := by
  induction frames generalizing tree with
  | nil => simp [plug, LinkedPath]
  | cons frame frames induction =>
      rw [plug, induction, linked_join, ptr_join, LinkedPath]
      tauto

theorem LinkedPath.congr {frames : List (Frame ℕ)} {below : ℕ}
    (linked : LinkedPath memory frames below)
    (same : ∀ a, OnPath frames a → memory' a = memory a) : LinkedPath memory' frames below := by
  induction frames generalizing below with
  | nil => trivial
  | cons frame frames induction =>
      obtain ⟨here, sibling, rest⟩ := linked
      refine ⟨here.congr (same _ ⟨frame, .head _, .inl rfl⟩), sibling.congr fun a inside => ?_,
        induction rest fun a onPath => ?_⟩
      · exact same a ⟨frame, .head _, .inr inside⟩
      · obtain ⟨other, among, place⟩ := onPath
        exact same a ⟨other, .tail _ among, place⟩

/-- The test by which the code finds out on which side of a node its child stands. -/
theorem Holds.sideOf_eq {side : Side} {a child : ℕ} {red : Int} {sibling : Tree ℕ}
    (holds : Holds memory side a red child (ptr sibling)) (ne : child ≠ 0)
    (apart : child ∉ sibling) {node : RbNode α} (here : memory a = some node) :
    sideOf node child = side := by
  obtain ⟨-, node', here', -, child_eq, sibling_eq⟩ := holds
  obtain rfl : node = node' := Option.some.inj (here.symm.trans here')
  cases side with
  | right => exact if_pos child_eq
  | left =>
      refine if_neg fun same => ?_
      have pointer : ptr sibling = child := sibling_eq.symm.trans same
      exact apart (pointer ▸ ptr_mem (pointer ▸ ne))

/-! ## Paths from the head -/

/-- `head` above the root. -/
def headFrame : Frame ℕ := ⟨.right, head, 0, .nil⟩

/-- The label at the end of a path. -/
def top (default : ℕ) : List (Frame ℕ) → ℕ
  | [] => default
  | frame :: _ => frame.label

/-- The side to which a path goes on. -/
def turn : List (Frame ℕ) → Side
  | [] => .right
  | frame :: _ => frame.side

theorem exists_owner (frames : List (Frame ℕ)) :
    ∃ owner others, frames ++ [headFrame] = owner :: others ∧ owner.label = top head frames ∧
      owner.side = turn frames := by
  cases frames with
  | nil => exact ⟨headFrame, [], rfl, rfl, rfl⟩
  | cons frame frames => exact ⟨frame, frames ++ [headFrame], rfl, rfl, rfl⟩

/-- Any node is a node seen from a side. -/
theorem exists_side (side : Side) (a : ℕ) (red : Int) (left right : Tree ℕ) :
    ∃ child sibling, Tree.node a red left right = join side a red child sibling := by
  cases side with
  | left => exact ⟨left, right, rfl⟩
  | right => exact ⟨right, left, rfl⟩

theorem node_eq_join {side : Side} {a b : ℕ} {red red' : Int} {left right child sibling : Tree ℕ}
    (same : Tree.node a red left right = join side b red' child sibling) :
    b = a ∧ red' = red ∧ (child = left ∧ sibling = right ∨ child = right ∧ sibling = left) := by
  cases side with
  | left =>
      obtain ⟨rfl, rfl, rfl, rfl⟩ := Tree.node.inj same
      exact ⟨rfl, rfl, .inl ⟨rfl, rfl⟩⟩
  | right =>
      obtain ⟨rfl, rfl, rfl, rfl⟩ := Tree.node.inj same
      exact ⟨rfl, rfl, .inr ⟨rfl, rfl⟩⟩

theorem length_join (side : Side) (a : ℕ) (red : Int) (child sibling : Tree ℕ) :
    (join side a red child sibling).labels.length =
      child.labels.length + sibling.labels.length + 1 := by
  cases side <;> simp [join, labels] <;> omega

/-! ## Rebuilding -/

def dataAt (memory : RbMemory α) (a : ℕ) : Option α := (memory a).map (·.data)

/-- The tree has another shape or other colours; its nodes keep their order and their data. -/
structure Rebuilt (tree tree' : Tree ℕ) (memory memory' : RbMemory α) : Prop where
  linked : Linked memory' tree'
  labels : tree'.labels = tree.labels
  data : ∀ a, dataAt memory' a = dataAt memory a
  outside : ∀ a, a ∉ tree → memory' a = memory a

theorem Rebuilt.refl {tree : Tree ℕ} (linked : Linked memory tree) :
    Rebuilt tree tree memory memory :=
  ⟨linked, rfl, fun _ => rfl, fun _ _ => rfl⟩

theorem Rebuilt.mem_iff {tree tree' : Tree ℕ} (rebuilt : Rebuilt tree tree' memory memory')
    {a : ℕ} : a ∈ tree' ↔ a ∈ tree := by
  rw [mem_def, mem_def, rebuilt.labels]

theorem Rebuilt.trans {first second third : Tree ℕ} {memory'' : RbMemory α}
    (rebuilt : Rebuilt first second memory memory')
    (again : Rebuilt second third memory' memory'') : Rebuilt first third memory memory'' where
  linked := again.linked
  labels := again.labels.trans rebuilt.labels
  data := fun a => (again.data a).trans (rebuilt.data a)
  outside := fun a outside =>
    (again.outside a (mt rebuilt.mem_iff.mp outside)).trans (rebuilt.outside a outside)

theorem Rebuilt.nodup {tree tree' : Tree ℕ} (rebuilt : Rebuilt tree tree' memory memory')
    (nodup : tree.Nodup) : tree'.Nodup := by
  rw [Tree.Nodup, rebuilt.labels]
  exact nodup

/-- A tree at the end of a path is rebuilt below the same pointer. -/
theorem Rebuilt.below {frames : List (Frame ℕ)} {tree tree' : Tree ℕ}
    (rebuilt : Rebuilt tree tree' memory memory') (linked : Linked memory (plug frames tree))
    (nodup : (plug frames tree).Nodup) (same : ptr tree' = ptr tree) :
    Rebuilt (plug frames tree) (plug frames tree') memory memory' where
  linked := by
    have apart := (nodup_plug nodup).2
    refine linked_plug.mpr ⟨rebuilt.linked, same ▸ (linked_plug.mp linked).2.congr fun a onPath => ?_⟩
    exact rebuilt.outside a fun inside => apart a inside onPath
  labels := labels_plug_congr rebuilt.labels
  data := rebuilt.data
  outside := fun a outside => rebuilt.outside a fun inside => outside (mem_plug.mpr (.inl inside))

/-- A tree is hung up at the end of a path by a write to the last node of the path. -/
theorem setLink_path {frame : Frame ℕ} {frames : List (Frame ℕ)} {below : ℕ} {tree : Tree ℕ}
    (path : LinkedPath memory (frame :: frames) below) (linked : Linked memory tree)
    (apart : frame.label ∉ tree ∧ frame.label ∉ frame.sibling ∧ ¬OnPath frames frame.label) :
    ∃ memory', setLink memory frame.label frame.side (ptr tree) = some memory' ∧
      Linked memory' (plug (frame :: frames) tree) ∧
      (∀ a, dataAt memory' a = dataAt memory a) ∧ ∀ a, a ≠ frame.label → memory' a = memory a := by
  obtain ⟨label_tree, label_sibling, label_path⟩ := apart
  obtain ⟨⟨ne, node, here, red_eq, -, sibling_eq⟩, sibling, rest⟩ := path
  let memory' := Function.update memory frame.label
    (some { node with link := Function.update node.link frame.side (ptr tree) })
  have made : setLink memory frame.label frame.side (ptr tree) = some memory' := by
    rw [setLink, here]
    rfl
  have other : ∀ {a}, a ≠ frame.label → memory' a = memory a := fun different =>
    Function.update_of_ne different _ _
  refine ⟨memory', made, linked_plug.mpr ⟨linked.congr fun a inside => other ?_,
    ⟨ne, _, Function.update_self .., red_eq, Function.update_self .., ?_⟩,
    sibling.congr fun a inside => other ?_, rest.congr fun a onPath => other ?_⟩, fun a => ?_,
    fun a => other⟩
  · exact ne_of_mem_of_not_mem inside label_tree
  · exact (Function.update_of_ne (Side.other_ne frame.side) ..).trans sibling_eq
  · exact ne_of_mem_of_not_mem inside label_sibling
  · rintro rfl
    exact label_path onPath
  · by_cases same : a = frame.label
    · subst same
      rw [dataAt, dataAt, here]
      simp [memory']
    · rw [dataAt, dataAt, other same]

/-- The last node of a path is neither in the tree below it nor elsewhere on the path. -/
theorem label_apart {frame : Frame ℕ} {frames : List (Frame ℕ)} {tree : Tree ℕ}
    (nodup : (plug (frame :: frames) tree).Nodup) :
    frame.label ∉ tree ∧ frame.label ∉ frame.sibling ∧ ¬OnPath frames frame.label := by
  obtain ⟨joined, apart⟩ : (join frame.side frame.label frame.bf tree frame.sibling).Nodup ∧ _ :=
    nodup_plug nodup
  obtain ⟨⟨label_tree, label_sibling⟩, -⟩ := nodup_join.mp joined
  exact ⟨label_tree, label_sibling, apart frame.label (mem_join.mpr (.inl rfl))⟩

/-- A rebuilt tree is hung up again. -/
theorem Rebuilt.hung {frame : Frame ℕ} {frames : List (Frame ℕ)} {tree tree' : Tree ℕ}
    (rebuilt : Rebuilt tree tree' memory memory')
    (linked : Linked memory (plug (frame :: frames) tree))
    (nodup : (plug (frame :: frames) tree).Nodup) :
    ∃ memory'', setLink memory' frame.label frame.side (ptr tree') = some memory'' ∧
      Rebuilt (plug (frame :: frames) tree) (plug (frame :: frames) tree') memory memory'' := by
  have apart := (nodup_plug nodup).2
  obtain ⟨label_tree, elsewhere⟩ := label_apart nodup
  have path : LinkedPath memory' (frame :: frames) (ptr tree) :=
    (linked_plug.mp linked).2.congr fun a onPath =>
      rebuilt.outside a fun inside => apart a inside onPath
  obtain ⟨memory'', made, linked', data, other⟩ := setLink_path path rebuilt.linked
    ⟨fun inside => label_tree (rebuilt.mem_iff.mp inside), elsewhere⟩
  refine ⟨memory'', made, linked', labels_plug_congr rebuilt.labels,
    fun a => (data a).trans (rebuilt.data a), fun a outside => ?_⟩
  rw [mem_plug] at outside
  refine (other a ?_).trans (rebuilt.outside a fun inside => outside (.inl inside))
  rintro rfl
  exact outside (.inr ⟨frame, .head _, .inl rfl⟩)

/-- A node gets another colour. -/
theorem setRed_rebuilt {side : Side} {a : ℕ} {red : Int} {child sibling : Tree ℕ}
    (linked : Linked memory (join side a red child sibling))
    (nodup : (join side a red child sibling).Nodup) (red' : Int) :
    ∃ memory', setRed memory a red' = some memory' ∧
      Rebuilt (join side a red child sibling) (join side a red' child sibling) memory memory' := by
  obtain ⟨⟨not_child, not_sibling⟩, -⟩ := nodup_join.mp nodup
  obtain ⟨⟨ne, node, here, -, child_eq, sibling_eq⟩, child_linked, sibling_linked⟩ :=
    linked_join.mp linked
  let memory' := Function.update memory a (some { node with red := red' })
  have other : ∀ {b}, b ≠ a → memory' b = memory b := fun different =>
    Function.update_of_ne different _ _
  refine ⟨memory', by rw [setRed, here]; rfl, linked_join.mpr ⟨⟨ne, _, Function.update_self .., rfl,
    child_eq, sibling_eq⟩, child_linked.congr fun b inside => other ?_,
    sibling_linked.congr fun b inside => other ?_⟩, labels_join_bf .., fun b => ?_,
    fun b outside => other fun same => outside (mem_join.mpr (.inl same))⟩
  · exact ne_of_mem_of_not_mem inside not_child
  · exact ne_of_mem_of_not_mem inside not_sibling
  · by_cases same : b = a
    · subst same
      rw [dataAt, dataAt, here]
      simp [memory']
    · rw [dataAt, dataAt, other same]

theorem setRed_plug {frames : List (Frame ℕ)} {side : Side} {a : ℕ} {red : Int}
    {child sibling : Tree ℕ} (linked : Linked memory (plug frames (join side a red child sibling)))
    (nodup : (plug frames (join side a red child sibling)).Nodup) (red' : Int) :
    ∃ memory', setRed memory a red' = some memory' ∧
      Rebuilt (plug frames (join side a red child sibling))
        (plug frames (join side a red' child sibling)) memory memory' := by
  obtain ⟨memory', made, rebuilt⟩ :=
    setRed_rebuilt (linked_plug.mp linked).1 (nodup_plug nodup).1 red'
  exact ⟨memory', made, rebuilt.below linked nodup (by simp)⟩

/-! ## Rotations -/

theorem single_eq {root save : ℕ} {dir : Side} {node node' : RbNode α}
    (here : memory root = some node) (link_eq : node.link dir.other = save)
    (here' : memory save = some node') (ne : save ≠ root) :
    single memory root dir = some (save, Function.update (Function.update memory root
        (some { node with red := 1, link := Function.update node.link dir.other (node'.link dir) }))
      save (some { node' with red := 0, link := Function.update node'.link dir root })) := by
  have ne' : root ≠ save := Ne.symm ne
  simp [single, here, link_eq, here', setLink, setRed, ne, ne', Function.update_idem,
    Function.update_comm ne]

theorem eq_other_of_ne {side side' : Side} (ne : side ≠ side') : side' = side.other := by
  cases side <;> cases side' <;> first | rfl | exact absurd rfl ne

theorem other_other (side : Side) : side.other.other = side := by cases side <;> rfl

theorem single_rebuilt {side : Side} {root next : ℕ} {red red' : Int}
    {outer inner light : Tree ℕ}
    (linked : Linked memory (join side root red (join side next red' outer inner) light))
    (nodup : (join side root red (join side next red' outer inner) light).Nodup) :
    ∃ memory', single memory root side.other = some (next, memory') ∧
      Rebuilt (join side root red (join side next red' outer inner) light)
        (join side next 0 outer (join side root 1 inner light)) memory memory' := by
  simp only [nodup_join, mem_join, not_or] at nodup
  simp only [linked_join, ptr_join] at linked
  obtain ⟨⟨⟨root_ne, root_outer, root_inner⟩, root_light⟩, disjoint,
    ⟨⟨next_outer, next_inner⟩, -⟩, -⟩ := nodup
  obtain ⟨⟨root_nz, node, here, -, link_eq, light_eq⟩,
    ⟨⟨next_nz, node', here', -, outer_eq, inner_eq⟩, outer_linked, inner_linked⟩,
    light_linked⟩ := linked
  have next_ne : next ≠ root := Ne.symm root_ne
  have next_light : next ∉ light := disjoint next (.inl rfl)
  refine ⟨_, single_eq here (by rw [other_other]; exact link_eq) here' next_ne,
    linked_join.mpr ⟨⟨next_nz, _, Function.update_self .., rfl, ?_, ?_⟩, ?_,
      linked_join.mpr ⟨⟨root_nz, _, (Function.update_of_ne root_ne ..).trans
        (Function.update_self ..), rfl, ?_, ?_⟩, ?_, ?_⟩⟩,
    (labels_rotate side root next red red' 0 1 outer inner light).symm, fun a => ?_,
    fun a outside => ?_⟩
  · exact (Function.update_of_ne (Ne.symm (Side.other_ne side)) ..).trans outer_eq
  · exact (Function.update_self ..).trans (ptr_join ..).symm
  · refine outer_linked.congr fun a inside => ?_
    rw [Function.update_of_ne (ne_of_mem_of_not_mem inside next_outer),
      Function.update_of_ne (ne_of_mem_of_not_mem inside root_outer)]
  · simp only [other_other, Function.update_self]
    exact inner_eq
  · simp only [other_other]
    exact (Function.update_of_ne (Side.other_ne side) ..).trans light_eq
  · refine inner_linked.congr fun a inside => ?_
    rw [Function.update_of_ne (ne_of_mem_of_not_mem inside next_inner),
      Function.update_of_ne (ne_of_mem_of_not_mem inside root_inner)]
  · refine light_linked.congr fun a inside => ?_
    rw [Function.update_of_ne (ne_of_mem_of_not_mem inside next_light),
      Function.update_of_ne (ne_of_mem_of_not_mem inside root_light)]
  · rw [dataAt, dataAt]
    by_cases same : a = next
    · rw [same, Function.update_self, here']
      rfl
    · rw [Function.update_of_ne same]
      by_cases same' : a = root
      · rw [same', Function.update_self, here]
        rfl
      · rw [Function.update_of_ne same']
  · simp only [mem_join, not_or] at outside
    rw [Function.update_of_ne outside.2.1.1, Function.update_of_ne outside.1]

theorem double_rebuilt {side : Side} {root next top : ℕ} {red red₁ red₂ : Int}
    {outer near far light : Tree ℕ}
    (linked : Linked memory
      (join side root red (join side next red₁ outer (join side top red₂ near far)) light))
    (nodup :
      (join side root red (join side next red₁ outer (join side top red₂ near far)) light).Nodup) :
    ∃ memory', double memory root side.other = some (top, memory') ∧
      Rebuilt (join side root red (join side next red₁ outer (join side top red₂ near far)) light)
        (join side top 0 (join side next 1 outer near) (join side root 1 far light))
        memory memory' := by
  let frame : Frame ℕ := ⟨side, root, red, light⟩
  have inner : join side next red₁ outer (join side top red₂ near far) =
      join side.other next red₁ (join side.other top red₂ far near) outer := by
    rw [join_other, join_other]
  have inner' : join side.other top 0 far (join side.other next 1 near outer) =
      join side top 0 (join side next 1 outer near) far := by
    rw [join_other, join_other]
  have linked' : Linked memory (plug [frame] (join side next red₁ outer
      (join side top red₂ near far))) := linked
  have nodup' : (plug [frame] (join side next red₁ outer
      (join side top red₂ near far))).Nodup := nodup
  have linked₁ := (linked_plug.mp linked').1
  have nodup₁ := (nodup_plug nodup').1
  rw [inner] at linked₁ nodup₁
  obtain ⟨memory₁, first, rebuilt⟩ := single_rebuilt linked₁ nodup₁
  rw [← inner, inner'] at rebuilt
  obtain ⟨memory₂, hung, rebuilt'⟩ := rebuilt.hung linked' nodup'
  obtain ⟨memory₃, second, rebuilt''⟩ :=
    single_rebuilt rebuilt'.linked (rebuilt'.nodup nodup')
  obtain ⟨⟨-, node, here, -, link_eq, -⟩, -⟩ := linked_join.mp linked
  rw [ptr_join] at link_eq
  refine ⟨memory₃, ?_, rebuilt'.trans rebuilt''⟩
  rw [other_other] at first
  simp only [ptr_join, frame] at hung second
  simp [double, here, other_other, link_eq, first, hung, second]

end CommonLib.JswRbtree
