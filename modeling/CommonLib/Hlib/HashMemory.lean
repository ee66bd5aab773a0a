import CommonLib.Hlib.HashTable

/-!
# Trees in the element array

`Linked` lays a tree of slots out in the array, and `LinkedPath` lays out a search path around the
tree at its end.  The rotations are described on these layouts.
-/

namespace CommonLib
namespace THElement

variable {κ β : Type}

/-- The fields of an element that belong to the tree. -/
def links (element : THElement κ β) : Int × Option Nat × Option Nat × Option Nat :=
  (element.bf, element.parent, element.left, element.right)

/-- The fields of an element that belong to the table. -/
def content (element : THElement κ β) : Nat × Bool × κ × β :=
  (element.index, element.isUsing, element.key, element.value)

/-- What the table stores in an element. -/
def entry (element : THElement κ β) : Bool × κ × β := (element.isUsing, element.key, element.value)

@[simp] theorem child_setChild (element : THElement κ β) (side : Side) (pointer : Option Nat) :
    (element.setChild side pointer).child side = pointer := by cases side <;> rfl

@[simp] theorem child_setChild_other (element : THElement κ β) (side : Side)
    (pointer : Option Nat) :
    (element.setChild side pointer).child side.other = element.child side.other := by
  cases side <;> rfl

@[simp] theorem child_other_setChild (element : THElement κ β) (side : Side)
    (pointer : Option Nat) :
    (element.setChild side.other pointer).child side = element.child side := by
  cases side <;> rfl

@[simp] theorem child_copyFrom (element source : THElement κ β) (side : Side) :
    (element.copyFrom source).child side = source.child side := by cases side <;> rfl

@[simp] theorem bf_setChild (element : THElement κ β) (side : Side) (pointer : Option Nat) :
    (element.setChild side pointer).bf = element.bf := by cases side <;> rfl

@[simp] theorem parent_setChild (element : THElement κ β) (side : Side) (pointer : Option Nat) :
    (element.setChild side pointer).parent = element.parent := by cases side <;> rfl

@[simp] theorem key_setChild (element : THElement κ β) (side : Side) (pointer : Option Nat) :
    (element.setChild side pointer).key = element.key := by cases side <;> rfl

@[simp] theorem content_setChild (element : THElement κ β) (side : Side) (pointer : Option Nat) :
    (element.setChild side pointer).content = element.content := by cases side <;> rfl

@[simp] theorem entry_setChild (element : THElement κ β) (side : Side) (pointer : Option Nat) :
    (element.setChild side pointer).entry = element.entry := by cases side <;> rfl

@[simp] theorem index_setChild (element : THElement κ β) (side : Side) (pointer : Option Nat) :
    (element.setChild side pointer).index = element.index := by cases side <;> rfl

@[simp] theorem child_setParent (element : THElement κ β) (side : Side) (parent : Option Nat) :
    (element.setParent parent).child side = element.child side := by cases side <;> rfl

@[simp] theorem bf_setParent (element : THElement κ β) (parent : Option Nat) :
    (element.setParent parent).bf = element.bf := rfl

@[simp] theorem parent_setParent (element : THElement κ β) (parent : Option Nat) :
    (element.setParent parent).parent = parent := rfl

@[simp] theorem child_setBf (element : THElement κ β) (side : Side) (bf : Int) :
    (element.setBf bf).child side = element.child side := by cases side <;> rfl

@[simp] theorem bf_setBf (element : THElement κ β) (bf : Int) : (element.setBf bf).bf = bf := rfl

@[simp] theorem parent_setBf (element : THElement κ β) (bf : Int) :
    (element.setBf bf).parent = element.parent := rfl

theorem links_eq_iff {first second : THElement κ β} (side : Side) :
    first.links = second.links ↔
      first.bf = second.bf ∧ first.parent = second.parent ∧ first.child side = second.child side ∧
        first.child side.other = second.child side.other := by
  cases side with
  | left => simp [links, child, Side.other]
  | right =>
      simp only [links, child, Side.other, Prod.mk.injEq]
      tauto

end THElement

namespace HashTable

open CommonLib.Tree

variable {κ β : Type} {dict dict' : Dict κ β}

/-! ## Writes -/

theorem modify_apply (dict : Dict κ β) (node a : Nat) (write : THElement κ β → THElement κ β) :
    modify dict node write a = if a = node then write (dict a) else dict a := by
  unfold modify
  by_cases same : a = node
  · subst same
    rw [Function.update_self, if_pos rfl]
  · rw [Function.update_of_ne same, if_neg same]

@[simp] theorem modify_self (dict : Dict κ β) (node : Nat) (write : THElement κ β → THElement κ β) :
    modify dict node write node = write (dict node) := by rw [modify_apply, if_pos rfl]

theorem modify_of_ne {node a : Nat} (ne : a ≠ node) (write : THElement κ β → THElement κ β) :
    modify dict node write a = dict a := by rw [modify_apply, if_neg ne]

theorem setBf_apply (dict : Dict κ β) (node a : Nat) (bf : Int) :
    setBf dict node bf a = if a = node then (dict a).setBf bf else dict a := modify_apply ..

theorem adopt_apply (dict : Dict κ β) (child : Option Nat) (node a : Nat) :
    adopt dict child node a =
      if some a = child then (dict a).setParent (some node) else dict a := by
  cases child with
  | none => rfl
  | some child => simp only [adopt, modify_apply, Option.some.injEq]

/-! ## Layouts -/

/-- The tree stands in the array, and its root has this parent. -/
def Linked (dict : Dict κ β) : Option Nat → Tree Nat → Prop
  | _, .nil => True
  | parent, .node a bf left right =>
      (dict a).bf = bf ∧ (dict a).parent = parent ∧ (dict a).left = left.root ∧
        (dict a).right = right.root ∧ Linked dict (some a) left ∧ Linked dict (some a) right

theorem linked_join {parent : Option Nat} {side : Side} {a : Nat} {bf : Int}
    {child sibling : Tree Nat} :
    Linked dict parent (join side a bf child sibling) ↔
      ((dict a).bf = bf ∧ (dict a).parent = parent ∧ (dict a).child side = child.root ∧
        (dict a).child side.other = sibling.root) ∧
        Linked dict (some a) child ∧ Linked dict (some a) sibling := by
  cases side with
  | left =>
      simp only [join, Linked, THElement.child, Side.other]
      tauto
  | right =>
      simp only [join, Linked, THElement.child, Side.other]
      tauto

theorem Linked.congr {parent : Option Nat} {tree : Tree Nat} (linked : Linked dict parent tree)
    (same : ∀ a ∈ tree, (dict' a).links = (dict a).links) : Linked dict' parent tree := by
  induction tree generalizing parent with
  | nil => trivial
  | node a bf left right leftInduction rightInduction =>
      obtain ⟨bf_eq, parent_eq, left_eq, right_eq, leftLinked, rightLinked⟩ := linked
      have here := same a (mem_node.mpr (.inl rfl))
      simp only [THElement.links, Prod.mk.injEq] at here
      obtain ⟨bf_eq', parent_eq', left_eq', right_eq'⟩ := here
      exact ⟨bf_eq'.trans bf_eq, parent_eq'.trans parent_eq, left_eq'.trans left_eq,
        right_eq'.trans right_eq,
        leftInduction leftLinked fun a inside => same a (mem_node.mpr (.inr (.inl inside))),
        rightInduction rightLinked fun a inside => same a (mem_node.mpr (.inr (.inr inside)))⟩

/-- A tree gets another parent when its root is written. -/
theorem Linked.adopted {parent : Option Nat} {tree : Tree Nat} {node : Nat}
    (linked : Linked dict parent tree) (nodup : tree.Nodup)
    (same : ∀ a ∈ tree, (dict' a).links = (adopt dict tree.root node a).links) :
    Linked dict' (some node) tree := by
  cases tree with
  | nil => trivial
  | node a bf left right =>
      obtain ⟨⟨notLeft, notRight⟩, -, -, -⟩ :=
        (nodup_join : (join .left a bf left right).Nodup ↔ _).mp nodup
      obtain ⟨bf_eq, parent_eq, left_eq, right_eq, leftLinked, rightLinked⟩ := linked
      have here := same a (mem_node.mpr (.inl rfl))
      rw [adopt_apply, if_pos (by rfl)] at here
      simp only [THElement.links, Prod.mk.injEq] at here
      obtain ⟨bf_eq', parent_eq', left_eq', right_eq'⟩ := here
      refine ⟨bf_eq'.trans bf_eq, parent_eq', left_eq'.trans left_eq, right_eq'.trans right_eq,
        leftLinked.congr fun b inside => ?_, rightLinked.congr fun b inside => ?_⟩
      · rw [same b (mem_node.mpr (.inr (.inl inside))), adopt_apply, if_neg]
        rintro ⟨⟩
        exact notLeft inside
      · rw [same b (mem_node.mpr (.inr (.inr inside))), adopt_apply, if_neg]
        rintro ⟨⟩
        exact notRight inside

/-- Only elements of the tree are written, and of these only the fields of the tree. -/
structure Relinked (tree : Tree Nat) (dict dict' : Dict κ β) : Prop where
  outside : ∀ a, a ∉ tree → dict' a = dict a
  content : ∀ a, (dict' a).content = (dict a).content

theorem Relinked.refl (tree : Tree Nat) (dict : Dict κ β) : Relinked tree dict dict :=
  ⟨fun _ _ => rfl, fun _ => rfl⟩

theorem Relinked.modify {tree : Tree Nat} (relinked : Relinked tree dict dict') {node : Nat}
    (inside : node ∈ tree) (write : THElement κ β → THElement κ β)
    (kept : ∀ element, (write element).content = element.content) :
    Relinked tree dict (modify dict' node write) := by
  refine ⟨fun a outside => ?_, fun a => ?_⟩
  · have ne : a ≠ node := by
      rintro rfl
      exact outside inside
    rw [modify_of_ne ne, relinked.outside a outside]
  · by_cases same : a = node
    · subst same
      rw [modify_self, kept, relinked.content]
    · rw [modify_of_ne same, relinked.content]

theorem Relinked.adopt {tree : Tree Nat} (relinked : Relinked tree dict dict')
    {child : Option Nat} (inside : ∀ a, child = some a → a ∈ tree) (node : Nat) :
    Relinked tree dict (adopt dict' child node) := by
  cases child with
  | none => exact relinked
  | some child => exact relinked.modify (inside child rfl) (·.setParent (some node)) fun _ => rfl

/-- The tree takes another shape, in which the same entries stand in the same order. -/
structure Rearranged (tree : Tree Nat) (dict : Dict κ β) (tree' : Tree Nat) (dict' : Dict κ β) :
    Prop where
  outside : ∀ a, ¬ a ∈ tree → dict' a = dict a
  members : ∀ a, a ∈ tree' ↔ a ∈ tree
  index : ∀ a, (dict' a).index = (dict a).index
  entries : tree'.labels.map (fun a => (dict' a).entry) = tree.labels.map fun a => (dict a).entry

theorem Rearranged.trans {first second third : Tree Nat} {dict'' : Dict κ β}
    (rearranged : Rearranged first dict second dict')
    (again : Rearranged second dict' third dict'') : Rearranged first dict third dict'' where
  outside := fun a outside => by
    rw [again.outside a (by rwa [rearranged.members]), rearranged.outside a outside]
  members := fun a => (again.members a).trans (rearranged.members a)
  index := fun a => (again.index a).trans (rearranged.index a)
  entries := again.entries.trans rearranged.entries

theorem Relinked.rearranged {tree tree' : Tree Nat} (relinked : Relinked tree dict dict')
    (labels_eq : tree'.labels = tree.labels) : Rearranged tree dict tree' dict' where
  outside := relinked.outside
  members := fun a => by rw [mem_def, mem_def, labels_eq]
  index := fun a => congrArg Prod.fst (relinked.content a)
  entries := by
    rw [labels_eq]
    exact List.map_congr_left fun a _ => congrArg Prod.snd (relinked.content a)

/-! ## Rotations -/

theorem not_root {tree : Tree Nat} {a : Nat} (outside : a ∉ tree) : some a ≠ tree.root :=
  fun root_eq => outside (root_mem root_eq.symm)

theorem rotateOnce_linked {side : Side} {parent : Option Nat} {root next : Nat} {bf bf' : Int}
    {outer inner light : Tree Nat}
    (linked : Linked dict parent (join side root bf (join side next bf' outer inner) light))
    (nodup : (join side root bf (join side next bf' outer inner) light).Nodup) :
    ∃ dict', rotateOnce side dict root = some (next, dict') ∧
      Linked dict' parent (single side root next bf' outer inner light) ∧
      Relinked (join side root bf (join side next bf' outer inner) light) dict dict' := by
  simp only [nodup_join, mem_join, not_or] at nodup
  simp only [linked_join, root_join] at linked
  obtain ⟨⟨⟨root_ne, rootOuter, rootInner⟩, rootLight⟩, disjoint,
    ⟨⟨nextOuter, nextInner⟩, outerInner, -, innerNodup⟩, -⟩ := nodup
  obtain ⟨⟨-, parent_eq, child_eq, other_eq⟩,
    ⟨⟨bf_eq', -, child_eq', other_eq'⟩, outerLinked, innerLinked⟩, lightLinked⟩ := linked
  have next_ne : next ≠ root := Ne.symm root_ne
  let base := adopt (modify (modify (modify (modify dict root
      (·.setChild side inner.root)) next (·.setChild side.other (some root)))
      next (·.setParent (dict root).parent)) root (·.setParent (some next))) inner.root root
  have rotate_eq : rotateOnce side dict root =
      if bf' = side.sign then some (next, setBf (setBf base root 0) next 0)
      else some (next, setBf (setBf base root side.sign) next (-side.sign)) := by
    simp only [rotateOnce, child_eq, other_eq', bind, Option.bind_some, modify_apply, root_ne,
      next_ne, if_true, if_false, adopt_apply, not_root nextInner, THElement.parent_setChild,
      THElement.child_setChild, THElement.child_setParent, THElement.bf_setParent,
      THElement.bf_setChild, bf_eq', base]
  have relinked (bf₁ bf₂ : Int) :
      Relinked (join side root bf (join side next bf' outer inner) light) dict
        (setBf (setBf base root bf₁) next bf₂) := by
    have rootInside : root ∈ join side root bf (join side next bf' outer inner) light := by simp
    have nextInside : next ∈ join side root bf (join side next bf' outer inner) light := by simp
    refine (((((((Relinked.refl _ dict).modify rootInside _ ?_).modify nextInside _ ?_).modify
      nextInside _ ?_).modify rootInside _ ?_).adopt ?_ root).modify rootInside _ ?_).modify
      nextInside _ ?_
    all_goals first | exact fun element => element.content_setChild _ _ | exact fun _ => rfl | skip
    intro a root_eq
    simp [root_mem root_eq]
  have linked' (bf₁ bf₂ : Int) : Linked (setBf (setBf base root bf₁) next bf₂) parent
      (join side next bf₂ outer (join side root bf₁ inner light)) := by
    simp only [linked_join, root_join]
    refine ⟨⟨?_, ?_, ?_, ?_⟩, outerLinked.congr fun a inside => ?_,
      ⟨?_, ?_, ?_, ?_⟩, innerLinked.adopted innerNodup fun a inside => ?_,
      lightLinked.congr fun a inside => ?_⟩
    rotate_left 4
    · have := outerInner a inside
      simp [base, setBf_apply, adopt_apply, modify_apply, not_root this,
        ne_of_mem_of_not_mem inside rootOuter, ne_of_mem_of_not_mem inside nextOuter]
    rotate_left 4
    · simp [base, setBf_apply, adopt_apply, modify_apply,
        ne_of_mem_of_not_mem inside rootInner, ne_of_mem_of_not_mem inside nextInner]
    · have notInner : a ∉ inner := fun other => disjoint a (.inr (.inr other)) inside
      have notNext : a ≠ next := fun same => disjoint a (.inl same) inside
      simp [base, setBf_apply, adopt_apply, modify_apply, not_root notInner, notNext,
        ne_of_mem_of_not_mem inside rootLight]
    all_goals
      simp [base, setBf_apply, adopt_apply, modify_apply, root_ne, next_ne, not_root nextInner,
        not_root rootInner, parent_eq, child_eq', other_eq]
  by_cases outward : bf' = side.sign
  · rw [rotate_eq, if_pos outward, single, if_pos outward]
    exact ⟨_, rfl, linked' 0 0, relinked 0 0⟩
  · rw [rotate_eq, if_neg outward, single, if_neg outward]
    exact ⟨_, rfl, linked' _ _, relinked _ _⟩

theorem rotateTwice_linked {side : Side} {parent : Option Nat} {root next top : Nat}
    {bf bf₁ bf₂ : Int} {outer near far light : Tree Nat}
    (linked : Linked dict parent
      (join side root bf (join side next bf₁ outer (join side top bf₂ near far)) light))
    (nodup : (join side root bf (join side next bf₁ outer (join side top bf₂ near far)) light).Nodup)
    (balanced : bf₂ = 0 ∨ bf₂ = side.sign ∨ bf₂ = -side.sign) :
    ∃ dict', rotateTwice side dict root = some (top, dict') ∧
      Linked dict' parent (double side root next top bf₂ outer near far light) ∧
      Relinked (join side root bf (join side next bf₁ outer (join side top bf₂ near far)) light)
        dict dict' := by
  simp only [nodup_join, mem_join, not_or] at nodup
  simp only [linked_join, root_join] at linked
  obtain ⟨⟨⟨root_ne, rootOuter, root_ne', rootNear, rootFar⟩, rootLight⟩, disjoint,
    ⟨⟨nextOuter, next_ne', nextNear, nextFar⟩, outerInner, -,
      ⟨topNear, topFar⟩, nearFar, nearNodup, farNodup⟩, -⟩ := nodup
  obtain ⟨⟨-, parent_eq, child_eq, other_eq⟩,
    ⟨⟨-, -, child_eq', other_eq'⟩, outerLinked,
      ⟨bf_eq, -, near_eq, far_eq⟩, nearLinked, farLinked⟩, lightLinked⟩ := linked
  have next_ne : next ≠ root := Ne.symm root_ne
  have top_ne : top ≠ root := Ne.symm root_ne'
  have top_ne' : top ≠ next := Ne.symm next_ne'
  let base := adopt (adopt (modify (modify (modify (modify (modify (modify (modify dict root
      (·.setChild side far.root)) next (·.setChild side.other near.root))
      top (·.setChild side (some next))) top (·.setChild side.other (some root)))
      top (·.setParent (dict root).parent)) root (·.setParent (some top)))
      next (·.setParent (some top))) far.root root) near.root next
  have rotate_eq : rotateTwice side dict root = some (top,
      setBf (setBf (setBf base root (if bf₂ = side.sign then -side.sign else 0)) next
        (if bf₂ = -side.sign then side.sign else 0)) top 0) := by
    have sign_ne : side.sign ≠ 0 ∧ -side.sign ≠ 0 ∧ -side.sign ≠ side.sign := by
      rcases side.sign_eq with sign | sign <;> rw [sign] <;> decide
    obtain ⟨sign_ne, neg_ne, neg_ne'⟩ := sign_ne
    simp only [rotateTwice, child_eq, other_eq', near_eq, far_eq, bind, Option.bind_some,
      modify_apply, root_ne, next_ne, root_ne', next_ne', top_ne, top_ne', if_true, if_false,
      adopt_apply, not_root topNear, not_root topFar, not_root nextFar,
      THElement.parent_setChild, THElement.child_setChild, THElement.child_setParent,
      THElement.bf_setParent, THElement.bf_setChild, bf_eq, base]
    rcases balanced with even | outward | inward
    · simp [even, sign_ne.symm, neg_ne.symm]
    · simp [outward, sign_ne, neg_ne'.symm]
    · simp [inward, neg_ne, neg_ne']
  refine ⟨_, rotate_eq, ?_, ?_⟩
  · simp only [double, linked_join, root_join]
    refine ⟨⟨?_, ?_, ?_, ?_⟩,
      ⟨⟨?_, ?_, ?_, ?_⟩, outerLinked.congr fun a inside => ?_,
        nearLinked.adopted nearNodup fun a inside => ?_⟩,
      ⟨⟨?_, ?_, ?_, ?_⟩, farLinked.adopted farNodup fun a inside => ?_,
        lightLinked.congr fun a inside => ?_⟩⟩
    rotate_left 8
    · have outside : a ≠ top ∧ a ∉ near ∧ a ∉ far := by
        have := outerInner a inside
        tauto
      simp [base, setBf_apply, adopt_apply, modify_apply, outside, not_root outside.2.1,
        not_root outside.2.2, ne_of_mem_of_not_mem inside rootOuter,
        ne_of_mem_of_not_mem inside nextOuter]
    · simp [base, setBf_apply, adopt_apply, modify_apply, not_root (nearFar a inside),
        ne_of_mem_of_not_mem inside rootNear, ne_of_mem_of_not_mem inside nextNear,
        ne_of_mem_of_not_mem inside topNear]
    rotate_left 4
    · have outside : a ∉ near := fun other => nearFar a other inside
      simp [base, setBf_apply, adopt_apply, modify_apply, not_root outside,
        ne_of_mem_of_not_mem inside rootFar, ne_of_mem_of_not_mem inside nextFar,
        ne_of_mem_of_not_mem inside topFar]
    · have outside : a ≠ next ∧ a ∉ outer ∧ a ≠ top ∧ a ∉ near ∧ a ∉ far := by
        have := fun other => disjoint a other inside
        tauto
      obtain ⟨notNext, -, notTop, notNear, notFar⟩ := outside
      simp [base, setBf_apply, adopt_apply, modify_apply, notNext, notTop, not_root notNear,
        not_root notFar, ne_of_mem_of_not_mem inside rootLight]
    all_goals
      simp [base, setBf_apply, adopt_apply, modify_apply, root_ne, next_ne, root_ne', next_ne',
        top_ne, top_ne', not_root topNear, not_root topFar, not_root nextNear, not_root nextFar,
        not_root rootNear, not_root rootFar, parent_eq, child_eq', other_eq]
  · have rootInside : root ∈ join side root bf
        (join side next bf₁ outer (join side top bf₂ near far)) light := by simp
    have nextInside : next ∈ join side root bf
        (join side next bf₁ outer (join side top bf₂ near far)) light := by simp
    have topInside : top ∈ join side root bf
        (join side next bf₁ outer (join side top bf₂ near far)) light := by simp
    refine ((((((((((((Relinked.refl _ dict).modify rootInside _ ?_).modify nextInside _ ?_).modify
      topInside _ ?_).modify topInside _ ?_).modify topInside _ ?_).modify rootInside _ ?_).modify
      nextInside _ ?_).adopt ?_ root).adopt ?_ next).modify rootInside _ ?_).modify
      nextInside _ ?_).modify topInside _ ?_
    all_goals first
      | exact fun element => element.content_setChild _ _
      | exact fun _ => rfl
      | intro a root_eq
        simp [root_mem root_eq]

/-! ## Paths -/

/-- The slot above the end of a path. -/
def top (parent : Option Nat) : List (Frame Nat) → Option Nat
  | [] => parent
  | frame :: _ => some frame.label

/-- The path stands in the array, with the child pointer `below` at its end. -/
def LinkedPath (dict : Dict κ β) (parent : Option Nat) : List (Frame Nat) → Option Nat → Prop
  | [], _ => True
  | frame :: frames, below =>
      ((dict frame.label).bf = frame.bf ∧ (dict frame.label).parent = top parent frames ∧
        (dict frame.label).child frame.side = below ∧
        (dict frame.label).child frame.side.other = frame.sibling.root) ∧
        Linked dict (some frame.label) frame.sibling ∧
        LinkedPath dict parent frames (some frame.label)

theorem linked_plug {parent : Option Nat} {frames : List (Frame Nat)} {tree : Tree Nat} :
    Linked dict parent (plug frames tree) ↔
      Linked dict (top parent frames) tree ∧ LinkedPath dict parent frames tree.root := by
  induction frames generalizing tree with
  | nil => simp [plug, top, LinkedPath]
  | cons frame frames induction =>
      rw [plug, induction, linked_join, root_join, LinkedPath, top]
      tauto

theorem LinkedPath.congr {parent : Option Nat} {frames : List (Frame Nat)} {below : Option Nat}
    (linked : LinkedPath dict parent frames below)
    (same : ∀ a, OnPath frames a → (dict' a).links = (dict a).links) :
    LinkedPath dict' parent frames below := by
  induction frames generalizing below with
  | nil => trivial
  | cons frame frames induction =>
      obtain ⟨⟨bf_eq, parent_eq, child_eq, sibling_eq⟩, siblingLinked, rest⟩ := linked
      have here := same frame.label ⟨frame, .head _, .inl rfl⟩
      obtain ⟨bf_eq', parent_eq', child_eq', sibling_eq'⟩ :=
        (THElement.links_eq_iff frame.side).mp here
      refine ⟨⟨bf_eq'.trans bf_eq, parent_eq'.trans parent_eq, child_eq'.trans child_eq,
        sibling_eq'.trans sibling_eq⟩, siblingLinked.congr fun a inside => ?_,
        induction rest fun a onPath => ?_⟩
      · exact same a ⟨frame, .head _, .inr inside⟩
      · obtain ⟨other, among, here⟩ := onPath
        exact same a ⟨other, .tail _ among, here⟩

/-- The child pointer at the end of a path is rewritten. -/
theorem LinkedPath.setChild {parent : Option Nat} {frame : Frame Nat} {frames : List (Frame Nat)}
    {below : Option Nat} (linked : LinkedPath dict parent (frame :: frames) below)
    (apart : frame.label ∉ frame.sibling ∧ ¬ OnPath frames frame.label) (below' : Option Nat)
    (here : (dict' frame.label).links = ((dict frame.label).setChild frame.side below').links)
    (same : ∀ a, OnPath (frame :: frames) a → a ≠ frame.label →
      (dict' a).links = (dict a).links) :
    LinkedPath dict' parent (frame :: frames) below' := by
  obtain ⟨⟨bf_eq, parent_eq, -, sibling_eq⟩, siblingLinked, rest⟩ := linked
  obtain ⟨bf_eq', parent_eq', child_eq', sibling_eq'⟩ :=
    (THElement.links_eq_iff frame.side).mp here
  rw [THElement.bf_setChild] at bf_eq'
  rw [THElement.parent_setChild] at parent_eq'
  rw [THElement.child_setChild] at child_eq'
  rw [THElement.child_setChild_other] at sibling_eq'
  refine ⟨⟨bf_eq'.trans bf_eq, parent_eq'.trans parent_eq, child_eq',
    sibling_eq'.trans sibling_eq⟩, siblingLinked.congr fun a inside => ?_,
    rest.congr fun a onPath => ?_⟩
  · exact same a ⟨frame, .head _, .inr inside⟩ (ne_of_mem_of_not_mem inside apart.1)
  · refine same a ?_ ?_
    · obtain ⟨other, among, place⟩ := onPath
      exact ⟨other, .tail _ among, place⟩
    · rintro rfl
      exact apart.2 onPath

/-- The test by which the code finds out on which side of an element its child `a` stands. -/
theorem LinkedPath.side_eq {parent : Option Nat} {frame : Frame Nat} {frames : List (Frame Nat)}
    {a : Nat} (linked : LinkedPath dict parent (frame :: frames) (some a))
    (notSibling : ¬ a ∈ frame.sibling) :
    (if (dict frame.label).left = some a then Side.left else .right) = frame.side := by
  obtain ⟨⟨-, -, child_eq, sibling_eq⟩, -, -⟩ := linked
  cases side_eq : frame.side with
  | left =>
      rw [side_eq] at child_eq
      exact if_pos child_eq
  | right =>
      rw [side_eq] at sibling_eq
      exact if_neg fun same => not_root notSibling (same.symm.trans sibling_eq)

/-- A factor at the end of a path is rewritten. -/
theorem linked_setBf {parent : Option Nat} {frames : List (Frame Nat)} {side : Side} {a : Nat}
    {bf : Int} {child sibling : Tree Nat}
    (linked : Linked dict parent (plug frames (join side a bf child sibling)))
    (nodup : (plug frames (join side a bf child sibling)).Nodup) (bf' : Int) :
    Linked (setBf dict a bf') parent (plug frames (join side a bf' child sibling)) := by
  obtain ⟨here, apart⟩ := nodup_plug nodup
  obtain ⟨⟨notChild, notSibling⟩, -⟩ := nodup_join.mp here
  rw [linked_plug, linked_join] at linked ⊢
  obtain ⟨⟨⟨-, parent_eq, child_eq, sibling_eq⟩, childLinked, siblingLinked⟩, path⟩ := linked
  rw [root_join] at path ⊢
  have other {b : Nat} (ne : b ≠ a) : setBf dict a bf' b = dict b := by
    rw [setBf_apply, if_neg ne]
  have self : setBf dict a bf' a = (dict a).setBf bf' := by rw [setBf_apply, if_pos rfl]
  refine ⟨⟨⟨?_, ?_, ?_, ?_⟩, childLinked.congr fun b inside => ?_,
    siblingLinked.congr fun b inside => ?_⟩, path.congr fun b onPath => ?_⟩
  · rw [self, THElement.bf_setBf]
  · rw [self, THElement.parent_setBf, parent_eq]
  · rw [self, THElement.child_setBf, child_eq]
  · rw [self, THElement.child_setBf, sibling_eq]
  · rw [other (ne_of_mem_of_not_mem inside notChild)]
  · rw [other (ne_of_mem_of_not_mem inside notSibling)]
  · rw [other]
    rintro rfl
    exact apart b (mem_join.mpr (.inl rfl)) onPath

end HashTable
end CommonLib
