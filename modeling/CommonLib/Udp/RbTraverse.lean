import CommonLib.Udp.RbRun

/-!
# Traversals of a red-black tree

A `jsw_rbtrav` has the nodes above the one at which it stands on a stack of 64 entries.  In a tree
with fewer than `2 ^ 32` nodes it is a cursor over the sorted data, which may go forwards and
backwards until it leaves the data.
-/

namespace CommonLib.JswRbtree

open CommonLib.Tree CommonLib.Execution

variable {α : Type}

/-! ## The code -/

/-- `HEIGHT_LIMIT`. -/
def heightLimit : ℕ := 64

/-- `jsw_rbtrav`, with the entries of `path` below `top`, the last one first. -/
structure Traversal where
  it : ℕ
  path : List ℕ
  deriving DecidableEq

/-- `trav->path[trav->top++] = trav->it`. -/
def push (trav : Traversal) : Option (List ℕ) :=
  if trav.path.length < heightLimit then some (trav.it :: trav.path) else none

/-- The loops that go down on one side. -/
def descend (memory : RbMemory α) (dir : Side) : ℕ → Traversal → Option Traversal
  | 0, _ => none
  | fuel + 1, trav => do
      let next := (← memory trav.it).link dir
      if next = 0 then return trav
      else descend memory dir fuel { it := next, path := ← push trav }

/-- The loop that goes up from a node without a child on one side. -/
def ascend (memory : RbMemory α) (dir : Side) (last : ℕ) : List ℕ → Option Traversal
  | [] => some { it := 0, path := [] }
  | it :: path => do
      if last = (← memory it).link dir then ascend memory dir it path
      else return { it := it, path := path }

/-- `trav->it == NULL ? NULL : trav->it->data`. -/
def current (memory : RbMemory α) (it : ℕ) : Option (Option α) :=
  if it = 0 then some none else (memory it).map fun node => some node.data

def start (tree : JswRbtree α) (dir : Side) : Option (Traversal × Option α) := do
  let trav : Traversal ←
    if tree.root = 0 then some { it := 0, path := [] }
    else descend tree.memory dir (tree.fresh + 1) { it := tree.root, path := [] }
  return (trav, ← current tree.memory trav.it)

def move (tree : JswRbtree α) (trav : Traversal) (dir : Side) : Option (Traversal × Option α) := do
  let next := (← tree.memory trav.it).link dir
  let trav ←
    if next ≠ 0 then do
      descend tree.memory dir.other (tree.fresh + 1) { it := next, path := ← push trav }
    else ascend tree.memory dir trav.it trav.path
  return (trav, ← current tree.memory trav.it)

/-- What some calls of `jsw_rbtnext` and `jsw_rbtprev` return. -/
def moves (tree : JswRbtree α) : Traversal → List Side → Option (List (Option α))
  | _, [] => some []
  | trav, dir :: dirs => do
      let (trav, data) ← move tree trav dir
      return data :: (← moves tree trav dirs)

/-- What `jsw_rbtfirst` or `jsw_rbtlast` returns, and then some other calls. -/
def tour (tree : JswRbtree α) (dir : Side) (dirs : List Side) : Option (List (Option α)) := do
  let (trav, data) ← start tree dir
  return data :: (← moves tree trav dirs)

/-! ## Cursors over lists -/

/-- Behind the last element there is NULL, from which no call may go on. -/
def ended : List Side → Option (List (Option α))
  | [] => some [none]
  | _ :: _ => none

/-- The moves of a cursor at `here`, with the elements on its left, the nearest first, and those on
its right. -/
def movesOf : List α → α → List α → List Side → Option (List (Option α))
  | _, _, _, [] => some []
  | [], _, _, .left :: dirs => ended dirs
  | next :: left, here, right, .left :: dirs =>
      (movesOf left next (here :: right) dirs).map (some next :: ·)
  | _, _, [], .right :: dirs => ended dirs
  | left, here, next :: right, .right :: dirs =>
      (movesOf (here :: left) next right dirs).map (some next :: ·)

/-- A cursor which begins at one end of the list. -/
def tourOf (contents : List α) (dir : Side) (dirs : List Side) : Option (List (Option α)) :=
  match dir, contents, contents.reverse with
  | .left, here :: right, _ => (movesOf [] here right dirs).map (some here :: ·)
  | .right, _, here :: left => (movesOf left here [] dirs).map (some here :: ·)
  | _, _, _ => ended dirs

/-- From the first element on, a cursor passes all the others and then meets NULL. -/
theorem movesOf_right (left : List α) (here : α) (right : List α) :
    movesOf left here right (List.replicate (right.length + 1) .right) =
      some (right.map some ++ [none]) := by
  induction right generalizing left here with
  | nil => rfl
  | cons next right induction =>
      rw [List.length_cons, List.replicate_succ, movesOf, induction]
      rfl

theorem tourOf_all (here : α) (right : List α) :
    tourOf (here :: right) .left (List.replicate (right.length + 1) .right) =
      some ((here :: right).map some ++ [none]) := by
  rw [tourOf, movesOf_right]
  rfl

/-! ## What lies on a side -/

/-- The nodes of a tree in the order in which a walk to the side meets them. -/
def toward (dir : Side) (tree : Tree ℕ) : List ℕ :=
  match dir with
  | .left => tree.labels.reverse
  | .right => tree.labels

/-- The nodes on a side of the end of a path, the nearest first. -/
def beyond (dir : Side) : List (Frame ℕ) → List ℕ
  | [] => []
  | frame :: frames =>
      if frame.side = dir then beyond dir frames
      else frame.label :: (toward dir frame.sibling ++ beyond dir frames)

@[simp] theorem toward_nil (dir : Side) : toward dir .nil = [] := by cases dir <;> rfl

theorem toward_join (dir : Side) (a : ℕ) (red : Int) (child sibling : Tree ℕ) :
    toward dir (join dir a red child sibling) = toward dir sibling ++ a :: toward dir child := by
  cases dir <;> simp [toward, join, labels]

theorem toward_other (dir : Side) (a : ℕ) (red : Int) (child sibling : Tree ℕ) :
    toward dir.other (join dir a red child sibling) =
      toward dir.other child ++ a :: toward dir.other sibling := by
  rw [← join_other, toward_join]

theorem toward_plug (dir : Side) (frames : List (Frame ℕ)) (tree : Tree ℕ) :
    toward dir (plug frames tree) =
      (beyond dir.other frames).reverse ++ toward dir tree ++ beyond dir frames := by
  induction frames generalizing tree with
  | nil => simp [plug, beyond]
  | cons frame frames induction =>
      obtain ⟨side, a, red, sibling⟩ := frame
      rw [plug, induction]
      cases dir <;> cases side <;> simp [beyond, toward, join, labels, Side.other]

variable {memory : RbMemory α} {shape : Tree ℕ} {dir : Side} {trav trav' : Traversal}
  {ahead behind : List ℕ}

/-- Where a traversal stands, with the nodes ahead of it and behind it, the nearest first. -/
structure Sees (shape : Tree ℕ) (dir : Side) (trav : Traversal) (ahead behind : List ℕ) (a : ℕ) :
    Prop where
  it : trav.it = a
  place : ∃ frames red child sibling, plug frames (join dir a red child sibling) = shape ∧
    trav.path = frames.map Frame.label ∧ ahead = toward dir child ++ beyond dir frames ∧
    behind = toward dir.other sibling ++ beyond dir.other frames

theorem Sees.other {a : ℕ} (sees : Sees shape dir trav ahead behind a) :
    Sees shape dir.other trav behind ahead a := by
  obtain ⟨it, frames, red, child, sibling, shape_eq, path, ahead_eq, behind_eq⟩ := sees
  refine ⟨it, frames, red, sibling, child, ?_, path, behind_eq, ?_⟩
  · rw [join_other]
    exact shape_eq
  · rw [other_other]
    exact ahead_eq

/-- The node at which a walk ends that goes down on one side. -/
theorem descend_sees {frames : List (Frame ℕ)} {sub : Tree ℕ} (linked : Linked memory shape)
    (shape_eq : plug frames sub = shape) (ne : sub ≠ .nil) (height : shape.height ≤ heightLimit)
    {fuel : ℕ} (enough : sub.labels.length < fuel) :
    ∃ trav a behind, descend memory dir fuel ⟨ptr sub, frames.map Frame.label⟩ = some trav ∧
      Sees shape dir trav (beyond dir frames) behind a ∧
      toward dir.other sub ++ beyond dir.other frames = a :: behind := by
  induction fuel generalizing frames sub with
  | zero => exact absurd enough (Nat.not_lt_zero _)
  | succ fuel induction =>
      cases sub with
      | nil => exact absurd rfl ne
      | node a colour left right =>
          obtain ⟨child, sibling, side_eq⟩ := exists_side dir a colour left right
          rw [side_eq] at shape_eq enough ⊢
          obtain ⟨here, -⟩ := linked_plug.mp (shape_eq ▸ linked)
          obtain ⟨⟨-, node, node_eq, -, child_eq, -⟩, child_linked, -⟩ := linked_join.mp here
          by_cases empty : child = .nil
          · subst empty
            refine ⟨⟨a, frames.map Frame.label⟩, a, _, ?_, ⟨rfl, frames, colour, .nil, sibling,
              shape_eq, rfl, by simp, rfl⟩, by simp [toward_other]⟩
            rw [ptr_nil] at child_eq
            simp [descend, node_eq, child_eq]
          · have tall := length_add_height_le frames (join dir a colour child sibling)
            have short : frames.length < heightLimit := by
              rw [shape_eq, height_join] at tall
              have positive : 0 < child.height := by
                cases child with
                | nil => exact absurd rfl empty
                | node => exact Nat.succ_pos _
              omega
            rw [length_join] at enough
            obtain ⟨trav, b, behind, made, sees, order⟩ :=
              @induction (⟨dir, a, colour, sibling⟩ :: frames) child shape_eq empty (by omega)
            refine ⟨trav, b, behind, ?_, ?_, ?_⟩
            · have next_ne : ptr child ≠ 0 := mt child_linked.ptr_eq_zero.mp empty
              simp only [descend, ptr_join, node_eq, child_eq, bind, Option.bind_some, next_ne,
                if_false, push, List.length_map, if_pos short]
              exact made
            · simpa [beyond] using sees
            · rw [toward_other, ← order]
              simp [beyond, Ne.symm (Side.other_ne dir)]

/-- The node at which a walk ends that goes up. -/
theorem ascend_sees {frames : List (Frame ℕ)} {sub : Tree ℕ} (linked : Linked memory shape)
    (nodup : shape.Nodup) (shape_eq : plug frames sub = shape) (ne : sub ≠ .nil) :
    (beyond dir frames = [] →
        ascend memory dir (ptr sub) (frames.map Frame.label) = some ⟨0, []⟩) ∧
      ∀ b rest, beyond dir frames = b :: rest →
        ∃ trav, ascend memory dir (ptr sub) (frames.map Frame.label) = some trav ∧
          Sees shape dir trav rest (toward dir.other sub ++ beyond dir.other frames) b := by
  induction frames generalizing sub with
  | nil => exact ⟨fun _ => rfl, fun b rest eq => by cases eq⟩
  | cons frame frames induction =>
      obtain ⟨side, label, red, sibling⟩ := frame
      obtain ⟨sub_linked, ⟨holds, -⟩⟩ := linked_plug.mp (shape_eq ▸ linked)
      obtain ⟨-, node, here, -, sub_eq, sibling_eq⟩ := holds
      have sub_ne : ptr sub ≠ 0 := mt sub_linked.ptr_eq_zero.mp ne
      by_cases same : side = dir
      · -- the node above lies behind as well
        subst same
        rw [List.map_cons, ascend, here]
        simp only [bind, Option.bind_some, sub_eq, if_true, beyond]
        obtain ⟨stop, go⟩ := @induction (join side label red sub sibling) shape_eq
          (by cases side <;> simp [join])
        rw [ptr_join] at stop go
        refine ⟨stop, fun b rest eq => ?_⟩
        obtain ⟨trav, made, sees⟩ := go b rest eq
        refine ⟨trav, made, ?_⟩
        rw [toward_other] at sees
        rw [if_neg (Ne.symm (Side.other_ne side))]
        simpa using sees
      · have other : side = dir.other := eq_other_of_ne (Ne.symm same)
        subst other
        rw [other_other] at sibling_eq
        have apart : ¬ptr sub = ptr sibling := by
          intro eq
          obtain ⟨-, disjoint, -⟩ := nodup_join.mp
            (nodup_plug (show (plug frames (join dir.other label red sub sibling)).Nodup from
              shape_eq ▸ nodup)).1
          exact disjoint _ (ptr_mem sub_ne) (eq ▸ ptr_mem (eq ▸ sub_ne))
        rw [List.map_cons, ascend, here]
        simp only [bind, Option.bind_some, sibling_eq, apart, if_false, beyond, if_neg same, if_true]
        refine ⟨fun eq => absurd eq (List.cons_ne_nil _ _), ?_⟩
        rintro b rest ⟨⟩
        refine ⟨_, rfl, rfl, frames, red, sibling, sub, ?_, rfl, rfl, rfl⟩
        rw [← join_other]
        exact shape_eq

variable {κ : Type} [LinearOrder κ] {key : α → κ} {tree : JswRbtree α} {contents : List α}

theorem current_eq (linked : Linked memory shape) {a : ℕ} (inside : a ∈ shape) :
    current memory a = (dataAt memory a).map some := by
  have ne : a ≠ 0 := by
    rintro rfl
    exact linked.zero_notMem inside
  rw [current, if_neg ne, dataAt, Option.map_map]
  rfl

theorem Sees.inside {a : ℕ} (sees : Sees shape dir trav ahead behind a) : a ∈ shape := by
  obtain ⟨-, frames, red, child, sibling, rfl, -⟩ := sees
  exact mem_plug.mpr (.inl (mem_join.mpr (.inl rfl)))

/-- A call goes on to the next node on its side, or leaves the tree behind the last one. -/
theorem move_sees (sound : Sound key tree shape contents) (height : shape.height ≤ heightLimit)
    {a : ℕ} (sees : Sees shape dir trav ahead behind a) :
    (ahead = [] → move tree trav dir = some (⟨0, []⟩, none)) ∧
      ∀ b rest, ahead = b :: rest → ∃ trav' data, move tree trav dir = some (trav', some data) ∧
        dataAt tree.memory b = some data ∧ Sees shape dir trav' rest (a :: behind) b := by
  have linked := sound.linked
  obtain ⟨it, frames, red, child, sibling, shape_eq, path, ahead_eq, behind_eq⟩ := sees
  obtain ⟨here, -⟩ := linked_plug.mp (shape_eq ▸ linked)
  obtain ⟨⟨a_ne, node, node_eq, -, child_eq, -⟩, child_linked, -⟩ := linked_join.mp here
  -- the data of the node that was come to
  have arrive : ∀ {trav' b rest}, Sees shape dir trav' rest (a :: behind) b →
      ∃ data, current tree.memory trav'.it = some (some data) ∧
        dataAt tree.memory b = some data := by
    intro trav' b rest sees'
    obtain ⟨node', node_eq'⟩ := linked.allocated sees'.inside
    refine ⟨node'.data, ?_, by rw [dataAt, node_eq']; rfl⟩
    rw [sees'.it, current_eq linked sees'.inside, dataAt, node_eq']
    rfl
  by_cases empty : child = .nil
  · subst empty
    have next_eq : node.link dir = 0 := child_eq
    obtain ⟨stop, go⟩ := @ascend_sees _ _ _ dir frames (join dir a red .nil sibling) linked
      sound.nodup shape_eq (by cases dir <;> simp [join])
    rw [ptr_join, ← path] at stop go
    rw [toward_nil, List.nil_append] at ahead_eq
    rw [toward_other, toward_nil, List.nil_append, List.cons_append, ← behind_eq] at go
    have up : move tree trav dir = (do
        let trav ← ascend tree.memory dir a trav.path
        return (trav, ← current tree.memory trav.it)) := by
      simp only [move, it, node_eq, next_eq, bind, Option.bind_some]
      rfl
    rw [up]
    refine ⟨fun none => ?_, fun b rest some => ?_⟩
    · rw [stop (ahead_eq.symm.trans none)]
      rfl
    · obtain ⟨trav', made, sees'⟩ := go b rest (ahead_eq.symm.trans some)
      obtain ⟨data, data_eq, data_eq'⟩ := arrive sees'
      refine ⟨trav', data, ?_, data_eq', sees'⟩
      rw [made]
      simp only [bind, Option.bind_some, data_eq]
      rfl
  · have tall := length_add_height_le frames (join dir a red child sibling)
    have short : trav.path.length < heightLimit := by
      rw [shape_eq, height_join] at tall
      have positive : 0 < child.height := by
        cases child with
        | nil => exact absurd rfl empty
        | node => exact Nat.succ_pos _
      rw [path, List.length_map]
      omega
    have few : child.labels.length < tree.fresh + 1 := by
      have whole := congrArg (fun tree => tree.labels.length) shape_eq
      simp only [labels_plug, List.length_append, length_join] at whole
      have less := sound.length_lt
      omega
    obtain ⟨trav', b, behind', made, sees', order⟩ := @descend_sees _ _ _ dir.other
      (⟨dir, a, red, sibling⟩ :: frames) child linked shape_eq empty height _ few
    have sees'' := sees'.other
    rw [other_other] at sees'' order
    have around : beyond dir.other (⟨dir, a, red, sibling⟩ :: frames) = a :: behind := by
      rw [behind_eq, beyond, if_neg (Ne.symm (Side.other_ne dir))]
    have onward : ahead = b :: behind' := by
      rw [ahead_eq, ← order, beyond, if_pos rfl]
    rw [around] at sees''
    obtain ⟨data, data_eq, data_eq'⟩ := arrive sees''
    have next_ne : ptr child ≠ 0 := mt child_linked.ptr_eq_zero.mp empty
    have down : move tree trav dir = some (trav', some data) := by
      rw [List.map_cons, ← path, ← it] at made
      rw [← it] at node_eq
      simp only [move, node_eq, child_eq, push, if_pos short, next_ne, bind, Option.bind_some,
        ne_eq, not_false_eq_true, if_true, made, data_eq]
      rfl
    refine ⟨fun none => absurd (none.symm.trans onward) (List.cons_ne_nil _ _).symm,
      fun c rest eq => ?_⟩
    obtain ⟨rfl, rfl⟩ := List.cons.inj (eq.symm.trans onward)
    exact ⟨trav', data, down, data_eq', sees''⟩

theorem Sound.memory_zero (sound : Sound key tree shape contents) : tree.memory 0 = none :=
  sound.allocated 0 sound.linked.zero_notMem

theorem moves_cons {data : Option α} {dirs : List Side}
    (made : move tree trav dir = some (trav', data)) :
    moves tree trav (dir :: dirs) = (moves tree trav' dirs).map (data :: ·) := by
  simp only [moves, made, bind, Option.bind_some]
  cases moves tree trav' dirs <;> rfl

theorem tour_of_start {data : Option α} {dirs : List Side}
    (begun : start tree dir = some (trav, data)) :
    tour tree dir dirs = (moves tree trav dirs).map (data :: ·) := by
  simp only [tour, begun, bind, Option.bind_some]
  cases moves tree trav dirs <;> rfl

/-- Off the data every call reads NULL. -/
theorem moves_ended (sound : Sound key tree shape contents) (dirs : List Side) :
    (moves tree ⟨0, []⟩ dirs).map (none :: ·) = ended dirs := by
  cases dirs with
  | nil => rfl
  | cons dir dirs => simp [moves, move, sound.memory_zero, ended]

/-- The calls move a cursor over the data. -/
theorem moves_eq (sound : Sound key tree shape contents) (height : shape.height ≤ heightLimit)
    {left right : List α} {before after : List ℕ} {a : ℕ} {here : α}
    (sees : Sees shape .right trav after before a)
    (left_eq : before.map (dataAt tree.memory) = left.map some)
    (here_eq : dataAt tree.memory a = some here)
    (right_eq : after.map (dataAt tree.memory) = right.map some) (dirs : List Side) :
    moves tree trav dirs = movesOf left here right dirs := by
  induction dirs generalizing trav left right before after a here with
  | nil => simp [moves, movesOf]
  | cons dir dirs induction =>
      cases dir with
      | left =>
          obtain ⟨stop, go⟩ := move_sees sound height sees.other
          cases left with
          | nil =>
              obtain rfl : before = [] := by simpa using left_eq
              rw [movesOf, ← moves_ended sound dirs]
              exact moves_cons (stop rfl)
          | cons next left =>
              obtain ⟨b, before, rfl, next_eq, rest_eq⟩ := List.map_eq_cons_iff.mp left_eq
              obtain ⟨trav', data, made, data_eq, sees'⟩ := go b before rfl
              obtain rfl := Option.some.inj (next_eq.symm.trans data_eq)
              have rest := @induction trav' left (here :: right) before (a :: after) b next
                sees'.other rest_eq next_eq (by rw [List.map_cons, here_eq, right_eq]; rfl)
              rw [movesOf, ← rest]
              exact moves_cons made
      | right =>
          obtain ⟨stop, go⟩ := move_sees sound height sees
          cases right with
          | nil =>
              obtain rfl : after = [] := by simpa using right_eq
              rw [movesOf, ← moves_ended sound dirs]
              exact moves_cons (stop rfl)
          | cons next right =>
              obtain ⟨b, after, rfl, next_eq, rest_eq⟩ := List.map_eq_cons_iff.mp right_eq
              obtain ⟨trav', data, made, data_eq, sees'⟩ := go b after rfl
              obtain rfl := Option.some.inj (next_eq.symm.trans data_eq)
              have rest := @induction trav' (here :: left) right (a :: before) after b next sees'
                (by rw [List.map_cons, here_eq, left_eq]; rfl) next_eq rest_eq
              rw [movesOf, ← rest]
              exact moves_cons made

/-- The first call goes to one end of the tree. -/
theorem start_sees (sound : Sound key tree shape contents) (height : shape.height ≤ heightLimit)
    (ne : contents ≠ []) (dir : Side) :
    ∃ trav data a behind, start tree dir = some (trav, some data) ∧
      Sees shape dir trav [] behind a ∧ dataAt tree.memory a = some data ∧
      toward dir.other shape = a :: behind := by
  have shape_ne : shape ≠ .nil := by
    rintro rfl
    exact ne (List.length_eq_zero_iff.mp sound.length_contents.symm)
  have root_ne : tree.root ≠ 0 := by
    rw [sound.root]
    exact mt sound.linked.ptr_eq_zero.mp shape_ne
  obtain ⟨trav, a, behind, made, sees, order⟩ := @descend_sees _ _ _ dir [] shape sound.linked rfl
    shape_ne height _ (sound.length_lt.trans (Nat.lt_succ_self _))
  obtain ⟨node, node_eq⟩ := sound.linked.allocated sees.inside
  have arrive : current tree.memory trav.it = some (some node.data) := by
    rw [sees.it, current_eq sound.linked sees.inside, dataAt, node_eq]
    rfl
  rw [← sound.root, List.map_nil] at made
  refine ⟨trav, node.data, a, behind, ?_, sees, by rw [dataAt, node_eq]; rfl, ?_⟩
  · simp only [start, if_neg root_ne, made, bind, Option.bind_some, arrive]
    rfl
  · simpa [beyond] using order

theorem tour_eq (sound : Sound key tree shape contents) (height : shape.height ≤ heightLimit)
    (dir : Side) (dirs : List Side) : tour tree dir dirs = tourOf contents dir dirs := by
  by_cases empty : contents = []
  · subst empty
    have root_eq : tree.root = 0 := by
      rw [sound.root, sound.linked.ptr_eq_zero]
      have none := sound.length_contents
      cases shape with
      | nil => rfl
      | node => simp [labels] at none
    have begun : start tree dir = some (⟨0, []⟩, none) := by simp [start, root_eq, current]
    have spec : tourOf ([] : List α) dir dirs = ended dirs := by cases dir <;> rfl
    rw [spec, ← moves_ended sound dirs]
    exact tour_of_start begun
  · obtain ⟨trav, data, a, behind, begun, sees, data_eq, order⟩ :=
      start_sees sound height empty dir
    rw [tour_of_start begun]
    have nodes := sound.data
    cases dir with
    | left =>
        have split : shape.labels = a :: behind := order
        rw [split] at nodes
        obtain ⟨here, right, rfl, here_eq, right_eq⟩ := List.map_eq_cons_iff.mp nodes.symm
        obtain rfl := Option.some.inj (here_eq.trans data_eq)
        have cursor := @moves_eq _ _ _ _ _ _ _ _ sound height [] _ _ _ _ _ sees.other rfl data_eq
          right_eq.symm dirs
        rw [cursor]
        rfl
    | right =>
        have split : shape.labels.reverse = a :: behind := order
        have nodes' := congrArg List.reverse nodes
        rw [← List.map_reverse, ← List.map_reverse, split] at nodes'
        obtain ⟨here, left, reverse_eq, here_eq, left_eq⟩ := List.map_eq_cons_iff.mp nodes'.symm
        obtain rfl := Option.some.inj (here_eq.trans data_eq)
        have cursor := @moves_eq _ _ _ _ _ _ _ _ sound height _ [] _ _ _ _ sees left_eq.symm
          data_eq rfl dirs
        rw [cursor]
        cases contents with
        | nil => exact absurd rfl empty
        | cons first rest => simp only [tourOf, reverse_eq]

/-! ## Runs -/

/-- A black path is at most as long as the logarithm, and a path at most twice as long. -/
theorem Sound.height_le (sound : Sound key tree shape contents)
    (few : contents.length < 2 ^ 32) : shape.height ≤ heightLimit := by
  obtain ⟨height, redBlack⟩ := sound.balanced
  have many := redBlack.two_pow_le
  have tall := redBlack.height_le
  rw [if_neg sound.black, Nat.add_zero] at tall
  rw [sound.length_contents] at many
  have low : height ≤ 32 :=
    (Nat.pow_le_pow_iff_right Nat.one_lt_two).mp (many.trans few)
  rw [heightLimit]
  omega

variable {cmp : α → α → Int} {dup : α → α}

end CommonLib.JswRbtree
