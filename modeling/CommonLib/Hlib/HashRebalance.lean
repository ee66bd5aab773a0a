import CommonLib.Hlib.HashExchange

/-!
# Rebalancing the trees of the hash table

`RotateSubTree` and the two rotate loops, of which the one in `Add` follows `Grows` and the one in
`RemoveNode` follows `Shrinks`.  The element at the slot of a tree stays the root of the tree.
-/

namespace CommonLib
namespace HashTable

open CommonLib.Tree

variable {κ β : Type} {dict dict' : Dict κ β}

/-! ## One rotation -/

/-- The switch by which `RotateSubTree` begins. -/
def turn (dict : Dict κ β) (root : Nat) (bf : Int) : Option (Bool × Nat × Dict κ β) :=
  if bf = 2 then
    (dict root).left.bind fun left =>
      if (dict left).bf = -1 then (LR dict root).map (true, ·)
      else if (dict left).bf = 1 then (LL dict root).map (true, ·)
      else (LL dict root).map (false, ·)
  else if bf = -2 then
    (dict root).right.bind fun right =>
      if (dict right).bf = 1 then (RL dict root).map (true, ·)
      else if (dict right).bf = -1 then (RR dict root).map (true, ·)
      else (RR dict root).map (false, ·)
  else none

theorem turn_eq (dict : Dict κ β) (root : Nat) (side : Side) :
    turn dict root (2 * side.sign) =
      ((dict root).child side).bind fun next =>
        if (dict next).bf = -side.sign then (rotateTwice side dict root).map (true, ·)
        else (rotateOnce side dict root).map (decide ((dict next).bf = side.sign), ·) := by
  cases side with
  | left =>
      rw [turn, if_pos (by rfl)]
      refine Option.bind_congr' rfl fun next _ => ?_
      by_cases inward : (dict next).bf = -1
      · simp [Side.sign, LR, inward]
      · by_cases outward : (dict next).bf = 1 <;> simp [Side.sign, LL, inward, outward]
  | right =>
      rw [turn, if_neg (by decide), if_pos (by rfl)]
      refine Option.bind_congr' rfl fun next _ => ?_
      by_cases inward : (dict next).bf = 1
      · simp [Side.sign, RL, inward]
      · by_cases outward : (dict next).bf = -1 <;> simp [Side.sign, RR, inward, outward]

/-- The rotation of a node which is too high on `side` leaves it below the new root. -/
theorem turn_linked {side : Side} {parent : Option Nat} {root : Nat} {bf : Int}
    {heavy light rotated : Tree Nat} {lower : Bool}
    (linked : Linked dict parent (join side root bf heavy light))
    (nodup : (join side root bf heavy light).Nodup) (balanced : heavy.Balanced)
    (rotation : rotate side root heavy light = some (rotated, lower)) :
    ∃ next dict', turn dict root (2 * side.sign) = some (lower, next, dict') ∧
      Linked dict' parent rotated ∧ Relinked (join side root bf heavy light) dict dict' ∧
      ∃ bf₁ bf₂ y z x, rotated = join side.other next bf₁ (node root bf₂ y z) x := by
  have below (bf₁ : Int) (child sibling : Tree Nat) :
      ∃ bf₂ y z, join side root bf₁ child sibling = node root bf₂ y z := by
    cases side with
    | left => exact ⟨_, _, _, rfl⟩
    | right => exact ⟨_, _, _, rfl⟩
  have tall : 0 < heavy.height := by
    cases heavy with
    | nil => cases rotation
    | node => exact Nat.succ_pos _
  obtain ⟨next, bf', outer, inner, rfl⟩ := exists_join side tall
  have child_eq : (dict root).child side = some next := by
    rw [(linked_join.mp linked).1.2.2.1, root_join]
  have next_bf : (dict next).bf = bf' := (linked_join.mp (linked_join.mp linked).2.1).1.1
  rw [turn_eq, child_eq, Option.bind_some, next_bf]
  simp only [rotate, split_join, Option.bind_some] at rotation
  by_cases inward : bf' = -side.sign
  · rw [if_pos inward] at rotation ⊢
    have tall' : 0 < inner.height := by
      cases inner with
      | nil => cases rotation
      | node => exact Nat.succ_pos _
    obtain ⟨top, bf'', near, far, rfl⟩ := exists_join side tall'
    rw [split_join, Option.map_some, Option.some.injEq, Prod.mk.injEq] at rotation
    obtain ⟨rfl, rfl⟩ := rotation
    obtain ⟨-, -, -, -, innerBalanced⟩ := balanced_join.mp balanced
    obtain ⟨-, low, high, -, -⟩ := balanced_join.mp innerBalanced
    have cases : bf'' = 0 ∨ bf'' = side.sign ∨ bf'' = -side.sign := by
      rcases side.sign_eq with sign | sign <;> rw [sign] <;> omega
    obtain ⟨dict', rotate_eq, linked', relinked⟩ := rotateTwice_linked linked nodup cases
    obtain ⟨bf₂, y, z, below_eq⟩ := below (if bf'' = side.sign then -side.sign else 0) far light
    refine ⟨top, dict', by rw [rotate_eq]; rfl, linked', relinked, 0, bf₂, y, z,
      join side next (if bf'' = -side.sign then side.sign else 0) outer near, ?_⟩
    rw [double, join_other, below_eq]
  · rw [if_neg inward] at rotation ⊢
    obtain ⟨rfl, rfl⟩ := Prod.mk.inj (Option.some.inj rotation)
    obtain ⟨dict', rotate_eq, linked', relinked⟩ := rotateOnce_linked linked nodup
    refine ⟨next, dict', by rw [rotate_eq]; rfl, linked', relinked, ?_⟩
    by_cases outward : bf' = side.sign
    · obtain ⟨bf₂, y, z, below_eq⟩ := below 0 inner light
      exact ⟨0, bf₂, y, z, outer, by rw [single, if_pos outward, join_other, below_eq]⟩
    · obtain ⟨bf₂, y, z, below_eq⟩ := below side.sign inner light
      exact ⟨_, bf₂, y, z, outer, by rw [single, if_neg outward, join_other, below_eq]⟩

theorem Relinked.mono {tree tree' : Tree Nat} (relinked : Relinked tree dict dict')
    (inside : ∀ a, a ∈ tree → a ∈ tree') : Relinked tree' dict dict' where
  outside := fun a outside => relinked.outside a fun other => outside (inside a other)
  content := relinked.content

theorem Relinked.key {tree : Tree Nat} (relinked : Relinked tree dict dict') (a : Nat) :
    (dict' a).key = (dict a).key := congrArg (·.2.2.1) (relinked.content a)

theorem Rearranged.keys {tree tree' : Tree Nat} (rearranged : Rearranged tree dict tree' dict') :
    tree'.labels.map (fun a => (dict' a).key) = tree.labels.map fun a => (dict a).key := by
  have keys := congrArg (List.map fun entry : Bool × κ × β => entry.2.1) rearranged.entries
  rwa [List.map_map, List.map_map] at keys

/-! ## The result of rebalancing -/

/-- The tree has been given the balance of `goal`, and its root is still the same element. -/
structure Rebalanced (tree : Tree Nat) (dict : Dict κ β) (goal tree' : Tree Nat)
    (dict' : Dict κ β) : Prop where
  linked : Linked dict' none tree'
  rearranged : Rearranged tree dict tree' dict'
  root_eq : tree'.root = tree.root
  balanced : goal.Balanced → tree'.Balanced

theorem root_plug_cons (frame : Frame Nat) (frames : List (Frame Nat)) (first second : Tree Nat) :
    (plug (frame :: frames) first).root = (plug (frame :: frames) second).root := by
  induction frames generalizing frame first second with
  | nil => rw [plug, plug, plug, plug, root_join, root_join]
  | cons next frames induction =>
      rw [plug, plug]
      exact induction ..

theorem root_plug_join (frames : List (Frame Nat)) (side : Side) (a : Nat) (bf bf' : Int)
    (child sibling child' sibling' : Tree Nat) :
    (plug frames (join side a bf child sibling)).root =
      (plug frames (join side a bf' child' sibling')).root := by
  cases frames with
  | nil => rw [plug, plug, root_join, root_join]
  | cons frame frames => exact root_plug_cons ..

theorem Rebalanced.after {tree middle goal tree' : Tree Nat} {dict'' : Dict κ β}
    (rebalanced : Rebalanced middle dict' goal tree' dict'')
    (rearranged : Rearranged tree dict middle dict') (root_eq : middle.root = tree.root) :
    Rebalanced tree dict goal tree' dict'' where
  linked := rebalanced.linked
  rearranged := rearranged.trans rebalanced.rearranged
  root_eq := rebalanced.root_eq.trans root_eq
  balanced := rebalanced.balanced

theorem frame_bf {frame : Frame Nat} {frames : List (Frame Nat)} {tree : Tree Nat}
    (linked : Linked dict none (plug (frame :: frames) tree)) :
    (dict frame.label).bf = frame.bf := (linked_plug.mp linked).2.1.1

section Order

variable [LinearOrder κ]

/-! ## `RotateSubTree` -/

/-- The keys of a tree stand in order. -/
def Ordered (dict : Dict κ β) (tree : Tree Nat) : Prop :=
  tree.labels.Pairwise fun a b => (dict a).key < (dict b).key

theorem Ordered.nodup {tree : Tree Nat} (ordered : Ordered dict tree) : tree.Nodup :=
  List.Pairwise.imp (fun less => by
    rintro rfl
    exact lt_irrefl _ less) ordered

theorem ordered_iff {tree : Tree Nat} :
    Ordered dict tree ↔ (tree.labels.map fun a => (dict a).key).Pairwise (· < ·) :=
  List.pairwise_map.symm

theorem Ordered.rearranged {tree tree' : Tree Nat} (ordered : Ordered dict tree)
    (rearranged : Rearranged tree dict tree' dict') : Ordered dict' tree' := by
  rw [ordered_iff, rearranged.keys]
  exact ordered_iff.mp ordered

/-- A search for the key leaves the element in the direction of the frame. -/
def Toward (key : κ) (side : Side) (other : κ) : Prop :=
  match side with
  | .left => key < other
  | .right => other < key

/-- The elements below a path lie in the direction of each of its nodes. -/
theorem Ordered.toward {frames : List (Frame Nat)} {tree : Tree Nat}
    (ordered : Ordered dict (plug frames tree)) {a : Nat} (inside : a ∈ tree) :
    ∀ frame ∈ frames, Toward (dict a).key frame.side (dict frame.label).key := by
  intro frame among
  have between := pairwise_plug ordered inside among
  revert between
  cases frame.side <;> exact id

theorem rotateSubTree_nil (dict : Dict κ β) (root : Nat) (bf : Int) :
    rotateSubTree dict root [] bf = (turn dict root bf).bind fun (tallChange, newRoot, dict) =>
      (exchangeElement dict root newRoot).map (tallChange, ·) := by
  unfold rotateSubTree turn
  split_ifs <;> rfl

theorem rotateSubTree_cons (dict : Dict κ β) (root e : Nat) (above : List Nat) (bf : Int) :
    rotateSubTree dict root (e :: above) bf =
      (turn dict root bf).bind fun (tallChange, newRoot, dict) =>
        some (tallChange,
          modify
            (modify dict e fun element =>
              element.setChild (if (dict root).key < (dict e).key then .left else .right)
                (some newRoot))
            newRoot fun element => element.setParent (some e)) := by
  unfold rotateSubTree turn
  split_ifs <;> rfl

/-- Below another element, `RotateSubTree` puts the new root in the place of the old one. -/
theorem rotateSubTree_below {frame : Frame Nat} {frames : List (Frame Nat)} {side : Side}
    {root : Nat} {bf : Int} {heavy light rotated : Tree Nat} {lower : Bool}
    (linked : Linked dict none (plug (frame :: frames) (join side root bf heavy light)))
    (ordered : Ordered dict (plug (frame :: frames) (join side root bf heavy light)))
    (balanced : heavy.Balanced)
    (rotation : rotate side root heavy light = some (rotated, lower)) :
    ∃ dict', rotateSubTree dict root ((frame :: frames).map (·.label)) (2 * side.sign) =
        some (lower, dict') ∧
      Linked dict' none (plug (frame :: frames) rotated) ∧
      Relinked (plug (frame :: frames) (join side root bf heavy light)) dict dict' := by
  obtain ⟨hereNodup, notPath⟩ := nodup_plug ordered.nodup
  have nodup : (plug frames (join frame.side frame.label frame.bf (join side root bf heavy light)
      frame.sibling)).Nodup := ordered.nodup
  obtain ⟨joinNodup, notAbove⟩ := nodup_plug nodup
  obtain ⟨⟨notHere, notSibling⟩, -, -, -⟩ := nodup_join.mp joinNodup
  have labelAbove := notAbove frame.label (mem_join.mpr (.inl rfl))
  obtain ⟨treeLinked, path⟩ := linked_plug.mp linked
  obtain ⟨next, dict₁, turn_eq, rotatedLinked, relinked, bf₁, bf₂, y, z, x, rotated_eq⟩ :=
    turn_linked treeLinked hereNodup balanced rotation
  have rotated_root : rotated.root = some next := by rw [rotated_eq, root_join]
  have members (a : Nat) : a ∈ rotated ↔ a ∈ join side root bf heavy light := by
    rw [mem_def, mem_def, rotate_labels bf rotation]
  have nextInside : next ∈ join side root bf heavy light :=
    (members next).mp (root_mem rotated_root)
  have next_ne : next ≠ frame.label := ne_of_mem_of_not_mem nextInside notHere
  have next_parent : (dict₁ next).parent = some frame.label := by
    rw [rotated_eq] at rotatedLinked
    exact (linked_join.mp rotatedLinked).1.2.1
  have side_eq : (if (dict₁ root).key < (dict₁ frame.label).key then Side.left else .right) =
      frame.side := by
    have between := ordered.toward (mem_join.mpr (.inl rfl)) frame (.head _)
    rw [relinked.key, relinked.key]
    cases side_eq : frame.side with
    | left =>
        rw [side_eq] at between
        exact if_pos between
    | right =>
        rw [side_eq] at between
        exact if_neg between.not_gt
  let dict₂ := modify (modify dict₁ frame.label (·.setChild frame.side (some next))) next
    (·.setParent (some frame.label))
  have elsewhere {a : Nat} (notLabel : a ≠ frame.label) (notNext : a ≠ next) :
      dict₂ a = dict₁ a := by
    simp only [dict₂, modify_of_ne notNext, modify_of_ne notLabel]
  refine ⟨dict₂, ?_, linked_plug.mpr ⟨rotatedLinked.congr fun a inside => ?_, ?_⟩, ?_⟩
  · rw [List.map_cons, rotateSubTree_cons, turn_eq]
    simp only [Option.bind_some, side_eq, dict₂]
  · have notLabel : a ≠ frame.label := ne_of_mem_of_not_mem ((members a).mp inside) notHere
    by_cases atNext : a = next
    · rw [atNext]
      simp only [dict₂, modify_self, modify_of_ne next_ne, THElement.links, THElement.setParent,
        next_parent]
    · rw [elsewhere notLabel atNext]
  · rw [rotated_root]
    refine path.setChild ⟨notSibling, labelAbove⟩ (some next) ?_ fun a onPath notLabel => ?_
    · simp only [dict₂, modify_of_ne next_ne.symm, modify_self, relinked.outside _ notHere]
    · have apart : ¬ a ∈ join side root bf heavy light := fun inside => notPath a inside onPath
      rw [elsewhere notLabel (ne_of_mem_of_not_mem nextInside apart).symm,
        relinked.outside a apart]
  · refine ((relinked.mono fun a inside => mem_plug.mpr (.inl inside)).modify ?_ _
      fun element => element.content_setChild _ _).modify ?_ _ fun element => rfl
    · exact mem_plug.mpr (.inr ⟨frame, .head _, .inl rfl⟩)
    · exact mem_plug.mpr (.inl nextInside)

/-- At the slot of a tree, `RotateSubTree` lets the new root and the old one change places. -/
theorem rotateSubTree_top {side : Side} {root : Nat} {bf : Int} {heavy light rotated : Tree Nat}
    {lower : Bool} (linked : Linked dict none (join side root bf heavy light))
    (nodup : (join side root bf heavy light).Nodup) (balanced : heavy.Balanced)
    (rotation : rotate side root heavy light = some (rotated, lower)) :
    ∃ dict' tree', rotateSubTree dict root [] (2 * side.sign) = some (lower, dict') ∧
      Linked dict' none tree' ∧ Rearranged (join side root bf heavy light) dict tree' dict' ∧
      tree'.root = some root ∧ (rotated.Balanced → tree'.Balanced) := by
  obtain ⟨next, dict₁, turn_eq, rotatedLinked, relinked, bf₁, bf₂, y, z, x, rfl⟩ :=
    turn_linked linked nodup balanced rotation
  have labels_eq := rotate_labels bf rotation
  have nodup' : (join side.other next bf₁ (node root bf₂ y z) x).Nodup := by
    rw [Tree.Nodup, labels_eq]
    exact nodup
  obtain ⟨dict', exchange_eq, linked', rearranged⟩ := exchangeElement_root rotatedLinked nodup'
  refine ⟨dict', _, ?_, linked', (relinked.rearranged labels_eq).trans rearranged, root_join ..,
    ?_⟩
  · rw [rotateSubTree_nil, turn_eq]
    simp only [Option.bind_some, exchange_eq, Option.map_some]
  · intro rotatedBalanced
    rw [balanced_join] at rotatedBalanced ⊢
    exact rotatedBalanced

theorem rotateSubTree_spec {frames : List (Frame Nat)} {side : Side} {root : Nat} {bf : Int}
    {heavy light rotated : Tree Nat} {lower : Bool}
    (linked : Linked dict none (plug frames (join side root bf heavy light)))
    (ordered : Ordered dict (plug frames (join side root bf heavy light)))
    (balanced : heavy.Balanced)
    (rotation : rotate side root heavy light = some (rotated, lower)) :
    ∃ dict' tree', rotateSubTree dict root (frames.map (·.label)) (2 * side.sign) =
        some (lower, dict') ∧
      Rebalanced (plug frames (join side root bf heavy light)) dict (plug frames rotated) tree'
        dict' ∧
      (frames ≠ [] → tree' = plug frames rotated ∧
        Relinked (plug frames (join side root bf heavy light)) dict dict') := by
  cases frames with
  | nil =>
      obtain ⟨dict', tree', rotate_eq, linked', rearranged, root_eq, balanced'⟩ :=
        rotateSubTree_top linked ordered.nodup balanced rotation
      refine ⟨dict', tree', rotate_eq, ⟨linked', rearranged, ?_, balanced'⟩,
        fun nonempty => absurd rfl nonempty⟩
      rw [plug, root_join, root_eq]
  | cons frame frames =>
      obtain ⟨dict', rotate_eq, linked', relinked⟩ :=
        rotateSubTree_below linked ordered balanced rotation
      have labels_eq : (plug (frame :: frames) rotated).labels =
          (plug (frame :: frames) (join side root bf heavy light)).labels :=
        labels_plug_congr (rotate_labels bf rotation)
      exact ⟨dict', _, rotate_eq, ⟨linked', relinked.rearranged labels_eq, root_plug_cons .., id⟩,
        fun _ => ⟨rfl, relinked⟩⟩

/-! ## The rotate loops -/

/-- A factor on the path is rewritten, as the loops do before anything else. -/
theorem setBf_frame {frame : Frame Nat} {frames : List (Frame Nat)} {tree : Tree Nat}
    (linked : Linked dict none (plug (frame :: frames) tree))
    (ordered : Ordered dict (plug (frame :: frames) tree)) (bf : Int) :
    Linked (setBf dict frame.label bf) none
        (plug frames (join frame.side frame.label bf tree frame.sibling)) ∧
      Relinked (plug (frame :: frames) tree) dict (setBf dict frame.label bf) ∧
      (plug frames (join frame.side frame.label bf tree frame.sibling)).labels =
        (plug (frame :: frames) tree).labels := by
  have joined : Linked dict none
      (plug frames (join frame.side frame.label frame.bf tree frame.sibling)) := linked
  refine ⟨linked_setBf joined ordered.nodup bf, ?_, labels_plug_congr (labels_join_bf ..)⟩
  exact (Relinked.refl _ dict).modify (mem_plug.mpr (.inr ⟨frame, .head _, .inl rfl⟩)) _
    fun element => rfl

/-- What the rotate loop of `Add` does at a frame, for the factor that it finds there. -/
theorem rebalanceAdded_cons {key : κ} {frame : Frame Nat} {frames : List (Frame Nat)}
    {tree : Tree Nat} (linked : Linked dict none (plug (frame :: frames) tree))
    (toward : Toward key frame.side (dict frame.label).key) {bf : Int}
    (bf_eq : frame.bf + frame.side.sign = bf) :
    rebalanceAdded key dict ((frame :: frames).map (·.label)) =
      if bf = 0 then some (setBf dict frame.label bf)
      else if bf = 2 ∨ bf = -2 then
        (rotateSubTree (setBf dict frame.label bf) frame.label (frames.map (·.label)) bf).map (·.2)
      else rebalanceAdded key (setBf dict frame.label bf) (frames.map (·.label)) := by
  have change : (if key = (dict frame.label).key then (0 : Int)
      else if key < (dict frame.label).key then 1 else -1) = frame.side.sign := by
    cases side_eq : frame.side with
    | left =>
        rw [side_eq] at toward
        exact (if_neg toward.ne).trans (if_pos toward)
    | right =>
        rw [side_eq] at toward
        exact (if_neg toward.ne').trans (if_neg toward.not_gt)
  simp only [List.map_cons, rebalanceAdded, change, frame_bf linked, bf_eq, setBf_apply, if_true,
    THElement.bf_setBf]

/-- The rotate loop of `Add` on the path of a key. -/
theorem rebalanceAdded_spec {key : κ} {frames : List (Frame Nat)} {tree grown : Tree Nat}
    (linked : Linked dict none (plug frames tree)) (ordered : Ordered dict (plug frames tree))
    (toward : ∀ frame ∈ frames, Toward key frame.side (dict frame.label).key)
    (grows : Grows frames tree grown) :
    ∃ dict' tree', rebalanceAdded key dict (frames.map (·.label)) = some dict' ∧
      Rebalanced (plug frames tree) dict grown tree' dict' := by
  induction grows generalizing dict with
  | top tree =>
      exact ⟨dict, tree, rfl, linked, (Relinked.refl _ dict).rearranged rfl, rfl, id⟩
  | @even frame frames tree opposite =>
      obtain ⟨linked', relinked, labels_eq⟩ := setBf_frame linked ordered 0
      refine ⟨setBf dict frame.label 0, _, ?_, linked', relinked.rearranged labels_eq,
        root_plug_join .., id⟩
      rw [rebalanceAdded_cons linked (toward frame (.head _)) (by rw [opposite, neg_add_cancel]),
        if_pos rfl]
  | @turn frame frames tree rotated lower same balanced rotation =>
      obtain ⟨linked', relinked, labels_eq⟩ := setBf_frame linked ordered (2 * frame.side.sign)
      have rearranged := relinked.rearranged labels_eq
      obtain ⟨dict', tree', rotate_eq, rebalanced, -⟩ :=
        rotateSubTree_spec linked' (ordered.rearranged rearranged) balanced rotation
      refine ⟨dict', tree', ?_, rebalanced.after rearranged (root_plug_join ..)⟩
      have factor : 2 * frame.side.sign ≠ 0 ∧
          (2 * frame.side.sign = 2 ∨ 2 * frame.side.sign = -2) := by
        rcases frame.side.sign_eq with sign | sign <;> rw [sign] <;> decide
      rw [rebalanceAdded_cons linked (toward frame (.head _)) (by rw [same, ← two_mul]),
        if_neg factor.1, if_pos factor.2, rotate_eq, Option.map_some]
  | @up frame frames tree grown level above induction =>
      obtain ⟨linked', relinked, labels_eq⟩ := setBf_frame linked ordered frame.side.sign
      have rearranged := relinked.rearranged labels_eq
      obtain ⟨dict', tree', rebalance_eq, rebalanced⟩ :=
        induction linked' (ordered.rearranged rearranged) fun other among => by
          rw [relinked.key]
          exact toward other (.tail _ among)
      refine ⟨dict', tree', ?_, rebalanced.after rearranged (root_plug_join ..)⟩
      have factor : frame.side.sign ≠ 0 ∧
          ¬ (frame.side.sign = 2 ∨ frame.side.sign = -2) := by
        rcases frame.side.sign_eq with sign | sign <;> rw [sign] <;> decide
      rw [rebalanceAdded_cons linked (toward frame (.head _)) (by rw [level, zero_add]),
        if_neg factor.1, if_neg factor.2, rebalance_eq]

/-- What the rotate loop of `RemoveNode` does at a frame, for the factor that it finds there. -/
theorem rebalanceRemoved_cons {node : Nat} {frame : Frame Nat} {frames : List (Frame Nat)}
    {tree : Tree Nat} (linked : Linked dict none (plug (frame :: frames) tree))
    (toward : (dict node).key ≤ (dict frame.label).key ↔ frame.side = .left) {bf : Int}
    (bf_eq : frame.bf + -frame.side.sign = bf) :
    rebalanceRemoved node dict ((frame :: frames).map (·.label)) =
      if bf = 0 then
        rebalanceRemoved node (setBf dict frame.label bf) (frames.map (·.label))
      else if bf = 1 ∨ bf = -1 then some (setBf dict frame.label bf)
      else
        (rotateSubTree (setBf dict frame.label bf) frame.label (frames.map (·.label)) bf).bind
          fun result =>
            if result.1 then rebalanceRemoved node result.2 (frames.map (·.label))
            else some result.2 := by
  have change : (if (dict node).key ≤ (dict frame.label).key then (-1 : Int) else 1) =
      -frame.side.sign := by
    cases side_eq : frame.side with
    | left => exact if_pos (toward.mpr side_eq)
    | right =>
        refine if_neg fun le => ?_
        rw [toward.mp le] at side_eq
        cases side_eq
  simp only [List.map_cons, rebalanceRemoved, change, frame_bf linked, bf_eq, setBf_apply,
    if_true, THElement.bf_setBf]

/-- The loop rotates at a frame that leans to the other side, and goes on if that makes the subtree
lower. -/
theorem rebalanceRemoved_turn {node : Nat} {frame : Frame Nat} {frames : List (Frame Nat)}
    {tree rotated : Tree Nat} {lower : Bool}
    (linked : Linked dict none (plug (frame :: frames) tree))
    (ordered : Ordered dict (plug (frame :: frames) tree))
    (toward : (dict node).key ≤ (dict frame.label).key ↔ frame.side = .left)
    (opposite : frame.bf = -frame.side.sign) (balanced : frame.sibling.Balanced)
    (rotation : rotate frame.side.other frame.label frame.sibling tree = some (rotated, lower)) :
    ∃ dict' tree', rebalanceRemoved node dict ((frame :: frames).map (·.label)) =
        (if lower then rebalanceRemoved node dict' (frames.map (·.label)) else some dict') ∧
      Rebalanced (plug (frame :: frames) tree) dict (plug frames rotated) tree' dict' ∧
      (frames ≠ [] → tree' = plug frames rotated ∧ ∀ a, (dict' a).key = (dict a).key) := by
  obtain ⟨linked', relinked, labels_eq⟩ := setBf_frame linked ordered (2 * frame.side.other.sign)
  have rearranged := relinked.rearranged labels_eq
  have ordered' := ordered.rearranged rearranged
  rw [← join_other] at linked' ordered'
  obtain ⟨dict', tree', rotate_eq, rebalanced, below⟩ :=
    rotateSubTree_spec linked' ordered' balanced rotation
  rw [join_other] at rebalanced below
  have bf_eq : frame.bf + -frame.side.sign = 2 * frame.side.other.sign := by
    rw [opposite, Side.sign_other]
    ring
  have factor : ¬ 2 * frame.side.other.sign = 0 ∧
      ¬ (2 * frame.side.other.sign = 1 ∨ 2 * frame.side.other.sign = -1) := by
    cases frame.side <;> decide
  refine ⟨dict', tree', ?_, rebalanced.after rearranged (root_plug_join ..), fun nonempty => ?_⟩
  · rw [rebalanceRemoved_cons linked toward bf_eq, if_neg factor.1, if_neg factor.2, rotate_eq,
      Option.bind_some]
  · obtain ⟨tree_eq, relinked'⟩ := below nonempty
    exact ⟨tree_eq, fun a => (relinked'.key a).trans (relinked.key a)⟩

/-- The rotate loop of `RemoveNode` on the path to a place where a node has been taken out. -/
theorem rebalanceRemoved_spec {node : Nat} {frames : List (Frame Nat)} {tree shrunk : Tree Nat}
    (linked : Linked dict none (plug frames tree)) (ordered : Ordered dict (plug frames tree))
    (toward : ∀ frame ∈ frames,
      (dict node).key ≤ (dict frame.label).key ↔ frame.side = .left)
    (shrinks : Shrinks frames tree shrunk) :
    ∃ dict' tree', rebalanceRemoved node dict (frames.map (·.label)) = some dict' ∧
      Rebalanced (plug frames tree) dict shrunk tree' dict' := by
  induction shrinks generalizing dict with
  | top tree =>
      exact ⟨dict, tree, rfl, linked, (Relinked.refl _ dict).rearranged rfl, rfl, id⟩
  | @stop frame frames tree level =>
      obtain ⟨linked', relinked, labels_eq⟩ := setBf_frame linked ordered (-frame.side.sign)
      refine ⟨setBf dict frame.label (-frame.side.sign), _, ?_, linked',
        relinked.rearranged labels_eq, root_plug_join .., id⟩
      have factor : -frame.side.sign ≠ 0 ∧
          (-frame.side.sign = 1 ∨ -frame.side.sign = -1) := by
        rcases frame.side.sign_eq with sign | sign <;> rw [sign] <;> decide
      rw [rebalanceRemoved_cons linked (toward frame (.head _)) (by rw [level, zero_add]),
        if_neg factor.1, if_pos factor.2]
  | @turnStop frame frames tree rotated opposite balanced rotation =>
      obtain ⟨dict', tree', loop_eq, rebalanced, -⟩ :=
        rebalanceRemoved_turn linked ordered (toward frame (.head _)) opposite balanced rotation
      exact ⟨dict', tree', loop_eq, rebalanced⟩
  | @up frame frames tree shrunk same above induction =>
      obtain ⟨linked', relinked, labels_eq⟩ := setBf_frame linked ordered 0
      have rearranged := relinked.rearranged labels_eq
      obtain ⟨dict', tree', rebalance_eq, rebalanced⟩ :=
        induction linked' (ordered.rearranged rearranged) fun other among => by
          rw [relinked.key, relinked.key]
          exact toward other (.tail _ among)
      refine ⟨dict', tree', ?_, rebalanced.after rearranged (root_plug_join ..)⟩
      rw [rebalanceRemoved_cons linked (toward frame (.head _)) (by rw [same, add_neg_cancel]),
        if_pos rfl, rebalance_eq]
  | @turn frame frames tree rotated shrunk opposite balanced rotation above induction =>
      obtain ⟨dict', tree', loop_eq, rebalanced, below⟩ :=
        rebalanceRemoved_turn linked ordered (toward frame (.head _)) opposite balanced rotation
      rw [loop_eq, if_pos rfl]
      by_cases empty : frames = []
      · subst empty
        cases above
        exact ⟨dict', tree', rfl, rebalanced⟩
      · obtain ⟨rfl, keys⟩ := below empty
        obtain ⟨dict'', tree'', rebalance_eq, rebalanced'⟩ :=
          induction rebalanced.linked (ordered.rearranged rebalanced.rearranged)
            fun other among => by
              rw [keys, keys]
              exact toward other (.tail _ among)
        exact ⟨dict'', tree'', rebalance_eq,
          rebalanced'.after rebalanced.rearranged rebalanced.root_eq⟩

end Order

end HashTable
end CommonLib
