import CommonLib.Udp.RbEraseLoop
import CommonLib.Udp.RbInsertLoop
import Mathlib.Data.List.TakeWhile
import Mathlib.Order.Defs.LinearOrder

/-!
# The set that a red-black tree stands for

Between the calls the nodes in memory are those of a red-black tree with a black root, and its data
is sorted by the keys.
-/

namespace CommonLib.JswRbtree

open CommonLib.Tree

variable {α κ : Type} [LinearOrder κ] {cmp : α → α → Int} {dup : α → α} {key : α → κ} {data : α}
  {memory : RbMemory α} {tree : JswRbtree α} {shape : Tree ℕ} {contents : List α}

/-- The comparison is that of keys. -/
structure Compares (cmp : α → α → Int) (key : α → κ) : Prop where
  lt_iff : ∀ x y, cmp x y < 0 ↔ key x < key y
  eq_iff : ∀ x y, cmp x y = 0 ↔ key x = key y

/-- Between the calls. -/
structure Sound (key : α → κ) (tree : JswRbtree α) (shape : Tree ℕ) (contents : List α) :
    Prop where
  root : tree.root = ptr shape
  linked : Linked tree.memory shape
  nodup : shape.Nodup
  balanced : ∃ height, shape.RedBlack height
  black : ¬shape.IsRed
  data : shape.labels.map (dataAt tree.memory) = contents.map some
  sorted : contents.Pairwise fun x y => key x < key y
  /-- No node is lost. -/
  allocated : ∀ a, a ∉ shape → tree.memory a = none
  range : ∀ a ∈ shape, head < a ∧ a < tree.fresh
  fresh : head < tree.fresh

theorem sound_new : Sound key (new : JswRbtree α) .nil [] where
  root := rfl
  linked := trivial
  nodup := List.nodup_nil
  balanced := ⟨0, rfl⟩
  black := not_isRed_nil
  data := rfl
  sorted := .nil
  allocated := fun _ _ => rfl
  range := fun a inside => absurd inside (not_mem_nil a)
  fresh := Nat.one_lt_two

/-- The nodes are no more than the addresses that were given out. -/
theorem Sound.length_le (sound : Sound key tree shape contents) :
    shape.labels.length + 2 ≤ tree.fresh := by
  have within : shape.labels ⊆ List.range' 2 (tree.fresh - 2) := by
    intro a inside
    obtain ⟨low, high⟩ := sound.range a inside
    rw [head] at low
    exact List.mem_range'_1.mpr (by omega)
  have count := (sound.nodup.subperm within).length_le
  have fresh := sound.fresh
  rw [head] at fresh
  rw [List.length_range'] at count
  omega

theorem Sound.length_lt (sound : Sound key tree shape contents) :
    shape.labels.length < tree.fresh :=
  lt_of_lt_of_le (Nat.lt_add_of_pos_right (by decide)) sound.length_le

theorem Sound.length_contents (sound : Sound key tree shape contents) :
    shape.labels.length = contents.length := by
  simpa using congrArg List.length sound.data

/-! ## Lookup -/

theorem findFrom_eq (compares : Compares cmp key) {tree : Tree ℕ} (linked : Linked memory tree)
    (data_eq : tree.labels.map (dataAt memory) = contents.map some)
    (sorted : contents.Pairwise fun x y => key x < key y) {fuel : ℕ}
    (enough : tree.labels.length < fuel) :
    findFrom cmp memory data fuel (ptr tree) =
      some (contents.find? fun x => key x = key data) := by
  induction tree generalizing contents fuel with
  | nil =>
      obtain ⟨fuel, rfl⟩ : ∃ less, fuel = less + 1 := ⟨fuel - 1, by omega⟩
      obtain rfl : contents = [] := by simpa [labels] using data_eq.symm
      rfl
  | node a red left right leftInduction rightInduction =>
      obtain ⟨fuel, rfl⟩ : ∃ less, fuel = less + 1 := ⟨fuel - 1, by omega⟩
      obtain ⟨⟨a_ne, node, here, -, left_eq, right_eq⟩, left_linked, right_linked⟩ := linked
      rw [Side.other] at right_eq
      rw [labels, List.map_append, List.map_cons] at data_eq
      obtain ⟨lower, here_upper, rfl, lower_eq, both_eq⟩ := List.map_eq_append_iff.mp data_eq.symm
      obtain ⟨x, upper, rfl, x_eq, upper_eq⟩ := List.map_eq_cons_iff.mp both_eq
      obtain rfl : node.data = x := by
        rw [dataAt, here] at x_eq
        exact (Option.some.inj x_eq).symm
      obtain ⟨lower_sorted, upper_sorted, below⟩ := List.pairwise_append.mp sorted
      obtain ⟨above, upper_sorted⟩ := List.pairwise_cons.mp upper_sorted
      simp only [labels, List.length_append, List.length_cons] at enough
      simp only [findFrom, ptr_node, if_neg a_ne, here, bind, Option.bind_some]
      by_cases same : cmp node.data data = 0
      · have key_eq := (compares.eq_iff _ _).mp same
        have none : lower.find? (fun x => key x = key data) = none := by
          rw [List.find?_eq_none]
          intro y among
          simpa [← key_eq] using (below y among _ (.head _)).ne
        simp [if_pos same, none, key_eq]
      · have key_ne := mt (compares.eq_iff _ _).mpr same
        rw [if_neg same]
        by_cases low : cmp node.data data < 0
        · have key_lt := (compares.lt_iff _ _).mp low
          have none : lower.find? (fun x => key x = key data) = none := by
            rw [List.find?_eq_none]
            intro y among
            simpa using ((below y among _ (.head _)).trans key_lt).ne
          rw [dirOf, if_pos low, right_eq,
            rightInduction right_linked upper_eq.symm upper_sorted (by omega)]
          simp [none, key_ne]
        · have key_lt : key data < key node.data :=
            lt_of_le_of_ne (not_lt.mp (mt (compares.lt_iff _ _).mpr low)) (Ne.symm key_ne)
          have none : upper.find? (fun x => key x = key data) = none := by
            rw [List.find?_eq_none]
            intro y among
            simpa using (key_lt.trans (above y among)).ne'
          rw [dirOf, if_neg low, left_eq,
            leftInduction left_linked lower_eq.symm lower_sorted (by omega)]
          simp [none, key_ne]

theorem Sound.find_eq (compares : Compares cmp key) (sound : Sound key tree shape contents)
    (data : α) :
    tree.find cmp data = some (contents.find? fun x => key x = key data) := by
  rw [find, sound.root]
  exact findFrom_eq compares sound.linked sound.data sound.sorted
    (sound.length_lt.trans (Nat.lt_succ_self _))

/-! ## Around the loops -/

theorem plug_head (tree : Tree ℕ) : plug [headFrame] tree = join .right head 0 tree .nil := rfl

theorem mem_head {tree : Tree ℕ} {a : ℕ} : a ∈ plug [headFrame] tree ↔ a = head ∨ a ∈ tree := by
  rw [plug_head, mem_join]
  simp

theorem nodup_head {tree : Tree ℕ} : (plug [headFrame] tree).Nodup ↔ head ∉ tree ∧ tree.Nodup := by
  rw [plug_head, nodup_join]
  simp [Tree.Nodup, labels]

/-- The memory while a call runs. -/
def withHead (tree : JswRbtree α) (data : α) : RbMemory α :=
  Function.update tree.memory head (some (headNode data tree.root))

theorem Sound.head_notMem (sound : Sound key tree shape contents) : head ∉ shape :=
  fun inside => (sound.range head inside).1.false

theorem Sound.linked_head (sound : Sound key tree shape contents) (data : α) :
    Linked (tree.withHead data) (plug [headFrame] shape) ∧ (plug [headFrame] shape).Nodup := by
  have below : Linked (tree.withHead data) shape := sound.linked.congr fun a inside =>
    Function.update_of_ne (ne_of_mem_of_not_mem inside sound.head_notMem) _ _
  exact ⟨⟨⟨Nat.one_ne_zero, _, Function.update_self .., rfl, rfl, sound.root⟩, trivial, below⟩,
    nodup_head.mpr ⟨sound.head_notMem, sound.nodup⟩⟩

theorem dataAt_withHead {a : ℕ} (ne : a ≠ head) :
    dataAt (tree.withHead data) a = dataAt tree.memory a := by
  rw [dataAt, dataAt, withHead, Function.update_of_ne ne]

/-- The nodes with which a call ends. -/
structure Ends (memory' memory'' : RbMemory α) (tree' : Tree ℕ) : Prop where
  linked : Linked memory'' (tree'.recolour 0)
  balanced : ∃ height, (tree'.recolour 0).RedBlack height
  black : ¬(tree'.recolour 0).IsRed
  data : ∀ a, a ≠ head → dataAt memory'' a = dataAt memory' a
  removed : memory'' head = none
  outside : ∀ a, a ∉ plug [headFrame] tree' → memory'' a = memory' a

/-- The root becomes black, and `head` is gone. -/
theorem exists_ends {memory' : RbMemory α} {tree' : Tree ℕ}
    (linked : Linked memory' (plug [headFrame] tree')) (nodup : (plug [headFrame] tree').Nodup)
    (balanced : ∃ height, tree'.RedBlack height) :
    ∃ node, memory' head = some node ∧ node.link .right = ptr tree' ∧
      (tree' = .nil → Ends memory' (Function.update memory' head none) tree') ∧
      (tree' ≠ .nil → ∃ memory'', setRed (Function.update memory' head none) (ptr tree') 0 =
        some memory'' ∧ Ends memory' memory'' tree') := by
  obtain ⟨⟨-, node, here, -, -, link_eq⟩, -, below⟩ := linked
  obtain ⟨head_out, nodup'⟩ := nodup_head.mp nodup
  have kept : ∀ {a}, a ≠ head → Function.update memory' head none a = memory' a := fun ne =>
    Function.update_of_ne ne _ _
  have below' : Linked (Function.update memory' head none) tree' :=
    below.congr fun a inside => kept (ne_of_mem_of_not_mem inside head_out)
  obtain ⟨height, redBlack⟩ := balanced
  obtain ⟨height', redBlack', black⟩ := redBlack.blacken
  have out_ne : ∀ a, a ∉ plug [headFrame] tree' → a ≠ head := by
    rintro a out rfl
    exact out (mem_head.mpr (.inl rfl))
  refine ⟨node, here, link_eq, ?_, fun ne => ?_⟩
  · rintro rfl
    refine ⟨trivial, ⟨_, redBlack'⟩, black, fun a differ => ?_, Function.update_self ..,
      fun a out => kept (out_ne a out)⟩
    rw [dataAt, kept differ, dataAt]
  · obtain ⟨memory'', made, rebuilt⟩ :
        ∃ memory'', setRed (Function.update memory' head none) (ptr tree') 0 = some memory'' ∧
          Rebuilt tree' (tree'.recolour 0) (Function.update memory' head none) memory'' :=
      @setRed_recolour _ _ [] tree' below' nodup' ne 0
    refine ⟨memory'', made, rebuilt.linked, ⟨_, redBlack'⟩, black, fun a differ => ?_, ?_,
      fun a out => ?_⟩
    · rw [rebuilt.data, dataAt, kept differ, dataAt]
    · rw [rebuilt.outside head head_out, Function.update_self]
    · rw [rebuilt.outside a fun inside => out (mem_head.mpr (.inr inside)),
        kept (out_ne a out)]

theorem Ends.sound {memory' memory'' : RbMemory α} {tree' : Tree ℕ} {size fresh : ℕ}
    {released contents' : List α} (ends : Ends memory' memory'' tree') (nodup : tree'.Nodup)
    (data_eq : tree'.labels.map (dataAt memory') = contents'.map some)
    (sorted : contents'.Pairwise fun x y => key x < key y)
    (allocated : ∀ a, a ∉ plug [headFrame] tree' → memory' a = none)
    (range : ∀ a ∈ tree', head < a ∧ a < fresh) (fresh_gt : head < fresh) :
    Sound key ⟨ptr tree', size, memory'', fresh, released⟩ (tree'.recolour 0) contents' where
  root := (ptr_recolour 0 tree').symm
  linked := ends.linked
  nodup := by
    rw [Tree.Nodup, labels_recolour]
    exact nodup
  balanced := ends.balanced
  black := ends.black
  data := by
    rw [labels_recolour, ← data_eq]
    exact List.map_congr_left fun a inside => ends.data a (range a inside).1.ne'
  sorted := sorted
  allocated := by
    intro a out
    rw [mem_def, labels_recolour] at out
    by_cases same : a = head
    · rw [same]
      exact ends.removed
    · have out' : a ∉ plug [headFrame] tree' := mt mem_head.mp (not_or.mpr ⟨same, out⟩)
      exact (ends.outside a out').trans (allocated a out')
  range := by
    intro a inside
    rw [mem_def, labels_recolour] at inside
    exact range a inside
  fresh := fresh_gt

/-! ## Insertion -/

/-- The new data has its place, or an element with its key does. -/
inductive Adds (key : α → κ) (dup : α → α) (data : α) : List α → List α → Prop
  | present {contents : List α} {x : α} (inside : x ∈ contents) (same : key x = key data) :
      Adds key dup data contents contents
  | absent {lower upper : List α} (below : ∀ x ∈ lower, key x < key data)
      (above : ∀ x ∈ upper, key data < key x) :
      Adds key dup data (lower ++ upper) (lower ++ dup data :: upper)

theorem Adds.sorted {contents contents' : List α} (dup_key : ∀ x, key (dup x) = key x)
    (adds : Adds key dup data contents contents')
    (sorted : contents.Pairwise fun x y => key x < key y) :
    contents'.Pairwise fun x y => key x < key y := by
  cases adds with
  | present => exact sorted
  | absent below above =>
      obtain ⟨lower, upper, apart⟩ := List.pairwise_append.mp sorted
      refine List.pairwise_append.mpr ⟨lower, .cons ?_ upper, ?_⟩
      · intro x among
        rw [dup_key]
        exact above x among
      · intro x among y among'
        rcases List.mem_cons.mp among' with rfl | among'
        · rw [dup_key]
          exact below x among
        · exact apart x among y among'

theorem exists_of_after {frames : List (Frame ℕ)} {a : ℕ} {rest : List ℕ}
    (eq : after frames = a :: rest) : ∃ frame ∈ frames, frame.side = .left ∧ frame.label = a := by
  induction frames with
  | nil => cases eq
  | cons frame frames induction =>
      obtain ⟨side, label, bf, sibling⟩ := frame
      cases side with
      | left => exact ⟨_, .head _, rfl, (List.cons.inj eq).1⟩
      | right =>
          obtain ⟨frame, among, here⟩ := induction eq
          exact ⟨frame, .tail _ among, here⟩

theorem exists_of_before {frames : List (Frame ℕ)} {a : ℕ} {rest : List ℕ}
    (eq : before frames = rest ++ [a]) :
    ∃ frame ∈ frames, frame.side = .right ∧ frame.label = a := by
  induction frames with
  | nil => exact absurd eq.symm (List.append_ne_nil_of_right_ne_nil _ (List.cons_ne_nil _ _))
  | cons frame frames induction =>
      obtain ⟨side, label, bf, sibling⟩ := frame
      cases side with
      | left =>
          obtain ⟨frame, among, here⟩ := induction ((List.append_nil _).symm.trans eq)
          exact ⟨frame, .tail _ among, here⟩
      | right =>
          refine ⟨_, .head _, rfl, ?_⟩
          have eq' : before frames ++ sibling.labels ++ [label] = rest ++ [a] := by
            simpa [before] using eq
          exact (List.append_inj' eq' rfl).2 |> List.singleton_inj.mp

/-- Where the search ended, all smaller data stands on the left and all larger one on the right. -/
theorem OnSearch.bounds {frames : List (Frame ℕ)} {lower upper : List α}
    (compares : Compares cmp key) (search : OnSearch cmp memory data frames)
    (lower_eq : (before frames).map (dataAt memory) = lower.map some)
    (upper_eq : (after frames).map (dataAt memory) = upper.map some)
    (sorted : (lower ++ upper).Pairwise fun x y => key x < key y) :
    (∀ x ∈ lower, key x < key data) ∧ ∀ x ∈ upper, key data < key x := by
  obtain ⟨lower_sorted, upper_sorted, -⟩ := List.pairwise_append.mp sorted
  constructor
  · rcases List.eq_nil_or_concat lower with rfl | ⟨less, last, rfl⟩
    · exact fun x among => absurd among List.not_mem_nil
    · rw [List.concat_eq_append, List.map_append] at lower_eq
      obtain ⟨rest, ends, split, -, ends_eq⟩ := List.map_eq_append_iff.mp lower_eq
      obtain ⟨a, rfl, a_eq⟩ := List.map_eq_singleton_iff.mp ends_eq
      obtain ⟨frame, among, side_eq, rfl⟩ := exists_of_before split
      obtain ⟨found, data_eq, -, turn_eq⟩ := search frame among
      obtain rfl := Option.some.inj (data_eq.symm.trans a_eq)
      have low : cmp found data < 0 := by
        by_contra high
        rw [dirOf, if_neg high, side_eq] at turn_eq
        cases turn_eq
      have key_lt := (compares.lt_iff _ _).mp low
      rw [List.concat_eq_append] at lower_sorted
      obtain ⟨-, -, apart⟩ := List.pairwise_append.mp lower_sorted
      intro x inside
      rw [List.concat_eq_append] at inside
      rcases List.mem_append.mp inside with inside | inside
      · exact (apart x inside _ (.head _)).trans key_lt
      · rw [List.mem_singleton.mp inside]
        exact key_lt
  · cases upper with
    | nil => exact fun x among => absurd among List.not_mem_nil
    | cons first rest =>
        obtain ⟨a, rest', split, a_eq, -⟩ := List.map_eq_cons_iff.mp upper_eq
        obtain ⟨frame, among, side_eq, rfl⟩ := exists_of_after split
        obtain ⟨found, data_eq, differ, turn_eq⟩ := search frame among
        obtain rfl := Option.some.inj (data_eq.symm.trans a_eq)
        have high : ¬cmp found data < 0 := by
          intro low
          rw [dirOf, if_pos low, side_eq] at turn_eq
          cases turn_eq
        have key_lt : key data < key found :=
          lt_of_le_of_ne (not_lt.mp (mt (compares.lt_iff _ _).mpr high))
            (Ne.symm (mt (compares.eq_iff _ _).mpr differ))
        intro x inside
        rcases List.mem_cons.mp inside with rfl | inside
        · exact key_lt
        · exact key_lt.trans ((List.pairwise_cons.mp upper_sorted).1 x inside)

theorem Sound.insert (compares : Compares cmp key) (dup_key : ∀ x, key (dup x) = key x)
    (sound : Sound key tree shape contents) (data : α) :
    ∃ tree' shape' contents', tree.insert cmp dup data = some tree' ∧
      Sound key tree' shape' contents' ∧ Adds key dup data contents contents' ∧
      tree'.size = (tree.size + 1) % 2 ^ 64 ∧ tree'.released = tree.released ∧
      tree'.fresh = tree.fresh + 1 := by
  have fresh_ne : tree.fresh ≠ 0 := (Nat.zero_lt_of_lt sound.fresh).ne'
  have new : tree.fresh ∉ shape := fun inside => (sound.range _ inside).2.false
  have range' : ∀ {a}, a ∈ shape ∨ a = tree.fresh → head < a ∧ a < tree.fresh + 1 := by
    rintro a (inside | rfl)
    · exact ⟨(sound.range a inside).1, Nat.lt_succ_of_lt (sound.range a inside).2⟩
    · exact ⟨sound.fresh, Nat.lt_succ_self _⟩
  by_cases root_eq : tree.root = 0
  · -- the first node
    obtain rfl : shape = .nil := sound.linked.ptr_eq_zero.mp (sound.root.symm.trans root_eq)
    obtain rfl : contents = [] := by simpa [labels] using sound.data.symm
    let memory' : RbMemory α := Function.update tree.memory tree.fresh
      (some { newNode dup data with red := 0 })
    refine ⟨⟨tree.fresh, (tree.size + 1) % 2 ^ 64, memory', tree.fresh + 1, tree.released⟩,
      .node tree.fresh 0 .nil .nil, [] ++ dup data :: [], ?_, ⟨rfl, ⟨⟨fresh_ne, _,
        Function.update_self .., rfl, rfl, rfl⟩, trivial, trivial⟩, List.nodup_singleton _,
        ⟨1, .inr ⟨rfl, 0, rfl, rfl, rfl⟩⟩, by simp [IsRed], ?_, List.pairwise_singleton _ _,
        fun a out => ?_, fun a inside => range' (.inr (by simpa using inside)),
        Nat.lt_succ_of_lt sound.fresh⟩,
      .absent (fun x among => absurd among List.not_mem_nil)
        fun x among => absurd among List.not_mem_nil, rfl, rfl, rfl⟩
    · simp [JswRbtree.insert, root_eq, setRed, memory', Function.update_idem]
    · simp [labels, dataAt, memory', newNode]
    · have differ : a ≠ tree.fresh := by simpa using out
      exact (Function.update_of_ne differ ..).trans (sound.allocated a (not_mem_nil a))
  · obtain ⟨linked, nodup⟩ := sound.linked_head data
    have shape_ne : shape ≠ .nil := by
      rw [sound.root] at root_eq
      exact mt sound.linked.ptr_eq_zero.mpr root_eq
    have new' : tree.fresh ∉ plug [headFrame] shape :=
      mt mem_head.mp (not_or.mpr ⟨sound.fresh.ne', new⟩)
    obtain ⟨height, redBlack⟩ := sound.balanced
    let walk : Descent α :=
      { t := head, g := 0, p := 0, q := tree.root, dir := .left, last := .left,
        memory := tree.withHead data }
    have standing : Standing cmp data (tree.withHead data) shape (tree.withHead data) [] shape :=
      ⟨Rebuilt.refl linked, nodup, ⟨height, redBlack, trivial, fun both => both.2⟩,
        fun frame among => absurd among List.not_mem_nil⟩
    have aligned : Aligned walk (tree.withHead data) [] shape :=
      ⟨sound.root, rfl, rfl, rfl, rfl, fun _ _ eq => (List.cons_ne_nil _ _ eq.symm).elim,
        fun _ _ _ eq => (List.cons_ne_nil _ _ eq.symm).elim⟩
    have enough : 2 * shape.labels.length + 1 ≤ 2 * tree.fresh + 2 := by
      have less := sound.length_lt
      omega
    obtain ⟨memory', made, outcome⟩ := insertFrom_completes fresh_ne new'
      ((compares.eq_iff _ _).mpr (dup_key data)) _ _ enough le_rfl standing aligned
      ⟨fun _ => ⟨shape_ne, sound.black⟩, fun red => absurd red sound.black, fun ends => ends.elim⟩
    have none : ∀ a, a ∉ plug [headFrame] shape → tree.withHead data a = none := by
      intro a out
      obtain ⟨ne, out'⟩ := not_or.mp (mt mem_head.mpr out)
      rw [withHead, Function.update_of_ne ne, sound.allocated a out']
    have data_eq : shape.labels.map (dataAt (tree.withHead data)) = contents.map some := by
      rw [← sound.data]
      exact List.map_congr_left fun a inside => dataAt_withHead (sound.range a inside).1.ne'
    -- whatever tree the loop leaves
    have finish : ∀ {tree' contents'}, Linked memory' (plug [headFrame] tree') →
        (∃ height, tree'.RedBlack height) → tree' ≠ .nil → tree'.Nodup →
        (∀ a ∈ tree', a ∈ shape ∨ a = tree.fresh) →
        (∀ a, a ∉ plug [headFrame] tree' → memory' a = Option.none) →
        tree'.labels.map (dataAt memory') = contents'.map some →
        Adds key dup data contents contents' →
        ∃ tree' shape' contents', tree.insert cmp dup data = some tree' ∧
          Sound key tree' shape' contents' ∧ Adds key dup data contents contents' ∧
          tree'.size = (tree.size + 1) % 2 ^ 64 ∧ tree'.released = tree.released ∧
          tree'.fresh = tree.fresh + 1 := by
      intro tree' contents' linked' balanced ne nodup' inside allocated data_eq' adds
      have head_out : head ∉ tree' := fun here => (range' (inside head here)).1.false
      obtain ⟨node, here, link_eq, -, ends⟩ :=
        exists_ends linked' (nodup_head.mpr ⟨head_out, nodup'⟩) balanced
      obtain ⟨memory'', painted, ends⟩ := ends ne
      refine ⟨⟨ptr tree', (tree.size + 1) % 2 ^ 64, memory'', tree.fresh + 1, tree.released⟩, _, _,
        ?_, ends.sound nodup' data_eq' (adds.sorted dup_key sound.sorted) allocated
          (fun a here => range' (inside a here)) (Nat.lt_succ_of_lt sound.fresh), adds, rfl, rfl,
        rfl⟩
      have made' : insertFrom cmp dup tree.fresh data (2 * tree.fresh + 2)
          { t := head, g := 0, p := 0, q := tree.root, dir := .left, last := .left,
            memory := Function.update tree.memory head (some (headNode data tree.root)) } =
          some memory' := made
      simp [JswRbtree.insert, root_eq, made', here, link_eq, painted]
    cases outcome with
    | found tree' a found height rebuilt balanced inside data_at same =>
        have labels_eq : tree'.labels = shape.labels := (List.cons.inj rebuilt.labels).2
        have inside_iff : ∀ a, a ∈ tree' ↔ a ∈ shape := fun a => by
          rw [mem_def, mem_def, labels_eq]
        obtain ⟨x, among, x_eq⟩ : ∃ x ∈ contents, some x = some found := by
          rw [← List.mem_map, ← data_eq, ← data_at]
          exact List.mem_map_of_mem ((inside_iff a).mp inside)
        obtain rfl := Option.some.inj x_eq
        refine finish rebuilt.linked ⟨height, balanced⟩ (by rintro rfl; exact not_mem_nil a inside)
          (by rw [Tree.Nodup, labels_eq]; exact sound.nodup)
          (fun a here => .inl ((inside_iff a).mp here)) (fun a out => ?_) ?_
          (.present among ((compares.eq_iff _ _).mp same))
        · have out' := mt rebuilt.mem_iff.mpr out
          rw [rebuilt.outside a out', none a out']
        · rw [labels_eq, ← data_eq]
          exact List.map_congr_left fun a _ => rebuilt.data a
    | added tree' frames height linked' balanced labels₀ labels' search old new_data outside =>
        have inside_iff : ∀ a, a ∈ tree' ↔ a ∈ shape ∨ a = tree.fresh := fun a => by
          simp only [mem_def, labels', labels₀, List.mem_append, List.mem_cons]
          tauto
        rw [labels₀, List.map_append] at data_eq
        obtain ⟨lower, upper, rfl, lower_eq, upper_eq⟩ := List.map_eq_append_iff.mp data_eq.symm
        obtain ⟨below, above⟩ :=
          search.bounds compares lower_eq.symm upper_eq.symm sound.sorted
        have old' : ∀ a ∈ before frames ++ after frames,
            dataAt memory' a = dataAt (tree.withHead data) a := by
          intro a among
          rw [← labels₀] at among
          exact old a (ne_of_mem_of_not_mem among new)
        refine finish linked' ⟨height, balanced⟩ ?_ ?_ (fun a here => (inside_iff a).mp here)
          (fun a out => ?_) ?_ (.absent below above)
        · rintro rfl
          exact not_mem_nil _ ((inside_iff tree.fresh).mpr (.inr rfl))
        · rw [Tree.Nodup, labels']
          refine List.nodup_middle.mpr (List.nodup_cons.mpr ⟨?_, ?_⟩)
          · rw [← labels₀]
            exact new
          · rw [← labels₀]
            exact sound.nodup
        · obtain ⟨ne, out'⟩ := not_or.mp (mt mem_head.mpr out)
          obtain ⟨out_shape, ne_fresh⟩ := not_or.mp (mt (inside_iff a).mpr out')
          have out_head := mt mem_head.mp (not_or.mpr ⟨ne, out_shape⟩)
          rw [outside a out_head ne_fresh, none a out_head]
        · rw [labels', List.map_append, List.map_cons, new_data, List.map_append, List.map_cons,
            lower_eq, upper_eq,
            List.map_congr_left fun a among => old' a (List.mem_append_left _ among),
            List.map_congr_left fun a among => old' a (List.mem_append_right _ among)]

/-! ## Removal -/

/-- The element with the key of the data is removed and given to `rel`. -/
inductive Removes (key : α → κ) (data : α) : List α → List α → List α → Prop
  | absent {contents : List α} (none : ∀ x ∈ contents, key x ≠ key data) :
      Removes key data contents contents []
  | present {lower upper : List α} {x : α} (same : key x = key data) :
      Removes key data (lower ++ x :: upper) (lower ++ upper) [x]

theorem Removes.sorted {contents contents' out : List α}
    (removes : Removes key data contents contents' out)
    (sorted : contents.Pairwise fun x y => key x < key y) :
    contents'.Pairwise fun x y => key x < key y := by
  cases removes with
  | absent => exact sorted
  | present => exact sorted.sublist ((List.sublist_cons_self _ _).append_left _)

theorem exists_parted (compares : Compares cmp key) (data : α) {nodes : List ℕ}
    (data_eq : nodes.map (dataAt memory) = contents.map some)
    (sorted : contents.Pairwise fun x y => key x < key y) :
    ∃ lows uppers lower upper, nodes = lows ++ uppers ∧ contents = lower ++ upper ∧
      lows.map (dataAt memory) = lower.map some ∧ uppers.map (dataAt memory) = upper.map some ∧
      (∀ x ∈ lower, key x < key data) ∧ Parted cmp data memory lows uppers := by
  let test : α → Bool := fun x => key x < key data
  have low : ∀ x ∈ contents.takeWhile test, key x < key data := fun x among => by
    simpa [test] using List.mem_takeWhile_imp among
  have split : contents.takeWhile test ++ contents.dropWhile test = contents :=
    List.takeWhile_append_dropWhile
  rw [← split] at data_eq sorted
  rw [List.map_append] at data_eq
  obtain ⟨lows, uppers, rfl, lower_eq, upper_eq⟩ := List.map_eq_append_iff.mp data_eq
  obtain ⟨-, upper_sorted, -⟩ := List.pairwise_append.mp sorted
  have at_mem : ∀ {nodes : List ℕ} {elements : List α}, nodes.map (dataAt memory) =
      elements.map some → ∀ a ∈ nodes, ∃ x ∈ elements, dataAt memory a = some x := by
    intro nodes elements eq a among
    have inside : dataAt memory a ∈ elements.map some := eq ▸ List.mem_map_of_mem among
    obtain ⟨x, among', x_eq⟩ := List.mem_map.mp inside
    exact ⟨x, among', x_eq.symm⟩
  have first : ∀ x ∈ contents.dropWhile test, key data ≤ key x := by
    intro x among
    cases rest_eq : contents.dropWhile test with
    | nil =>
        rw [rest_eq] at among
        cases among
    | cons y rest =>
        have y_ge : key data ≤ key y := by
          have stop := List.head_dropWhile_not test (by rw [rest_eq]; exact List.cons_ne_nil _ _)
          simpa [test, rest_eq] using stop
        rw [rest_eq] at among upper_sorted
        rcases List.mem_cons.mp among with rfl | among
        · exact y_ge
        · exact y_ge.trans ((List.pairwise_cons.mp upper_sorted).1 x among).le
  refine ⟨lows, uppers, _, _, rfl, split.symm, lower_eq, upper_eq, low, ⟨fun a among => ?_,
    fun a among => ?_, fun a among => ?_⟩⟩
  · obtain ⟨x, among, x_eq⟩ := at_mem lower_eq a among
    exact ⟨x, x_eq, (compares.lt_iff _ _).mpr (low x among)⟩
  · obtain ⟨x, among, x_eq⟩ := at_mem upper_eq a among
    exact ⟨x, x_eq, not_lt.mp (mt (compares.lt_iff _ _).mp (not_lt.mpr (first x among)))⟩
  · cases uppers with
    | nil => cases among
    | cons b uppers =>
        obtain ⟨y, rest, rest_eq, -, upper_eq'⟩ := List.map_eq_cons_iff.mp upper_eq.symm
        obtain ⟨x, among', x_eq⟩ := at_mem upper_eq'.symm a among
        rw [rest_eq] at upper_sorted first
        have key_lt : key data < key x := (first y (.head _)).trans_lt
          ((List.pairwise_cons.mp upper_sorted).1 x among')
        refine ⟨x, x_eq, lt_of_le_of_ne ?_ (Ne.symm (mt (compares.eq_iff _ _).mp key_lt.ne'))⟩
        exact not_lt.mp (mt (compares.lt_iff _ _).mp key_lt.not_gt)

theorem Sound.erase (compares : Compares cmp key) (sound : Sound key tree shape contents)
    (data : α) :
    ∃ tree' shape' contents' out, tree.erase cmp data = some tree' ∧
      Sound key tree' shape' contents' ∧ Removes key data contents contents' out ∧
      tree'.size = (if contents = [] then tree.size else (tree.size + 2 ^ 64 - 1) % 2 ^ 64) ∧
      tree'.released = tree.released ++ out ∧ tree'.fresh = tree.fresh := by
  have empty_iff : tree.root = 0 ↔ contents = [] := by
    rw [sound.root, sound.linked.ptr_eq_zero]
    have data_eq := sound.data
    constructor
    · rintro rfl
      simpa [labels] using data_eq.symm
    · rintro rfl
      cases shape with
      | nil => rfl
      | node => simp [labels] at data_eq
  by_cases root_eq : tree.root = 0
  · obtain rfl := empty_iff.mp root_eq
    exact ⟨tree, shape, [], [], by simp [JswRbtree.erase, root_eq], sound,
      .absent fun x among => absurd among List.not_mem_nil, rfl, (List.append_nil _).symm, rfl⟩
  · have shape_ne : shape ≠ .nil := by
      rw [sound.root] at root_eq
      exact mt sound.linked.ptr_eq_zero.mpr root_eq
    obtain ⟨linked, nodup⟩ := sound.linked_head data
    have data_eq : shape.labels.map (dataAt (tree.withHead data)) = contents.map some := by
      rw [← sound.data]
      exact List.map_congr_left fun a inside => dataAt_withHead (sound.range a inside).1.ne'
    obtain ⟨lows, uppers, lower, upper, labels_eq, split, lower_eq, upper_eq, below, parted⟩ :=
      exists_parted compares data data_eq sound.sorted
    obtain ⟨height, redBlack⟩ := sound.balanced
    let start : Pursuit α :=
      { q := head, p := 0, g := 0, f := 0, dir := .right, memory := tree.withHead data }
    have chase : Chase cmp data (tree.withHead data) shape lows uppers start [] shape :=
      ⟨Rebuilt.refl linked, nodup, ⟨rfl, fun ne => absurd rfl ne, rfl, ⟨height, redBlack, trivial,
        fun both => both.2⟩, .inr (.inr (.inl rfl))⟩, ⟨lows, uppers, labels_eq, rfl,
        List.append_nil _⟩, .inl ⟨rfl, fun a among => absurd among List.not_mem_nil⟩⟩
    obtain ⟨walk, frames, made, chase⟩ :=
      eraseFrom_ends parted chase (sound.length_lt.trans (Nat.lt_succ_self _))
    have none : ∀ a, a ∉ plug [headFrame] shape → tree.withHead data a = none := by
      intro a out
      obtain ⟨ne, out'⟩ := not_or.mp (mt mem_head.mpr out)
      rw [withHead, Function.update_of_ne ne, sound.allocated a out']
    -- whatever tree is left, and what was released
    have finish : ∀ {memory' tree' contents' out}, Linked memory' (plug [headFrame] tree') →
        (∃ height, tree'.RedBlack height) → tree'.Nodup → (∀ a ∈ tree', a ∈ shape) →
        (∀ a, a ∉ plug [headFrame] tree' → memory' a = Option.none) →
        tree'.labels.map (dataAt memory') = contents'.map some →
        Removes key data contents contents' out →
        takeFound tree walk = some (tree.released ++ out, memory') →
        ∃ tree' shape' contents' out, tree.erase cmp data = some tree' ∧
          Sound key tree' shape' contents' ∧ Removes key data contents contents' out ∧
          tree'.size = (if contents = [] then tree.size else (tree.size + 2 ^ 64 - 1) % 2 ^ 64) ∧
          tree'.released = tree.released ++ out ∧ tree'.fresh = tree.fresh := by
      intro memory' tree' contents' out linked' balanced nodup' inside allocated data_eq' removes taken
      have head_out : head ∉ tree' := fun here => sound.head_notMem (inside head here)
      obtain ⟨node, here, link_eq, whenNil, whenNode⟩ :=
        exists_ends linked' (nodup_head.mpr ⟨head_out, nodup'⟩) balanced
      obtain ⟨memory'', painted, ends⟩ : ∃ memory'',
          blackenRoot (Function.update memory' head Option.none) (ptr tree') = some memory'' ∧
            Ends memory' memory'' tree' := by
        have below := (linked_plug.mp linked').1
        by_cases empty : tree' = .nil
        · rw [blackenRoot, if_neg (not_not.mpr (below.ptr_eq_zero.mpr empty))]
          exact ⟨_, rfl, whenNil empty⟩
        · rw [blackenRoot, if_pos (mt below.ptr_eq_zero.mp empty)]
          exact whenNode empty
      refine ⟨⟨ptr tree', (tree.size + 2 ^ 64 - 1) % 2 ^ 64, memory'', tree.fresh,
        tree.released ++ out⟩, _, _, out, ?_, ends.sound nodup' data_eq'
          (removes.sorted sound.sorted) allocated (fun a here => sound.range a (inside a here))
          sound.fresh, removes, (if_neg (mt empty_iff.mpr root_eq)).symm, rfl, rfl⟩
      have made' : eraseFrom cmp data (tree.fresh + 1)
          { q := head, p := 0, g := 0, f := 0, dir := .right,
            memory := Function.update tree.memory head (some (headNode data tree.root)) } =
          some walk := made
      rw [JswRbtree.erase, if_neg root_eq]
      simp only [made', taken, here, link_eq, painted, bind, Option.bind_some]
      rfl
    have inside_iff : ∀ a, a ∈ plug frames .nil ↔ a ∈ shape := fun a => by
      rw [mem_def, mem_def, chase.labels_eq]
    by_cases f_eq : walk.f = 0
    · -- nothing was found
      refine finish (by rw [← plug_append]; exact chase.rebuilt.linked)
        (redBlack_plug.mpr chase.follows.balanced) (by rw [Tree.Nodup, chase.labels_eq]; exact
          sound.nodup) (fun a here => (inside_iff a).mp here) (fun a out => ?_) ?_ (.absent ?_)
        (by rw [takeFound, if_neg (not_not.mpr f_eq), List.append_nil])
      · obtain ⟨ne, out'⟩ := not_or.mp (mt mem_head.mpr out)
        have out_head := mt mem_head.mp (not_or.mpr ⟨ne, mt (inside_iff a).mpr out'⟩)
        rw [chase.rebuilt.outside a out_head, none a out_head]
      · rw [chase.labels_eq, ← data_eq]
        exact List.map_congr_left fun a _ => chase.rebuilt.data a
      · obtain ⟨left, right, nil_eq, -, right_eq⟩ := chase.place
        obtain ⟨rfl, rfl⟩ := List.append_eq_nil_iff.mp nil_eq.symm
        rw [List.nil_append] at right_eq
        have differ : ∀ a ∈ uppers, ∀ found, dataAt (tree.withHead data) a = some found →
            cmp found data ≠ 0 := by
          rcases chase.finds with ⟨-, differ⟩ | ⟨inside, -⟩
          · rw [← right_eq]
            exact differ
          · rw [f_eq, right_eq] at inside
            have zero : 0 ∈ shape := by
              rw [mem_def, labels_eq]
              exact List.mem_append_right _ inside
            exact absurd zero sound.linked.zero_notMem
        intro x among
        rw [split] at among
        rcases List.mem_append.mp among with among | among
        · exact (below x among).ne
        · obtain ⟨a, among', x_eq⟩ : ∃ a ∈ uppers, dataAt (tree.withHead data) a = some x := by
            rw [← List.mem_map, upper_eq]
            exact List.mem_map_of_mem among
          exact mt (compares.eq_iff _ _).mpr (differ a among' x x_eq)
    · obtain ⟨found, memory', tree', rest, taken, uppers_eq, data_at, same, out⟩ :=
        takeOut_takenOut parted chase shape_ne f_eq
      rw [uppers_eq] at upper_eq
      obtain ⟨x, upper, rfl, x_eq, rest_eq⟩ := List.map_eq_cons_iff.mp upper_eq.symm
      obtain rfl := Option.some.inj (x_eq.trans data_at)
      subst split
      refine finish out.linked out.balanced out.nodup (fun a here => (out.inside a).mpr (.inl here))
        (fun a outside => ?_) ?_ (.present ((compares.eq_iff _ _).mp same)) ?_
      · obtain ⟨ne, out'⟩ := not_or.mp (mt mem_head.mpr outside)
        by_cases leaf : a = walk.q
        · rw [leaf]
          exact out.removed.2
        · have out_head : a ∉ plug [headFrame] shape := by
            rw [mem_head, out.inside]
            tauto
          rw [out.outside a out_head, none a out_head]
      · rw [out.data, List.map_append, List.map_append, lower_eq, rest_eq]
      · rw [takeFound, if_pos f_eq, taken]
        rfl

end CommonLib.JswRbtree
