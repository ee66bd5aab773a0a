import CommonLib.Hlib.HashForest
import CommonLib.Hlib.HashFree

/-!
# `Add` of the hash table

A new entry is set directly, linked at the end of a path, or put in the place of an element of
another tree.
-/

namespace CommonLib
namespace HashTable

open CommonLib.Tree

variable {κ β : Type} {dict dict' : Dict κ β}

/-! ## A new leaf -/

/-- The element `n` is linked below the last node of the path. -/
def attached (dict : Dict κ β) (frame : Frame Nat) (n : Nat) (key : κ) (value : β) : Dict κ β :=
  modify (modify dict frame.label fun element => element.setChild frame.side (some n)) n
    (fill key value (some frame.label))

section Leaf

variable {frame : Frame Nat} {frames : List (Frame Nat)} {n : Nat}

theorem attached_of_ne {a : Nat} (notLabel : a ≠ frame.label) (notNew : a ≠ n) (key : κ)
    (value : β) : attached dict frame n key value a = dict a := by
  rw [attached, modify_of_ne notNew, modify_of_ne notLabel]

theorem attached_entry {a : Nat} (notNew : a ≠ n) (key : κ) (value : β) :
    (attached dict frame n key value a).entry = (dict a).entry := by
  rw [attached, modify_of_ne notNew, modify_apply]
  split
  · exact THElement.entry_setChild ..
  · rfl

theorem attached_entries (notInside : ¬ n ∈ plug (frame :: frames) nil) (key : κ) (value : β) :
    (plug (frame :: frames) (node n 0 nil nil)).labels.map
        (fun a => (attached dict frame n key value a).entry) =
      (before (frame :: frames)).map (fun a => (dict a).entry) ++
        (true, key, value) :: (after (frame :: frames)).map fun a => (dict a).entry := by
  have same {labels : List Nat} (notNew : ∀ a ∈ labels, a ≠ n) :
      labels.map (fun a => (attached dict frame n key value a).entry) =
        labels.map fun a => (dict a).entry :=
    List.map_congr_left fun a inside => attached_entry (notNew a inside) key value
  have here : (attached dict frame n key value n).entry = (true, key, value) := by
    rw [attached, modify_self]
    rfl
  rw [mem_def, labels_plug, List.mem_append, List.mem_append] at notInside
  have notBefore : ∀ a ∈ before (frame :: frames), a ≠ n := by
    rintro a inside rfl
    exact notInside (.inl (.inl inside))
  have notAfter : ∀ a ∈ after (frame :: frames), a ≠ n := by
    rintro a inside rfl
    exact notInside (.inr inside)
  rw [labels_plug, List.map_append, List.map_append, same notBefore, same notAfter]
  simp only [labels, List.nil_append, List.map_cons, List.map_nil, here, List.append_assoc,
    List.cons_append]

theorem attached_linked (linked : Linked dict none (plug (frame :: frames) nil))
    (nodup : (plug (frame :: frames) (nil : Tree Nat)).Nodup)
    (notInside : ¬ n ∈ plug (frame :: frames) nil) (key : κ) (value : β) :
    Linked (attached dict frame n key value) none
      (plug (frame :: frames) (node n 0 nil nil)) := by
  have nodup' : (plug frames (join frame.side frame.label frame.bf nil frame.sibling)).Nodup :=
    nodup
  obtain ⟨joinNodup, notAbove⟩ := nodup_plug nodup'
  obtain ⟨⟨-, notSibling⟩, -, -, -⟩ := nodup_join.mp joinNodup
  have labelAbove := notAbove frame.label (mem_join.mpr (.inl rfl))
  have notPath : ¬ OnPath (frame :: frames) n := fun onPath => notInside (mem_plug.mpr (.inr onPath))
  have label_ne : frame.label ≠ n := by
    rintro rfl
    exact notPath ⟨frame, .head _, .inl rfl⟩
  obtain ⟨-, path⟩ := linked_plug.mp linked
  refine linked_plug.mpr ⟨?_, path.setChild ⟨notSibling, labelAbove⟩ (some n) ?_
    fun a onPath notLabel => ?_⟩
  · simp only [Linked, attached, modify_self]
    exact ⟨rfl, rfl, rfl, rfl, trivial, trivial⟩
  · rw [attached, modify_of_ne label_ne, modify_self]
  · rw [attached_of_ne notLabel]
    rintro rfl
    exact notPath onPath

end Leaf

section Order

variable [LinearOrder κ] {size : Nat} {home : κ → Nat} {trees : Nat → Tree Nat}

/-! ## Direct set -/

/-- A free element has taken up an entry. -/
structure Entered (dict : Dict κ β) (size : Nat) (home : κ → Nat) (n : Nat) (key : κ) (value : β)
    (dict' : Dict κ β) : Prop where
  lt : n < size
  free : (dict n).isUsing = false
  forest : ∃ trees, Forest dict' size home trees
  stores : ∀ k v, Stores dict' size k v ↔ k = key ∧ v = value ∨ Stores dict size k v
  isUsing : ∀ a < size, (dict' a).isUsing = true ↔ a = n ∨ (dict a).isUsing = true

theorem stands_single (dict : Dict κ β) {i : Nat} (i_lt : i < size) {key : κ}
    (home_eq : home key = i) (value : β) :
    Stands (modify dict i (fill key value none)) size home i (node i 0 nil nil) where
  linked := by
    simp only [Linked, modify_self]
    exact ⟨rfl, rfl, rfl, rfl, trivial, trivial⟩
  root_eq := .inr rfl
  inside := fun a inside => by
    obtain rfl : a = i := by simpa using inside
    rw [modify_self]
    exact ⟨i_lt, rfl, home_eq⟩
  ordered := List.pairwise_singleton ..
  balanced := by simp [Tree.Balanced, height]

theorem Forest.direct (forest : Forest dict size home trees) (home_lt : ∀ key, home key < size)
    {key : κ} (free : (dict (home key)).isUsing = false) (value : β) :
    Entered dict size home (home key) key value (modify dict (home key) (fill key value none)) := by
  have i_lt := home_lt key
  have empty := forest.eq_nil i_lt (.inl free)
  have replaced : Replaced dict size home (trees (home key)) (home key) (node (home key) 0 nil nil)
      (modify dict (home key) (fill key value none)) :=
    { stands := stands_single dict i_lt rfl value
      outside := fun a _ left => modify_of_ne (fun same => left (mem_node.mpr (.inl same))) _
      fresh := fun a entered _ => by
        obtain rfl : a = home key := by simpa using entered
        exact free
      dropped := fun a old _ => absurd (empty ▸ old) (not_mem_nil a)
      index := fun a => by
        rw [modify_apply]
        split <;> rfl }
  refine ⟨i_lt, free, ⟨_, forest.update i_lt replaced⟩, fun k v => ?_, fun a a_lt => ?_⟩
  · rw [forest.update_stores home_lt i_lt replaced]
    by_cases same : home k = home key
    · have absent := forest.not_stores (same ▸ empty : trees (home k) = nil) v
      rw [if_pos same]
      simp [labels, THElement.entry, fill, absent]
    · rw [if_neg same, or_iff_right]
      rintro ⟨rfl, -⟩
      exact same rfl
  · rw [forest.update_isUsing home_lt i_lt replaced a_lt, empty]
    simp

section Leaf

variable {frame : Frame Nat} {frames : List (Frame Nat)} {n : Nat}

theorem attached_ordered {key : κ} (ordered : Ordered dict (plug (frame :: frames) nil))
    (toward : ∀ other ∈ frame :: frames, Toward key other.side (dict other.label).key)
    (notInside : ¬ n ∈ plug (frame :: frames) nil) (value : β) :
    Ordered (attached dict frame n key value) (plug (frame :: frames) (node n 0 nil nil)) := by
  obtain ⟨above, below⟩ := toward_plug ordered toward
  have entries_eq : _ = (before (frame :: frames)).map (fun a => (dict a).entry) ++ _ :=
    attached_entries notInside key value
  have keys_eq := congrArg (List.map fun entry : Bool × κ × β => entry.2.1) entries_eq
  rw [List.map_map, List.map_append, List.map_cons, List.map_map, List.map_map] at keys_eq
  rw [ordered_iff]
  refine (congrArg (List.Pairwise (· < ·)) keys_eq).mpr ?_
  rw [ordered_iff, labels_plug, List.map_append, List.map_append] at ordered
  simp only [labels, List.map_nil, List.append_nil] at ordered
  obtain ⟨first, second, between⟩ := List.pairwise_append.mp ordered
  refine List.pairwise_append.mpr ⟨first, List.pairwise_cons.mpr ⟨?_, second⟩, ?_⟩
  · intro later among
    obtain ⟨a, inside, rfl⟩ := List.mem_map.mp among
    exact below a inside
  · intro earlier among later among'
    rcases List.mem_cons.mp among' with rfl | among'
    · obtain ⟨a, inside, rfl⟩ := List.mem_map.mp among
      exact above a inside
    · exact between earlier among later among'

theorem Forest.attach (forest : Forest dict size home trees) (home_lt : ∀ key, home key < size)
    {key : κ} (tree_eq : trees (home key) = plug (frame :: frames) nil)
    (toward : ∀ other ∈ frame :: frames, Toward key other.side (dict other.label).key)
    (n_lt : n < size) (free : (dict n).isUsing = false) (value : β) :
    ∃ dict', rebalanceAdded key (attached dict frame n key value)
        ((frame :: frames).map (·.label)) = some dict' ∧
      Entered dict size home n key value dict' := by
  have stands := forest.stands _ (home_lt key)
  rw [tree_eq] at stands
  have notInside : ¬ n ∈ plug (frame :: frames) nil := fun inside => by
    rw [(stands.inside n inside).2.1] at free
    cases free
  have labelInside : frame.label ∈ plug (frame :: frames) nil :=
    mem_plug.mpr (.inr ⟨frame, .head _, .inl rfl⟩)
  have members (a : Nat) : a ∈ plug (frame :: frames) (node n 0 nil nil) ↔
      a = n ∨ a ∈ plug (frame :: frames) nil := by
    simp [mem_plug]
  have ordered := attached_ordered stands.ordered toward notInside value
  have key_eq {other : Frame Nat} (among : other ∈ frame :: frames) :
      (attached dict frame n key value other.label).key = (dict other.label).key := by
    refine congrArg (·.2.1) (attached_entry ?_ key value)
    rintro rfl
    exact notInside (mem_plug.mpr (.inr ⟨other, among, .inl rfl⟩))
  obtain ⟨-, balances⟩ := balanced_plug.mp stands.balanced
  have leaf : (node n 0 nil nil).Balanced := by simp [Tree.Balanced, height]
  obtain ⟨grown, grows, grownBalanced⟩ := exists_grows balances leaf rfl (.inr rfl)
  obtain ⟨dict', tree', rebalance_eq, rebalanced⟩ := rebalanceAdded_spec
    (attached_linked stands.linked stands.ordered.nodup notInside key value) ordered
    (fun other among => by
      rw [key_eq among]
      exact toward other among) grows
  have root_eq : (plug (frame :: frames) (node n 0 nil nil)).root = some (home key) := by
    rw [root_plug_cons frame frames _ nil]
    refine stands.root_eq.resolve_left fun empty => ?_
    rw [empty] at labelInside
    exact not_mem_nil _ labelInside
  have here : (attached dict frame n key value n).entry = (true, key, value) := by
    rw [attached, modify_self]
    rfl
  have replaced : Replaced dict size home (trees (home key)) (home key) tree' dict' := by
    rw [tree_eq]
    refine ⟨rebalanced.stands ordered grownBalanced root_eq fun a among => ?_,
      fun a old new => ?_, fun a entered old => ?_, fun a old left => ?_, fun a => ?_⟩
    · by_cases same : a = n
      · subst same
        simp only [THElement.entry, Prod.mk.injEq] at here
        exact ⟨n_lt, here.1, by rw [here.2.1]⟩
      · have entry_eq : (attached dict frame n key value a).entry = _ :=
          attached_entry same key value
        simp only [THElement.entry, Prod.mk.injEq] at entry_eq
        rw [entry_eq.1, entry_eq.2.1]
        exact stands.inside a (((members a).mp among).resolve_left same)
    · rw [rebalanced.rearranged.members, members, not_or] at new
      rw [rebalanced.rearranged.outside a (by rw [members, not_or]; exact new)]
      refine attached_of_ne ?_ new.1 key value
      rintro rfl
      exact old labelInside
    · rw [rebalanced.rearranged.members, members] at entered
      rw [entered.resolve_right old]
      exact free
    · rw [rebalanced.rearranged.members, members] at left
      exact absurd (.inr old) left
    · rw [rebalanced.rearranged.index, attached, modify_apply, modify_apply]
      split <;> split <;> first | rfl | exact THElement.index_setChild ..
  refine ⟨dict', rebalance_eq, n_lt, free, ⟨_, forest.update (home_lt key) replaced⟩,
    fun k v => ?_, fun a a_lt => ?_⟩
  · rw [forest.update_stores home_lt (home_lt key) replaced, rebalanced.rearranged.entries]
    by_cases same : home k = home key
    · rw [if_pos same, forest.stores_iff home_lt, same, tree_eq]
      rw [attached_entries notInside, labels_plug, List.map_append, List.map_append]
      simp only [labels, List.map_nil, List.append_nil, List.mem_append, List.mem_cons,
        Prod.mk.injEq, true_and]
      exact or_left_comm
    · rw [if_neg same, or_iff_right]
      rintro ⟨rfl, -⟩
      exact same rfl
  · rw [forest.update_isUsing home_lt (home_lt key) replaced a_lt, tree_eq,
      rebalanced.rearranged.members, members]
    constructor
    · rintro ((same | inside) | ⟨isUsing, -⟩)
      · exact .inl same
      · exact .inr (stands.inside a inside).2.1
      · exact .inr isUsing
    · rintro (same | isUsing)
      · exact .inl (.inl same)
      · by_cases inside : a ∈ plug (frame :: frames) nil
        · exact .inl (.inr inside)
        · exact .inr ⟨isUsing, inside⟩

end Leaf

/-! ## Exchange with an element of another tree -/

/-- What `ExchangeElement` of a used element `r` and the filled element `n` does, with the element
`r` taken for a free one. -/
theorem exchange_replaced {frame : Frame Nat} {frames : List (Frame Nat)} {i j n : Nat} {bf : Int}
    {left right : Tree Nat}
    (stands : Stands dict size home j (plug (frame :: frames) (node i bf left right)))
    (n_lt : n < size) (free : (dict n).isUsing = false) (key : κ) (value : β) :
    ∃ dict', exchangeElement (modify dict n (fill key value none)) i n =
        some (modify dict' i (fill key value none)) ∧
      (dict' i).isUsing = false ∧
      Replaced dict size home (plug (frame :: frames) (node i bf left right)) j
        (plug (frame :: frames) (node n bf left right)) dict' ∧
      (plug (frame :: frames) (node n bf left right)).labels.map (fun a => (dict' a).entry) =
        (plug (frame :: frames) (node i bf left right)).labels.map (fun a => (dict a).entry) ∧
      ∀ a, a ∈ plug (frame :: frames) (node n bf left right) ↔
        a = n ∨ a ∈ plug (frame :: frames) (node i bf left right) ∧ a ≠ i := by
  have notInside : ¬ n ∈ plug (frame :: frames) (node i bf left right) := fun inside => by
    rw [(stands.inside n inside).2.1] at free
    cases free
  have here : i ∈ plug (frame :: frames) (node i bf left right) :=
    mem_plug.mpr (.inl (mem_node.mpr (.inl rfl)))
  have i_ne : i ≠ n := fun same => notInside (same ▸ here)
  have nodup := stands.ordered.nodup
  have linked : Linked (modify dict n (fill key value none)) none
      (plug (frame :: frames) (node i bf left right)) :=
    stands.linked.congr fun a inside => by
      rw [modify_of_ne (ne_of_mem_of_not_mem inside notInside)]
  obtain ⟨exchanged, exchange_eq, linked', at_i, entry_n, index_n, others, outside⟩ :=
    exchangeElement_apart linked nodup notInside (by rw [modify_self]; rfl)
      (by rw [modify_self]; rfl)
  rw [modify_of_ne i_ne, modify_self] at at_i
  rw [modify_of_ne i_ne] at entry_n
  let dict' := modify exchanged i fun element => { element with isUsing := false }
  have at_n : (dict' n).entry = (dict i).entry := by
    simp only [dict', modify_of_ne i_ne.symm, entry_n]
  have elsewhere {a : Nat} (notI : a ≠ i) (notN : a ≠ n) : (dict' a).entry = (dict a).entry := by
    simp only [dict', modify_of_ne notI, (others a notI notN).1, modify_of_ne notN]
  have entries_eq := map_labels_plug_relabel nodup notInside at_n fun a => elsewhere
  have members (a : Nat) : a ∈ plug (frame :: frames) (node n bf left right) ↔
      a = n ∨ a ∈ plug (frame :: frames) (node i bf left right) ∧ a ≠ i :=
    mem_plug_relabel nodup a
  refine ⟨dict', ?_, by simp [dict'], ⟨⟨?_, .inr ?_, ?_, ?_, ?_⟩, fun a old new => ?_,
    fun a new old => ?_, fun a old new => ?_, fun a => ?_⟩, entries_eq, members⟩
  · rw [exchange_eq]
    refine congrArg some (funext fun a => ?_)
    rw [modify_apply]
    split
    · rename_i same
      simp only [same, dict', modify_self, at_i]
      rfl
    · rename_i ne
      simp only [dict', modify_of_ne ne]
  · refine linked'.congr fun a _ => ?_
    simp only [dict', modify_apply]
    split <;> rfl
  · rw [root_plug_cons frame frames _ (node i bf left right)]
    refine stands.root_eq.resolve_left fun empty => ?_
    rw [empty] at here
    exact not_mem_nil i here
  · intro a inside
    have among : (dict' a).entry ∈ (plug (frame :: frames) (node n bf left right)).labels.map
        fun a => (dict' a).entry := List.mem_map_of_mem inside
    rw [entries_eq] at among
    obtain ⟨b, among', entry_eq⟩ := List.mem_map.mp among
    simp only [THElement.entry, Prod.mk.injEq] at entry_eq
    rw [← entry_eq.1, ← entry_eq.2.1]
    refine ⟨?_, (stands.inside b among').2⟩
    rcases (members a).mp inside with rfl | ⟨old, -⟩
    · exact n_lt
    · exact (stands.inside a old).1
  · have keys_eq := congrArg (List.map fun entry : Bool × κ × β => entry.2.1) entries_eq
    rw [List.map_map, List.map_map] at keys_eq
    rw [ordered_iff]
    exact (congrArg (List.Pairwise (· < ·)) keys_eq).mpr (ordered_iff.mp stands.ordered)
  · have balanced := stands.balanced
    rw [balanced_plug] at balanced ⊢
    exact balanced
  · rw [members, not_or, not_and_or] at new
    have notI : a ≠ i := fun same => old (same ▸ here)
    simp only [dict', modify_of_ne notI, outside a old new.1, modify_of_ne new.1]
  · rw [members] at new
    rw [new.resolve_right fun other => old other.1]
    exact free
  · rw [members, not_or] at new
    obtain rfl : a = i := by
      by_contra ne
      exact new.2 ⟨old, ne⟩
    simp only [dict', modify_self]
  · by_cases atI : a = i
    · rw [atI]
      simp only [dict', modify_self, at_i]
      rfl
    · by_cases atN : a = n
      · rw [atN]
        simp only [dict', modify_of_ne i_ne.symm, index_n, modify_self]
        rfl
      · simp only [dict', modify_of_ne atI, (others a atI atN).2, modify_of_ne atN]

theorem Forest.exchange (forest : Forest dict size home trees) (home_lt : ∀ key, home key < size)
    {key : κ} (isUsing : (dict (home key)).isUsing = true)
    (parent_ne : (dict (home key)).parent ≠ none) {n : Nat} (n_lt : n < size)
    (free : (dict n).isUsing = false) (value : β) :
    ∃ dict', exchangeElement (modify dict n (fill key value none)) (home key) n = some dict' ∧
      Entered dict size home n key value dict' := by
  let i := home key
  let j := home (dict i).key
  have i_lt : i < size := home_lt key
  have j_lt : j < size := home_lt _
  have covered : i ∈ trees j := forest.covers i i_lt isUsing
  have stands := forest.stands j j_lt
  obtain ⟨path, bf, left, right, tree_eq⟩ := exists_plug covered []
  rw [plug] at tree_eq
  cases path with
  | nil =>
      refine absurd ((stands.linked.parent_eq_none covered).mpr ?_) parent_ne
      rw [tree_eq]
      rfl
  | cons frame frames =>
      rw [tree_eq] at stands
      obtain ⟨middle, exchange_eq, free', replaced, entries_eq, members⟩ :=
        exchange_replaced stands n_lt free key value
      rw [← tree_eq] at replaced
      have forest' := forest.update j_lt replaced
      have direct := forest'.direct home_lt free' value
      refine ⟨_, exchange_eq, n_lt, free, direct.forest, fun k v => ?_, fun a a_lt => ?_⟩
      · rw [direct.stores, forest.update_stores home_lt j_lt replaced, entries_eq, ← tree_eq]
        refine or_congr_right ?_
        split
        · rename_i same
          rw [forest.stores_iff home_lt, same]
        · exact Iff.rfl
      · rw [direct.isUsing a a_lt, forest.update_isUsing home_lt j_lt replaced a_lt, members,
          ← tree_eq]
        have used (inside : a ∈ trees j) := ((forest.stands j j_lt).inside a inside).2.1
        by_cases atI : a = home key
        · rw [atI]
          simp only [isUsing, true_or, or_true]
        · tauto

/-! ## `Add` -/

/-- What a call of `Add` does, when it returns. -/
inductive AddSpec (table : HashTable κ β) (home : κ → Nat) (key : κ) (value : β) :
    THHashAddResult → HashTable κ β → Prop
  | overflow (full : table.count = UInt32.ofNat table.dictSize) :
      AddSpec table home key value .harOverflow table
  | dupKey (notFull : table.count ≠ UInt32.ofNat table.dictSize)
      (present : ∃ v, Stores table.dict table.dictSize key v) :
      AddSpec table home key value .harDupKey table
  | ok {n : Nat} {dict' : Dict κ β} {freeBuffer : THSP Nat}
      (notFull : table.count ≠ UInt32.ofNat table.dictSize)
      (absent : ∀ v, ¬ Stores table.dict table.dictSize key v)
      (entered : Entered table.dict table.dictSize home n key value dict')
      (taken : freeBuffer = table.freeBuffer ∨ table.takeFree = some (n, freeBuffer)) :
      AddSpec table home key value .harOK
        { table with dict := dict', freeBuffer, count := table.count + 1 }

/-- `Add` does what it should, unless it gets no free element or the path array is too short. -/
theorem add_spec {table : HashTable κ β} {hash : κ → Nat}
    (forest : Forest table.dict table.dictSize (fun key => table.slot (hash key)) trees)
    (home_lt : ∀ key, table.slot (hash key) < table.dictSize)
    (inside : ∀ q ∈ table.freeBuffer.items, q < table.dictSize) (key : κ) (value : β) :
    (∃ result table', table.add hash key value = some (result, table') ∧
        AddSpec table (fun key => table.slot (hash key)) key value result table') ∨
      table.add hash key value = none ∧
        (table.takeFree = none ∨ pathSize ≤ (trees (table.slot (hash key))).height) := by
  have stands := forest.stands _ (home_lt key)
  rw [add]
  split
  · rename_i full
    exact .inl ⟨_, _, rfl, .overflow full⟩
  rename_i notFull
  dsimp only
  split
  · rename_i free
    have empty := forest.eq_nil (home_lt key) (.inl free)
    exact .inl ⟨_, _, rfl, .ok notFull (forest.not_stores empty)
      (forest.direct home_lt free value) (.inl rfl)⟩
  rename_i used
  have isUsing : (table.dict (table.slot (hash key))).isUsing = true := by simpa using used
  split
  · rename_i parent_eq
    have root_eq := forest.root_eq home_lt (home_lt key) isUsing parent_eq
    rcases forest.search_home home_lt key isUsing parent_eq pathSize with
      ⟨found, search_eq, spec⟩ | ⟨search_eq, long⟩
    · rw [search_eq, Option.bind_some]
      cases found with
      | found a above =>
          obtain ⟨frames, bf, left, right, tree_eq, -, key_eq, -⟩ := spec
          have among : a ∈ trees (table.slot (hash key)) := by
            rw [tree_eq]
            exact mem_plug.mpr (.inl (mem_node.mpr (.inl rfl)))
          have here := stands.inside a among
          refine .inl ⟨_, _, rfl, .dupKey notFull ⟨(table.dict a).value, a, here.1, ?_⟩⟩
          rw [THElement.entry, here.2.1, key_eq]
      | absent side path =>
          obtain ⟨frames, tree_eq, path_eq, side_eq, toward⟩ := spec
          cases frames with
          | nil =>
              rw [tree_eq] at root_eq
              cases root_eq
          | cons frame frames =>
              dsimp only
              cases taken : table.takeFree with
              | none => exact .inr ⟨rfl, .inl rfl⟩
              | some pair =>
                  obtain ⟨n, freeBuffer⟩ := pair
                  obtain ⟨free, -, lt⟩ := takeFree_some inside taken
                  obtain ⟨dict', rebalance_eq, entered⟩ :=
                    forest.attach home_lt tree_eq toward (lt n (.head _)) free value
                  rw [List.map_cons, attached] at rebalance_eq
                  rw [path_eq, side_eq frame rfl]
                  simp only [bind, Option.bind_some, List.map_cons, List.head?_cons, guard]
                  split
                  · simp only [pure, Option.bind_some, rebalance_eq]
                    exact .inl ⟨_, _, rfl, .ok notFull
                      (forest.not_stores_path home_lt tree_eq toward) entered (.inr taken)⟩
                  · rename_i long
                    refine .inr ⟨rfl, .inr ?_⟩
                    have deep := length_add_height_le (frame :: frames) (nil : Tree Nat)
                    rw [← tree_eq, List.length_cons, height] at deep
                    rw [List.length_cons, List.length_map] at long
                    omega
    · exact .inr ⟨by rw [search_eq]; rfl, .inr long⟩
  · rename_i parent_ne
    cases taken : table.takeFree with
    | none => exact .inr ⟨rfl, .inl rfl⟩
    | some pair =>
        obtain ⟨n, freeBuffer⟩ := pair
        obtain ⟨free, -, lt⟩ := takeFree_some inside taken
        obtain ⟨dict', exchange_eq, entered⟩ :=
          forest.exchange home_lt isUsing parent_ne (lt n (.head _)) free value
        simp only [bind, Option.bind_some, exchange_eq]
        have empty := forest.eq_nil (home_lt key) (.inr parent_ne)
        exact .inl ⟨_, _, rfl, .ok notFull (forest.not_stores empty) entered (.inr taken)⟩

end Order

end HashTable
end CommonLib
