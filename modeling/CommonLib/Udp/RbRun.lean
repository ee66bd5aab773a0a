import CommonLib.Library.Tracking
import CommonLib.Udp.RbSet
import Mathlib.Data.Int.ModEq

/-!
# Runs of insertions and removals

The set of devices of the server is a `jsw_rbtree`.  Whatever is inserted and removed, no pointer
leads astray, the tree is balanced, and it stands for a map from keys to data.  Its count also grows
with an insertion that finds its key, and shrinks with a removal that does not.
-/

namespace CommonLib.JswRbtree

open CommonLib.Tree CommonLib.Execution

variable {α κ : Type} [LinearOrder κ] {cmp : α → α → Int} {dup : α → α} {key : α → κ}

inductive Op (α : Type)
  | insert (data : α)
  | erase (data : α)

def step (cmp : α → α → Int) (dup : α → α) (tree : JswRbtree α) : Op α → Option (JswRbtree α)
  | .insert data => tree.insert cmp dup data
  | .erase data => tree.erase cmp data

/-! ## The abstract map -/

/-- What the callers mean by a tree. -/
structure Index (κ α : Type) where
  entry : κ → Option α
  /-- What `dup` was called for. -/
  copied : List α
  released : List α
  /-- By how much the count is larger than the number of elements. -/
  surplus : ℤ

namespace Index

def empty : Index κ α where
  entry := fun _ => none
  copied := []
  released := []
  surplus := 0

open Classical in
/-- The first data with a key stays until it is removed. -/
noncomputable def apply (key : α → κ) (dup : α → α) (index : Index κ α) : Op α → Index κ α
  | .insert data =>
      match index.entry (key data) with
      | some _ => { index with surplus := index.surplus + 1 }
      | none =>
          { index with
            entry := Function.update index.entry (key data) (some (dup data))
            copied := index.copied ++ [dup data] }
  | .erase data =>
      match index.entry (key data) with
      | some found =>
          { index with
            entry := Function.update index.entry (key data) none
            released := index.released ++ [found] }
      | none =>
          if index.entry = fun _ => none then index
          else { index with surplus := index.surplus - 1 }

variable {index : Index κ α} {data found : α}

theorem apply_insert_some (here : index.entry (key data) = some found) :
    index.apply key dup (.insert data) = { index with surplus := index.surplus + 1 } := by
  simp [apply, here]

theorem apply_insert_none (here : index.entry (key data) = none) :
    index.apply key dup (.insert data) =
      { index with
        entry := Function.update index.entry (key data) (some (dup data))
        copied := index.copied ++ [dup data] } := by
  simp [apply, here]

theorem apply_erase_some (here : index.entry (key data) = some found) :
    index.apply key dup (.erase data) =
      { index with
        entry := Function.update index.entry (key data) none
        released := index.released ++ [found] } := by
  simp [apply, here]

open Classical in
theorem apply_erase_none (here : index.entry (key data) = none) :
    index.apply key dup (.erase data) =
      if index.entry = fun _ => none then index
      else { index with surplus := index.surplus - 1 } := by
  simp [apply, here]

end Index

/-! ## Refinement -/

/-- The elements are the entries of the map. -/
structure Lists (key : α → κ) (contents : List α) (entry : κ → Option α) : Prop where
  sorted : contents.Pairwise fun x y => key x < key y
  entry_iff : ∀ k x, entry k = some x ↔ x ∈ contents ∧ key x = k

/-- What a tree has to do with the map that it stands for. -/
structure Represents (key : α → κ) (tree : JswRbtree α) (index : Index κ α) (shape : Tree ℕ)
    (contents : List α) : Prop where
  sound : Sound key tree shape contents
  lists : Lists key contents index.entry
  released : tree.released = index.released
  /-- What was copied is in the tree or was released. -/
  ledger : (tree.released ++ contents).Perm index.copied
  size_lt : tree.size < 2 ^ 64
  size : (tree.size : ℤ) ≡ contents.length + index.surplus [ZMOD 2 ^ 64]

variable {contents contents' out : List α} {entry : κ → Option α} {data : α}

theorem Lists.find_eq (lists : Lists key contents entry) (k : κ) :
    contents.find? (fun x => key x = k) = entry k := by
  cases found : contents.find? fun x => key x = k with
  | none =>
      cases here : entry k with
      | none => rfl
      | some x =>
          obtain ⟨among, same⟩ := (lists.entry_iff k x).mp here
          exact absurd same (by simpa using List.find?_eq_none.mp found x among)
  | some x =>
      have same : key x = k := by simpa using List.find?_some found
      exact ((lists.entry_iff k x).mpr ⟨List.mem_of_find?_eq_some found, same⟩).symm

theorem Lists.entry_none (lists : Lists key contents entry) {k : κ}
    (differ : ∀ x ∈ contents, key x ≠ k) : entry k = none := by
  cases here : entry k with
  | none => rfl
  | some x =>
      obtain ⟨among, same⟩ := (lists.entry_iff k x).mp here
      exact absurd same (differ x among)

theorem Lists.empty_iff (lists : Lists key contents entry) :
    (entry = fun _ => none) ↔ contents = [] := by
  constructor
  · intro empty
    refine List.eq_nil_iff_forall_not_mem.mpr fun x among => ?_
    have here := (lists.entry_iff (key x) x).mpr ⟨among, rfl⟩
    rw [empty] at here
    cases here
  · rintro rfl
    funext k
    exact lists.entry_none fun x among => absurd among List.not_mem_nil

theorem mem_middle {lower upper : List α} {x y : α} :
    y ∈ lower ++ x :: upper ↔ y = x ∨ y ∈ lower ++ upper := by
  simp only [List.mem_append, List.mem_cons]
  exact or_left_comm

theorem Lists.adds (dup_key : ∀ x, key (dup x) = key x) (lists : Lists key contents entry)
    (adds : Adds key dup data contents contents') :
    (∃ found, entry (key data) = some found ∧ contents' = contents) ∨
      entry (key data) = none ∧ contents'.Perm (dup data :: contents) ∧
        Lists key contents' (Function.update entry (key data) (some (dup data))) := by
  have sorted := adds.sorted dup_key lists.sorted
  cases adds with
  | @present _ x inside same => exact .inl ⟨x, (lists.entry_iff _ _).mpr ⟨inside, same⟩, rfl⟩
  | @absent lower upper below above =>
      have differ : ∀ x ∈ lower ++ upper, key x ≠ key data := by
        intro x among
        rcases List.mem_append.mp among with among | among
        · exact (below x among).ne
        · exact (above x among).ne'
      refine .inr ⟨lists.entry_none differ, List.perm_middle, sorted, fun k x => ?_⟩
      by_cases same : k = key data
      · subst same
        rw [Function.update_self, Option.some.injEq]
        constructor
        · rintro rfl
          exact ⟨by simp, dup_key data⟩
        · rintro ⟨among, same⟩
          rcases mem_middle.mp among with rfl | among
          · rfl
          · exact absurd same (differ x among)
      · rw [Function.update_of_ne same, lists.entry_iff, mem_middle]
        constructor
        · exact fun both => ⟨.inr both.1, both.2⟩
        · rintro ⟨rfl | among, key_eq⟩
          · exact absurd (key_eq.symm.trans (dup_key data)) same
          · exact ⟨among, key_eq⟩

theorem Lists.removes (lists : Lists key contents entry)
    (removes : Removes key data contents contents' out) :
    (∃ found, entry (key data) = some found ∧ out = [found] ∧
        contents.Perm (found :: contents') ∧
        Lists key contents' (Function.update entry (key data) none)) ∨
      entry (key data) = none ∧ out = [] ∧ contents' = contents := by
  have sorted := removes.sorted lists.sorted
  cases removes with
  | absent none => exact .inr ⟨lists.entry_none none, rfl, rfl⟩
  | @present lower upper x same =>
      obtain ⟨-, upper_sorted, apart⟩ := List.pairwise_append.mp lists.sorted
      obtain ⟨above, -⟩ := List.pairwise_cons.mp upper_sorted
      have differ : ∀ y ∈ lower ++ upper, key y ≠ key x := by
        intro y among
        rcases List.mem_append.mp among with among | among
        · exact (apart y among x (.head _)).ne
        · exact (above y among).ne'
      refine .inl ⟨x, (lists.entry_iff _ _).mpr ⟨by simp, same⟩, rfl, List.perm_middle, sorted,
        fun k y => ?_⟩
      by_cases same' : k = key data
      · subst same'
        rw [Function.update_self]
        exact iff_of_false (fun h => by cases h) fun both =>
          differ y both.1 (both.2.trans same.symm)
      · rw [Function.update_of_ne same', lists.entry_iff, mem_middle]
        constructor
        · rintro ⟨rfl | among, key_eq⟩
          · exact absurd (key_eq.symm.trans same) same'
          · exact ⟨among, key_eq⟩
        · exact fun both => ⟨.inr both.1, both.2⟩

/-! ## Runs -/

theorem Represents.step (compares : Compares cmp key) (dup_key : ∀ x, key (dup x) = key x)
    {tree : JswRbtree α} {index : Index κ α} {shape : Tree ℕ} {contents : List α}
    (represents : Represents key tree index shape contents) (op : Op α) :
    ∃ tree', step cmp dup tree op = some tree' ∧ tree'.fresh ≤ tree.fresh + 1 ∧
      ∃ shape' contents', Represents key tree' (index.apply key dup op) shape' contents' := by
  obtain ⟨sound, lists, released, ledger, size_lt, size⟩ := represents
  cases op with
  | insert data =>
      obtain ⟨tree', shape', contents', made, sound', adds, size', released', fresh⟩ :=
        sound.insert compares dup_key data
      refine ⟨tree', made, fresh.le, shape', contents', ?_⟩
      have bound : tree'.size < 2 ^ 64 := size' ▸ Nat.mod_lt _ (by norm_num)
      have count : (tree'.size : ℤ) ≡ contents.length + index.surplus + 1 [ZMOD 2 ^ 64] := by
        rw [size']
        push_cast
        exact (Int.mod_modEq _ _).trans (size.add_right 1)
      rcases lists.adds dup_key adds with ⟨found, here, rfl⟩ | ⟨here, perm, lists'⟩
      · rw [Index.apply_insert_some here]
        exact ⟨sound', lists, released'.trans released, released'.symm ▸ ledger, bound,
          by rwa [← add_assoc]⟩
      · rw [Index.apply_insert_none here]
        refine ⟨sound', lists', released'.trans released, ?_, bound, ?_⟩
        · rw [released']
          exact (perm.append_left _).trans (List.perm_middle.trans
            ((ledger.cons _).trans (List.perm_append_singleton _ _).symm))
        rw [perm.length_eq, List.length_cons]
        push_cast
        rwa [add_right_comm]
  | erase data =>
      obtain ⟨tree', shape', contents', out, made, sound', removes, size', released', fresh⟩ :=
        sound.erase compares data
      refine ⟨tree', made, fresh.le.trans (Nat.le_succ _), shape', contents', ?_⟩
      by_cases empty : contents = []
      · subst empty
        rw [if_pos rfl] at size'
        rcases lists.removes removes with ⟨found, -, -, perm, -⟩ | ⟨here, rfl, rfl⟩
        · exact absurd perm (List.not_perm_nil_cons _ _)
        · rw [Index.apply_erase_none here, if_pos (lists.empty_iff.mpr rfl)]
          exact ⟨sound', lists, by rw [released', released, List.append_nil],
            by rw [released', List.append_nil]; exact ledger, size' ▸ size_lt, size' ▸ size⟩
      · rw [if_neg empty] at size'
        have bound : tree'.size < 2 ^ 64 := size' ▸ Nat.mod_lt _ (by norm_num)
        have count : (tree'.size : ℤ) ≡ contents.length + index.surplus - 1 [ZMOD 2 ^ 64] := by
          have wide : tree.size + 2 ^ 64 - 1 = tree.size + (2 ^ 64 - 1) := by omega
          have around : (tree.size : ℤ) + (2 ^ 64 - 1) ≡ tree.size - 1 [ZMOD 2 ^ 64] := by
            rw [Int.modEq_iff_dvd]
            exact ⟨-1, by ring⟩
          rw [size', wide]
          push_cast
          exact (Int.mod_modEq _ _).trans (around.trans (size.sub_right 1))
        rcases lists.removes removes with ⟨found, here, rfl, perm, lists'⟩ | ⟨here, rfl, rfl⟩
        · rw [Index.apply_erase_some here]
          refine ⟨sound', lists', by rw [released', released], ?_, bound, ?_⟩
          · rw [released', List.append_assoc]
            exact (perm.symm.append_left _).trans ledger
          rw [perm.length_eq, List.length_cons] at count
          push_cast at count
          rwa [add_right_comm, add_sub_cancel_right] at count
        · rw [Index.apply_erase_none here, if_neg (mt lists.empty_iff.mp empty)]
          exact ⟨sound', lists, by rw [released', released, List.append_nil],
            by rw [released', List.append_nil]; exact ledger, bound, by rwa [← add_sub_assoc]⟩

theorem foldl_count {ι τ : Type} (advance : τ → ι → τ) (state : τ) (n : ℕ) (ops : List ι) :
    ops.foldl (fun counted op => (advance counted.1 op, counted.2 + 1)) (state, n) =
      (ops.foldl advance state, n + ops.length) := by
  induction ops generalizing state n with
  | nil => rfl
  | cons op ops induction =>
      rw [List.foldl_cons, induction, List.foldl_cons, List.length_cons, Nat.add_right_comm,
        Nat.add_assoc]

/-- The run goes on for ever, and each operation allocates at most one node. -/
theorem exists_represents (compares : Compares cmp key) (dup_key : ∀ x, key (dup x) = key x)
    (ops : List (Op α)) :
    ∃ tree shape contents, run (step cmp dup) new ops = some tree ∧
      Represents key tree (ops.foldl (Index.apply key dup) .empty) shape contents ∧
      contents.length ≤ ops.length := by
  obtain ⟨tree, made, shape, contents, represents, fresh⟩ := @exists_run_related _ _ _
    (step cmp dup) (fun counted op => (Index.apply key dup counted.1 op, counted.2 + 1))
    (fun tree counted => ∃ shape contents, Represents key tree counted.1 shape contents ∧
      tree.fresh ≤ 2 + counted.2)
    (fun op related => by
      obtain ⟨shape, contents, represents, fresh⟩ := related
      obtain ⟨tree', made, fresh', shape', contents', represents'⟩ :=
        represents.step compares dup_key op
      exact ⟨tree', made, shape', contents', represents', by omega⟩)
    new (.empty, 0)
    ⟨.nil, [], ⟨sound_new, ⟨.nil, fun k x => iff_of_false (fun here => by cases here)
      fun both => List.not_mem_nil both.1⟩, rfl, .nil, Nat.two_pow_pos 64, rfl⟩, le_rfl⟩ ops
  rw [foldl_count, Nat.zero_add] at represents fresh
  refine ⟨tree, shape, contents, made, represents, ?_⟩
  have few := represents.sound.length_le
  rw [represents.sound.length_contents] at few
  omega

/-! ## The devices of the server -/

/-- `DEV`, of which the comparison reads `remote_ip`. -/
structure Dev where
  remote_ip : UInt32
  sn : UInt32
  deriving DecidableEq

def centroidCmp (centroid1 centroid2 : Dev) : Int :=
  if centroid1.remote_ip > centroid2.remote_ip then 1
  else if centroid1.remote_ip < centroid2.remote_ip then -1
  else 0

/-- `centroid_dup` copies the device. -/
def centroidDup (p : Dev) : Dev := p

theorem compares_centroidCmp : Compares centroidCmp fun device => device.remote_ip.toNat where
  lt_iff := by
    intro x y
    simp only [centroidCmp, gt_iff_lt, UInt32.lt_iff_toNat_lt]
    split <;> [skip; split] <;> omega
  eq_iff := by
    intro x y
    simp only [centroidCmp, gt_iff_lt, UInt32.lt_iff_toNat_lt]
    split <;> [skip; split] <;> omega

/-! ## Every run -/

end CommonLib.JswRbtree
