import CommonLib.Hlib.Cache
import CommonLib.Library.DoubleChain

/-!
# The stack cache of `hcache.cpp`

`THSCache` keeps its blocks on two lists which share the field `next`: the free stack and the used
list, which is doubly linked and grows at its front.  `Loop` hands every used block to a callback,
which may release it.
-/

namespace CommonLib

open Execution

/-- The cache: `fb` heads the free stack, `ub` the used list. -/
structure THSCache (α : Type*) where
  size : Nat
  /-- Free element counter. -/
  fc : Int
  buf : Nat → THCacheBlock α
  fb : Option Nat
  ub : Option Nat

namespace THSCache

variable {α : Type*}

open THQCache (linkFree linkFree_spec setNext setPrev setPrev_apply)

/-! ## Operations -/

/-- `THSCache::THSCache`; its loop is the one of `THQCache::THQCache`. -/
def new (size : Nat) (memory : Nat → THCacheBlock α) : THSCache α :=
  let (buf, fb) := linkFree memory size
  { size, fc := size, buf, fb, ub := none }

/-- `THSCache::Add`. -/
def add (cache : THSCache α) (data : Option α) : Bool × THSCache α :=
  match cache.fb with
  | none => (false, cache)
  | some block =>
      let x := (cache.buf block).next
      let buf := Function.update cache.buf block
        { prev := none, next := cache.ub, data, used := true }
      (true,
        { cache with
          buf := setPrev buf cache.ub (some block)
          ub := some block
          fb := x
          fc := cache.fc - 1 })

/-- `THSCache::Release`. -/
def release (cache : THSCache α) (block : Nat) : THSCache α :=
  let before := (cache.buf block).prev
  let buf := setNext cache.buf before (cache.buf block).next
  let after := (buf block).next
  let buf := setPrev buf after (buf block).prev
  { cache with
    ub := if before = none then (cache.buf block).next else cache.ub
    buf := Function.update buf block
      { buf block with used := false, data := none, next := cache.fb }
    fb := some block
    fc := cache.fc + 1 }

/-- The block lies in the array and is marked used. -/
def Used (cache : THSCache α) (block : Nat) : Prop :=
  block < cache.size ∧ (cache.buf block).used = true

instance (cache : THSCache α) (block : Nat) : Decidable (cache.Used block) :=
  inferInstanceAs (Decidable (_ ∧ _))

/-- The used blocks, in the order of the array. -/
def usedBlocks (cache : THSCache α) : List Nat :=
  (List.range cache.size).filter fun block => cache.Used block

abbrev nexts (cache : THSCache α) (block : Nat) : Option Nat := (cache.buf block).next

abbrev prevs (cache : THSCache α) (block : Nat) : Option Nat := (cache.buf block).prev

/-! ## Calls -/

/-- A running `Loop`, whose callback has been given the block `p`. -/
structure Traversal where
  p : Nat
  /-- `p->next` as it was before the call. -/
  n : Option Nat
  i : Int
  /-- The blocks that were used when the loop started. -/
  started : List Nat
  /-- The blocks given to the callback. -/
  called : List Nat

/-- A cache, the `Loop` that runs on it, and the calls of the callback by the loops that returned,
each with the blocks that were used at its start. -/
structure Calls (α : Type*) where
  cache : THSCache α
  loop : Option Traversal
  returned : List (List Nat × List Nat)

namespace Calls

def start (size : Nat) (memory : Nat → THCacheBlock α) : Calls α where
  cache := new size memory
  loop := none
  returned := []

inductive Event (α : Type*)
  | add (data : Option α)
  | release (block : Nat)
  | loop
  /-- The callback returns a result or throws. -/
  | callbackReturns (result : Option Int)

/-- The caller releases used blocks, the callback of a running loop the one it was given. -/
def MayRelease (calls : Calls α) (block : Nat) : Prop :=
  calls.cache.Used block ∧
    match calls.loop with
    | none => True
    | some traversal => block = traversal.p

instance (calls : Calls α) (block : Nat) : Decidable (calls.MayRelease block) := by
  unfold MayRelease
  cases calls.loop <;> infer_instance

/-- The next round of the `while` loop, on the block `p`. -/
def round (calls : Calls α) (i : Int) (started called : List Nat) (p : Option Nat) : Calls α :=
  match p with
  | none => { calls with loop := none, returned := calls.returned ++ [(started, called)] }
  | some p =>
      { calls with loop := some { p, n := calls.cache.nexts p, i, started, called := called ++ [p] } }

def step (calls : Calls α) : Event α → Option (Calls α)
  | .add data => some { calls with cache := (calls.cache.add data).2 }
  | .release block =>
      if calls.MayRelease block then some { calls with cache := calls.cache.release block }
      else none
  | .loop =>
      match calls.loop with
      | none => some (calls.round 0 calls.cache.usedBlocks [] calls.cache.ub)
      | some _ => none
  | .callbackReturns result =>
      match calls.loop with
      | none => none
      | some traversal =>
          some (calls.round (traversal.i + result.getD 0) traversal.started traversal.called
            traversal.n)

end Calls

/-! ## The two lists -/

/-- The blocks of the free stack and of the used list are all blocks, each once. -/
structure Lists (cache : THSCache α) (free used : List Nat) : Prop where
  stack : Chain cache.nexts cache.fb free none
  row : DoubleChain cache.nexts cache.prevs none used none
  head : cache.ub = used.head?
  all : (free ++ used).Perm (List.range cache.size)
  count : cache.fc = free.length
  marked : ∀ block < cache.size, (cache.buf block).used = true ↔ block ∈ used

/-- The blocks are partitioned, and neighbours on the used list point at each other. -/
def Partitioned (cache : THSCache α) : Prop := ∃ free used, cache.Lists free used

/-- Every loop calls its callback on the blocks that were used at its start: once for each when it
has returned, at most once before. -/
structure Calls.Sound (calls : Calls α) : Prop where
  partitioned : calls.cache.Partitioned
  returned : ∀ result ∈ calls.returned, result.1.Nodup ∧ result.2.Perm result.1
  running : ∀ traversal, calls.loop = some traversal →
    traversal.started.Nodup ∧ traversal.called.Subperm traversal.started

section Fields

variable {cache : THSCache α} {block : Nat}

theorem add_of_full (full : cache.fb = none) (data : Option α) :
    cache.add data = (false, cache) := by
  simp [add, full]

theorem add_of_free (free : cache.fb = some block) (data : Option α) :
    cache.add data = (true,
      { cache with
        buf := setPrev (Function.update cache.buf block
          { prev := none, next := cache.ub, data, used := true }) cache.ub (some block)
        ub := some block
        fb := cache.nexts block
        fc := cache.fc - 1 }) := by
  simp [add, free]

theorem add_buf (free : cache.fb = some block) (apart : cache.ub ≠ some block) (data : Option α)
    (other : Nat) :
    (cache.add data).2.buf other =
      if other = block then { prev := none, next := cache.ub, data, used := true }
      else if cache.ub = some other then { cache.buf other with prev := some block }
      else cache.buf other := by
  simp only [add_of_free free, setPrev_apply]
  rcases eq_or_ne other block with rfl | different
  · simp [apart]
  · simp [different]

/-- `Release` treats the blocks as `THQCache::Release` does. -/
theorem release_buf (cache : THSCache α) (block other : Nat) :
    (cache.release block).buf other =
      if other = block then
        { cache.buf block with used := false, data := none, next := cache.fb }
      else
        { cache.buf other with
          next := if cache.prevs block = some other then cache.nexts block
            else cache.nexts other
          prev := if cache.nexts block = some other then cache.prevs block
            else cache.prevs other } :=
  THQCache.release_buf
    { size := cache.size, fc := cache.fc, buf := cache.buf, fb := cache.fb, uh := none, uf := none }
    block other

end Fields

namespace Lists

variable {cache : THSCache α} {free used : List Nat} {block : Nat}

theorem nodup (lists : cache.Lists free used) : (free ++ used).Nodup :=
  lists.all.nodup_iff.mpr List.nodup_range

theorem lt_size (lists : cache.Lists free used) (member : block ∈ free ∨ block ∈ used) :
    block < cache.size :=
  List.mem_range.mp (lists.all.mem_iff.mp (List.mem_append.mpr member))

theorem used_iff (lists : cache.Lists free used) : cache.Used block ↔ block ∈ used :=
  ⟨fun marked => (lists.marked block marked.1).mp marked.2,
    fun member => have inside := lists.lt_size (.inr member)
      ⟨inside, (lists.marked block inside).mpr member⟩⟩

theorem usedBlocks_perm (lists : cache.Lists free used) : used.Perm cache.usedBlocks := by
  apply (List.perm_ext_iff_of_nodup (List.nodup_append.mp lists.nodup).2.1
    (List.nodup_range.filter _)).mpr
  intro block
  rw [List.mem_filter, decide_eq_true_iff, lists.used_iff, List.mem_range]
  exact ⟨fun member => ⟨lists.lt_size (.inr member), member⟩, And.right⟩

theorem new (size : Nat) (memory : Nat → THCacheBlock α) :
    (THSCache.new size memory).Lists (List.range size).reverse [] := by
  obtain ⟨chain, unused⟩ := linkFree_spec memory size
  exact {
    stack := chain
    row := trivial
    head := rfl
    all := by
      rw [List.append_nil]
      exact List.reverse_perm _
    count := by simp [THSCache.new]
    marked := fun block inside => by simp [THSCache.new, unused block inside] }

/-- `Add` moves the top of the free stack to the front of the used list. -/
theorem add (lists : cache.Lists (block :: free) used) (data : Option α) :
    (cache.add data).2.Lists free (block :: used) := by
  have top : cache.fb = some block := lists.stack.1
  have notMem : block ∉ free ∧ block ∉ used := by
    simpa using (List.nodup_cons.mp lists.nodup).1
  have apart : cache.ub ≠ some block := by
    rw [lists.head]
    exact fun head => notMem.2 (List.mem_of_mem_head? head)
  have buf_eq := add_buf top apart data
  have size_eq : (cache.add data).2.size = cache.size := by rw [add_of_free top]
  have ne_of_mem {other : Nat} (member : other ∈ free ∨ other ∈ used) : other ≠ block := by
    rintro rfl
    exact member.elim notMem.1 notMem.2
  have next_eq {other : Nat} (member : other ∈ free ∨ other ∈ used) :
      (cache.add data).2.nexts other = cache.nexts other := by
    rw [nexts, buf_eq, if_neg (ne_of_mem member)]
    split <;> rfl
  have prev_eq {other : Nat} (member : other ∈ used) :
      (cache.add data).2.prevs other =
        if cache.ub = some other then some block else cache.prevs other := by
    rw [prevs, buf_eq, if_neg (ne_of_mem (.inr member))]
    split <;> rfl
  have stack : Chain (cache.add data).2.nexts (cache.nexts block) free none :=
    lists.stack.2.congr fun other member => next_eq (.inl member)
  have row : DoubleChain (cache.add data).2.nexts (cache.add data).2.prevs none (block :: used)
      none := by
    have whole : DoubleChain cache.nexts cache.prevs none ([] ++ used) none := lists.row
    apply whole.insert (List.nodup_append.mp lists.nodup).2.1
    · rw [nexts, buf_eq, if_pos rfl, lists.head, Option.or_none]
    · rw [prevs, buf_eq, if_pos rfl]
      rfl
    · exact fun last none => nomatch none
    · intro first head
      rw [prev_eq (List.mem_of_mem_head? head), if_pos (lists.head.trans head)]
    · exact fun other member _ => next_eq (.inr member)
    · intro other member notHead
      rw [prev_eq member, if_neg fun head => notHead (lists.head.symm.trans head)]
  exact {
    stack := by
      rw [add_of_free top] at stack ⊢
      exact stack
    row
    head := by
      rw [add_of_free top]
      rfl
    all := by
      rw [size_eq]
      exact List.perm_middle.trans lists.all
    count := by
      have count := lists.count
      rw [add_of_free top]
      simp only [List.length_cons] at count ⊢
      omega
    marked := fun other inside => by
      rw [size_eq] at inside
      rw [buf_eq, List.mem_cons]
      split
      · next same => simp [same]
      · next different =>
          rw [or_iff_right different, ← lists.marked other inside]
          split <;> rfl }

/-- `Release` moves a used block to the top of the free stack. -/
theorem release {front back : List Nat} (lists : cache.Lists free (front ++ block :: back)) :
    (cache.release block).Lists (block :: free) (front ++ back) := by
  have buf_eq := release_buf cache block
  have before : cache.prevs block = front.getLast? := by
    rw [lists.row.prev_eq, Option.or_none]
  have after : cache.nexts block = back.head? := by
    rw [lists.row.next_eq, Option.or_none]
  have all : (block :: (free ++ (front ++ back))).Nodup := by
    have nodup := lists.nodup
    rw [← List.append_assoc] at nodup ⊢
    exact List.nodup_middle.mp nodup
  obtain ⟨notMem, rest⟩ := List.nodup_cons.mp all
  obtain ⟨-, nodupUsed, apart⟩ := List.nodup_append.mp rest
  have ne_of_mem {other : Nat} (member : other ∈ free ++ (front ++ back)) : other ≠ block := by
    rintro rfl
    exact notMem member
  have next_eq {other : Nat} (member : other ∈ free ++ (front ++ back)) :
      (cache.release block).nexts other =
        if front.getLast? = some other then back.head? else cache.nexts other := by
    rw [nexts, buf_eq, if_neg (ne_of_mem member), before, after]
  have prev_eq {other : Nat} (member : other ∈ free ++ (front ++ back)) :
      (cache.release block).prevs other =
        if back.head? = some other then front.getLast? else cache.prevs other := by
    rw [prevs, buf_eq, if_neg (ne_of_mem member), before, after]
  have inUsed {other : Nat} (member : other ∈ front ++ back) : other ∈ free ++ (front ++ back) :=
    List.mem_append_right _ member
  exact {
    stack := by
      refine ⟨rfl, ?_⟩
      have top : (cache.release block).nexts block = cache.fb := by rw [nexts, buf_eq, if_pos rfl]
      rw [top]
      apply lists.stack.congr
      intro other member
      rw [next_eq (List.mem_append_left _ member), if_neg]
      intro last
      exact apart other member other (List.mem_append_left _ (List.mem_of_getLast? last)) rfl
    row := by
      apply lists.row.remove nodupUsed
      · intro last isLast
        rw [next_eq (inUsed (List.mem_append_left _ (List.mem_of_getLast? isLast))),
          if_pos isLast, Option.or_none]
      · intro first isFirst
        rw [prev_eq (inUsed (List.mem_append_right _ (List.mem_of_mem_head? isFirst))),
          if_pos isFirst, Option.or_none]
      · exact fun other member notLast => by rw [next_eq (inUsed member), if_neg notLast]
      · exact fun other member notFirst => by rw [prev_eq (inUsed member), if_neg notFirst]
    head := by
      change (if cache.prevs block = none then cache.nexts block else cache.ub) = _
      rw [before, after, lists.head]
      cases front <;> simp
    all := by
      have all := lists.all
      rw [← List.append_assoc] at all
      rw [List.cons_append, ← List.append_assoc]
      exact List.perm_middle.symm.trans all
    count := by
      have count := lists.count
      change cache.fc + 1 = _
      rw [count, List.length_cons]
      rfl
    marked := fun other inside => by
      have marked := lists.marked other inside
      rw [List.mem_append, List.mem_cons] at marked
      rw [buf_eq, List.mem_append]
      split
      · next same =>
          rw [List.mem_append, List.mem_append, not_or, not_or] at notMem
          simp [same, notMem.2.1, notMem.2.2]
      · next different =>
          rw [or_iff_right different] at marked
          exact marked }

end Lists

/-! ## Runs -/

namespace Calls

variable {calls next : Calls α}

/-- What a running loop has still to hand out: the last used blocks, which the one in the hands of
the callback is not among. -/
def Pending (used : List Nat) (traversal : Traversal) : Prop :=
  ∃ front rest, used = front ++ rest ∧ traversal.n = rest.head? ∧ traversal.p ∉ rest ∧
    traversal.started.Nodup ∧ (traversal.called ++ rest).Perm traversal.started

structure Inv (calls : Calls α) : Prop where
  lists : ∃ free used, calls.cache.Lists free used ∧
    ∀ traversal, calls.loop = some traversal → Pending used traversal
  returned : ∀ result ∈ calls.returned, result.1.Nodup ∧ result.2.Perm result.1

namespace Inv

theorem sound (inv : calls.Inv) : calls.Sound := by
  obtain ⟨free, used, lists, pending⟩ := inv.lists
  refine ⟨⟨free, used, lists⟩, inv.returned, fun traversal running => ?_⟩
  obtain ⟨front, rest, -, -, -, nodup, all⟩ := pending traversal running
  exact ⟨nodup, (List.sublist_append_left _ rest).subperm.trans all.subperm⟩

theorem add (inv : calls.Inv) (data : Option α) :
    Inv { calls with cache := (calls.cache.add data).2 } := by
  obtain ⟨free, used, lists, pending⟩ := inv.lists
  cases free with
  | nil =>
      rw [add_of_full lists.stack]
      exact inv
  | cons block free =>
      refine ⟨⟨free, block :: used, lists.add data, fun traversal running => ?_⟩, inv.returned⟩
      obtain ⟨front, rest, rfl, remaining⟩ := pending traversal running
      exact ⟨block :: front, rest, rfl, remaining⟩

theorem release (inv : calls.Inv) {block : Nat} (may : calls.MayRelease block) :
    Inv { calls with cache := calls.cache.release block } := by
  obtain ⟨free, used, lists, pending⟩ := inv.lists
  obtain ⟨marked, given⟩ := may
  have member : block ∈ used := lists.used_iff.mp marked
  cases running : calls.loop with
  | none =>
      obtain ⟨front, back, rfl⟩ := List.append_of_mem member
      exact ⟨⟨block :: free, front ++ back, lists.release, fun _ none => nomatch none⟩,
        inv.returned⟩
  | some traversal =>
      rw [running] at given
      change block = traversal.p at given
      obtain ⟨front, rest, rfl, next, apart, remaining⟩ := pending traversal running
      rw [← given] at apart
      have inFront : block ∈ front := (List.mem_append.mp member).resolve_right apart
      obtain ⟨first, second, rfl⟩ := List.append_of_mem inFront
      rw [List.append_assoc, List.cons_append] at lists
      refine ⟨⟨block :: free, first ++ (second ++ rest), lists.release, fun other same => ?_⟩,
        inv.returned⟩
      obtain rfl := Option.some.inj same
      exact ⟨first ++ second, rest, (List.append_assoc ..).symm, next, given ▸ apart, remaining⟩

/-- One round of the loop, with the blocks `rest` still to be handed out. -/
theorem round (inv : calls.Inv) {free front rest started called : List Nat} (i : Int)
    (lists : calls.cache.Lists free (front ++ rest)) (nodup : started.Nodup)
    (all : (called ++ rest).Perm started) :
    (calls.round i started called rest.head?).Inv := by
  cases rest with
  | nil =>
      rw [List.append_nil] at all
      refine ⟨⟨free, _, lists, fun _ none => nomatch none⟩, fun result member => ?_⟩
      rcases List.mem_append.mp member with before | now
      · exact inv.returned result before
      · rw [List.mem_singleton.mp now]
        exact ⟨nodup, all⟩
  | cons p rest =>
      refine ⟨⟨free, _, lists, fun traversal same => ?_⟩, inv.returned⟩
      obtain rfl := Option.some.inj same
      refine ⟨front ++ [p], rest, by simp, ?_, ?_, nodup, by simpa using all⟩
      · exact (lists.row.next_eq).trans (Option.or_none)
      · have used := (List.nodup_append.mp lists.nodup).2.1
        exact (List.nodup_cons.mp (List.nodup_append.mp used).2.1).1

theorem step {event : Event α} (inv : calls.Inv) (made : calls.step event = some next) :
    next.Inv := by
  cases event with
  | add data =>
      obtain rfl := Option.some.inj made
      exact inv.add data
  | release block =>
      obtain ⟨may, result⟩ := Option.ite_none_right_eq_some.mp made
      obtain rfl := Option.some.inj result
      exact inv.release may
  | loop =>
      simp only [Calls.step] at made
      split at made
      · obtain rfl := Option.some.inj made
        obtain ⟨free, used, lists, -⟩ := inv.lists
        rw [lists.head]
        apply inv.round 0 (show calls.cache.Lists free ([] ++ used) from lists)
        · exact List.nodup_range.filter _
        · exact lists.usedBlocks_perm
      · cases made
  | callbackReturns result =>
      simp only [Calls.step] at made
      split at made
      · cases made
      · next traversal running =>
          obtain rfl := Option.some.inj made
          obtain ⟨free, used, lists, pending⟩ := inv.lists
          obtain ⟨front, rest, rfl, remaining, -, nodup, all⟩ := pending traversal running
          rw [remaining]
          exact inv.round _ lists nodup all

end Inv

theorem start_inv (size : Nat) (memory : Nat → THCacheBlock α) : (start size memory).Inv where
  lists := ⟨_, _, Lists.new size memory, fun _ none => nomatch none⟩
  returned _ member := nomatch member

/-- The two lists partition the blocks and every loop calls its callback once for each block that
was used at its start, though the callback may release the block it is given and add new ones. -/
theorem scache_partitioned_and_loops_once (size : Nat) (memory : Nat → THCacheBlock α)
    (events : List (Event α)) : AllStates step Sound (start size memory) events := by
  apply allStates_of_invariant Inv
  · exact Inv.sound
  · exact Inv.step
  · exact start_inv size memory

end Calls
end THSCache
end CommonLib
