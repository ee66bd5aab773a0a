import CommonLib.Library.Chain
import CommonLib.Library.Execution
import Mathlib.Data.List.Nodup
import Mathlib.Data.List.Perm.Subperm

/-!
# The queue cache of `hcache.cpp`

`THQCache` keeps a fixed array of blocks.  Free blocks form a stack through `next`; used blocks form
a doubly linked queue between `uh` and `uf`.  A block pointer is the index of the block in `buf`,
and `malloc` leaves the array with arbitrary contents.
-/

namespace CommonLib

open Execution

/-- One cache block; pointers are block indices and `NULL` is `none`. -/
structure THCacheBlock (α : Type*) where
  prev : Option Nat
  next : Option Nat
  data : Option α
  used : Bool

/-- The queue cache: `fb` heads the free stack, `uh` and `uf` are the queue's head and foot. -/
structure THQCache (α : Type*) where
  size : Nat
  /-- Free element counter. -/
  fc : Int
  buf : Nat → THCacheBlock α
  fb : Option Nat
  uh : Option Nat
  uf : Option Nat

namespace THQCache

variable {α σ : Type*}

/-! ## Operations -/

/-- The constructor's loop after `count` rounds: it pushes blocks `0, …, count - 1`. -/
def linkFree (memory : Nat → THCacheBlock α) : Nat → (Nat → THCacheBlock α) × Option Nat
  | 0 => (memory, none)
  | count + 1 =>
      let (buf, fb) := linkFree memory count
      (Function.update buf count { buf count with next := fb, used := false }, some count)

/-- `THQCache::THQCache`, on the contents `memory` of the allocated array. -/
def new (size : Nat) (memory : Nat → THCacheBlock α) : THQCache α :=
  let (buf, fb) := linkFree memory size
  { size, fc := size, buf, fb, uh := none, uf := none }

/-- Assign `next` of the block behind a pointer, if there is one. -/
def setNext (buf : Nat → THCacheBlock α) (pointer next : Option Nat) : Nat → THCacheBlock α :=
  match pointer with
  | none => buf
  | some block => Function.update buf block { buf block with next }

/-- Assign `prev` of the block behind a pointer, if there is one. -/
def setPrev (buf : Nat → THCacheBlock α) (pointer prev : Option Nat) : Nat → THCacheBlock α :=
  match pointer with
  | none => buf
  | some block => Function.update buf block { buf block with prev }

/-- `THQCache::Add`. -/
def add (cache : THQCache α) (data : Option α) : Bool × THQCache α :=
  match cache.fb with
  | none => (false, cache)
  | some block =>
      let x := (cache.buf block).next
      let buf := Function.update cache.buf block
        { prev := cache.uf, next := none, data, used := true }
      (true,
        { cache with
          buf := setNext buf cache.uf (some block)
          uf := some block
          uh := some (cache.uh.getD block)
          fb := x
          fc := cache.fc - 1 })

/-- `THQCache::Release`. -/
def release (cache : THQCache α) (block : Nat) : THQCache α :=
  let before := (cache.buf block).prev
  let buf := setNext cache.buf before (cache.buf block).next
  let after := (buf block).next
  let buf := setPrev buf after (buf block).prev
  { cache with
    uh := if before = none then (cache.buf block).next else cache.uh
    -- without a successor the foot becomes `NULL`, also when `block->prev` is a queued block
    uf := if after = none then none else cache.uf
    buf := Function.update buf block
      { buf block with used := false, data := none, next := cache.fb }
    fb := some block
    fc := cache.fc + 1 }

/-- The loop of `THQCache::Loop` from block `p`: `next` is read before `notify` runs.  The cache is
the part `view` of the state which the callback changes; `fuel` bounds the number of rounds. -/
def loopFrom (view : σ → THQCache α) (notify : σ → Nat → Option (σ × Int)) :
    Nat → σ → Option Nat → Option (σ × Int)
  | _, state, none => some (state, 0)
  | 0, _, some _ => none
  | fuel + 1, state, some p =>
      let n := ((view state).buf p).next
      match notify state p with
      | none => none
      | some (state, i) =>
          (loopFrom view notify fuel state n).map fun (final, total) => (final, i + total)

/-- `THQCache::Loop`. -/
def loop (view : σ → THQCache α) (notify : σ → Nat → Option (σ × Int)) (fuel : Nat) (state : σ) :
    Option (σ × Int) :=
  loopFrom view notify fuel state (view state).uh

/-- A callback which only records the blocks it is given, each with its data. -/
def record (cache : THQCache α) (seen : List (Nat × Option α)) (p : Nat) :
    Option (List (Nat × Option α) × Int) :=
  some (seen ++ [(p, (cache.buf p).data)], 0)

/-- The blocks which a `Loop` with a passive callback visits, each with its data. -/
def visits (cache : THQCache α) (fuel : Nat) : Option (List (Nat × Option α)) :=
  (loop (fun _ => cache) cache.record fuel []).map Prod.fst

/-- `block->data = data`. -/
def setData (cache : THQCache α) (block : Nat) (data : Option α) : THQCache α :=
  { cache with buf := Function.update cache.buf block { cache.buf block with data } }

/-! ## Field lemmas -/

/-- The block lies in the array and is marked used. -/
def Used (cache : THQCache α) (block : Nat) : Prop :=
  block < cache.size ∧ (cache.buf block).used = true

instance (cache : THQCache α) (block : Nat) : Decidable (cache.Used block) :=
  inferInstanceAs (Decidable (_ ∧ _))

/-- The `next` fields of the array. -/
abbrev nexts (cache : THQCache α) (block : Nat) : Option Nat := (cache.buf block).next

/-- The `prev` fields of the array. -/
abbrev prevs (cache : THQCache α) (block : Nat) : Option Nat := (cache.buf block).prev

theorem setNext_apply (buf : Nat → THCacheBlock α) (pointer next : Option Nat) (block : Nat) :
    setNext buf pointer next block =
      if pointer = some block then { buf block with next } else buf block := by
  cases pointer with
  | none => rfl
  | some other =>
      by_cases same : other = block
      · subst same
        simp [setNext]
      · simp [setNext, same, Function.update_of_ne (Ne.symm same)]

theorem setPrev_apply (buf : Nat → THCacheBlock α) (pointer prev : Option Nat) (block : Nat) :
    setPrev buf pointer prev block =
      if pointer = some block then { buf block with prev } else buf block := by
  cases pointer with
  | none => rfl
  | some other =>
      by_cases same : other = block
      · subst same
        simp [setPrev]
      · simp [setPrev, same, Function.update_of_ne (Ne.symm same)]

theorem add_of_full {cache : THQCache α} (full : cache.fb = none) (data : Option α) :
    cache.add data = (false, cache) := by
  simp [add, full]

/-- `Add` with a free block at hand takes it from the free stack. -/
theorem add_of_free {cache : THQCache α} {block : Nat} (free : cache.fb = some block)
    (data : Option α) :
    cache.add data = (true,
      { cache with
        buf := setNext (Function.update cache.buf block
          { prev := cache.uf, next := none, data, used := true }) cache.uf (some block)
        uf := some block
        uh := some (cache.uh.getD block)
        fb := cache.nexts block
        fc := cache.fc - 1 }) := by
  simp [add, free]

theorem add_buf {cache : THQCache α} {block : Nat} (free : cache.fb = some block)
    (apart : cache.uf ≠ some block) (data : Option α) (other : Nat) :
    (cache.add data).2.buf other =
      if other = block then { prev := cache.uf, next := none, data, used := true }
      else if cache.uf = some other then { cache.buf other with next := some block }
      else cache.buf other := by
  simp only [add_of_free free, setNext_apply]
  by_cases same : other = block
  · subst same
    simp [apart]
  · simp [same]

@[simp] theorem release_size (cache : THQCache α) (block : Nat) :
    (cache.release block).size = cache.size := rfl

@[simp] theorem release_fc (cache : THQCache α) (block : Nat) :
    (cache.release block).fc = cache.fc + 1 := rfl

theorem release_uh (cache : THQCache α) (block : Nat) :
    (cache.release block).uh =
      if cache.prevs block = none then cache.nexts block else cache.uh := rfl

theorem release_uf (cache : THQCache α) (block : Nat) :
    (cache.release block).uf = if cache.nexts block = none then none else cache.uf := by
  simp only [release, setNext_apply]
  split <;> rfl

/-- What `Release` leaves in every block. -/
theorem release_buf (cache : THQCache α) (block other : Nat) :
    (cache.release block).buf other =
      if other = block then
        { cache.buf block with used := false, data := none, next := cache.fb }
      else
        { cache.buf other with
          next := if cache.prevs block = some other then cache.nexts block
            else cache.nexts other
          prev := if cache.nexts block = some other then cache.prevs block
            else cache.prevs other } := by
  have next_self : (setNext cache.buf (cache.prevs block) (cache.nexts block) block) =
      cache.buf block := by
    rw [setNext_apply]
    split <;> rfl
  simp only [release]
  rw [next_self]
  by_cases same : other = block
  · subst same
    rw [Function.update_self, if_pos rfl, setPrev_apply, next_self]
    split <;> rfl
  · rw [Function.update_of_ne same, if_neg same, setPrev_apply, setNext_apply]
    split <;> split <;> simp_all

/-! ## The link invariant -/

/-- The free stack lists exactly the unused blocks, and `fc` counts them. -/
def FreeStack (cache : THQCache α) (stack : List Nat) : Prop :=
  Chain cache.nexts cache.fb stack none ∧ stack.Nodup ∧
    (∀ block, block ∈ stack ↔ block < cache.size ∧ (cache.buf block).used = false) ∧
    cache.fc = stack.length

/-- What holds after any sequence of `Add` and `Release` of used blocks, also when the foot was
lost: neighbouring used blocks point at each other, and head and foot are used blocks without a
neighbour on that side. -/
structure Linked (cache : THQCache α) : Prop where
  free : ∃ stack, cache.FreeStack stack
  next_used : ∀ {x y}, cache.Used x → cache.nexts x = some y →
    cache.Used y ∧ cache.prevs y = some x
  prev_used : ∀ {x y}, cache.Used x → cache.prevs x = some y →
    cache.Used y ∧ cache.nexts y = some x
  head_used : ∀ {x}, cache.uh = some x → cache.Used x ∧ cache.prevs x = none
  foot_used : ∀ {x}, cache.uf = some x → cache.Used x ∧ cache.nexts x = none
  foot_none : cache.uh = none → cache.uf = none

theorem Used.lt {cache : THQCache α} {block : Nat} (used : cache.Used block) :
    block < cache.size := used.1

theorem not_used_of_free {cache : THQCache α} {stack : List Nat} {block : Nat}
    (free : cache.FreeStack stack) (member : block ∈ stack) : ¬ cache.Used block := by
  intro used
  have := ((free.2.2.1 block).mp member).2
  simp [used.2] at this

theorem linkFree_spec (memory : Nat → THCacheBlock α) (count : Nat) :
    Chain (fun block => ((linkFree memory count).1 block).next) (linkFree memory count).2
        (List.range count).reverse none ∧
      ∀ block, block < count → ((linkFree memory count).1 block).used = false := by
  induction count with
  | zero => exact ⟨rfl, by simp⟩
  | succ count induction =>
      obtain ⟨chain, unused⟩ := induction
      constructor
      · rw [List.range_succ, List.reverse_append]
        refine ⟨rfl, ?_⟩
        simp only [linkFree, Function.update_self]
        refine chain.congr fun block member => ?_
        have : block ≠ count := by
          rintro rfl
          simp at member
        simp [Function.update_of_ne this]
      · intro block block_lt
        by_cases same : block = count
        · subst same
          simp [linkFree]
        · simpa [linkFree, Function.update_of_ne same] using unused block (by omega)

theorem new_not_used (size : Nat) (memory : Nat → THCacheBlock α) (block : Nat) :
    ¬ (new size memory).Used block := by
  rintro ⟨inside, used⟩
  have unused := (linkFree_spec memory size).2 block inside
  simp only [new] at used
  simp [used] at unused

theorem new_linked (size : Nat) (memory : Nat → THCacheBlock α) : (new size memory).Linked := by
  obtain ⟨chain, unused⟩ := linkFree_spec memory size
  have none_used : ∀ block, ¬ (new size memory).Used block := by
    rintro block ⟨block_lt, used⟩
    simp [new, unused block block_lt] at used
  refine ⟨⟨(List.range size).reverse, chain, ?_, ?_, ?_⟩, ?_, ?_, ?_, ?_, fun _ => rfl⟩
  · exact List.nodup_reverse.mpr List.nodup_range
  · intro block
    simp only [List.mem_reverse, List.mem_range, new]
    exact ⟨fun block_lt => ⟨block_lt, unused block block_lt⟩, And.left⟩
  · simp [new]
  · exact fun used => absurd used (none_used _)
  · exact fun used => absurd used (none_used _)
  · intro x head
    simp [new] at head
  · intro x foot
    simp [new] at foot

section Add

variable {cache : THQCache α} {block : Nat}

theorem Linked.fb_unused (linked : cache.Linked) (free : cache.fb = some block) :
    block < cache.size ∧ (cache.buf block).used = false := by
  obtain ⟨stack, chain, _, unused, _⟩ := linked.free
  cases stack with
  | nil => simp [free] at chain
  | cons first stack =>
      obtain ⟨same, _⟩ := chain
      obtain rfl := Option.some.inj (free.symm.trans same)
      exact (unused block).mp (by simp)

theorem Linked.foot_ne_fb (linked : cache.Linked) (free : cache.fb = some block) :
    cache.uf ≠ some block := by
  intro foot
  have := (linked.foot_used foot).1.2
  simp [(linked.fb_unused free).2] at this

theorem Linked.add_used (linked : cache.Linked) (free : cache.fb = some block)
    (data : Option α) (other : Nat) :
    (cache.add data).2.Used other ↔ other = block ∨ cache.Used other := by
  have size_eq : (cache.add data).2.size = cache.size := by simp [add_of_free free]
  simp only [Used, size_eq, add_buf free (linked.foot_ne_fb free)]
  by_cases same : other = block
  · subst same
    simp [(linked.fb_unused free).1]
  · simp only [same, if_false, false_or]
    split <;> simp

/-- A successful `Add` pops the free stack. -/
theorem Linked.add_freeStack (linked : cache.Linked) (free : cache.fb = some block)
    (data : Option α) : ∃ stack, (cache.add data).2.FreeStack stack := by
  have apart := linked.foot_ne_fb free
  obtain ⟨stack, freeStack⟩ := linked.free
  obtain ⟨chain, distinct, unused, count⟩ := freeStack
  cases stack with
  | nil => simp [free] at chain
  | cons first stack =>
      obtain ⟨same, tail⟩ := chain
      obtain rfl := Option.some.inj (free.symm.trans same)
      have notMem := (List.nodup_cons.mp distinct).1
      refine ⟨stack, ?_, (List.nodup_cons.mp distinct).2, ?_, ?_⟩
      · have fb_eq : (cache.add data).2.fb = cache.nexts block := by simp [add_of_free free]
        rw [fb_eq]
        refine tail.congr fun other member => ?_
        have other_ne : other ≠ block := by
          rintro rfl
          exact notMem member
        have foot_ne : cache.uf ≠ some other := by
          intro foot
          have used := (linked.foot_used foot).1.2
          simp [((unused other).mp (by simp [member])).2] at used
        simp [nexts, add_buf free apart, other_ne, foot_ne]
      · intro other
        have size_eq : (cache.add data).2.size = cache.size := by simp [add_of_free free]
        rw [size_eq, add_buf free apart]
        by_cases same : other = block
        · subst same
          simp [notMem]
        · have := unused other
          rw [List.mem_cons, or_iff_right same] at this
          rw [this, if_neg same]
          split <;> rfl
      · simp [add_of_free free, count]

theorem Linked.add (linked : cache.Linked) (data : Option α) : (cache.add data).2.Linked := by
  cases free : cache.fb with
  | none => rwa [add_of_full free]
  | some block =>
      have apart := linked.foot_ne_fb free
      have used_iff := linked.add_used free data
      have block_notUsed : ¬ cache.Used block := by simp [Used, (linked.fb_unused free).2]
      have next_eq : ∀ x, (cache.add data).2.nexts x =
          if x = block then none else if cache.uf = some x then some block
            else cache.nexts x := by
        intro x
        rw [nexts, add_buf free apart]
        split
        · rfl
        · split <;> rfl
      have prev_eq : ∀ x, (cache.add data).2.prevs x =
          if x = block then cache.uf else cache.prevs x := by
        intro x
        rw [prevs, add_buf free apart]
        split
        · rfl
        · split <;> rfl
      refine ⟨linked.add_freeStack free data, ?_, ?_, ?_, ?_, ?_⟩
      · intro x y used link
        rw [next_eq] at link
        split at link
        · simp at link
        · next x_ne =>
            have x_used := ((used_iff x).mp used).resolve_left x_ne
            split at link
            · next foot =>
                obtain rfl := Option.some.inj link
                exact ⟨(used_iff _).mpr (.inl rfl), by simp [prev_eq, foot]⟩
            · obtain ⟨y_used, back⟩ := linked.next_used x_used link
              have y_ne : y ≠ block := by
                rintro rfl
                exact block_notUsed y_used
              exact ⟨(used_iff _).mpr (.inr y_used), by simp [prev_eq, y_ne, back]⟩
      · intro x y used link
        rw [prev_eq] at link
        split at link
        · next x_eq =>
            subst x_eq
            have y_used := (linked.foot_used link).1
            have y_ne : y ≠ x := by
              rintro rfl
              exact block_notUsed y_used
            exact ⟨(used_iff _).mpr (.inr y_used), by simp [next_eq, y_ne, link]⟩
        · next x_ne =>
            have x_used := ((used_iff x).mp used).resolve_left x_ne
            obtain ⟨y_used, forth⟩ := linked.prev_used x_used link
            have y_ne : y ≠ block := by
              rintro rfl
              exact block_notUsed y_used
            have y_notFoot : cache.uf ≠ some y := by
              intro foot
              simp [(linked.foot_used foot).2] at forth
            exact ⟨(used_iff _).mpr (.inr y_used), by simp [next_eq, y_ne, y_notFoot, forth]⟩
      · intro x head
        simp only [add_of_free free, Option.some.injEq] at head
        cases old : cache.uh with
        | none =>
            rw [old, Option.getD_none] at head
            subst head
            exact ⟨(used_iff _).mpr (.inl rfl), by simp [prev_eq, linked.foot_none old]⟩
        | some h =>
            rw [old, Option.getD_some] at head
            subst head
            obtain ⟨h_used, first⟩ := linked.head_used old
            have h_ne : h ≠ block := by
              rintro rfl
              exact block_notUsed h_used
            exact ⟨(used_iff _).mpr (.inr h_used), by simp [prev_eq, h_ne, first]⟩
      · intro x foot
        simp only [add_of_free free, Option.some.injEq] at foot
        subst foot
        exact ⟨(used_iff _).mpr (.inl rfl), by simp [next_eq]⟩
      · simp [add_of_free free]

end Add

section Release

variable {cache : THQCache α} {block : Nat}

theorem release_used (cache : THQCache α) (block other : Nat) :
    (cache.release block).Used other ↔ other ≠ block ∧ cache.Used other := by
  simp only [Used, release_size, release_buf]
  by_cases same : other = block
  · simp [same]
  · simp [same]

/-- `Release` of a used block pushes it on the free stack. -/
theorem Linked.release_freeStack (linked : cache.Linked) (used : cache.Used block) :
    ∃ stack, (cache.release block).FreeStack stack := by
  obtain ⟨stack, freeStack⟩ := linked.free
  have notMem : block ∉ stack := fun member => not_used_of_free freeStack member used
  obtain ⟨chain, distinct, unused, count⟩ := freeStack
  refine ⟨block :: stack, ⟨rfl, ?_⟩, List.nodup_cons.mpr ⟨notMem, distinct⟩, ?_, ?_⟩
  · have link : (cache.release block).nexts block = cache.fb := by simp [nexts, release_buf]
    rw [link]
    refine chain.congr fun other member => ?_
    have other_ne : other ≠ block := by
      rintro rfl
      exact notMem member
    have other_notPrev : cache.prevs block ≠ some other := by
      intro before
      have := (linked.prev_used used before).1.2
      simp [((unused other).mp member).2] at this
    simp [nexts, release_buf, other_ne, other_notPrev]
  · intro other
    rw [List.mem_cons, release_size, release_buf]
    by_cases same : other = block
    · simp [same, used.lt]
    · simp [same, unused other]
  · simp [count]

theorem Linked.release (linked : cache.Linked) (used : cache.Used block) :
    (cache.release block).Linked := by
  have next_eq : ∀ {x}, x ≠ block → (cache.release block).nexts x =
      if cache.prevs block = some x then cache.nexts block else cache.nexts x := by
    intro x x_ne
    simp [nexts, release_buf, x_ne]
  have prev_eq : ∀ {x}, x ≠ block → (cache.release block).prevs x =
      if cache.nexts block = some x then cache.prevs block else cache.prevs x := by
    intro x x_ne
    simp [prevs, release_buf, x_ne]
  have used_iff := release_used cache block
  refine ⟨linked.release_freeStack used, ?_, ?_, ?_, ?_, ?_⟩
  · intro x y x_used' link
    obtain ⟨x_ne, x_used⟩ := (used_iff x).mp x_used'
    rw [next_eq x_ne] at link
    split at link
    · next before =>
        obtain ⟨y_used, back⟩ := linked.next_used used link
        have y_ne : y ≠ block := by
          rintro rfl
          exact x_ne (Option.some.inj (before.symm.trans back))
        exact ⟨(used_iff y).mpr ⟨y_ne, y_used⟩, by simp [prev_eq y_ne, link, before]⟩
    · next notBefore =>
        obtain ⟨y_used, back⟩ := linked.next_used x_used link
        have y_ne : y ≠ block := by
          rintro rfl
          exact notBefore back
        have y_notAfter : cache.nexts block ≠ some y := by
          intro after
          have := (linked.next_used used after).2
          exact x_ne (Option.some.inj (back.symm.trans this))
        exact ⟨(used_iff y).mpr ⟨y_ne, y_used⟩, by simp [prev_eq y_ne, y_notAfter, back]⟩
  · intro x y x_used' link
    obtain ⟨x_ne, x_used⟩ := (used_iff x).mp x_used'
    rw [prev_eq x_ne] at link
    split at link
    · next after =>
        obtain ⟨y_used, forth⟩ := linked.prev_used used link
        have y_ne : y ≠ block := by
          rintro rfl
          exact x_ne (Option.some.inj (after.symm.trans forth))
        exact ⟨(used_iff y).mpr ⟨y_ne, y_used⟩, by simp [next_eq y_ne, link, after]⟩
    · next notAfter =>
        obtain ⟨y_used, forth⟩ := linked.prev_used x_used link
        have y_ne : y ≠ block := by
          rintro rfl
          exact notAfter forth
        have y_notBefore : cache.prevs block ≠ some y := by
          intro before
          have := (linked.prev_used used before).2
          exact x_ne (Option.some.inj (forth.symm.trans this))
        exact ⟨(used_iff y).mpr ⟨y_ne, y_used⟩, by simp [next_eq y_ne, y_notBefore, forth]⟩
  · intro x head
    rw [release_uh] at head
    split at head
    · next first =>
        obtain ⟨x_used, back⟩ := linked.next_used used head
        have x_ne : x ≠ block := by
          rintro rfl
          simp [first] at back
        exact ⟨(used_iff x).mpr ⟨x_ne, x_used⟩, by simp [prev_eq x_ne, head, first]⟩
    · next notFirst =>
        obtain ⟨x_used, first⟩ := linked.head_used head
        have x_ne : x ≠ block := by
          rintro rfl
          exact notFirst first
        have x_notAfter : cache.nexts block ≠ some x := by
          intro after
          simp [(linked.next_used used after).2] at first
        exact ⟨(used_iff x).mpr ⟨x_ne, x_used⟩, by simp [prev_eq x_ne, x_notAfter, first]⟩
  · intro x foot
    rw [release_uf] at foot
    split at foot
    · simp at foot
    · next notLast =>
        obtain ⟨x_used, last⟩ := linked.foot_used foot
        have x_ne : x ≠ block := by
          rintro rfl
          exact notLast last
        have x_notBefore : cache.prevs block ≠ some x := by
          intro before
          simp [(linked.prev_used used before).2] at last
        exact ⟨(used_iff x).mpr ⟨x_ne, x_used⟩, by simp [next_eq x_ne, x_notBefore, last]⟩
  · intro head
    rw [release_uh] at head
    rw [release_uf]
    split at head
    · simp [head]
    · simp [linked.foot_none head]

end Release

/-! ## The data of the blocks -/

section Data

variable {cache : THQCache α} {block : Nat}

theorem Linked.add_data (linked : cache.Linked) (free : cache.fb = some block)
    (data : Option α) (other : Nat) :
    ((cache.add data).2.buf other).data = if other = block then data else (cache.buf other).data := by
  rw [add_buf free (linked.foot_ne_fb free)]
  split
  · rfl
  · split <;> rfl

theorem release_data {other : Nat} (different : other ≠ block) :
    ((cache.release block).buf other).data = (cache.buf other).data := by
  simp [release_buf, different]

theorem setData_data (data : Option α) (other : Nat) :
    ((cache.setData block data).buf other).data =
      if other = block then data else (cache.buf other).data := by
  by_cases same : other = block
  · subst same
    simp [setData]
  · simp [setData, same]

theorem setData_buf (cache : THQCache α) (block : Nat) (data : Option α) (other : Nat) :
    ∃ data', (cache.setData block data).buf other = { cache.buf other with data := data' } := by
  by_cases same : other = block
  · subst same
    exact ⟨data, by simp [setData]⟩
  · exact ⟨(cache.buf other).data, by simp [setData, same]⟩

@[simp] theorem setData_used (data : Option α) (other : Nat) :
    (cache.setData block data).Used other ↔ cache.Used other := by
  obtain ⟨data', buf_eq⟩ := cache.setData_buf block data other
  simp only [Used, buf_eq]
  rfl

@[simp] theorem setData_nexts (data : Option α) :
    (cache.setData block data).nexts = cache.nexts := by
  funext other
  obtain ⟨data', buf_eq⟩ := cache.setData_buf block data other
  simp only [nexts, buf_eq]

@[simp] theorem setData_prevs (data : Option α) :
    (cache.setData block data).prevs = cache.prevs := by
  funext other
  obtain ⟨data', buf_eq⟩ := cache.setData_buf block data other
  simp only [prevs, buf_eq]

/-- Replacing the data of a block leaves all links alone. -/
theorem Linked.setData (linked : cache.Linked) (block : Nat) (data : Option α) :
    (cache.setData block data).Linked := by
  obtain ⟨⟨stack, chain, distinct, unused, count⟩, next_used, prev_used, head_used, foot_used,
    foot_none⟩ := linked
  refine ⟨⟨stack, ?_, distinct, ?_, count⟩, ?_, ?_, ?_, ?_, foot_none⟩
  · rw [setData_nexts]
    exact chain
  · intro other
    obtain ⟨data', buf_eq⟩ := cache.setData_buf block data other
    rw [buf_eq]
    exact unused other
  · intro x y
    rw [setData_used, setData_used, setData_nexts, setData_prevs]
    exact next_used
  · intro x y
    rw [setData_used, setData_used, setData_nexts, setData_prevs]
    exact prev_used
  · intro x
    rw [setData_used, setData_prevs]
    exact head_used
  · intro x
    rw [setData_used, setData_nexts]
    exact foot_used

end Data

/-! ## First in, first out -/

/-- The calls a client makes; `Release` gets a block which a traversal handed out. -/
inductive Op (α : Type*)
  | add (data : Option α)
  | release (block : Nat)

/-- A cache with the blocks added and not yet released, oldest first, each with its data. -/
structure History (α : Type*) where
  cache : THQCache α
  queue : List (Nat × Option α)

/-- One call; releasing a block that is not in use lies outside the contract. -/
def History.step (history : History α) : Op α → Option (History α)
  | .add data =>
      let (added, cache) := history.cache.add data
      some
        { cache
          queue := match history.cache.fb with
            | some block => if added then history.queue ++ [(block, data)] else history.queue
            | none => history.queue }
  | .release block =>
      if history.cache.Used block then
        some
          { cache := history.cache.release block
            queue := history.queue.filter fun entry => entry.1 ≠ block }
      else none

theorem History.step_add_full {history : History α} (full : history.cache.fb = none)
    (data : Option α) : history.step (.add data) = some history := by
  simp [History.step, full, add_of_full full]

theorem History.step_add_free {history : History α} {block : Nat}
    (free : history.cache.fb = some block) (data : Option α) :
    history.step (.add data) = some
      { cache := (history.cache.add data).2, queue := history.queue ++ [(block, data)] } := by
  have added : (history.cache.add data).1 = true := by simp [add_of_free free]
  simp [History.step, free, added]

theorem History.step_size {history next : History α} {op : Op α}
    (result : history.step op = some next) : next.cache.size = history.cache.size := by
  cases op with
  | add data =>
      cases free : history.cache.fb with
      | none =>
          rw [step_add_full free] at result
          rw [Option.some.inj result]
      | some block =>
          rw [step_add_free free] at result
          rw [← Option.some.inj result]
          simp [add_of_free free]
  | release block =>
      simp only [History.step, Option.ite_none_right_eq_some] at result
      rw [← Option.some.inj result.2, release_size]

/-- The cache behaves as a first-in, first-out queue with arbitrary removal. -/
structure History.Fifo (history : History α) : Prop where
  /-- A traversal visits the blocks added and not yet released, once each and in this order. -/
  visits_eq : ∀ fuel, history.cache.size ≤ fuel →
    history.cache.visits fuel = some history.queue
  /-- `fc` is the length of the free chain. -/
  count : ∃ stack, Chain history.cache.nexts history.cache.fb stack none ∧
    history.cache.fc = stack.length
  /-- `Add` fails exactly when every block is used. -/
  full : ∀ data, (history.cache.add data).1 = false ↔
    ∀ block, block < history.cache.size → (history.cache.buf block).used = true

/-- An `Add` that gets a block finds the foot set, unless the queue is empty. -/
def History.FootKept (history : History α) : Op α → Prop
  | .add _ => history.cache.fb ≠ none → history.cache.uf = none → history.cache.uh = none
  | .release _ => True

/-- The queue is chained from `uh` in order, and the foot is unset or the newest block. -/
structure History.Queued (history : History α) : Prop where
  linked : history.cache.Linked
  chain : Chain history.cache.nexts history.cache.uh (history.queue.map Prod.fst) none
  distinct : (history.queue.map Prod.fst).Nodup
  used : ∀ block, block ∈ history.queue.map Prod.fst ↔ history.cache.Used block
  data_eq : ∀ entry ∈ history.queue, (history.cache.buf entry.1).data = entry.2
  foot : ∀ block, history.cache.uf = some block →
    (history.queue.map Prod.fst).getLast? = some block

theorem loopFrom_passive (cache : THQCache α) {start : Option Nat} {cells : List Nat}
    (chain : Chain cache.nexts start cells none) {fuel : Nat} (enough : cells.length ≤ fuel)
    (seen : List (Nat × Option α)) :
    loopFrom (fun _ => cache) cache.record fuel seen start =
      some (seen ++ cells.map fun p => (p, (cache.buf p).data), 0) := by
  induction cells generalizing start fuel seen with
  | nil =>
      obtain rfl : start = none := chain
      cases fuel <;> simp [loopFrom]
  | cons cell cells induction =>
      obtain ⟨rfl, tail⟩ := chain
      obtain ⟨fuel, rfl⟩ := Nat.exists_eq_succ_of_ne_zero
        (Nat.ne_of_gt (Nat.lt_of_lt_of_le (by simp) enough))
      have shorter : cells.length ≤ fuel := by simpa using enough
      simp [loopFrom, record, induction tail shorter]

/-- A traversal visits the chain that starts at the head. -/
theorem visits_eq_of_chain (cache : THQCache α) {cells : List Nat}
    (chain : Chain cache.nexts cache.uh cells none) {fuel : Nat} (enough : cells.length ≤ fuel) :
    cache.visits fuel = some (cells.map fun p => (p, (cache.buf p).data)) := by
  simp [visits, loop, loopFrom_passive cache chain enough]

theorem Linked.add_fails_iff {cache : THQCache α} (linked : cache.Linked) (data : Option α) :
    (cache.add data).1 = false ↔
      ∀ block, block < cache.size → (cache.buf block).used = true := by
  cases free : cache.fb with
  | none =>
      simp only [add_of_full free, true_iff]
      intro block block_lt
      obtain ⟨stack, chain, _, unused, _⟩ := linked.free
      rw [free] at chain
      obtain rfl : stack = [] := by simpa using chain.head?_eq.symm
      by_contra block_unused
      simpa using (unused block).mpr ⟨block_lt, by simpa using block_unused⟩
  | some block =>
      obtain ⟨block_lt, block_unused⟩ := linked.fb_unused free
      simp only [add_of_free free, Bool.true_eq_false, false_iff, not_forall]
      exact ⟨block, block_lt, by simp [block_unused]⟩

namespace History.Queued

variable {history : History α}

theorem length_le (queued : history.Queued) :
    (history.queue.map Prod.fst).length ≤ history.cache.size := by
  have inside : history.queue.map Prod.fst ⊆ List.range history.cache.size := by
    intro block member
    exact List.mem_range.mpr ((queued.used block).mp member).lt
  simpa using (List.subperm_of_subset queued.distinct inside).length_le

theorem visits (queued : history.Queued) {fuel : Nat} (enough : history.cache.size ≤ fuel) :
    history.cache.visits fuel = some history.queue := by
  rw [visits_eq_of_chain _ queued.chain (Nat.le_trans queued.length_le enough), List.map_map]
  congr 1
  calc
    history.queue.map ((fun p => (p, (history.cache.buf p).data)) ∘ Prod.fst) =
        history.queue.map id := by
      refine List.map_congr_left fun entry member => ?_
      simp [queued.data_eq entry member]
    _ = history.queue := List.map_id _

theorem fifo (queued : history.Queued) : history.Fifo where
  visits_eq _ enough := queued.visits enough
  count := by
    obtain ⟨stack, chain, _, _, count⟩ := queued.linked.free
    exact ⟨stack, chain, count⟩
  full := queued.linked.add_fails_iff

theorem start (size : Nat) (memory : Nat → THCacheBlock α) :
    History.Queued { cache := new size memory, queue := [] } where
  linked := new_linked size memory
  chain := rfl
  distinct := by simp
  used block := by
    obtain ⟨_, unused⟩ := linkFree_spec memory size
    simp only [List.map_nil, List.not_mem_nil, false_iff]
    rintro ⟨block_lt, used⟩
    simp [new, unused block block_lt] at used
  data_eq := by simp
  foot block foot := by simp [new] at foot

/-- The chain of the queue after an `Add` that finds the foot set or the queue empty. -/
theorem add_chain (queued : history.Queued) {block : Nat} (free : history.cache.fb = some block)
    (kept : history.cache.uf = none → history.cache.uh = none) (data : Option α) :
    Chain (history.cache.add data).2.nexts (history.cache.add data).2.uh
      (history.queue.map Prod.fst ++ [block]) none := by
  have apart := queued.linked.foot_ne_fb free
  have next_block : (history.cache.add data).2.nexts block = none := by
    simp [nexts, add_buf free apart]
  have head_eq : (history.cache.add data).2.uh = some (history.cache.uh.getD block) := by
    simp [add_of_free free]
  rw [head_eq]
  cases foot : history.cache.uf with
  | none =>
      have empty : history.queue.map Prod.fst = [] := by
        have := queued.chain.head?_eq
        rw [kept foot] at this
        simpa using this.symm
      simp [empty, kept foot, next_block]
  | some last =>
      obtain ⟨front, cells_eq⟩ := List.getLast?_eq_some_iff.mp (queued.foot last foot)
      have chain := queued.chain
      rw [cells_eq] at chain
      have head_kept : some (history.cache.uh.getD block) = history.cache.uh := by
        cases head : history.cache.uh with
        | none => simp [queued.linked.foot_none head] at foot
        | some h => rfl
      have block_notUsed : ¬ history.cache.Used block := by
        simp [Used, (queued.linked.fb_unused free).2]
      have last_used := (queued.linked.foot_used foot).1
      have last_ne : last ≠ block := by
        rintro rfl
        exact block_notUsed last_used
      have next_last : (history.cache.add data).2.nexts last = some block := by
        simp [nexts, add_buf free apart, last_ne, foot]
      have distinct := queued.distinct
      rw [cells_eq] at distinct
      rw [head_kept, cells_eq, List.append_assoc]
      refine chain.snoc (fun cell member => ?_) ?_
      · have cell_ne : cell ≠ block := by
          rintro rfl
          exact block_notUsed ((queued.used cell).mp (by simp [cells_eq, member]))
        have cell_notFoot : last ≠ cell := by
          rintro rfl
          simp [List.nodup_append] at distinct
          exact distinct.2 _ member rfl
        simp [nexts, add_buf free apart, cell_ne, foot, cell_notFoot]
      · simp [next_last, next_block]

theorem add (queued : history.Queued) {block : Nat} (free : history.cache.fb = some block)
    (kept : history.cache.uf = none → history.cache.uh = none) (data : Option α) :
    History.Queued
      { cache := (history.cache.add data).2, queue := history.queue ++ [(block, data)] } := by
  have apart := queued.linked.foot_ne_fb free
  have block_notUsed : ¬ history.cache.Used block := by
    simp [Used, (queued.linked.fb_unused free).2]
  have block_notMem : block ∉ history.queue.map Prod.fst :=
    fun member => block_notUsed ((queued.used block).mp member)
  constructor
  case linked => exact queued.linked.add data
  case chain => simpa using queued.add_chain free kept data
  case distinct =>
    rw [List.map_append, List.nodup_append]
    refine ⟨queued.distinct, by simp, fun other member last last_mem => ?_⟩
    obtain rfl : last = block := by simpa using last_mem
    rintro rfl
    exact block_notMem member
  case used =>
    intro other
    rw [queued.linked.add_used free]
    simp only [List.map_append, List.mem_append, queued.used other]
    simp [or_comm]
  case data_eq =>
    intro entry member
    rw [add_buf free apart]
    rcases List.mem_append.mp member with old | new
    · have entry_ne : entry.1 ≠ block := by
        rintro same
        exact block_notMem (List.mem_map.mpr ⟨entry, old, same⟩)
      rw [if_neg entry_ne]
      split <;> exact queued.data_eq entry old
    · obtain rfl : entry = (block, data) := by simpa using new
      simp
  case foot =>
    intro last foot
    simp only [add_of_free free, Option.some.injEq] at foot
    simp [foot]

/-- The chain of the queue after a used block is released. -/
theorem release_chain (queued : history.Queued) {block : Nat} {front back : List Nat}
    (cells_eq : history.queue.map Prod.fst = front ++ block :: back) :
    Chain (history.cache.release block).nexts (history.cache.release block).uh
      (front ++ back) none := by
  have block_used : history.cache.Used block := (queued.used block).mp (by simp [cells_eq])
  have chain := queued.chain
  have distinct := queued.distinct
  rw [cells_eq] at chain distinct
  have block_apart : ∀ other ∈ front ++ back, other ≠ block := by
    rintro other member rfl
    exact (List.nodup_cons.mp (List.nodup_middle.mp distinct)).1 member
  have next_eq : ∀ other, other ≠ block → (history.cache.release block).nexts other =
      if history.cache.prevs block = some other then history.cache.nexts block
        else history.cache.nexts other := by
    intro other other_ne
    simp [nexts, release_buf, other_ne]
  rw [release_uh]
  rcases List.eq_nil_or_concat' front with rfl | ⟨front, before, rfl⟩
  · obtain ⟨head, tail⟩ := chain
    have first := (queued.linked.head_used head).2
    rw [if_pos first]
    refine tail.congr fun other member => ?_
    rw [next_eq other (block_apart other member), first]
    rfl
  · simp only [List.append_assoc, List.singleton_append] at chain distinct cells_eq ⊢
    obtain ⟨_, _, _, link, _⟩ := Chain.append_iff.mp chain
    have before_used : history.cache.Used before :=
      (queued.used before).mp (by simp [cells_eq])
    have prev_block := (queued.linked.next_used before_used link).2
    have before_ne : before ≠ block := block_apart before (by simp)
    rw [if_neg (by simp [prev_block])]
    refine chain.unlink (fun other member => ?_) ?_
    · have other_ne : other ≠ block := block_apart other (by
        simp only [List.mem_append] at member
        rcases member with inFront | inBack <;> simp [*])
      have other_apart : before ≠ other := by
        rintro rfl
        have := (List.nodup_cons.mp (List.nodup_middle.mp distinct)).1
        simp only [List.mem_append, List.mem_cons, not_or] at this member
        exact member.elim this.1 this.2.2
      simp [next_eq other other_ne, prev_block, other_apart]
    · simp [next_eq before before_ne, prev_block]

theorem release (queued : history.Queued) {block : Nat} (block_used : history.cache.Used block) :
    History.Queued
      { cache := history.cache.release block
        queue := history.queue.filter fun entry => entry.1 ≠ block } := by
  obtain ⟨front, back, cells_eq⟩ := List.append_of_mem ((queued.used block).mpr block_used)
  have distinct := queued.distinct
  rw [cells_eq] at distinct
  have block_notMem := (List.nodup_cons.mp (List.nodup_middle.mp distinct)).1
  have rest_eq : (history.queue.filter fun entry => entry.1 ≠ block).map Prod.fst =
      front ++ back := by
    calc
      (history.queue.filter fun entry => entry.1 ≠ block).map Prod.fst =
          (history.queue.map Prod.fst).filter (· ≠ block) := by
        rw [List.filter_map]
        rfl
      _ = front ++ back := by
        have front_kept : front.filter (· ≠ block) = front :=
          List.filter_eq_self.mpr fun other member => by
            simpa using ne_of_mem_of_not_mem (List.mem_append_left back member) block_notMem
        have back_kept : back.filter (· ≠ block) = back :=
          List.filter_eq_self.mpr fun other member => by
            simpa using ne_of_mem_of_not_mem (List.mem_append_right front member) block_notMem
        rw [cells_eq, List.filter_append, List.filter_cons_of_neg (by simp), front_kept, back_kept]
  constructor
  case linked => exact queued.linked.release block_used
  case chain =>
    rw [rest_eq]
    exact queued.release_chain cells_eq
  case distinct =>
    rw [rest_eq]
    exact (List.nodup_cons.mp (List.nodup_middle.mp distinct)).2
  case used =>
    intro other
    rw [release_used, ← queued.used other]
    simp [and_comm]
  case data_eq =>
    intro entry member
    obtain ⟨old, entry_ne⟩ := List.mem_filter.mp member
    rw [release_buf, if_neg (by simpa using entry_ne)]
    exact queued.data_eq entry old
  case foot =>
    intro last foot
    rw [release_uf] at foot
    split at foot
    · simp at foot
    · next notLast =>
        have last_eq := queued.foot last foot
        rw [cells_eq] at last_eq
        rw [rest_eq]
        cases back with
        | nil =>
            have chain := queued.chain
            rw [cells_eq] at chain
            exact absurd chain.next_last notLast
        | cons after back => simpa using last_eq

/-- An `Add` whose foot was lost leaves the new block out of the traversal. -/
theorem add_lost (queued : history.Queued) {block head : Nat}
    (free : history.cache.fb = some block) (foot : history.cache.uf = none)
    (nonempty : history.cache.uh = some head) (data : Option α) :
    ¬ History.Fifo
      { cache := (history.cache.add data).2, queue := history.queue ++ [(block, data)] } := by
  intro fifo
  have apart := queued.linked.foot_ne_fb free
  have block_notUsed : ¬ history.cache.Used block := by
    simp [Used, (queued.linked.fb_unused free).2]
  have chain : Chain (history.cache.add data).2.nexts (history.cache.add data).2.uh
      (history.queue.map Prod.fst) none := by
    have head_eq : (history.cache.add data).2.uh = history.cache.uh := by
      simp [add_of_free free, nonempty]
    rw [head_eq]
    refine queued.chain.congr fun other member => ?_
    have other_ne : other ≠ block := by
      rintro rfl
      exact block_notUsed ((queued.used other).mp member)
    simp [nexts, add_buf free apart, other_ne, foot]
  have size_eq : (history.cache.add data).2.size = history.cache.size := by
    simp [add_of_free free]
  have seen := visits_eq_of_chain _ chain queued.length_le
  have promised := fifo.visits_eq history.cache.size (Nat.le_of_eq size_eq)
  simpa using congrArg List.length (Option.some.inj (seen.symm.trans promised))

theorem step {next : History α} {op : Op α} (queued : history.Queued)
    (kept : history.FootKept op) (result : history.step op = some next) : next.Queued := by
  cases op with
  | add data =>
      cases free : history.cache.fb with
      | none =>
          rw [step_add_full free] at result
          exact Option.some.inj result ▸ queued
      | some block =>
          rw [step_add_free free] at result
          exact Option.some.inj result ▸ queued.add free (kept (by simp [free])) data
  | release block =>
      simp only [History.step, Option.ite_none_right_eq_some] at result
      obtain ⟨used, result⟩ := result
      exact Option.some.inj result ▸ queued.release used

theorem step_broken {next : History α} {op : Op α} (queued : history.Queued)
    (lost : ¬ history.FootKept op) (result : history.step op = some next) : ¬ next.Fifo := by
  cases op with
  | add data =>
      simp only [History.FootKept, Classical.not_imp] at lost
      obtain ⟨available, foot, nonempty⟩ := lost
      obtain ⟨block, free⟩ := Option.ne_none_iff_exists'.mp available
      obtain ⟨head, nonempty⟩ := Option.ne_none_iff_exists'.mp nonempty
      rw [step_add_free free] at result
      exact Option.some.inj result ▸ queued.add_lost free foot nonempty data
  | release block => exact absurd trivial lost

end History.Queued

/-- The cache is a first-in, first-out queue throughout a run exactly when no block is added while
the foot is unset and older blocks are still queued. -/
theorem fifo_iff_footKept (size : Nat) (memory : Nat → THCacheBlock α) (ops : List (Op α)) :
    AllStates History.step History.Fifo { cache := new size memory, queue := [] } ops ↔
      AllSteps History.step History.FootKept { cache := new size memory, queue := [] } ops :=
  allStates_iff_allSteps History.Queued (fun queued => queued.fifo)
    (fun queued kept result => queued.step kept result)
    (fun queued lost result => queued.step_broken lost result)
    (History.Queued.start size memory) ops

/-- Three blocks: two are added, the newer one is released, and a third call adds again. -/
def lostOps : List (Op Nat) := [.add (some 10), .add (some 11), .release 1, .add (some 12)]

theorem lostOps_visits :
    (run History.step { cache := new 3 fun _ => ⟨none, none, none, false⟩, queue := [] }
        lostOps).map (fun history => (history.cache.visits 3, history.queue)) =
      some (some [(2, some 10)], [(2, some 10), (1, some 12)]) := by decide

/-- The block added last in `lostOps` is never visited. -/
theorem fifo_lost :
    ¬ ∀ (size : Nat) (memory : Nat → THCacheBlock Nat) (ops : List (Op Nat)),
      AllStates History.step History.Fifo { cache := new size memory, queue := [] } ops := by
  intro promised
  obtain ⟨final, execution, seen⟩ := Option.map_eq_some_iff.mp lostOps_visits
  simp only [Prod.mk.injEq] at seen
  have fifo := (promised 3 _ lostOps).of_run execution
  have size_le : final.cache.size ≤ 3 := by
    have invariant : final.cache.size = 3 :=
      run_invariant (fun history : History Nat => history.cache.size = 3)
        (fun same result => (History.step_size result).trans same) rfl execution
    omega
  have visited := fifo.visits_eq 3 size_le
  rw [seen.1, seen.2] at visited
  exact absurd visited (by decide)

end THQCache
end CommonLib
