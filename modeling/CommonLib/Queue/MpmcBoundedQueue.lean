import CommonLib.Library.Interleaving
import Mathlib.Algebra.Group.Nat.Defs
import Mathlib.Data.Nat.Bitwise
import Mathlib.Data.Int.ModEq

/-!
# The bounded queue of mpmc-bounded-queue.hpp

A call of `enqueue` takes the place `_head_seq`, writes its item into the node of this place and
makes it known through the sequence number of the node; a call of `dequeue` takes the place
`_tail_seq` and frees the node for the place one round later.  A move is one access to the queue of
one thread, in the order of the source.
-/

namespace CommonLib

open Execution Interleaving

/-- A value of type `size_t`. -/
def sizeT (n : Nat) : Nat := n % 2 ^ 64

/-- The conversion from `size_t` to `intptr_t`. -/
def intptr (n : Nat) : Int := if n < 2 ^ 63 then n else (n : Int) - 2 ^ 64

/-- `node_t`. -/
structure MpmcNode (α : Type*) where
  data : α
  seq : Nat

/-- `mpmc_bounded_queue_t`, and what its calls did. -/
structure MpmcQueue (α : Type*) where
  size : Nat
  mask : Nat
  buffer : Nat → MpmcNode α
  headSeq : Nat
  tailSeq : Nat
  /-- The items whose calls took a place, in the order of the places. -/
  enqueued : List α
  /-- The items that the calls of `dequeue` got, each with its place, in the order of time. -/
  dequeued : List (Nat × α)

namespace MpmcQueue

variable {α : Type*}

/-- The constructor; the size is a power of 2. -/
def new [Inhabited α] (size : Nat) : MpmcQueue α :=
  { size, mask := size - 1, buffer := fun i => { data := default, seq := sizeT i }, headSeq := 0,
    tailSeq := 0, enqueued := [], dequeued := [] }

/-- `&_buffer[seq & _mask]`. -/
def index (queue : MpmcQueue α) (seq : Nat) : Nat := seq &&& queue.mask

def node (queue : MpmcQueue α) (seq : Nat) : MpmcNode α := queue.buffer (queue.index seq)

def setNode (queue : MpmcQueue α) (seq : Nat) (node : MpmcNode α) : MpmcQueue α :=
  { queue with buffer := Function.update queue.buffer (queue.index seq) node }

/-- Where a thread is, with the local variables of the function. -/
inductive Place (α : Type*)
  | idle
  /-- Before `_head_seq.load`. -/
  | enqueue (data : α)
  /-- Before `node->seq.load`. -/
  | enqueueLoad (data : α) (headSeq : Nat)
  /-- Before the tests of `dif` and the compare and exchange. -/
  | enqueueTake (data : α) (headSeq nodeSeq : Nat)
  /-- Before `node->data = std::move(data)`. -/
  | enqueueWrite (data : α) (headSeq : Nat)
  /-- Before `node->seq.store`. -/
  | enqueueStore (headSeq : Nat)
  | dequeue
  | dequeueLoad (tailSeq : Nat)
  | dequeueTake (tailSeq nodeSeq : Nat)
  /-- Before `data = std::move(node->data)`. -/
  | dequeueRead (tailSeq : Nat)
  | dequeueStore (tailSeq : Nat)

inductive Move (α : Type*)
  | enqueue (data : α)
  | dequeue
  /-- The next access of the call. -/
  | access
  /-- `compare_exchange_weak` fails though the values agree. -/
  | spurious

/-- The moves of a thread. -/
def move (queue : MpmcQueue α) : Place α → Move α → Option (MpmcQueue α × Place α)
  | .idle, .enqueue data => some (queue, .enqueue data)
  | .idle, .dequeue => some (queue, .dequeue)
  | .enqueue data, .access => some (queue, .enqueueLoad data queue.headSeq)
  | .enqueueLoad data headSeq, .access =>
      some (queue, .enqueueTake data headSeq (queue.node headSeq).seq)
  | .enqueueTake data headSeq nodeSeq, .access =>
      if intptr nodeSeq - intptr headSeq = 0 then
        if queue.headSeq = headSeq then
          some ({ queue with headSeq := sizeT (headSeq + 1), enqueued := queue.enqueued ++ [data] },
            .enqueueWrite data headSeq)
        else some (queue, .enqueueLoad data queue.headSeq)
      else if intptr nodeSeq - intptr headSeq < 0 then some (queue, .idle)
      else some (queue, .enqueue data)
  | .enqueueTake data headSeq nodeSeq, .spurious =>
      if intptr nodeSeq - intptr headSeq = 0 then some (queue, .enqueueLoad data queue.headSeq)
      else none
  | .enqueueWrite data headSeq, .access =>
      some (queue.setNode headSeq { queue.node headSeq with data }, .enqueueStore headSeq)
  | .enqueueStore headSeq, .access =>
      some (queue.setNode headSeq { queue.node headSeq with seq := sizeT (headSeq + 1) }, .idle)
  | .dequeue, .access => some (queue, .dequeueLoad queue.tailSeq)
  | .dequeueLoad tailSeq, .access =>
      some (queue, .dequeueTake tailSeq (queue.node tailSeq).seq)
  | .dequeueTake tailSeq nodeSeq, .access =>
      if intptr nodeSeq - intptr (sizeT (tailSeq + 1)) = 0 then
        if queue.tailSeq = tailSeq then
          some ({ queue with tailSeq := sizeT (tailSeq + 1) }, .dequeueRead tailSeq)
        else some (queue, .dequeueLoad queue.tailSeq)
      else if intptr nodeSeq - intptr (sizeT (tailSeq + 1)) < 0 then some (queue, .idle)
      else some (queue, .dequeue)
  | .dequeueTake tailSeq nodeSeq, .spurious =>
      if intptr nodeSeq - intptr (sizeT (tailSeq + 1)) = 0 then
        some (queue, .dequeueLoad queue.tailSeq)
      else none
  | .dequeueRead tailSeq, .access =>
      some ({ queue with dequeued := queue.dequeued ++ [(tailSeq, (queue.node tailSeq).data)] },
        .dequeueStore tailSeq)
  | .dequeueStore tailSeq, .access =>
      some (queue.setNode tailSeq
        { queue.node tailSeq with seq := sizeT (tailSeq + queue.mask + 1) }, .idle)
  | _, _ => none

variable {ι : Type*} [DecidableEq ι]

/-- The new queue, before any thread calls it. -/
def start [Inhabited α] (ι : Type*) (size : Nat) : Config (MpmcQueue α) (Place α) ι :=
  { shared := new size, threads := fun _ => .idle }

/-- The thread took the place `seq` for its item and did not yet make it known. -/
def Writes (place : Place α) (seq : Nat) : Prop :=
  (∃ data, place = .enqueueWrite data seq) ∨ place = .enqueueStore seq

/-- The thread took the item of the place `seq` and did not yet free the node. -/
def Reads (place : Place α) (seq : Nat) : Prop :=
  place = .dequeueRead seq ∨ place = .dequeueStore seq

/-- The items come out as they went in: every item that a call of `dequeue` got is the one of its
place, no place is got twice, every place below `_tail_seq` is got or about to be, and at most
`_size` items stand between the ends. -/
structure Fifo (queue : MpmcQueue α) (threads : ι → Place α) : Prop where
  items : ∀ entry ∈ queue.dequeued, queue.enqueued[entry.1]? = some entry.2
  once : (queue.dequeued.map Prod.fst).Nodup
  all : ∀ seq, seq < queue.tailSeq ↔
    seq ∈ queue.dequeued.map Prod.fst ∨ ∃ i, threads i = .dequeueRead seq
  bounded : queue.tailSeq ≤ queue.enqueued.length ∧
    queue.enqueued.length ≤ queue.tailSeq + queue.size

/-! ## The nodes -/

theorem eq_of_mod_eq {size seq other : Nat} (below : seq < other + size)
    (above : other < seq + size) (same : seq % size = other % size) : seq = other := by
  rcases Nat.le_total seq other with le | le
  · have := (Nat.modEq_iff_dvd' le).mp same
    have := Nat.eq_zero_of_dvd_of_lt this (by omega)
    omega
  · have := (Nat.modEq_iff_dvd' le).mp same.symm
    have := Nat.eq_zero_of_dvd_of_lt this (by omega)
    omega

/-- The mask takes the place modulo the size. -/
def Masked (queue : MpmcQueue α) : Prop :=
  queue.mask + 1 = queue.size ∧ ∀ seq, queue.index seq = seq % queue.size

theorem masked_new [Inhabited α] (k : Nat) : Masked (new (α := α) (2 ^ k)) := by
  have positive : 0 < 2 ^ k := Nat.two_pow_pos k
  exact ⟨Nat.sub_add_cancel positive, fun seq => Nat.and_two_pow_sub_one_eq_mod seq k⟩

theorem node_setNode (queue : MpmcQueue α) (seq other : Nat) (node : MpmcNode α) :
    (queue.setNode seq node).node other =
      if queue.index other = queue.index seq then node else queue.node other :=
  Function.update_apply ..

@[simp] theorem node_setNode_self (queue : MpmcQueue α) (seq : Nat) (node : MpmcNode α) :
    (queue.setNode seq node).node seq = node := by
  rw [node_setNode, if_pos rfl]

/-- The places of one round have different nodes. -/
theorem node_setNode_of_ne {queue : MpmcQueue α} (masked : Masked queue) {seq other : Nat}
    (node : MpmcNode α) (ne : other ≠ seq) (below : other < seq + queue.size)
    (above : seq < other + queue.size) : (queue.setNode seq node).node other = queue.node other := by
  rw [node_setNode, if_neg]
  intro same
  rw [masked.2, masked.2] at same
  exact ne (eq_of_mod_eq below above same)

/-- A place and the one a round later have one node. -/
theorem node_add_size {queue : MpmcQueue α} (masked : Masked queue) (seq : Nat) :
    queue.node (seq + queue.size) = queue.node seq := by
  rw [MpmcQueue.node, MpmcQueue.node, masked.2, masked.2, Nat.add_mod_right]

/-- A sequence number that grows at one node grows at every place. -/
theorem seq_le_setNode {queue : MpmcQueue α} {seq : Nat} {node : MpmcNode α}
    (grows : (queue.node seq).seq ≤ node.seq) (other : Nat) :
    (queue.node other).seq ≤ ((queue.setNode seq node).node other).seq := by
  rw [node_setNode]
  split
  next same => rwa [show queue.node other = queue.node seq by
    rw [MpmcQueue.node, MpmcQueue.node, same]]
  next => exact Nat.le_refl _

/-! ## What a thread relies on -/

/-- What the local variables of a thread promise. -/
def Local (queue : MpmcQueue α) : Place α → Prop
  | .enqueueLoad _ headSeq => headSeq ≤ queue.headSeq
  | .enqueueTake _ headSeq nodeSeq =>
      headSeq ≤ queue.headSeq ∧ nodeSeq ≤ (queue.node headSeq).seq ∧
        nodeSeq ≤ queue.tailSeq + queue.size
  | .enqueueWrite data seq =>
      queue.tailSeq ≤ seq ∧ seq < queue.headSeq ∧ (queue.node seq).seq = seq ∧
        queue.enqueued[seq]? = some data
  | .enqueueStore seq =>
      queue.tailSeq ≤ seq ∧ seq < queue.headSeq ∧ (queue.node seq).seq = seq ∧
        queue.enqueued[seq]? = some (queue.node seq).data
  | .dequeueLoad tailSeq => tailSeq ≤ queue.tailSeq
  | .dequeueTake tailSeq nodeSeq =>
      tailSeq ≤ queue.tailSeq ∧ nodeSeq ≤ (queue.node tailSeq).seq ∧
        nodeSeq ≤ queue.tailSeq + queue.size
  | .dequeueRead seq =>
      seq < queue.tailSeq ∧ queue.headSeq ≤ seq + queue.size ∧ (queue.node seq).seq = seq + 1 ∧
        queue.enqueued[seq]? = some (queue.node seq).data ∧
        seq ∉ queue.dequeued.map Prod.fst
  | .dequeueStore seq =>
      seq < queue.tailSeq ∧ queue.headSeq ≤ seq + queue.size ∧ (queue.node seq).seq = seq + 1
  | .idle | .enqueue _ | .dequeue => True

/-- The node of every place that no thread holds shows what the place is used for. -/
structure Sound (queue : MpmcQueue α) (threads : ι → Place α) : Prop where
  two : 2 ≤ queue.size
  masked : Masked queue
  length : queue.enqueued.length = queue.headSeq
  known : ∀ i, Local queue (threads i)
  oneWrites : ∀ {i j seq}, Writes (threads i) seq → Writes (threads j) seq → i = j
  oneReads : ∀ {i j seq}, Reads (threads i) seq → Reads (threads j) seq → i = j
  /-- A place with an item. -/
  full : ∀ seq, queue.tailSeq ≤ seq → seq < queue.headSeq → (∀ i, ¬ Writes (threads i) seq) →
    (queue.node seq).seq = seq + 1 ∧ queue.enqueued[seq]? = some (queue.node seq).data
  /-- A place whose item was got. -/
  freed : ∀ seq, queue.headSeq ≤ seq + queue.size → seq < queue.tailSeq →
    (∀ i, ¬ Reads (threads i) seq) → (queue.node seq).seq = seq + queue.size
  /-- A place of the first round that was not reached. -/
  fresh : ∀ seq, queue.headSeq ≤ seq → seq < queue.size → (queue.node seq).seq = seq
  seq_le : ∀ seq, (queue.node seq).seq ≤ queue.tailSeq + queue.size
  fifo : Fifo queue threads

variable {queue queue' : MpmcQueue α} {threads : ι → Place α} {i j : ι} {place : Place α}
  {seq : Nat}

theorem Writes.local_ (writes : Writes place seq) (known : Local queue place) :
    queue.tailSeq ≤ seq ∧ seq < queue.headSeq ∧ (queue.node seq).seq = seq := by
  rcases writes with ⟨data, rfl⟩ | rfl
  · exact ⟨known.1, known.2.1, known.2.2.1⟩
  · exact ⟨known.1, known.2.1, known.2.2.1⟩

theorem Reads.local_ (reads : Reads place seq) (known : Local queue place) :
    seq < queue.tailSeq ∧ queue.headSeq ≤ seq + queue.size ∧ (queue.node seq).seq = seq + 1 := by
  rcases reads with rfl | rfl
  · exact ⟨known.1, known.2.1, known.2.2.1⟩
  · exact known

omit [DecidableEq ι] in
theorem Sound.small (sound : Sound queue threads) :
    queue.tailSeq ≤ queue.headSeq ∧ queue.headSeq ≤ queue.tailSeq + queue.size := by
  have := sound.fifo.bounded
  rwa [sound.length] at this

omit [DecidableEq ι] in
/-- The next place for an item is not ahead of its node, and is free if the node agrees. -/
theorem Sound.head_node (sound : Sound queue threads) :
    (queue.node queue.headSeq).seq ≤ queue.headSeq ∧
      ((queue.node queue.headSeq).seq = queue.headSeq →
        queue.headSeq < queue.tailSeq + queue.size) := by
  obtain ⟨low, high⟩ := sound.small
  have two := sound.two
  by_cases first : queue.headSeq < queue.size
  · have := sound.fresh queue.headSeq (Nat.le_refl _) first
    omega
  obtain ⟨seq, round⟩ : ∃ seq, queue.headSeq = seq + queue.size :=
    ⟨queue.headSeq - queue.size, by omega⟩
  rw [round, node_add_size sound.masked]
  by_cases got : seq < queue.tailSeq
  · by_cases reads : ∃ i, Reads (threads i) seq
    · obtain ⟨i, reads⟩ := reads
      have := (reads.local_ (sound.known i)).2.2
      omega
    · have := sound.freed seq (by omega) got (not_exists.mp reads)
      omega
  · -- the queue is full
    by_cases writes : ∃ i, Writes (threads i) seq
    · obtain ⟨i, writes⟩ := writes
      have := (writes.local_ (sound.known i)).2.2
      omega
    · have := (sound.full seq (by omega) (by omega) (not_exists.mp writes)).1
      omega

omit [DecidableEq ι] in
/-- The node of the next item is not ahead of it either, and if it shows an item it is complete. -/
theorem Sound.tail_node (sound : Sound queue threads) :
    (queue.node queue.tailSeq).seq ≤ queue.tailSeq + 1 ∧
      ((queue.node queue.tailSeq).seq = queue.tailSeq + 1 →
        queue.tailSeq < queue.headSeq ∧ (∀ i, ¬ Writes (threads i) queue.tailSeq) ∧
          queue.enqueued[queue.tailSeq]? = some (queue.node queue.tailSeq).data) := by
  have low := sound.small.1
  by_cases empty : queue.tailSeq = queue.headSeq
  · have := sound.head_node.1
    rw [← empty] at this
    omega
  by_cases writes : ∃ i, Writes (threads i) queue.tailSeq
  · obtain ⟨i, writes⟩ := writes
    have := (writes.local_ (sound.known i)).2.2
    omega
  · have := sound.full queue.tailSeq (Nat.le_refl _) (by omega) (not_exists.mp writes)
    exact ⟨by omega, fun _ => ⟨by omega, not_exists.mp writes, this.2⟩⟩

/-! ## The moves -/

/-- The thread holds no place. -/
structure Quiet (place : Place α) : Prop where
  writes : ∀ seq, ¬ Writes place seq
  reads : ∀ seq, ¬ Reads place seq

theorem quiet_idle : Quiet (Place.idle : Place α) where
  writes := by rintro seq (⟨data, there⟩ | there) <;> cases there
  reads := by rintro seq (there | there) <;> cases there

theorem writes_update (writes : Writes (Function.update threads i place j) seq) :
    j = i ∧ Writes place seq ∨ Writes (threads j) seq := by
  by_cases same : j = i
  · subst same
    rw [Function.update_self] at writes
    exact Or.inl ⟨rfl, writes⟩
  · rw [Function.update_of_ne same] at writes
    exact Or.inr writes

theorem reads_update (reads : Reads (Function.update threads i place j) seq) :
    j = i ∧ Reads place seq ∨ Reads (threads j) seq := by
  by_cases same : j = i
  · subst same
    rw [Function.update_self] at reads
    exact Or.inl ⟨rfl, reads⟩
  · rw [Function.update_of_ne same] at reads
    exact Or.inr reads

/-- A place that no thread holds behind the move was held by the moving thread only. -/
theorem not_writes_of_update (quiet : ¬ Writes (threads i) seq)
    (none_writes : ∀ j, ¬ Writes (Function.update threads i place j) seq) (j : ι) :
    ¬ Writes (threads j) seq := by
  intro writes
  have other : j ≠ i := fun same => quiet (same ▸ writes)
  exact none_writes j (by rwa [Function.update_of_ne other])

theorem not_reads_of_update (quiet : ¬ Reads (threads i) seq)
    (none_reads : ∀ j, ¬ Reads (Function.update threads i place j) seq) (j : ι) :
    ¬ Reads (threads j) seq := by
  intro reads
  have other : j ≠ i := fun same => quiet (same ▸ reads)
  exact none_reads j (by rwa [Function.update_of_ne other])

theorem oneWrites_update (one : ∀ {i j seq}, Writes (threads i) seq → Writes (threads j) seq → i = j)
    (new : ∀ {j seq}, Writes place seq → Writes (threads j) seq → j = i) {j j' : ι}
    (first : Writes (Function.update threads i place j) seq)
    (second : Writes (Function.update threads i place j') seq) : j = j' := by
  rcases writes_update first with ⟨rfl, here⟩ | held <;>
    rcases writes_update second with ⟨rfl, there⟩ | held'
  · rfl
  · exact (new here held').symm
  · exact new there held
  · exact one held held'

theorem oneReads_update (one : ∀ {i j seq}, Reads (threads i) seq → Reads (threads j) seq → i = j)
    (new : ∀ {j seq}, Reads place seq → Reads (threads j) seq → j = i) {j j' : ι}
    (first : Reads (Function.update threads i place j) seq)
    (second : Reads (Function.update threads i place j') seq) : j = j' := by
  rcases reads_update first with ⟨rfl, here⟩ | held <;>
    rcases reads_update second with ⟨rfl, there⟩ | held'
  · rfl
  · exact (new here held').symm
  · exact new there held
  · exact one held held'

theorem known_update (known : Local queue' place) (others : ∀ j, j ≠ i → Local queue' (threads j))
    (j : ι) : Local queue' (Function.update threads i place j) := by
  by_cases same : j = i
  · subst same
    rwa [Function.update_self]
  · rw [Function.update_of_ne same]
    exact others j same

/-- The threads that are about to read, if the moving one is not among them. -/
theorem exists_dequeueRead_update (before : threads i ≠ .dequeueRead seq)
    (behind : place ≠ .dequeueRead seq) :
    (∃ j, threads j = .dequeueRead seq) ↔
      ∃ j, Function.update threads i place j = .dequeueRead seq := by
  refine exists_congr fun j => ?_
  by_cases same : j = i
  · subst same
    simp [before, behind]
  · rw [Function.update_of_ne same]

theorem Quiet.ne_dequeueRead (quiet : Quiet place) (seq : Nat) : place ≠ .dequeueRead seq :=
  fun same => quiet.reads seq (Or.inl same)

/-- A thread that only moves within its call keeps everything. -/
theorem Sound.moveTo (sound : Sound queue threads) (before : Quiet (threads i))
    (behind : Quiet place) (known : Local queue place) :
    Sound queue (Function.update threads i place) where
  two := sound.two
  masked := sound.masked
  length := sound.length
  known := known_update known fun j _ => sound.known j
  oneWrites := oneWrites_update sound.oneWrites fun here => absurd here (behind.writes _)
  oneReads := oneReads_update sound.oneReads fun here => absurd here (behind.reads _)
  full := fun seq low high none_writes =>
    sound.full seq low high (not_writes_of_update (before.writes seq) none_writes)
  freed := fun seq low high none_reads =>
    sound.freed seq low high (not_reads_of_update (before.reads seq) none_reads)
  fresh := sound.fresh
  seq_le := sound.seq_le
  fifo :=
    { items := sound.fifo.items
      once := sound.fifo.once
      bounded := sound.fifo.bounded
      all := fun seq => (sound.fifo.all seq).trans (or_congr Iff.rfl
        (exists_dequeueRead_update (before.ne_dequeueRead seq) (behind.ne_dequeueRead seq))) }

/-- A thread relies on the node of the place that it holds and on bounds that only grow. -/
theorem Local.frame (known : Local queue place) (size_eq : queue'.size = queue.size)
    (head_le : queue.headSeq ≤ queue'.headSeq) (tail_le : queue.tailSeq ≤ queue'.tailSeq)
    (seqs : ∀ seq, (queue.node seq).seq ≤ (queue'.node seq).seq)
    (items : ∀ {seq : Nat} {item}, queue.enqueued[seq]? = some item →
      queue'.enqueued[seq]? = some item)
    (writes : ∀ {seq}, Writes place seq →
      queue'.node seq = queue.node seq ∧ queue'.tailSeq ≤ seq)
    (reads : ∀ {seq}, Reads place seq →
      queue'.node seq = queue.node seq ∧ queue'.headSeq ≤ seq + queue.size)
    (got : ∀ {seq}, place = .dequeueRead seq → seq ∉ queue.dequeued.map Prod.fst →
      seq ∉ queue'.dequeued.map Prod.fst) : Local queue' place := by
  cases place with
  | idle | enqueue | dequeue => trivial
  | enqueueLoad data headSeq => exact Nat.le_trans known head_le
  | dequeueLoad tailSeq => exact Nat.le_trans known tail_le
  | enqueueTake data headSeq nodeSeq =>
      obtain ⟨low, seen, bound⟩ := known
      exact ⟨Nat.le_trans low head_le, Nat.le_trans seen (seqs _), by omega⟩
  | dequeueTake tailSeq nodeSeq =>
      obtain ⟨low, seen, bound⟩ := known
      exact ⟨Nat.le_trans low tail_le, Nat.le_trans seen (seqs _), by omega⟩
  | enqueueWrite data seq =>
      obtain ⟨low, high, shown, item⟩ := known
      obtain ⟨same, low'⟩ := writes (Or.inl ⟨data, rfl⟩)
      exact ⟨low', Nat.lt_of_lt_of_le high head_le, by rw [same]; exact shown, items item⟩
  | enqueueStore seq =>
      obtain ⟨low, high, shown, item⟩ := known
      obtain ⟨same, low'⟩ := writes (Or.inr rfl)
      refine ⟨low', Nat.lt_of_lt_of_le high head_le, by rw [same]; exact shown, ?_⟩
      rw [same]
      exact items item
  | dequeueRead seq =>
      obtain ⟨low, high, shown, item, missing⟩ := known
      obtain ⟨same, high'⟩ := reads (Or.inl rfl)
      refine ⟨Nat.lt_of_lt_of_le low tail_le, by rwa [size_eq], by rw [same]; exact shown, ?_,
        got rfl missing⟩
      rw [same]
      exact items item
  | dequeueStore seq =>
      obtain ⟨low, high, shown⟩ := known
      obtain ⟨same, high'⟩ := reads (Or.inr rfl)
      exact ⟨Nat.lt_of_lt_of_le low tail_le, by rwa [size_eq], by rw [same]; exact shown⟩

theorem getElem?_append_some {items : List α} {item : α} (data : α)
    (found : items[seq]? = some item) : (items ++ [data])[seq]? = some item := by
  obtain ⟨inside, rfl⟩ := List.getElem?_eq_some_iff.mp found
  rw [List.getElem?_append_left inside, List.getElem?_eq_getElem inside]

/-- `enqueue` takes the next place. -/
theorem Sound.take_head (sound : Sound queue threads) {data : α} (before : Quiet (threads i))
    (free : (queue.node queue.headSeq).seq = queue.headSeq) :
    Sound { queue with headSeq := queue.headSeq + 1, enqueued := queue.enqueued ++ [data] }
      (Function.update threads i (.enqueueWrite data queue.headSeq)) := by
  have two := sound.two
  have low := sound.small.1
  have room := sound.head_node.2 free
  have quiet : ∀ seq, ¬ Reads (Place.enqueueWrite data queue.headSeq) seq := by
    rintro seq (here | here) <;> cases here
  have place_eq : ∀ {seq}, Writes (Place.enqueueWrite data queue.headSeq) seq →
      seq = queue.headSeq := by
    rintro seq (⟨_, here⟩ | here) <;> cases here
    rfl
  exact
    { two
      masked := sound.masked
      length := by simp [sound.length]
      known := known_update ⟨low, Nat.lt_succ_self _, free, by rw [← sound.length]; simp⟩
        fun j _ => Local.frame (sound.known j) rfl (Nat.le_succ _) (Nat.le_refl _)
          (fun _ => Nat.le_refl _) (getElem?_append_some data)
          (fun writes => ⟨rfl, (writes.local_ (sound.known j)).1⟩)
          (fun {seq} reads => by
            obtain ⟨got, round, shown⟩ := reads.local_ (sound.known j)
            refine ⟨rfl, ?_⟩
            -- the node of the next place is not the one of an item that is being read
            by_contra full
            have next : queue.headSeq = seq + queue.size := by
              simp only at full
              omega
            rw [next, node_add_size sound.masked, shown] at free
            omega)
          fun _ missing => missing
      oneWrites := oneWrites_update sound.oneWrites fun {j _} here writes => by
        have := (writes.local_ (sound.known j)).2.1
        have := place_eq here
        omega
      oneReads := oneReads_update sound.oneReads fun here => absurd here (quiet _)
      full := fun seq above below none_writes => by
        have ne : seq ≠ queue.headSeq := by
          rintro rfl
          exact none_writes i (by rw [Function.update_self]; exact Or.inl ⟨data, rfl⟩)
        simp only at below
        obtain ⟨shown, item⟩ := sound.full seq above (by omega)
          (not_writes_of_update (before.writes seq) none_writes)
        exact ⟨shown, getElem?_append_some data item⟩
      freed := fun seq round got none_reads => sound.freed seq (Nat.le_of_succ_le round) got
        (not_reads_of_update (before.reads seq) none_reads)
      fresh := fun seq above => sound.fresh seq (Nat.le_of_succ_le above)
      seq_le := sound.seq_le
      fifo :=
        { items := fun entry member => getElem?_append_some data (sound.fifo.items entry member)
          once := sound.fifo.once
          all := fun seq => (sound.fifo.all seq).trans (or_congr Iff.rfl
            (exists_dequeueRead_update (before.ne_dequeueRead seq) (fun here => by cases here)))
          bounded := by
            simp only [List.length_append, List.length_singleton, sound.length]
            omega } }

/-- `enqueue` writes the item into the node of its place. -/
theorem Sound.write (sound : Sound queue threads) {data : α}
    (here : threads i = .enqueueWrite data seq) :
    Sound (queue.setNode seq { queue.node seq with data })
      (Function.update threads i (.enqueueStore seq)) := by
  obtain ⟨low, high, shown, item⟩ : Local queue (.enqueueWrite data seq) := here ▸ sound.known i
  have small := sound.small
  have same_seq : ∀ other, ((queue.setNode seq { queue.node seq with data }).node other).seq =
      (queue.node other).seq := by
    intro other
    rw [node_setNode]
    split
    next same => rw [MpmcQueue.node, MpmcQueue.node, same]
    next => rfl
  have holds : Writes (threads i) seq := Or.inl ⟨data, here⟩
  have unread : ∀ {seq}, ¬ Reads (threads i) seq := by
    rintro other (there | there) <;> rw [here] at there <;> cases there
  have kept : ∀ {other}, other ≠ seq → other < seq + queue.size → seq < other + queue.size →
      (queue.setNode seq { queue.node seq with data }).node other = queue.node other :=
    fun ne below above => node_setNode_of_ne sound.masked _ ne below above
  exact
    { two := sound.two
      masked := sound.masked
      length := sound.length
      known := known_update
        ⟨low, high, by rw [same_seq]; exact shown, by rw [node_setNode_self]; exact item⟩
        fun j other => Local.frame (sound.known j) rfl (Nat.le_refl _) (Nat.le_refl _)
          (fun _ => Nat.le_of_eq (same_seq _).symm) (fun found => found)
          (fun {seq'} writes => by
            obtain ⟨low', high', -⟩ := writes.local_ (sound.known j)
            have ne : seq' ≠ seq := fun same => other (sound.oneWrites (same ▸ writes) holds)
            exact ⟨kept ne (by omega) (by omega), low'⟩)
          (fun {seq'} reads => by
            obtain ⟨got, round, -⟩ := reads.local_ (sound.known j)
            exact ⟨kept (by omega) (by omega) (by omega), round⟩)
          fun _ missing => missing
      oneWrites := oneWrites_update sound.oneWrites fun {j seq'} there writes => by
        obtain rfl : seq' = seq := by
          rcases there with ⟨_, there⟩ | there <;> cases there
          rfl
        exact sound.oneWrites writes holds
      oneReads := oneReads_update sound.oneReads fun there => by
        rcases there with there | there <;> cases there
      full := fun seq' above below none_writes => by
        have ne : seq' ≠ seq := by
          rintro rfl
          exact none_writes i (by rw [Function.update_self]; exact Or.inr rfl)
        have before : ¬ Writes (threads i) seq' := fun writes => ne (by
          rcases writes with ⟨_, there⟩ | there <;> rw [here] at there <;> cases there
          rfl)
        simp only [setNode] at above below
        rw [kept ne (by omega) (by omega)]
        exact sound.full seq' above below (not_writes_of_update before none_writes)
      freed := fun seq' round got none_reads => by
        rw [same_seq]
        exact sound.freed seq' round got (not_reads_of_update unread none_reads)
      fresh := fun seq' above first => (same_seq seq').trans (sound.fresh seq' above first)
      seq_le := fun seq' => (same_seq seq').symm ▸ sound.seq_le seq'
      fifo :=
        { items := sound.fifo.items
          once := sound.fifo.once
          bounded := sound.fifo.bounded
          all := fun seq' => (sound.fifo.all seq').trans (or_congr Iff.rfl
            (exists_dequeueRead_update (fun there => by rw [here] at there; cases there)
              (fun there => by cases there))) } }

/-- `enqueue` makes its item known. -/
theorem Sound.store (sound : Sound queue threads) (here : threads i = .enqueueStore seq) :
    Sound (queue.setNode seq { queue.node seq with seq := seq + 1 })
      (Function.update threads i .idle) := by
  obtain ⟨low, high, shown, item⟩ : Local queue (.enqueueStore seq) := here ▸ sound.known i
  have small := sound.small
  have holds : Writes (threads i) seq := Or.inr here
  have unread : ∀ {seq}, ¬ Reads (threads i) seq := by
    rintro other (there | there) <;> rw [here] at there <;> cases there
  have quiet : Quiet (Place.idle : Place α) := quiet_idle
  have kept : ∀ {other}, other ≠ seq → other < seq + queue.size → seq < other + queue.size →
      (queue.setNode seq { queue.node seq with seq := seq + 1 }).node other = queue.node other :=
    fun ne below above => node_setNode_of_ne sound.masked _ ne below above
  exact
    { two := sound.two
      masked := sound.masked
      length := sound.length
      known := known_update trivial
        fun j other => Local.frame (sound.known j) rfl (Nat.le_refl _) (Nat.le_refl _)
          (seq_le_setNode (by simp only; omega)) (fun found => found)
          (fun {seq'} writes => by
            obtain ⟨low', high', -⟩ := writes.local_ (sound.known j)
            have ne : seq' ≠ seq := fun same => other (sound.oneWrites (same ▸ writes) holds)
            exact ⟨kept ne (by omega) (by omega), low'⟩)
          (fun {seq'} reads => by
            obtain ⟨got, round, -⟩ := reads.local_ (sound.known j)
            exact ⟨kept (by omega) (by omega) (by omega), round⟩)
          fun _ missing => missing
      oneWrites := oneWrites_update sound.oneWrites fun there => absurd there (quiet.writes _)
      oneReads := oneReads_update sound.oneReads fun there => absurd there (quiet.reads _)
      full := fun seq' above below none_writes => by
        simp only [setNode] at above below
        by_cases same : seq' = seq
        · subst same
          rw [node_setNode_self]
          exact ⟨rfl, item⟩
        · have before : ¬ Writes (threads i) seq' := fun writes => same (by
            rcases writes with ⟨_, there⟩ | there <;> rw [here] at there <;> cases there
            rfl)
          rw [kept same (by omega) (by omega)]
          exact sound.full seq' above below (not_writes_of_update before none_writes)
      freed := fun seq' round got none_reads => by
        simp only [setNode] at round got
        rw [kept (by omega) (by omega) (by omega)]
        exact sound.freed seq' round got (not_reads_of_update unread none_reads)
      fresh := fun seq' above first => by
        simp only [setNode] at above first
        rw [kept (by omega) (by omega) (by omega)]
        exact sound.fresh seq' above first
      seq_le := fun seq' => by
        rw [node_setNode]
        simp only [setNode]
        split
        · simp only
          omega
        · exact sound.seq_le seq'
      fifo :=
        { items := sound.fifo.items
          once := sound.fifo.once
          bounded := sound.fifo.bounded
          all := fun seq' => (sound.fifo.all seq').trans (or_congr Iff.rfl
            (exists_dequeueRead_update (fun there => by rw [here] at there; cases there)
              (fun there => by cases there))) } }

/-- `dequeue` takes the next item. -/
theorem Sound.take_tail (sound : Sound queue threads) (before : Quiet (threads i))
    (shows_item : (queue.node queue.tailSeq).seq = queue.tailSeq + 1) :
    Sound { queue with tailSeq := queue.tailSeq + 1 }
      (Function.update threads i (.dequeueRead queue.tailSeq)) := by
  have small := sound.small
  obtain ⟨below, unwritten, item⟩ := sound.tail_node.2 shows_item
  have place_eq : ∀ {seq}, Reads (Place.dequeueRead queue.tailSeq : Place α) seq →
      seq = queue.tailSeq := by
    rintro seq (there | there) <;> cases there
    rfl
  have quiet : ∀ seq, ¬ Writes (Place.dequeueRead queue.tailSeq : Place α) seq := by
    rintro seq (⟨_, there⟩ | there) <;> cases there
  have ungot : queue.tailSeq ∉ queue.dequeued.map Prod.fst := fun member =>
    Nat.lt_irrefl _ ((sound.fifo.all _).mpr (Or.inl member))
  exact
    { two := sound.two
      masked := sound.masked
      length := sound.length
      known := known_update ⟨Nat.lt_succ_self _, by simpa using small.2, shows_item, item, ungot⟩
        fun j _ => Local.frame (sound.known j) rfl (Nat.le_refl _) (Nat.le_succ _)
          (fun _ => Nat.le_refl _) (fun found => found)
          (fun {seq} writes => by
            obtain ⟨low, -, -⟩ := writes.local_ (sound.known j)
            have ne : seq ≠ queue.tailSeq := fun same => unwritten j (same ▸ writes)
            exact ⟨rfl, by simp only; omega⟩)
          (fun reads => ⟨rfl, (reads.local_ (sound.known j)).2.1⟩) fun _ missing => missing
      oneWrites := oneWrites_update sound.oneWrites fun there => absurd there (quiet _)
      oneReads := oneReads_update sound.oneReads fun {j _} there reads => by
        have := (reads.local_ (sound.known j)).1
        have := place_eq there
        omega
      full := fun seq above below none_writes => sound.full seq (Nat.le_of_succ_le above) below
        (not_writes_of_update (before.writes seq) none_writes)
      freed := fun seq round got none_reads => by
        have ne : seq ≠ queue.tailSeq := by
          rintro rfl
          exact none_reads i (by rw [Function.update_self]; exact Or.inl rfl)
        simp only at got
        exact sound.freed seq round (by omega) (not_reads_of_update (before.reads seq) none_reads)
      fresh := sound.fresh
      seq_le := fun seq => Nat.le_trans (sound.seq_le seq) (by simp only; omega)
      fifo :=
        { items := sound.fifo.items
          once := sound.fifo.once
          bounded := by
            simp only [sound.length]
            omega
          all := fun seq => by
            simp only [Nat.lt_succ_iff_lt_or_eq, sound.fifo.all seq]
            constructor
            · rintro ((got | ⟨j, reads⟩) | rfl)
              · exact Or.inl got
              · have other : j ≠ i := fun same => before.reads seq (same ▸ Or.inl reads)
                exact Or.inr ⟨j, by rw [Function.update_of_ne other, reads]⟩
              · exact Or.inr ⟨i, Function.update_self ..⟩
            · rintro (got | ⟨j, reads⟩)
              · exact Or.inl (Or.inl got)
              · by_cases same : j = i
                · subst same
                  rw [Function.update_self] at reads
                  cases reads
                  exact Or.inr rfl
                · rw [Function.update_of_ne same] at reads
                  exact Or.inl (Or.inr ⟨j, reads⟩) } }

/-- `dequeue` reads the item of its place. -/
theorem Sound.read (sound : Sound queue threads) (here : threads i = .dequeueRead seq) :
    Sound { queue with dequeued := queue.dequeued ++ [(seq, (queue.node seq).data)] }
      (Function.update threads i (.dequeueStore seq)) := by
  obtain ⟨got, round, shown, item, ungot⟩ : Local queue (.dequeueRead seq) := here ▸ sound.known i
  have holds : Reads (threads i) seq := Or.inl here
  have unwritten : ∀ {seq}, ¬ Writes (threads i) seq := by
    rintro other (⟨_, there⟩ | there) <;> rw [here] at there <;> cases there
  have quiet : ∀ {seq'}, ¬ Writes (Place.dequeueStore seq : Place α) seq' := by
    rintro seq' (⟨_, there⟩ | there) <;> cases there
  have place_eq : ∀ {seq'}, Reads (Place.dequeueStore seq : Place α) seq' → seq' = seq := by
    rintro seq' (there | there) <;> cases there
    rfl
  have place_eq' : ∀ {seq'}, Reads (threads i) seq' → seq' = seq := by
    rintro seq' (there | there) <;> rw [here] at there <;> cases there
    rfl
  exact
    { two := sound.two
      masked := sound.masked
      length := sound.length
      known := known_update ⟨got, round, shown⟩ fun j other =>
        Local.frame (sound.known j) rfl (Nat.le_refl _) (Nat.le_refl _) (fun _ => Nat.le_refl _)
          (fun found => found) (fun writes => ⟨rfl, (writes.local_ (sound.known j)).1⟩)
          (fun reads => ⟨rfl, (reads.local_ (sound.known j)).2.1⟩)
          (fun {seq'} there missing => by
            have ne : seq' ≠ seq := by
              rintro rfl
              exact other (sound.oneReads (Or.inl there) holds)
            simpa [ne] using missing)
      oneWrites := oneWrites_update sound.oneWrites fun there => absurd there quiet
      oneReads := oneReads_update sound.oneReads fun there reads => by
        rw [place_eq there] at reads
        exact sound.oneReads reads holds
      full := fun seq' above below none_writes =>
        sound.full seq' above below (not_writes_of_update unwritten none_writes)
      freed := fun seq' round' got' none_reads => by
        refine sound.freed seq' round' got' fun j reads => none_reads j ?_
        by_cases same : j = i
        · subst same
          rw [Function.update_self, place_eq' reads]
          exact Or.inr rfl
        · rwa [Function.update_of_ne same]
      fresh := sound.fresh
      seq_le := sound.seq_le
      fifo :=
        { items := fun entry member => by
            rcases List.mem_append.mp member with member | member
            · exact sound.fifo.items entry member
            · obtain rfl := List.mem_singleton.mp member
              exact item
          once := by
            rw [List.map_append, List.nodup_append]
            refine ⟨sound.fifo.once, by simp, ?_⟩
            rintro seq' member _ last rfl
            simp only [List.map_cons, List.map_nil, List.mem_singleton] at last
            exact ungot (last ▸ member)
          bounded := sound.fifo.bounded
          all := fun seq' => by
            rw [sound.fifo.all seq']
            simp only [List.map_append, List.map_cons, List.map_nil, List.mem_append,
              List.mem_singleton]
            constructor
            · rintro (member | ⟨j, reads⟩)
              · exact Or.inl (Or.inl member)
              · by_cases same : j = i
                · subst same
                  exact Or.inl (Or.inr (place_eq' (Or.inl reads)))
                · exact Or.inr ⟨j, by rw [Function.update_of_ne same, reads]⟩
            · rintro ((member | rfl) | ⟨j, reads⟩)
              · exact Or.inl member
              · exact Or.inr ⟨i, here⟩
              · have other : j ≠ i := fun same => by simp [same] at reads
                exact Or.inr ⟨j, by rwa [Function.update_of_ne other] at reads⟩ } }

/-- `dequeue` frees the node of its place for the next round. -/
theorem Sound.release (sound : Sound queue threads) (here : threads i = .dequeueStore seq) :
    Sound (queue.setNode seq { queue.node seq with seq := seq + queue.mask + 1 })
      (Function.update threads i .idle) := by
  have two := sound.two
  rw [Nat.add_assoc, sound.masked.1]
  obtain ⟨got, round, shown⟩ : Local queue (.dequeueStore seq) := here ▸ sound.known i
  have small := sound.small
  have holds : Reads (threads i) seq := Or.inr here
  have unwritten : ∀ {seq}, ¬ Writes (threads i) seq := by
    rintro other (⟨_, there⟩ | there) <;> rw [here] at there <;> cases there
  have quiet : Quiet (Place.idle : Place α) := quiet_idle
  have kept : ∀ {other}, other ≠ seq → other < seq + queue.size → seq < other + queue.size →
      (queue.setNode seq { queue.node seq with seq := seq + queue.size }).node other =
        queue.node other :=
    fun ne below above => node_setNode_of_ne sound.masked _ ne below above
  exact
    { two
      masked := sound.masked
      length := sound.length
      known := known_update trivial
        fun j other => Local.frame (sound.known j) rfl (Nat.le_refl _) (Nat.le_refl _)
          (seq_le_setNode (by simp only; omega)) (fun found => found)
          (fun {seq'} writes => by
            obtain ⟨low', high', -⟩ := writes.local_ (sound.known j)
            exact ⟨kept (by omega) (by omega) (by omega), low'⟩)
          (fun {seq'} reads => by
            obtain ⟨got', round', -⟩ := reads.local_ (sound.known j)
            have ne : seq' ≠ seq := fun same => other (sound.oneReads (same ▸ reads) holds)
            exact ⟨kept ne (by omega) (by omega), round'⟩)
          fun _ missing => missing
      oneWrites := oneWrites_update sound.oneWrites fun there => absurd there (quiet.writes _)
      oneReads := oneReads_update sound.oneReads fun there => absurd there (quiet.reads _)
      full := fun seq' above below none_writes => by
        simp only [setNode] at above below
        rw [kept (by omega) (by omega) (by omega)]
        exact sound.full seq' above below (not_writes_of_update unwritten none_writes)
      freed := fun seq' round' got' none_reads => by
        simp only [setNode] at round' got'
        by_cases same : seq' = seq
        · subst same
          rw [node_setNode_self]
          rfl
        · have before : ¬ Reads (threads i) seq' := fun reads => same (by
            rcases reads with there | there <;> rw [here] at there <;> cases there
            rfl)
          rw [kept same (by omega) (by omega)]
          exact sound.freed seq' round' got' (not_reads_of_update before none_reads)
      fresh := fun seq' above first => by
        simp only [setNode] at above first
        rw [kept (by omega) (by omega) (by omega)]
        exact sound.fresh seq' above first
      seq_le := fun seq' => by
        rw [node_setNode]
        simp only [setNode]
        split
        · simp only
          omega
        · exact sound.seq_le seq'
      fifo :=
        { items := sound.fifo.items
          once := sound.fifo.once
          bounded := sound.fifo.bounded
          all := fun seq' => (sound.fifo.all seq').trans (or_congr Iff.rfl
            (exists_dequeueRead_update (fun there => by rw [here] at there; cases there)
              (fun there => by cases there))) } }

/-! ## Runs -/

theorem sizeT_of_lt {n : Nat} (small : n < 2 ^ 63) : sizeT n = n :=
  Nat.mod_eq_of_lt (by omega)

theorem intptr_of_lt {n : Nat} (small : n < 2 ^ 63) : intptr n = n := if_pos small

omit [DecidableEq ι] in
/-- A thread whose sequence numbers agree with `_head_seq` sees a free node. -/
theorem Sound.free_of_agree (sound : Sound queue threads) {data : α} {nodeSeq : Nat}
    (small : queue.headSeq + queue.size + 1 < 2 ^ 63)
    (known : Local queue (.enqueueTake data queue.headSeq nodeSeq))
    (agree : intptr nodeSeq - intptr queue.headSeq = 0) :
    (queue.node queue.headSeq).seq = queue.headSeq := by
  obtain ⟨-, seen, bound⟩ := known
  have bounds := sound.small
  rw [intptr_of_lt (n := nodeSeq) (by omega), intptr_of_lt (n := queue.headSeq) (by omega)] at agree
  have := sound.head_node.1
  omega

omit [DecidableEq ι] in
/-- A thread whose sequence numbers agree with `_tail_seq` sees an item. -/
theorem Sound.item_of_agree (sound : Sound queue threads) {nodeSeq : Nat}
    (small : queue.headSeq + queue.size + 1 < 2 ^ 63)
    (known : Local queue (.dequeueTake queue.tailSeq nodeSeq))
    (agree : intptr nodeSeq - intptr (sizeT (queue.tailSeq + 1)) = 0) :
    (queue.node queue.tailSeq).seq = queue.tailSeq + 1 := by
  obtain ⟨-, seen, bound⟩ := known
  have bounds := sound.small
  rw [sizeT_of_lt (by omega), intptr_of_lt (n := nodeSeq) (by omega),
    intptr_of_lt (n := queue.tailSeq + 1) (by omega)] at agree
  have := sound.tail_node.1
  omega

/-- As long as the counters are far from their bounds, every move keeps the queue sound. -/
theorem Sound.kept {config next : Config (MpmcQueue α) (Place α) ι} {op : ι × Move α}
    (sound : Sound config.shared config.threads)
    (small : config.shared.headSeq + config.shared.size + 1 < 2 ^ 63)
    (made : step move config op = some next) : Sound next.shared next.threads := by
  obtain ⟨queue', place, moved, rfl⟩ := step_eq_some.mp made
  obtain ⟨i, op⟩ := op
  obtain ⟨queue, threads⟩ := config
  simp only at sound small moved ⊢
  have bounds := sound.small
  have known := sound.known i
  generalize here : threads i = before at moved known
  -- the moves inside a call
  have within : ∀ place, Quiet before → Quiet place → Local queue place →
      Sound queue (Function.update threads i place) :=
    fun place quiet => sound.moveTo (here.symm ▸ quiet)
  revert moved
  fun_cases move queue before op <;> intro moved <;> cases moved
  case case5 data nodeSeq agree =>
    have free := sound.free_of_agree small known agree
    rw [sizeT_of_lt (by omega)]
    exact sound.take_head (here.symm ▸ ⟨by simp [Writes], by simp [Reads]⟩) free
  case case11 data headSeq => exact sound.write here
  case case12 headSeq =>
    have := known.2.1
    rw [sizeT_of_lt (by omega)]
    exact sound.store here
  case case15 nodeSeq agree =>
    have item := sound.item_of_agree small known agree
    rw [sizeT_of_lt (by omega)]
    exact sound.take_tail (here.symm ▸ ⟨by simp [Writes], by simp [Reads]⟩) item
  case case21 tailSeq => exact sound.read here
  case case22 tailSeq =>
    have := known.1
    have := sound.masked.1
    rw [sizeT_of_lt (by omega)]
    exact sound.release here
  all_goals
    refine within _ ⟨by simp [Writes], by simp [Reads]⟩ ⟨by simp [Writes], by simp [Reads]⟩ ?_
  case case4 | case14 => exact ⟨known, Nat.le_refl _, sound.seq_le _⟩
  all_goals first | exact trivial | exact Nat.le_refl _

/-- A move takes one place at most. -/
theorem headSeq_le_of_step {config next : Config (MpmcQueue α) (Place α) ι} {op : ι × Move α}
    (made : step move config op = some next) :
    next.shared.headSeq ≤ config.shared.headSeq + 1 ∧ next.shared.size = config.shared.size := by
  obtain ⟨queue', place, moved, rfl⟩ := step_eq_some.mp made
  obtain ⟨i, op⟩ := op
  obtain ⟨queue, threads⟩ := config
  simp only at moved ⊢
  generalize threads i = before at moved
  revert moved
  fun_cases move queue before op <;> intro moved <;> cases moved
  case case5 => exact ⟨Nat.mod_le _ _, rfl⟩
  all_goals exact ⟨Nat.le_succ _, rfl⟩

/-- The bound on the counters holds throughout a run that is shorter than it. -/
theorem Sound.run {config final : Config (MpmcQueue α) (Place α) ι} {ops : List (ι × Move α)}
    (sound : Sound config.shared config.threads)
    (small : config.shared.headSeq + ops.length + config.shared.size < 2 ^ 63 - 1)
    (made : Execution.run (step move) config ops = some final) :
    Sound final.shared final.threads := by
  induction ops generalizing config with
  | nil =>
      obtain rfl : config = final := by simpa using made
      exact sound
  | cons op ops induction =>
      obtain ⟨next, first, rest⟩ := run_cons_eq_some.mp made
      obtain ⟨grows, size_eq⟩ := headSeq_le_of_step first
      rw [List.length_cons] at small
      exact induction (sound.kept (by omega) first) (by rw [size_eq]; omega) rest

omit [DecidableEq ι] in
theorem sound_start [Inhabited α] {k : Nat} (two : 1 ≤ k) (small : 2 ^ k < 2 ^ 63) :
    Sound (start (α := α) ι (2 ^ k)).shared (start (α := α) ι (2 ^ k)).threads := by
  have positive : 0 < 2 ^ k := Nat.two_pow_pos k
  have seq_eq : ∀ seq, ((new (α := α) (2 ^ k)).node seq).seq = seq % 2 ^ k := by
    intro seq
    have := Nat.mod_lt seq positive
    exact (congrArg sizeT ((masked_new (α := α) k).2 seq)).trans
      (sizeT_of_lt (Nat.lt_trans this small))
  exact
    { two := Nat.pow_le_pow_right (n := 2) (by decide) two
      masked := masked_new k
      length := rfl
      known := fun _ => trivial
      oneWrites := by rintro i j seq (⟨_, there⟩ | there) <;> cases there
      oneReads := by rintro i j seq (there | there) <;> cases there
      full := fun seq _ below => absurd below (Nat.not_lt_zero _)
      freed := fun seq _ below => absurd below (Nat.not_lt_zero _)
      fresh := fun seq _ inside => (seq_eq seq).trans (Nat.mod_eq_of_lt inside)
      seq_le := fun seq => by
        have := Nat.mod_lt seq positive
        refine Nat.le_trans (Nat.le_of_eq (seq_eq seq)) ?_
        simp only [start, new]
        omega
      fifo :=
        { items := fun _ member => by cases member
          once := List.nodup_nil
          all := fun seq => ⟨fun below => absurd below (Nat.not_lt_zero _), by
            rintro (member | ⟨i, there⟩)
            · cases member
            · cases there⟩
          bounded := ⟨Nat.le_refl _, Nat.zero_le _⟩ } }

/-- In every interleaving of any number of threads, too short to exhaust the 63 bits of the
counters, the queue neither loses nor repeats nor reorders an item and never holds more than its
size, exactly if its size, a power of 2 that the constructor admits, is not 1: the queue of size 1
takes a node with an item for a free one. -/
theorem fifo_iff [Inhabited α] [Inhabited ι] (k : Nat) :
    (∀ (ops : List (ι × Move α)) (config : Config (MpmcQueue α) (Place α) ι),
        ops.length + 2 ^ k < 2 ^ 63 - 1 → run (step move) (start ι (2 ^ k)) ops = some config →
          Fifo config.shared config.threads) ↔ 1 ≤ k := by
  constructor
  · intro all
    by_contra none
    obtain rfl : k = 0 := by omega
    -- two calls of `enqueue`
    have fifo := all
      [(default, .enqueue default), (default, .access), (default, .access), (default, .access),
        (default, .access), (default, .access), (default, .enqueue default), (default, .access),
        (default, .access), (default, .access)] _ (by simp) (by
          simp [run, step, move, start, new, MpmcQueue.node, setNode, index, sizeT, intptr]
          rfl)
    have := fifo.bounded.2
    simp at this
  · intro two ops config short made
    refine (Sound.run (sound_start two (by omega)) ?_ made).fifo
    simp only [start, new]
    omega

end MpmcQueue

end CommonLib
