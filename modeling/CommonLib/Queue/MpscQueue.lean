import CommonLib.Library.Interleaving
import Mathlib.Data.List.Basic

/-!
# The unbounded queue of mpsc-queue.hpp

A call of `enqueue` makes its node the head and then links the former head to it, and until then the
nodes behind are out of reach; a call of `dequeue` releases the node before the one whose item it
takes.  A move is one access to the queue of one thread, in the order of the source.
-/

namespace CommonLib

open Execution Interleaving

/-- `buffer_node_t`; 0 stands for NULL, and the first node has no data. -/
structure MpscNode (α : Type*) where
  data : Option α
  next : ℕ

/-- `mpsc_queue_t` with its nodes, and what its calls did. -/
structure MpscQueue (α : Type*) where
  nodes : ℕ → Option (MpscNode α)
  head : ℕ
  tail : ℕ
  /-- The items in the order in which their nodes became the head. -/
  enqueued : List α
  dequeued : List α
  /-- A thread is in a call of `dequeue`. -/
  busy : Bool

namespace MpscQueue

variable {α : Type*}

/-- The constructor. -/
def new : MpscQueue α where
  nodes := Function.update (fun _ => none) 1 (some { data := none, next := 0 })
  head := 1
  tail := 1
  enqueued := []
  dequeued := []
  busy := false

/-- Where a thread is, with the local variables of the function. -/
inductive Place (α : Type*)
  | idle
  /-- Before `new buffer_node_aligned_t`. -/
  | create (input : α)
  /-- Before `_head.exchange`. -/
  | exchange (node : ℕ) (input : α)
  /-- Before `prev_head->next.store`. -/
  | link (prevHead node : ℕ)
  /-- Before `_tail.load`. -/
  | dequeue
  /-- Before `tail->next.load`. -/
  | loadNext (tail : ℕ)
  /-- Before `output = next->data`. -/
  | read (tail next : ℕ)
  /-- Before `_tail.store`. -/
  | storeTail (tail next : ℕ) (output : α)
  /-- Before `delete tail`. -/
  | delete (tail : ℕ)

inductive Move (α : Type*)
  | enqueue (input : α)
  | dequeue
  /-- The allocation of a node that is not in use. -/
  | allocate (node : ℕ)
  /-- The next access of the call. -/
  | access

/-- The moves of a thread; the calls of `dequeue` come from one consumer at a time. -/
def move (queue : MpscQueue α) : Place α → Move α → Option (MpscQueue α × Place α)
  | .idle, .enqueue input => some (queue, .create input)
  | .idle, .dequeue => if queue.busy then none else some ({ queue with busy := true }, .dequeue)
  | .create input, .allocate node =>
      if node = 0 ∨ (queue.nodes node).isSome then none
      else
        some ({ queue with
            nodes := Function.update queue.nodes node (some { data := some input, next := 0 }) },
          .exchange node input)
  | .exchange node input, .access =>
      some ({ queue with head := node, enqueued := queue.enqueued ++ [input] },
        .link queue.head node)
  | .link prevHead node, .access =>
      (queue.nodes prevHead).map fun prev =>
        ({ queue with
            nodes := Function.update queue.nodes prevHead (some { prev with next := node }) }, .idle)
  | .dequeue, .access => some (queue, .loadNext queue.tail)
  | .loadNext tail, .access =>
      (queue.nodes tail).map fun node =>
        if node.next = 0 then ({ queue with busy := false }, .idle)
        else (queue, .read tail node.next)
  | .read tail next, .access =>
      ((queue.nodes next).bind MpscNode.data).map fun output => (queue, .storeTail tail next output)
  | .storeTail tail next output, .access =>
      some ({ queue with tail := next, dequeued := queue.dequeued ++ [output] }, .delete tail)
  | .delete tail, .access =>
      (queue.nodes tail).map fun _ =>
        ({ queue with nodes := Function.update queue.nodes tail none, busy := false }, .idle)
  | _, _ => none

variable {ι : Type*} [DecidableEq ι]

/-- The new queue, before any thread calls it. -/
def start (ι : Type*) : Config (MpscQueue α) (Place α) ι :=
  { shared := new, threads := fun _ => .idle }

/-- The thread alone knows the node. -/
def Owns (place : Place α) (node : ℕ) : Prop :=
  (∃ input, place = .exchange node input) ∨ place = .delete node

/-- The thread is to link the node to the next one. -/
def Links (place : Place α) (prevHead : ℕ) : Prop := ∃ node, place = .link prevHead node

/-- The thread is in a call of `dequeue`. -/
def Consumes : Place α → Prop
  | .dequeue | .loadNext _ | .read _ _ | .storeTail _ _ _ | .delete _ => True
  | _ => False

/-- The places of the nodes from the tail to the head, the first node of the queue at place 0. -/
def Stands (queue : MpscQueue α) (k : ℕ) : Prop :=
  queue.dequeued.length ≤ k ∧ k ≤ queue.enqueued.length

/-- What the local variables of a thread promise, if `order` tells the node of every place. -/
def Local (queue : MpscQueue α) (order : ℕ → ℕ) : Place α → Prop
  | .exchange node input =>
      queue.nodes node = some { data := some input, next := 0 } ∧ ∀ k, Stands queue k → order k ≠ node
  | .link prevHead node =>
      ∃ k, Stands queue k ∧ Stands queue (k + 1) ∧ order k = prevHead ∧ order (k + 1) = node ∧
        ∃ prev, queue.nodes prevHead = some prev ∧ prev.next = 0
  | .loadNext tail => tail = queue.tail
  | .read tail next =>
      tail = queue.tail ∧ next ≠ 0 ∧ ∃ node, queue.nodes tail = some node ∧ node.next = next
  | .storeTail tail next output =>
      tail = queue.tail ∧ (next ≠ 0 ∧ ∃ node, queue.nodes tail = some node ∧ node.next = next) ∧
        (queue.nodes next).bind MpscNode.data = some output
  | .delete tail => (∃ node, queue.nodes tail = some node) ∧ ∀ k, Stands queue k → order k ≠ tail
  | .idle | .create _ | .dequeue => True

/-- The nodes from the tail to the head have the items that were not yet taken, and each of them is
linked to the next one or about to be. -/
structure Sound (queue : MpscQueue α) (threads : ι → Place α) (order : ℕ → ℕ) : Prop where
  null : queue.nodes 0 = none
  fifo : queue.dequeued <+: queue.enqueued
  tail : queue.tail = order queue.dequeued.length
  head : queue.head = order queue.enqueued.length
  inj : ∀ j k, Stands queue j → Stands queue k → order j = order k → j = k
  data : ∀ k, Stands queue k → Stands queue (k + 1) →
    (queue.nodes (order (k + 1))).bind MpscNode.data = queue.enqueued[k]?
  linked : ∀ k, Stands queue k → ∃ node, queue.nodes (order k) = some node ∧
    (node.next = 0 ∧ (k = queue.enqueued.length ∨ ∃ i, Links (threads i) (order k)) ∨
      node.next = order (k + 1) ∧ k < queue.enqueued.length)
  known : ∀ i, Local queue order (threads i)
  oneOwns : ∀ i j a, Owns (threads i) a → Owns (threads j) a → i = j
  oneLinks : ∀ i j a, Links (threads i) a → Links (threads j) a → i = j
  allocated : ∀ a, (queue.nodes a).isSome → (∃ k, Stands queue k ∧ order k = a) ∨
    ∃ i, Owns (threads i) a

/-- At most one thread is in a call of `dequeue`, and the queue is busy then. -/
structure OneConsumer (queue : MpscQueue α) (threads : ι → Place α) : Prop where
  busy : ∀ i, Consumes (threads i) → queue.busy = true
  one : ∀ i j, Consumes (threads i) → Consumes (threads j) → i = j

end MpscQueue

end CommonLib
