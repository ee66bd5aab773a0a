import CommonLib.Library.Chain
import CommonLib.Library.Conversion
import CommonLib.Library.Tracking
import Mathlib.Algebra.Group.Nat.Defs
import Mathlib.Data.List.Forall2
import Mathlib.Data.List.Nodup

/-!
# The two linked lists of `list.cpp`

`list.cpp` holds one list twice: the functions on `pList_t` and the class `ListBuf`.  Both keep the
head, the tail and a place of traversal; they differ in the pointer behind which `AddNode` puts a
new node and in the size which they ask of `malloc`.
-/

namespace CommonLib

open Execution

/-! ## Nodes in memory -/

/-- `Node_t`, with the bytes that were allocated for `data`. -/
structure ListNode where
  next : Option Nat
  data : List UInt8
deriving DecidableEq

/-- `sizeof(Node_t)`. -/
def ListNode.sizeOf : Int := 8

/-- The nodes in memory; addresses are given out in order and never twice. -/
structure NodeHeap where
  node : Nat → Option ListNode
  fresh : Nat
  unused : ∀ address, fresh ≤ address → node address = none

namespace NodeHeap

/-- The memory before the first allocation. -/
def empty : NodeHeap where
  node _ := none
  fresh := 0
  unused _ _ := rfl

variable (heap : NodeHeap)

theorem unused_store (node : ListNode) (address : Nat) (outside : heap.fresh + 1 ≤ address) :
    Function.update heap.node heap.fresh (some node) address = none := by
  rw [Function.update_of_ne (by omega)]
  exact heap.unused address (by omega)

theorem unused_free (address other : Nat) (outside : heap.fresh ≤ other) :
    Function.update heap.node address none other = none := by
  rcases eq_or_ne other address with rfl | apart
  · exact Function.update_self ..
  · rw [Function.update_of_ne apart]
    exact heap.unused other outside

theorem unused_setNext (address : Nat) (next : Option Nat) (other : Nat)
    (outside : heap.fresh ≤ other) :
    Function.update heap.node address
      ((heap.node address).map fun node => { node with next }) other = none := by
  have absent := heap.unused other outside
  rcases eq_or_ne other address with rfl | apart
  · rw [Function.update_self, absent, Option.map_none]
  · rw [Function.update_of_ne apart, absent]

/-- A new node, at the next address. -/
def store (node : ListNode) : NodeHeap where
  node := Function.update heap.node heap.fresh (some node)
  fresh := heap.fresh + 1
  unused := heap.unused_store node

/-- `malloc` of `size` bytes, which are filled with `node`.  A negative `size` is converted to a
number of bytes which no heap has. -/
def malloc (room : Bool) (size : Int) (node : ListNode) : Option (Nat × NodeHeap) :=
  if room = true ∧ 0 ≤ size then some (heap.fresh, heap.store node) else none

/-- `free`. -/
def free (address : Nat) : NodeHeap where
  node := Function.update heap.node address none
  fresh := heap.fresh
  unused := heap.unused_free address

/-- `node->next = next`. -/
def setNext (address : Nat) (next : Option Nat) : NodeHeap where
  node := Function.update heap.node address
    ((heap.node address).map fun node => { node with next })
  fresh := heap.fresh
  unused := heap.unused_setNext address next

/-- The `next` fields. -/
def next (address : Nat) : Option Nat := (heap.node address).bind ListNode.next

/-- What stands in the `data` fields. -/
def data (address : Nat) : Option (List UInt8) := (heap.node address).map ListNode.data

end NodeHeap

/-! ## The lists -/

/-- What `AddNode` is given: `len` bytes, where `len` is an `int`. -/
structure NodeData where
  bytes : List UInt8
  int : bytes.length < 2 ^ 31

/-- `len`. -/
def NodeData.len (node : NodeData) : Int := node.bytes.length

/-- `List_t` with the memory of its nodes; `ListBuf` has the same fields. -/
structure ListT where
  heap : NodeHeap
  head : Option Nat
  tail : Option Nat
  current : Option Nat
  tra : Option Nat
  size : Int

namespace ListT

/-- `InitList`, which leaves `tra` as it is. -/
def initList (heap : NodeHeap) (tra : Option Nat) : ListT where
  heap := heap
  head := none
  tail := none
  current := none
  tra := tra
  size := 0

/-- `GetListSize`. -/
def getListSize (list : ListT) : Int := list.size

/-- What `AddNode` does with the new node `temp`, given the node `pnode` before it. -/
def link (list : ListT) (heap : NodeHeap) (temp : Nat) (pnode : Option Nat) : Option ListT :=
  match pnode with
  | none => some { list with heap, head := some temp, tail := some temp, size := 1 }
  | some pnode =>
      (heap.node pnode).map fun _ =>
        { list with
          heap := heap.setNext pnode (some temp)
          tail := some temp
          size := toInt (list.size + 1) }

/-- `AddNode` on a `pList_t`; `room` says whether `malloc` finds the memory. -/
def addNode (list : ListT) (room : Bool) (node : NodeData) : Option ListT :=
  match list.heap.malloc room (ListNode.sizeOf + node.len) { next := none, data := node.bytes } with
  | none => some list
  | some (temp, heap) => list.link heap temp list.current

/-- The loop of `ClearList`; reading a node that is not allocated has no result. -/
def clearLoop : Nat → NodeHeap → Option Nat → Option NodeHeap
  | _, heap, none => some heap
  | 0, _, some _ => none
  | fuel + 1, heap, some node =>
      (heap.node node).bind fun temp => clearLoop fuel (heap.free node) temp.next

/-- `ClearList`, the same in both lists. -/
def clearList (list : ListT) : Option ListT :=
  (clearLoop list.heap.fresh list.heap list.head).map fun heap => initList heap list.tra

/-- `GetFirstNode`, the same in both lists, with the bytes at the pointer that it returns. -/
def getFirstNode (list : ListT) : Option (Option (List UInt8) × ListT) :=
  match list.head with
  | none => some (none, list)
  | some head =>
      (list.heap.node head).map fun node => (some node.data, { list with tra := node.next })

/-- `GetNextNode`, the same in both lists. -/
def getNextNode (list : ListT) : Option (Option (List UInt8) × ListT) :=
  match list.tra with
  | none => some (none, list)
  | some node =>
      (list.heap.node node).map fun node => (some node.data, { list with tra := node.next })

/-- Calls of `GetNextNode` until it returns `NULL`. -/
def nextNodes : Nat → ListT → Option (List (List UInt8))
  | 0, _ => none
  | fuel + 1, list =>
      list.getNextNode.bind fun (data, list) =>
        match data with
        | none => some []
        | some data => (nextNodes fuel list).map (data :: ·)

/-- `GetFirstNode` followed by `GetNextNode` until one of them returns `NULL`. -/
def enumerate (list : ListT) : Option (List (List UInt8)) :=
  list.getFirstNode.bind fun (data, list) =>
    match data with
    | none => some []
    | some data => (nextNodes (list.heap.fresh + 1) list).map (data :: ·)

end ListT

namespace ListBuf

/-- `int listsize = sizeof(Node_t) + len + 1`. -/
def listsize (node : NodeData) : Int := toInt (ListNode.sizeOf + node.len + 1)

/-- `ListBuf::AddNode`; `memset` leaves a zero byte behind the data. -/
def addNode (list : ListT) (room : Bool) (node : NodeData) : Option ListT :=
  match list.heap.malloc room (listsize node) { next := none, data := node.bytes ++ [0] } with
  | none => some list
  | some (temp, heap) => list.link heap temp list.tail

end ListBuf

/-! ## Sequences of calls -/

/-- The calls that change a list; `room` is the answer of `malloc`. -/
inductive ListOp where
  | addNode (room : Bool) (node : NodeData)
  | clearList

/-- A call on the list whose `AddNode` is `add`. -/
def listStep (add : ListT → Bool → NodeData → Option ListT) (list : ListT) :
    ListOp → Option ListT
  | .addNode room node => add list room node
  | .clearList => list.clearList

/-- The data that one more call leaves in a list. -/
def ListOp.apply (items : List NodeData) : ListOp → List NodeData
  | .addNode true node => items ++ [node]
  | .addNode false _ => items
  | .clearList => []

/-- The data added since the last clear. -/
def added (ops : List ListOp) : List NodeData := ops.foldl ListOp.apply []

/-- The enumeration of the list meets exactly `items`, each at the start of its node. -/
def ListT.Enumerates (list : ListT) (items : List NodeData) : Prop :=
  ∃ nodes, list.enumerate = some nodes ∧
    List.Forall₂ (fun data item => item.bytes <+: data) nodes items

/-- After the calls the two lists have the same size and enumerate what was added. -/
def ListsAgree (tra tra' : Option Nat) (ops : List ListOp) : Prop :=
  ∃ list buf, run (listStep ListT.addNode) (.initList .empty tra) ops = some list ∧
    run (listStep ListBuf.addNode) (.initList .empty tra') ops = some buf ∧
    list.getListSize = buf.getListSize ∧
    list.Enumerates (added ops) ∧ buf.Enumerates (added ops)

/-! ## What a call does to the nodes -/

namespace NodeHeap

variable {heap : NodeHeap} {address : Nat}

theorem lt_fresh_of_data {data : List UInt8} (allocated : heap.data address = some data) :
    address < heap.fresh := by
  by_contra outside
  have absent := heap.unused address (by omega)
  simp [NodeHeap.data, absent] at allocated

theorem exists_node_of_data {data : List UInt8} (allocated : heap.data address = some data) :
    ∃ node, heap.node address = some node ∧ node.data = data := by
  simpa [NodeHeap.data] using allocated

theorem free_next {other : Nat} (apart : other ≠ address) :
    (heap.free address).next other = heap.next other := by
  simp [NodeHeap.next, free, apart]

theorem free_data {other : Nat} (apart : other ≠ address) :
    (heap.free address).data other = heap.data other := by
  simp [NodeHeap.data, free, apart]

theorem setNext_next {next : Option Nat} {other : Nat} (apart : other ≠ address) :
    (heap.setNext address next).next other = heap.next other := by
  simp [NodeHeap.next, setNext, apart]

theorem setNext_next_self {next : Option Nat} {node : ListNode}
    (allocated : heap.node address = some node) :
    (heap.setNext address next).next address = next := by
  simp [NodeHeap.next, setNext, allocated]

@[simp] theorem setNext_data {next : Option Nat} {other : Nat} :
    (heap.setNext address next).data other = heap.data other := by
  rcases eq_or_ne other address with rfl | apart
  · cases absent : heap.node other <;> simp [NodeHeap.data, setNext, absent]
  · simp [NodeHeap.data, setNext, apart]

theorem store_node (node : ListNode) {other : Nat} (apart : other ≠ heap.fresh) :
    (heap.store node).node other = heap.node other :=
  Function.update_of_ne apart ..

@[simp] theorem store_fresh (node : ListNode) : (heap.store node).fresh = heap.fresh + 1 := rfl

@[simp] theorem store_next_self (node : ListNode) :
    (heap.store node).next heap.fresh = node.next := by
  simp [NodeHeap.next, store]

theorem store_next (node : ListNode) {other : Nat} (apart : other ≠ heap.fresh) :
    (heap.store node).next other = heap.next other := by
  simp [NodeHeap.next, store, apart]

@[simp] theorem store_data_self (node : ListNode) :
    (heap.store node).data heap.fresh = some node.data := by
  simp [NodeHeap.data, store]

theorem store_data (node : ListNode) {other : Nat} (apart : other ≠ heap.fresh) :
    (heap.store node).data other = heap.data other := by
  simp [NodeHeap.data, store, apart]

end NodeHeap

/-! ## The list in memory -/

namespace ListT

/-- The nodes at `cells` form the list and hold `items`. -/
structure Represents (list : ListT) (cells : List Nat) (items : List (List UInt8)) : Prop where
  chain : Chain list.heap.next list.head cells none
  last : list.tail = cells.getLast?
  distinct : cells.Nodup
  data : cells.map list.heap.data = items.map some
  few : cells.length ≤ list.heap.fresh
  size : list.size = toInt items.length

namespace Represents

variable {list : ListT} {cells : List Nat} {items : List (List UInt8)}

theorem data_of_mem (represents : list.Represents cells items) {cell : Nat}
    (member : cell ∈ cells) : ∃ data, list.heap.data cell = some data := by
  have mapped : list.heap.data cell ∈ items.map some :=
    represents.data ▸ List.mem_map_of_mem member
  obtain ⟨data, -, same⟩ := List.mem_map.mp mapped
  exact ⟨data, same.symm⟩

theorem ne_fresh_of_mem (represents : list.Represents cells items) {cell : Nat}
    (member : cell ∈ cells) : cell ≠ list.heap.fresh := by
  obtain ⟨data, allocated⟩ := represents.data_of_mem member
  exact Nat.ne_of_lt (NodeHeap.lt_fresh_of_data allocated)

theorem initList (heap : NodeHeap) (tra : Option Nat) :
    (ListT.initList heap tra).Represents [] [] where
  chain := rfl
  last := rfl
  distinct := List.nodup_nil
  data := rfl
  few := Nat.zero_le _
  size := rfl

/-- Without a node before it, the new node is the whole list. -/
theorem link_none (list : ListT) (data : List UInt8) :
    ∃ next, list.link (list.heap.store ⟨none, data⟩) list.heap.fresh none = some next ∧
      next.current = list.current ∧ next.Represents [list.heap.fresh] [data] := by
  refine ⟨_, rfl, rfl, ?_⟩
  constructor <;> simp [toInt]

/-- Behind the tail of the list, the new node is the new tail. -/
theorem link_tail (represents : list.Represents cells items) (data : List UInt8) :
    ∃ next, list.link (list.heap.store ⟨none, data⟩) list.heap.fresh list.tail = some next ∧
      next.Represents (cells ++ [list.heap.fresh]) (items ++ [data]) := by
  rcases List.eq_nil_or_concat' cells with rfl | ⟨front, pnode, rfl⟩
  · have none_added : items = [] := by simpa using represents.data.symm
    have no_tail : list.tail = none := represents.last
    rw [no_tail, none_added]
    obtain ⟨next, linked, -, represents⟩ := link_none list data
    exact ⟨next, linked, represents⟩
  · have tail : list.tail = some pnode := by simpa using represents.last
    have apart : pnode ≠ list.heap.fresh := represents.ne_fresh_of_mem (by simp)
    have outside : ∀ cell ∈ front, cell ≠ pnode := fun cell member same =>
      (List.nodup_append.mp represents.distinct).2.2 cell member pnode (by simp) same
    obtain ⟨written, allocated⟩ := represents.data_of_mem (List.mem_concat_self ..)
    obtain ⟨node, stored, -⟩ := NodeHeap.exists_node_of_data allocated
    have stored : (list.heap.store ⟨none, data⟩).node pnode = some node :=
      (NodeHeap.store_node _ apart).trans stored
    let heap := (list.heap.store ⟨none, data⟩).setNext pnode (some list.heap.fresh)
    have linked : list.link (list.heap.store ⟨none, data⟩) list.heap.fresh (some pnode) =
        some { list with heap, tail := some list.heap.fresh, size := toInt (list.size + 1) } := by
      rw [link, stored, Option.map_some]
    have kept : ∀ cell ∈ front ++ [pnode], heap.data cell = list.heap.data cell :=
      fun cell member => NodeHeap.setNext_data.trans
        (NodeHeap.store_data _ (represents.ne_fresh_of_mem member))
    rw [tail]
    refine ⟨_, linked, ?_⟩
    constructor
    case chain =>
      rw [List.append_assoc]
      refine represents.chain.snoc (fun cell member => ?_) ⟨NodeHeap.setNext_next_self stored, ?_⟩
      · rw [NodeHeap.setNext_next (outside cell member)]
        exact NodeHeap.store_next _ (represents.ne_fresh_of_mem (by simp [member]))
      · rw [NodeHeap.setNext_next apart.symm]
        exact NodeHeap.store_next_self ..
    case last => exact List.getLast?_concat.symm
    case distinct =>
      refine List.nodup_append.mpr ⟨represents.distinct, List.nodup_singleton _, ?_⟩
      rintro cell member other same rfl
      exact represents.ne_fresh_of_mem member (List.mem_singleton.mp same)
    case data =>
      calc (front ++ [pnode] ++ [list.heap.fresh]).map heap.data
          = (front ++ [pnode]).map heap.data ++ [heap.data list.heap.fresh] := List.map_append
        _ = (front ++ [pnode]).map list.heap.data ++ [some data] := by
            rw [List.map_congr_left kept, NodeHeap.setNext_data, NodeHeap.store_data_self]
        _ = (items ++ [data]).map some := by
            rw [represents.data, List.map_append, List.map_singleton]
    case few =>
      rw [List.length_append]
      exact Nat.succ_le_succ represents.few
    case size =>
      calc toInt (list.size + 1)
          = toInt (items.length + 1) := by rw [represents.size, toInt_toInt_add]
        _ = toInt (items ++ [data]).length := by simp

end Represents

/-- The loop frees the nodes of a list and ends. -/
theorem exists_clearLoop {cells : List Nat} {heap : NodeHeap} {start : Option Nat} {fuel : Nat}
    (chain : Chain heap.next start cells none) (distinct : cells.Nodup)
    (allocated : ∀ cell ∈ cells, ∃ data, heap.data cell = some data)
    (enough : cells.length ≤ fuel) :
    ∃ cleared, clearLoop fuel heap start = some cleared := by
  induction cells generalizing heap start fuel with
  | nil =>
      obtain rfl : start = none := chain
      exact ⟨heap, by simp [clearLoop]⟩
  | cons cell cells induction =>
      obtain ⟨rfl, rest⟩ := chain
      obtain ⟨fuel, rfl⟩ := Nat.exists_eq_succ_of_ne_zero (Nat.ne_of_gt (Nat.zero_lt_of_lt enough))
      obtain ⟨outside, distinct⟩ := List.nodup_cons.mp distinct
      have apart : ∀ other ∈ cells, other ≠ cell := fun other member same =>
        outside (same ▸ member)
      obtain ⟨written, here⟩ := allocated cell (by simp)
      obtain ⟨node, stored, -⟩ := NodeHeap.exists_node_of_data here
      have next : heap.next cell = node.next := by rw [NodeHeap.next, stored, Option.bind_some]
      have unrolled : clearLoop (fuel + 1) heap (some cell) =
          clearLoop fuel (heap.free cell) node.next := by
        rw [clearLoop, stored, Option.bind_some]
      rw [unrolled]
      refine induction ?_ distinct (fun other member => ?_) (Nat.le_of_succ_le_succ enough)
      · rw [← next]
        exact rest.congr fun other member => NodeHeap.free_next (apart other member)
      · rw [NodeHeap.free_data (apart other member)]
        exact allocated other (by simp [member])

/-- `ClearList` completes and leaves an empty list. -/
theorem Represents.clearList {list : ListT} {cells : List Nat} {items : List (List UInt8)}
    (represents : list.Represents cells items) :
    ∃ heap, list.clearList = some (.initList heap list.tra) := by
  obtain ⟨heap, cleared⟩ := exists_clearLoop represents.chain represents.distinct
    (fun cell => represents.data_of_mem) represents.few
  exact ⟨heap, by rw [ListT.clearList, cleared, Option.map_some]⟩

/-- Calls of `GetNextNode` meet the nodes from the place of traversal on. -/
theorem nextNodes_of_chain {cells : List Nat} {list : ListT} {items : List (List UInt8)}
    {fuel : Nat} (chain : Chain list.heap.next list.tra cells none)
    (data : cells.map list.heap.data = items.map some) (enough : cells.length < fuel) :
    nextNodes fuel list = some items := by
  induction cells generalizing list items fuel with
  | nil =>
      obtain ⟨fuel, rfl⟩ := Nat.exists_eq_succ_of_ne_zero (Nat.ne_of_gt enough)
      have ended : list.tra = none := chain
      have nothing : items = [] := by simpa using data.symm
      rw [nextNodes, getNextNode, ended, nothing]
      rfl
  | cons cell cells induction =>
      obtain ⟨here, rest⟩ := chain
      obtain ⟨fuel, rfl⟩ := Nat.exists_eq_succ_of_ne_zero (Nat.ne_of_gt (Nat.zero_lt_of_lt enough))
      obtain ⟨item, items, rfl⟩ : ∃ item tail, items = item :: tail := by
        cases items with
        | nil => simp at data
        | cons item items => exact ⟨item, items, rfl⟩
      obtain ⟨held, behind⟩ := List.cons.inj data
      obtain ⟨node, stored, rfl⟩ := NodeHeap.exists_node_of_data held
      have next : list.heap.next cell = node.next := by
        rw [NodeHeap.next, stored, Option.bind_some]
      have later : nextNodes fuel { list with tra := node.next } = some items :=
        induction (next ▸ rest) behind (Nat.lt_of_succ_lt_succ enough)
      rw [nextNodes, getNextNode, here]
      simp only [stored, Option.map_some, Option.bind_some, later]

theorem enumerate_eq (list : ListT) :
    list.enumerate = nextNodes (list.heap.fresh + 2) { list with tra := list.head } := by
  rw [enumerate, getFirstNode, nextNodes, getNextNode]
  cases start : list.head with
  | none => rfl
  | some head =>
      cases stored : list.heap.node head with
      | none => simp [stored]
      | some node => simp [stored]

/-- An enumeration ends and meets what the list holds. -/
theorem Represents.enumerate {list : ListT} {cells : List Nat} {items : List (List UInt8)}
    (represents : list.Represents cells items) : list.enumerate = some items := by
  rw [enumerate_eq]
  have few := represents.few
  exact nextNodes_of_chain represents.chain represents.data (by omega)

end ListT
/-! ## What the calls leave -/

/-- The size which `ListBuf` asks for does not overflow. -/
def NodeData.Fits (node : NodeData) : Prop := ListNode.sizeOf + node.len + 1 < 2 ^ 31

instance (node : NodeData) : Decidable node.Fits := inferInstanceAs (Decidable (_ < _))

theorem ListBuf.listsize_nonneg_iff (node : NodeData) : 0 ≤ listsize node ↔ node.Fits := by
  have int := node.int
  unfold listsize NodeData.Fits NodeData.len ListNode.sizeOf toInt
  dsimp only
  split <;> omega

namespace ListT

/-- `current` is never set: a `pList_t` holds what was added last. -/
def HoldsLast (list : ListT) (items : List NodeData) : Prop :=
  list.current = none ∧
    ∃ cells, list.Represents cells (items.getLast?.toList.map NodeData.bytes)

/-- A `ListBuf` holds what was added, apart from what is too long, with a zero byte behind each. -/
def HoldsAll (buf : ListT) (items : List NodeData) : Prop :=
  ∃ cells, buf.Represents cells
    ((items.filter fun node => node.Fits).map fun node => node.bytes ++ [0])

theorem addNode_holdsLast {list : ListT} {items : List NodeData} (holds : list.HoldsLast items)
    (room : Bool) (node : NodeData) :
    ∃ next, list.addNode room node = some next ∧
      next.HoldsLast ((ListOp.addNode room node).apply items) := by
  obtain ⟨current, cells, represents⟩ := holds
  cases room with
  | false => exact ⟨list, rfl, current, cells, represents⟩
  | true =>
      have nonneg : 0 ≤ ListNode.sizeOf + node.len := by
        unfold ListNode.sizeOf NodeData.len
        omega
      obtain ⟨next, linked, kept, single⟩ := Represents.link_none list node.bytes
      refine ⟨next, ?_, kept.trans current, [list.heap.fresh], ?_⟩
      · rw [addNode, NodeHeap.malloc, if_pos ⟨rfl, nonneg⟩, current]
        exact linked
      · simpa [ListOp.apply] using single

theorem addNode_holdsAll {buf : ListT} {items : List NodeData} (holds : buf.HoldsAll items)
    (room : Bool) (node : NodeData) :
    ∃ next, ListBuf.addNode buf room node = some next ∧
      next.HoldsAll ((ListOp.addNode room node).apply items) := by
  obtain ⟨cells, represents⟩ := holds
  cases room with
  | false => exact ⟨buf, rfl, cells, represents⟩
  | true =>
      by_cases fits : node.Fits
      · obtain ⟨next, linked, longer⟩ := represents.link_tail (node.bytes ++ [0])
        refine ⟨next, ?_, cells ++ [buf.heap.fresh], ?_⟩
        · have nonneg := (ListBuf.listsize_nonneg_iff node).mpr fits
          rw [ListBuf.addNode, NodeHeap.malloc, if_pos ⟨rfl, nonneg⟩]
          exact linked
        · simpa [ListOp.apply, fits] using longer
      · refine ⟨buf, ?_, cells, ?_⟩
        · have negative := mt (ListBuf.listsize_nonneg_iff node).mp fits
          rw [ListBuf.addNode, NodeHeap.malloc, if_neg fun both => negative both.2]
        · simpa [ListOp.apply, fits] using represents

/-- After any calls a `pList_t` holds the last of what was added. -/
theorem exists_run_pList (tra : Option Nat) (ops : List ListOp) :
    ∃ list, run (listStep addNode) (initList .empty tra) ops = some list ∧
      list.HoldsLast (added ops) := by
  refine exists_run_related (fun {list items} op holds => ?_)
    ⟨rfl, [], Represents.initList _ _⟩ ops
  cases op with
  | addNode room node => exact addNode_holdsLast holds room node
  | clearList =>
      obtain ⟨-, cells, represents⟩ := holds
      obtain ⟨heap, cleared⟩ := represents.clearList
      exact ⟨_, cleared, rfl, [], Represents.initList _ _⟩

/-- After any calls a `ListBuf` holds everything that was added and not too long. -/
theorem exists_run_listBuf (tra : Option Nat) (ops : List ListOp) :
    ∃ buf, run (listStep ListBuf.addNode) (initList .empty tra) ops = some buf ∧
      buf.HoldsAll (added ops) := by
  refine exists_run_related (fun {buf items} op holds => ?_) ⟨[], Represents.initList _ _⟩ ops
  cases op with
  | addNode room node => exact addNode_holdsAll holds room node
  | clearList =>
      obtain ⟨cells, represents⟩ := holds
      obtain ⟨heap, cleared⟩ := represents.clearList
      exact ⟨_, cleared, [], Represents.initList _ _⟩

/-! ## Agreement -/

theorem Represents.enumerates_iff {list : ListT} {cells : List Nat} {items : List (List UInt8)}
    (represents : list.Represents cells items) {nodes : List NodeData} :
    list.Enumerates nodes ↔
      List.Forall₂ (fun data item => item.bytes <+: data) items nodes := by
  rw [Enumerates, represents.enumerate]
  simp

/-- At most one node is the same as the last one. -/
theorem toList_getLast? {items : List NodeData} (few : items.length ≤ 1) :
    items.getLast?.toList = items := by
  cases items with
  | nil => rfl
  | cons item items =>
      obtain rfl : items = [] := List.length_eq_zero_iff.mp (by simpa using few)
      rfl

theorem HoldsLast.size {list : ListT} {items : List NodeData} (holds : list.HoldsLast items)
    (few : items.length ≤ 1) : list.getListSize = toInt items.length := by
  obtain ⟨-, cells, represents⟩ := holds
  have counted := represents.size
  rwa [toList_getLast? few, List.length_map] at counted

/-- A `pList_t` enumerates what was added exactly if that is at most one node. -/
theorem HoldsLast.enumerates_iff {list : ListT} {items : List NodeData}
    (holds : list.HoldsLast items) : list.Enumerates items ↔ items.length ≤ 1 := by
  obtain ⟨-, cells, represents⟩ := holds
  rw [represents.enumerates_iff]
  constructor
  · intro matched
    have counted := matched.length_eq
    have few : items.getLast?.toList.length ≤ 1 := Option.length_toList_le
    rw [List.length_map] at counted
    omega
  · intro few
    rw [toList_getLast? few, List.forall₂_map_left_iff, List.forall₂_same]
    exact fun node _ => List.prefix_rfl

theorem HoldsAll.size {buf : ListT} {items : List NodeData} (holds : buf.HoldsAll items)
    (all : ∀ node ∈ items, node.Fits) : buf.getListSize = toInt items.length := by
  obtain ⟨cells, represents⟩ := holds
  have counted := represents.size
  rwa [List.filter_eq_self.mpr (by simpa using all), List.length_map] at counted

/-- A `ListBuf` enumerates what was added exactly if none of it is too long. -/
theorem HoldsAll.enumerates_iff {buf : ListT} {items : List NodeData}
    (holds : buf.HoldsAll items) : buf.Enumerates items ↔ ∀ node ∈ items, node.Fits := by
  obtain ⟨cells, represents⟩ := holds
  rw [represents.enumerates_iff]
  constructor
  · intro matched
    have counted := matched.length_eq
    rw [List.length_map] at counted
    simpa using List.length_filter_eq_length_iff.mp counted
  · intro all
    rw [List.filter_eq_self.mpr (by simpa using all), List.forall₂_map_left_iff,
      List.forall₂_same]
    exact fun node _ => List.prefix_append _ _

end ListT

/-- The two lists agree exactly if at most one node was added since the last clear, and it is not
too long for `ListBuf`. -/
theorem listsAgree_iff (tra tra' : Option Nat) (ops : List ListOp) :
    ListsAgree tra tra' ops ↔ (added ops).length ≤ 1 ∧ ∀ node ∈ added ops, node.Fits := by
  obtain ⟨list, made, last⟩ := ListT.exists_run_pList tra ops
  obtain ⟨buf, made', all⟩ := ListT.exists_run_listBuf tra' ops
  constructor
  · rintro ⟨list', buf', same, same', -, enumerates, enumerates'⟩
    obtain rfl : list = list' := Option.some.inj (made.symm.trans same)
    obtain rfl : buf = buf' := Option.some.inj (made'.symm.trans same')
    exact ⟨last.enumerates_iff.mp enumerates, all.enumerates_iff.mp enumerates'⟩
  · rintro ⟨few, fits⟩
    exact ⟨list, buf, made, made', (last.size few).trans (all.size fits).symm,
      last.enumerates_iff.mpr few, all.enumerates_iff.mpr fits⟩

/-- `AddNode` of `"a"` and of `"b"`. -/
def addTwo : List ListOp := [.addNode true ⟨[97], by decide⟩, .addNode true ⟨[98], by decide⟩]

/-- After two additions the `pList_t` has one node and the `ListBuf` two. -/
theorem not_listsAgree_addTwo :
    (run (listStep ListT.addNode) (.initList .empty none) addTwo).map ListT.getListSize = some 1 ∧
      (run (listStep ListBuf.addNode) (.initList .empty none) addTwo).map ListT.getListSize =
        some 2 ∧
      ¬ ListsAgree none none addTwo := by
  refine ⟨rfl, rfl, ?_⟩
  rintro ⟨list, buf, made, made', same, -⟩
  have single : some list.getListSize = some 1 := congrArg (Option.map ListT.getListSize) made.symm
  have double : some buf.getListSize = some 2 := congrArg (Option.map ListT.getListSize) made'.symm
  rw [same] at single
  exact absurd (single.symm.trans double) (by decide)

end CommonLib
