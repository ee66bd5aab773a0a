import CommonLib.Hlib.CirBuffer
import CommonLib.Library.Chain

/-!
# The transfer buffers of `hepoll.cpp`

`THBufferMgr` keeps a fixed pool of transfer buffers.  Free buffers are chained through `Next` from
`Current`; buffers are taken singly or as chains and put back the same way.  A buffer pointer is the
index of the buffer in the pool, `Position` is an offset from `Buffer`.
-/

namespace CommonLib

/-- A transfer buffer. -/
structure THBuffer where
  next : Option Nat
  uid : Int
  socket : Int
  context : Option Nat
  buffer : Nat → Byte
  position : Nat
  size : Nat
  postClose : Bool

namespace THBuffer

/-- `THBuffer::Init`. -/
def init (buf : THBuffer) : THBuffer := { buf with position := 0, size := 0 }

/-- `THBuffer::AddData`. -/
def addData (buf : THBuffer) (data : List Byte) : THBuffer :=
  { buf with buffer := move data buf.buffer buf.position, size := buf.size + data.length }

/-- The bytes still to be sent. -/
def pending (buf : THBuffer) : List Byte := cells buf.buffer buf.position buf.size

@[simp] theorem pending_length (buf : THBuffer) : buf.pending.length = buf.size :=
  cells_length _ _ _

theorem pending_addData (buf : THBuffer) (data : List Byte) :
    (buf.init.addData data).pending = data := by
  simp only [pending, addData, init, Nat.zero_add]
  exact cells_move data buf.buffer 0

/-- What remains once the first `count` bytes are sent. -/
theorem pending_drop (buf : THBuffer) (count : Nat) :
    ({ buf with position := buf.position + count, size := buf.size - count } : THBuffer).pending =
      buf.pending.drop count := by
  apply List.ext_getElem
  · simp
  · intro index _ _
    simp [pending, Nat.add_assoc]

end THBuffer

/-- The pool; `current` heads the free chain. -/
structure THBufferMgr where
  size : Nat
  count : Int
  current : Option Nat
  buffers : Nat → THBuffer

namespace THBufferMgr

/-! ## Operations -/

/-- The constructor's loop after `count` rounds. -/
def linkBuffers (memory : Nat → THBuffer) : Nat → (Nat → THBuffer) × Option Nat
  | 0 => (memory, none)
  | count + 1 =>
      let (buffers, current) := linkBuffers memory count
      (Function.update buffers count { (buffers count).init with next := current }, some count)

/-- `THBufferMgr::THBufferMgr`, on the contents `memory` of the buffer objects. -/
def new (size : Nat) (memory : Nat → THBuffer) : THBufferMgr :=
  let (buffers, current) := linkBuffers memory size
  { size, count := size, current, buffers }

/-- Assign `Next` of a buffer. -/
def setNext (mgr : THBufferMgr) (buf : Nat) (next : Option Nat) : THBufferMgr :=
  { mgr with buffers := Function.update mgr.buffers buf { mgr.buffers buf with next } }

/-- `THBufferMgr::GetBuffer`. -/
def getBuffer (mgr : THBufferMgr) : Option Nat × THBufferMgr :=
  match mgr.current with
  | none => (none, mgr)
  | some ret =>
      (some ret, { mgr with count := mgr.count - 1, current := (mgr.buffers ret).next })

/-- `b` after `count` rounds of `b = b->Next`; `none` when that dereferences `NULL`. -/
def follow (buffers : Nat → THBuffer) : Nat → Nat → Option Nat
  | 0, b => some b
  | count + 1, b =>
      match (buffers b).next with
      | none => none
      | some c => follow buffers count c

/-- `THBufferMgr::GetBufferEx`; `none` when it dereferences `NULL`. -/
def getBufferEx (mgr : THBufferMgr) (len : Int) : Option (Option Nat × THBufferMgr) :=
  if mgr.count < len then some (none, mgr)
  else
    match mgr.current with
    | none => none
    | some ret =>
        match follow mgr.buffers (len - 1).toNat ret with
        | none => none
        | some b =>
            some (some ret,
              { mgr with count := mgr.count - len, current := (mgr.buffers b).next }.setNext b none)

/-- `THBufferMgr::PutBufferEx`. -/
def putBufferEx (mgr : THBufferMgr) (bufHead bufTail : Nat) (len : Int) : THBufferMgr :=
  { mgr.setNext bufTail mgr.current with current := some bufHead, count := mgr.count + len }

/-- `THBufferMgr::PutBuffer`. -/
def putBuffer (mgr : THBufferMgr) (buf : Nat) : THBufferMgr :=
  { mgr.setNext buf mgr.current with current := some buf, count := mgr.count + 1 }

/-! ## Field lemmas -/

/-- The `Next` fields of the pool. -/
abbrev nexts (mgr : THBufferMgr) (buf : Nat) : Option Nat := (mgr.buffers buf).next

variable {mgr : THBufferMgr}

theorem setNext_buffers_of_ne {buf other : Nat} (different : other ≠ buf) (next : Option Nat) :
    (mgr.setNext buf next).buffers other = mgr.buffers other := by
  simp [setNext, different]

@[simp] theorem setNext_buffers_self (buf : Nat) (next : Option Nat) :
    (mgr.setNext buf next).buffers buf = { mgr.buffers buf with next } := by
  simp [setNext]

/-- Only `Next` fields differ. -/
def SameData (mgr mgr' : THBufferMgr) : Prop :=
  mgr'.size = mgr.size ∧ ∀ buf, ∃ next, mgr'.buffers buf = { mgr.buffers buf with next }

theorem SameData.pending {mgr' : THBufferMgr} (same : mgr.SameData mgr') (buf : Nat) :
    (mgr'.buffers buf).pending = (mgr.buffers buf).pending := by
  obtain ⟨next, buffer_eq⟩ := same.2 buf
  rw [buffer_eq]
  rfl

theorem sameData_setNext (mgr : THBufferMgr) (buf : Nat) (next : Option Nat) :
    mgr.SameData (mgr.setNext buf next) := by
  refine ⟨rfl, fun other => ?_⟩
  by_cases same : other = buf
  · subst same
    exact ⟨next, setNext_buffers_self other next⟩
  · exact ⟨(mgr.buffers other).next, setNext_buffers_of_ne same next⟩

/-! ## The free chain -/

/-- The free buffers, in the order of the chain. -/
structure Free (mgr : THBufferMgr) (free : List Nat) : Prop where
  chain : Chain mgr.nexts mgr.current free none
  count : mgr.count = free.length

theorem linkBuffers_chain (memory : Nat → THBuffer) (count : Nat) :
    Chain (fun buf => ((linkBuffers memory count).1 buf).next) (linkBuffers memory count).2
      (List.range count).reverse none := by
  induction count with
  | zero => rfl
  | succ count induction =>
      rw [List.range_succ, List.reverse_append]
      refine ⟨rfl, ?_⟩
      simp only [linkBuffers, Function.update_self]
      refine induction.congr fun buf member => ?_
      have different : buf ≠ count := by
        rintro rfl
        simp at member
      simp [Function.update_of_ne different]

theorem new_free (size : Nat) (memory : Nat → THBuffer) :
    (new size memory).Free (List.range size).reverse where
  chain := linkBuffers_chain memory size
  count := by simp [new]

theorem follow_eq {start : Nat} {front : List Nat} {last : Nat} {stop : Option Nat}
    (chain : Chain mgr.nexts (some start) (front ++ [last]) stop) :
    follow mgr.buffers front.length start = some last := by
  induction front generalizing start with
  | nil => exact chain.1
  | cons cell front induction =>
      obtain ⟨same, tail⟩ := chain
      obtain rfl := Option.some.inj same
      obtain ⟨next, link⟩ : ∃ next, (mgr.buffers start).next = some next := by
        cases front with
        | nil => exact ⟨_, tail.1⟩
        | cons other front => exact ⟨_, tail.1⟩
      have tail' : Chain mgr.nexts (some next) (front ++ [last]) stop := link ▸ tail
      simp only [List.length_cons, follow, link]
      exact induction tail'

variable {free : List Nat}

/-- `GetBuffer` takes the first free buffer. -/
theorem Free.getBuffer {buf : Nat} (isFree : mgr.Free (buf :: free)) :
    mgr.getBuffer = (some buf,
      { mgr with count := mgr.count - 1, current := (mgr.buffers buf).next }) ∧
      mgr.getBuffer.2.Free free := by
  obtain ⟨⟨head, tail⟩, count⟩ := isFree
  have taken : mgr.getBuffer = (some buf,
      { mgr with count := mgr.count - 1, current := (mgr.buffers buf).next }) := by
    rw [THBufferMgr.getBuffer, head]
  refine ⟨taken, ?_⟩
  rw [taken]
  refine ⟨tail, ?_⟩
  rw [List.length_cons] at count
  simp only
  omega

/-- Too few free buffers: `GetBufferEx` fails and changes nothing. -/
theorem Free.getBufferEx_none (isFree : mgr.Free free) {len : Nat} (few : free.length < len) :
    mgr.getBufferEx len = some (none, mgr) := by
  have count := isFree.count
  rw [THBufferMgr.getBufferEx, if_pos (by omega)]

/-- `GetBufferEx` cuts a chain of `len` buffers off the free chain. -/
theorem Free.getBufferEx (isFree : mgr.Free free) (nodup : free.Nodup) {len : Nat}
    (positive : 0 < len) (enough : len ≤ free.length) :
    ∃ ret mgr', mgr.getBufferEx len = some (some ret, mgr') ∧
      Chain mgr'.nexts (some ret) (free.take len) none ∧ mgr'.Free (free.drop len) ∧
      mgr.SameData mgr' ∧ ∀ buf, buf ∉ free.take len → mgr'.buffers buf = mgr.buffers buf := by
  obtain ⟨chain, count⟩ := isFree
  have taken_ne : free.take len ≠ [] := by
    intro empty
    have := congrArg List.length empty
    rw [List.length_take, List.length_nil] at this
    omega
  obtain ⟨front, last, taken_eq⟩ : ∃ front last, free.take len = front ++ [last] :=
    ⟨_, _, (List.dropLast_concat_getLast taken_ne).symm⟩
  have front_length : front.length = len - 1 := by
    have := congrArg List.length taken_eq
    simp only [List.length_take, List.length_append, List.length_singleton] at this
    omega
  have free_eq : free = (front ++ [last]) ++ free.drop len := by
    rw [← taken_eq, List.take_append_drop]
  rw [free_eq] at chain nodup
  obtain ⟨middle, first, rest⟩ := Chain.append_iff.mp chain
  obtain ⟨ret, start⟩ : ∃ ret, mgr.current = some ret := by
    cases front with
    | nil => exact ⟨_, first.1⟩
    | cons cell front => exact ⟨_, first.1⟩
  rw [start] at first
  have followed := follow_eq first
  have middle_eq : (mgr.buffers last).next = middle := by
    obtain ⟨_, _, _, tail⟩ := Chain.append_iff.mp first
    exact tail
  have last_front : ∀ cell ∈ front, cell ≠ last := by
    rintro cell member rfl
    have nodup' := (List.nodup_append.mp nodup).1
    exact (List.nodup_append.mp nodup').2.2 cell member cell (by simp) rfl
  have last_rest : ∀ cell ∈ free.drop len, cell ≠ last := by
    rintro cell member rfl
    exact (List.nodup_append.mp nodup).2.2 cell (by simp) cell member rfl
  let cut : THBufferMgr :=
    { mgr with count := mgr.count - len, current := (mgr.buffers last).next }
  refine ⟨ret, cut.setNext last none, ?_, ?_, ⟨?_, ?_⟩, ?_, ?_⟩
  · have notFew : ¬ mgr.count < len := by omega
    have steps : ((len : Int) - 1).toNat = front.length := by omega
    rw [THBufferMgr.getBufferEx, if_neg notFew, start]
    simp only [steps, followed]
    rfl
  · rw [taken_eq]
    obtain ⟨stop, before, rfl, _⟩ := Chain.append_iff.mp first
    refine Chain.append_iff.mpr ⟨some last, before.congr fun cell member => ?_, rfl, ?_⟩
    · rw [nexts, setNext_buffers_of_ne (last_front cell member)]
    · simp [nexts]
  · rw [← middle_eq] at rest
    exact rest.congr fun cell member => by
      rw [nexts, setNext_buffers_of_ne (last_rest cell member)]
  · simp only [setNext, cut, List.length_drop]
    omega
  · exact cut.sameData_setNext last none
  · intro buf outside
    refine setNext_buffers_of_ne ?_ none
    rintro rfl
    exact outside (by simp [taken_eq])

/-- `PutBufferEx` puts a chain back in front of the free chain. -/
theorem Free.putBufferEx (isFree : mgr.Free free) {head tail : Nat} {front : List Nat}
    {stop : Option Nat} (chain : Chain mgr.nexts (some head) (front ++ [tail]) stop)
    (nodup : (front ++ [tail] ++ free).Nodup) :
    (mgr.putBufferEx head tail (front.length + 1)).Free (front ++ [tail] ++ free) ∧
      mgr.SameData (mgr.putBufferEx head tail (front.length + 1)) ∧
      ∀ buf, buf ≠ tail →
        (mgr.putBufferEx head tail (front.length + 1)).buffers buf = mgr.buffers buf := by
  have tail_front : ∀ cell ∈ front, cell ≠ tail := by
    rintro cell member rfl
    have nodup' := (List.nodup_append.mp nodup).1
    exact (List.nodup_append.mp nodup').2.2 cell member cell (by simp) rfl
  have tail_free : ∀ cell ∈ free, cell ≠ tail := by
    rintro cell member rfl
    exact (List.nodup_append.mp nodup).2.2 cell (by simp) cell member rfl
  refine ⟨⟨?_, ?_⟩, mgr.sameData_setNext tail mgr.current, fun buf different =>
    setNext_buffers_of_ne different _⟩
  · obtain ⟨middle, before, rfl, _⟩ := Chain.append_iff.mp chain
    rw [List.append_assoc]
    refine Chain.append_iff.mpr ⟨some tail, before.congr fun cell member => ?_, rfl, ?_⟩
    · exact congrArg THBuffer.next (setNext_buffers_of_ne (tail_front cell member) _)
    · have link : (mgr.putBufferEx head tail (front.length + 1)).nexts tail = mgr.current :=
        congrArg THBuffer.next (setNext_buffers_self tail _)
      rw [link]
      exact isFree.chain.congr fun cell member =>
        congrArg THBuffer.next (setNext_buffers_of_ne (tail_free cell member) _)
  · have count := isFree.count
    simp only [THBufferMgr.putBufferEx, List.length_append, List.length_singleton]
    omega

end THBufferMgr
end CommonLib
