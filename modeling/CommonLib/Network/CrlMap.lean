import Mathlib.Data.Finset.Basic
import CommonLib.Library.Execution
import CommonLib.Network.Crb3Param

/-!
# The request table of `crb3_crl.cpp`

A `CRLMap` keeps the pending requests of a client in three structures that come from libraries: the
hash table `CRLTable` from sequence numbers to entries, the set of armed nodes `CbTimerPool` and the
pool `CRLPool` that hands out the entries.  An entry is named by its slot in the pool; which free
slot the pool hands out is left open.  Each operation is one step under `CRLMutex`.
-/

namespace CommonLib

/-- The results of the operations. -/
inductive CrlStatus
  | CRB3_OK
  | CRB3_NOT_FIND
  | CRB3_NOT_SERVICE
  | CRB3_INVALID_PARAMETER
  | CRB3_FULL
  | CRB3_DUPLICATE
  deriving DecidableEq

def CRB3_PARAM_RESERVE_LEN : Int32 := 20

/-- A reading of `CLOCK_REALTIME`, whose epoch has passed. -/
structure Timespec where
  tvSec : Nat
  tvNsec : Nat
  past : 0 < tvSec

/-- An entry of the pool; `cb` stands for `CbFunc` and `CbArg`. -/
structure CRB3_CRL (γ : Type) where
  /-- `node.int_key`. -/
  intKey : UInt32
  /-- `tnode.sched_time.tv_sec`. -/
  schedSec : Nat
  crId : UInt32
  ifType : UInt16
  paramOut : Option CRB3Param
  cb : γ

/-- A call of a callback. -/
structure Completion (γ : Type) where
  crId : UInt32
  paramOut : Option CRB3Param
  cb : γ

structure CRLMap (γ : Type) where
  ready : Bool
  /-- The number of slots in the pool. -/
  poolSize : Nat
  /-- The memory of the slots. -/
  entries : Nat → CRB3_CRL γ
  /-- The slots which the pool has handed out. -/
  allocated : Finset Nat
  crlTable : UInt32 → Option Nat
  cbTimerPool : Finset Nat
  crlSequence : UInt32

/-- The arguments of `_AddCRL`, with what it obtains from the clock and the pool. -/
structure AddCall (γ : Type) where
  crId : UInt32
  paramIn : CRB3Param
  ifType : UInt16
  cb : γ
  cbTimeoutMS : Int32
  bufSize : Int32
  clock : Timespec
  /-- The free slot which the pool hands out, if it has one. -/
  slot : Nat

namespace CRLMap

variable {γ : Type}

/-! ## The libraries -/

/-- `flstAlloc` finds no free slot. -/
def Full (map : CRLMap γ) : Prop := ∀ slot < map.poolSize, slot ∈ map.allocated

instance (map : CRLMap γ) : Decidable map.Full :=
  inferInstanceAs (Decidable (∀ slot < map.poolSize, slot ∈ map.allocated))

/-- `slot` is free to be handed out. -/
def Free (map : CRLMap γ) (slot : Nat) : Prop := slot < map.poolSize ∧ slot ∉ map.allocated

instance (map : CRLMap γ) (slot : Nat) : Decidable (map.Free slot) :=
  inferInstanceAs (Decidable (_ ∧ _))

def flstFree (map : CRLMap γ) (slot : Nat) : CRLMap γ :=
  { map with allocated := map.allocated.erase slot }

def htimerInsert (map : CRLMap γ) (slot : Nat) : CRLMap γ :=
  { map with cbTimerPool := insert slot map.cbTimerPool }

def htimerDelete (map : CRLMap γ) (slot : Nat) : CRLMap γ :=
  { map with cbTimerPool := map.cbTimerPool.erase slot }

/-- Take a key out of `CRLTable`. -/
def ihashDelete (map : CRLMap γ) (key : UInt32) : CRLMap γ :=
  { map with crlTable := Function.update map.crlTable key none }

/-- Write an entry. -/
def store (map : CRLMap γ) (slot : Nat) (entry : CRB3_CRL γ) : CRLMap γ :=
  { map with entries := Function.update map.entries slot entry }

/-! ## Operations -/

/-- The second at which the timer of a request is due, 0 if it has none. -/
def schedSec (call : AddCall γ) : Nat :=
  if call.ifType = 1 ∧ call.cbTimeoutMS > 0 then
    let tvNsec := call.clock.tvNsec + (call.cbTimeoutMS.toInt % 1000).toNat * 1000000
    let tvSec := call.clock.tvSec + (call.cbTimeoutMS.toInt / 1000).toNat
    if tvNsec ≥ 1000000000 then tvSec + 1 else tvSec
  else 0

/-- The entry which `_AddCRL` fills; `intKey` is what the insertion leaves in the node. -/
def newEntry (call : AddCall γ) (intKey : UInt32) : CRB3_CRL γ :=
  { intKey, schedSec := schedSec call, crId := call.crId, ifType := call.ifType, paramOut := none,
    cb := call.cb }

/-- `CRLMap::_AddCRL`; `refusedKey` is the key in a node whose insertion was refused. -/
def addCRL (refusedKey : UInt32 → UInt32) (map : CRLMap γ) (call : AddCall γ) :
    CrlStatus × CRLMap γ :=
  if call.paramIn.getTLVLength + CRB3_PARAM_RESERVE_LEN > call.bufSize then
    (.CRB3_INVALID_PARAMETER, map)
  else if ¬ map.ready then (.CRB3_NOT_SERVICE, map)
  else if map.Full then (.CRB3_FULL, map)
  else
    let sequence := map.crlSequence
    let map :=
      { map with allocated := insert call.slot map.allocated, crlSequence := sequence + 1 }
    let map :=
      if call.ifType = 1 ∧ call.cbTimeoutMS > 0 then map.htimerInsert call.slot else map
    match map.crlTable sequence with
    | some _ =>
        (.CRB3_DUPLICATE,
          (map.store call.slot (newEntry call (refusedKey sequence))).flstFree call.slot)
    | none =>
        (.CRB3_OK,
          { map.store call.slot (newEntry call sequence) with
            crlTable := Function.update map.crlTable sequence (some call.slot) })

/-- `CRLMap::DelCRL`. -/
def delCRL (map : CRLMap γ) (crSeq : UInt32) : CrlStatus × CRLMap γ :=
  if ¬ map.ready then (.CRB3_NOT_SERVICE, map)
  else
    match map.crlTable crSeq with
    | some slot =>
        let entry := map.entries slot
        let map := map.ihashDelete crSeq
        let map :=
          if entry.ifType = 1 ∧ entry.schedSec > 0 then map.htimerDelete slot else map
        (.CRB3_OK, map.flstFree slot)
    | none => (.CRB3_NOT_FIND, map)

/-- `CRLMap::FillCRL`, with the callback it calls. -/
def fillCRL (map : CRLMap γ) (crSeq : UInt32) (paramOut : CRB3Param) :
    CrlStatus × CRLMap γ × Option (Completion γ) :=
  if ¬ map.ready then (.CRB3_NOT_SERVICE, map, none)
  else
    match map.crlTable crSeq with
    | none => (.CRB3_NOT_FIND, map, none)
    | some slot =>
        let entry := map.entries slot
        if entry.ifType = 0 then
          (.CRB3_OK, map.store slot { entry with paramOut := some paramOut }, none)
        else
          let map := map.ihashDelete crSeq
          let map := if entry.schedSec > 0 then map.htimerDelete slot else map
          (.CRB3_OK, map.flstFree slot, some ⟨entry.crId, some paramOut, entry.cb⟩)

/-- `CRLMap::_CRLTimeOutFunc` on the node of `slot`, which the timer thread has taken out of the
armed nodes, with the callback it calls. -/
def crlTimeOutFunc (map : CRLMap γ) (slot : Nat) : CRLMap γ × Option (Completion γ) :=
  let map := map.htimerDelete slot
  let key := (map.entries slot).intKey
  match map.crlTable key with
  | some found =>
      ((map.ihashDelete key).flstFree found,
        some ⟨(map.entries found).crId, none, (map.entries found).cb⟩)
  | none => (map, none)

/-- A map after `Start`, with any sequence number. -/
def start (poolSize : Nat) (memory : Nat → CRB3_CRL γ) (crlSequence : UInt32) : CRLMap γ :=
  { ready := true, poolSize, entries := memory, allocated := ∅, crlTable := fun _ => none,
    cbTimerPool := ∅, crlSequence }

/-- Take the entry in `slot` out of the three structures. -/
def remove (map : CRLMap γ) (slot : Nat) : CRLMap γ :=
  { map with
    allocated := map.allocated.erase slot
    crlTable := Function.update map.crlTable (map.entries slot).intKey none
    cbTimerPool := map.cbTimerPool.erase slot }

/-! ## Histories -/

/-- A map with the requests it has seen.  The accepted requests are numbered, and the number is
carried next to the callback, which no operation inspects. -/
structure History (γ : Type) where
  map : CRLMap (Nat × γ)
  /-- The number of requests accepted. -/
  accepted : Nat
  /-- The requests whose callback was called. -/
  invoked : List Nat
  /-- The requests for which `DelCRL` returned `CRB3_OK`. -/
  deleted : List Nat
  /-- The maps before and after each call of `_AddCRL` that failed. -/
  failures : List (CRLMap (Nat × γ) × CRLMap (Nat × γ))

inductive Op (γ : Type)
  | addCRLAsync (call : AddCall γ)
  | fillCRL (crSeq : UInt32) (paramOut : CRB3Param)
  | delCRL (crSeq : UInt32)
  | timeOut (slot : Nat)

namespace History

/-- `AddCRLAsync` passes the interface type 1. -/
def numbered (history : History γ) (call : AddCall γ) : AddCall (Nat × γ) :=
  { call with ifType := 1, cb := (history.accepted, call.cb) }

/-- Note the callbacks called. -/
def invoke (history : History γ) (map : CRLMap (Nat × γ))
    (completion : Option (Completion (Nat × γ))) : History γ :=
  { history with
    map
    invoked := match completion with
      | some completion => completion.cb.1 :: history.invoked
      | none => history.invoked }

def step (refusedKey : UInt32 → UInt32) (history : History γ) : Op γ → Option (History γ)
  | .addCRLAsync call =>
      if history.map.Full ∨ history.map.Free call.slot then
        let (status, map) := history.map.addCRL refusedKey (history.numbered call)
        if status = .CRB3_OK then some { history with map, accepted := history.accepted + 1 }
        else some { history with map, failures := (history.map, map) :: history.failures }
      else none
  | .fillCRL crSeq paramOut =>
      let (_, map, completion) := history.map.fillCRL crSeq paramOut
      some (history.invoke map completion)
  | .delCRL crSeq =>
      let (status, map) := history.map.delCRL crSeq
      match history.map.crlTable crSeq with
      | some slot =>
          if status = .CRB3_OK then
            some { history with
              map, deleted := (history.map.entries slot).cb.1 :: history.deleted }
          else some { history with map }
      | none => some { history with map }
  | .timeOut slot =>
      if slot ∈ history.map.cbTimerPool then
        let (map, completion) := history.map.crlTimeOutFunc slot
        some (history.invoke map completion)
      else none

def start (poolSize : Nat) (memory : Nat → CRB3_CRL (Nat × γ)) (crlSequence : UInt32) :
    History γ :=
  { map := .start poolSize memory crlSequence, accepted := 0, invoked := [], deleted := [],
    failures := [] }

/-- Exactly-once completion and agreement of the three structures. -/
structure Good (history : History γ) : Prop where
  once : history.invoked.Nodup
  notAfter : ∀ request ∈ history.deleted, request ∉ history.invoked
  listed : ∀ slot, slot ∈ history.map.allocated ↔
    ∃ key, history.map.crlTable key = some slot
  armed : history.map.cbTimerPool ⊆ history.map.allocated
  kept : ∀ failure ∈ history.failures, failure.2.crlTable = failure.1.crlTable ∧
    failure.2.cbTimerPool = failure.1.cbTimerPool ∧ failure.2.allocated = failure.1.allocated

/-- A request with a timeout that obtains an entry is not given the sequence number of a pending
one. -/
def Fresh (history : History γ) : Op γ → Prop
  | .addCRLAsync call =>
      ¬ call.paramIn.getTLVLength + CRB3_PARAM_RESERVE_LEN > call.bufSize →
        history.map.ready = true → ¬ history.map.Full → call.cbTimeoutMS > 0 →
          history.map.crlTable history.map.crlSequence = none
  | _ => True

/-! ## The invariant -/

/-- The request whose entry is in `slot`. -/
def request (history : History γ) (slot : Nat) : Nat := (history.map.entries slot).cb.1

/-- The table, the timers and the pool describe the same pending requests. -/
structure Consistent (history : History γ) : Prop where
  ready : history.map.ready = true
  keyed : ∀ {key slot}, history.map.crlTable key = some slot →
    slot ∈ history.map.allocated ∧ (history.map.entries slot).intKey = key
  found : ∀ {slot}, slot ∈ history.map.allocated →
    history.map.crlTable (history.map.entries slot).intKey = some slot
  async : ∀ {slot}, slot ∈ history.map.allocated → (history.map.entries slot).ifType = 1
  timed : ∀ {slot}, slot ∈ history.map.cbTimerPool ↔
    slot ∈ history.map.allocated ∧ 0 < (history.map.entries slot).schedSec
  pending : ∀ {slot}, slot ∈ history.map.allocated →
    history.request slot < history.accepted ∧ history.request slot ∉ history.invoked ∧
      history.request slot ∉ history.deleted
  distinct : ∀ {slot slot'}, slot ∈ history.map.allocated → slot' ∈ history.map.allocated →
    history.request slot = history.request slot' → slot = slot'
  past : ∀ request, request ∈ history.invoked ∨ request ∈ history.deleted →
    request < history.accepted
  once : history.invoked.Nodup
  notAfter : ∀ request ∈ history.deleted, request ∉ history.invoked
  kept : ∀ failure ∈ history.failures, failure.2.crlTable = failure.1.crlTable ∧
    failure.2.cbTimerPool = failure.1.cbTimerPool ∧ failure.2.allocated = failure.1.allocated

namespace Consistent

variable {history next : History γ} {slot : Nat} {key : UInt32}

theorem start (poolSize : Nat) (memory : Nat → CRB3_CRL (Nat × γ)) (crlSequence : UInt32) :
    (History.start poolSize memory crlSequence).Consistent := by
  constructor <;> simp [History.start, CRLMap.start]

theorem good (consistent : history.Consistent) : history.Good where
  once := consistent.once
  notAfter := consistent.notAfter
  listed slot := by
    constructor
    · exact fun allocated => ⟨_, consistent.found allocated⟩
    · rintro ⟨key, found⟩
      exact (consistent.keyed found).1
  armed _ armed := (consistent.timed.mp armed).1
  kept := consistent.kept

/-! ## Completed requests -/

theorem not_timed (consistent : history.Consistent)
    (untimed : ¬ 0 < (history.map.entries slot).schedSec) :
    history.map.cbTimerPool.erase slot = history.map.cbTimerPool :=
  Finset.erase_eq_of_notMem fun armed => untimed (consistent.timed.mp armed).2

theorem delCRL_eq (consistent : history.Consistent)
    (found : history.map.crlTable key = some slot) :
    history.map.delCRL key = (.CRB3_OK, history.map.remove slot) := by
  obtain ⟨member, key_eq⟩ := consistent.keyed found
  simp only [delCRL, consistent.ready, found, consistent.async member, remove, ihashDelete,
    htimerDelete, flstFree, key_eq]
  by_cases timed : 0 < (history.map.entries slot).schedSec
  · simp [timed]
  · simp [timed, consistent.not_timed timed]

theorem fillCRL_eq (consistent : history.Consistent) (paramOut : CRB3Param)
    (found : history.map.crlTable key = some slot) :
    history.map.fillCRL key paramOut =
      (.CRB3_OK, history.map.remove slot,
        some ⟨(history.map.entries slot).crId, some paramOut, (history.map.entries slot).cb⟩) := by
  obtain ⟨member, key_eq⟩ := consistent.keyed found
  simp only [fillCRL, consistent.ready, found, consistent.async member, remove, ihashDelete,
    htimerDelete, flstFree, key_eq]
  by_cases timed : 0 < (history.map.entries slot).schedSec
  · simp [timed]
  · simp [timed, consistent.not_timed timed]

theorem crlTimeOutFunc_eq (consistent : history.Consistent)
    (armed : slot ∈ history.map.cbTimerPool) :
    history.map.crlTimeOutFunc slot =
      (history.map.remove slot,
        some ⟨(history.map.entries slot).crId, none, (history.map.entries slot).cb⟩) := by
  have found := consistent.found (consistent.timed.mp armed).1
  simp only [crlTimeOutFunc, htimerDelete, found]
  rfl

/-- A request whose entry leaves the three structures completes, by its callback or by
`DelCRL`. -/
theorem remove (consistent : history.Consistent) (member : slot ∈ history.map.allocated)
    {invoked deleted : List Nat}
    (completed : (invoked = history.request slot :: history.invoked ∧ deleted = history.deleted) ∨
      invoked = history.invoked ∧ deleted = history.request slot :: history.deleted) :
    { history with map := history.map.remove slot, invoked, deleted }.Consistent := by
  obtain ⟨below, notInvoked, notDeleted⟩ := consistent.pending member
  have others : ∀ {other}, other ∈ history.map.allocated → other ≠ slot →
      history.request other ≠ history.request slot := fun allocated different same =>
    different (consistent.distinct allocated member same)
  have keys : ∀ {other}, other ∈ history.map.allocated → other ≠ slot →
      (history.map.entries other).intKey ≠ (history.map.entries slot).intKey := by
    intro other allocated different same
    have first := consistent.found allocated
    rw [same, consistent.found member] at first
    exact different (Option.some.inj first).symm
  exact
    { ready := consistent.ready
      keyed := by
        intro key other found
        by_cases same : key = (history.map.entries slot).intKey
        · simp [CRLMap.remove, same] at found
        · simp only [CRLMap.remove, Function.update_of_ne same] at found
          obtain ⟨allocated, key_eq⟩ := consistent.keyed found
          refine ⟨Finset.mem_erase.mpr ⟨?_, allocated⟩, key_eq⟩
          rintro rfl
          exact same key_eq.symm
      found := by
        intro other member'
        obtain ⟨different, allocated⟩ := Finset.mem_erase.mp member'
        simp only [CRLMap.remove, Function.update_of_ne (keys allocated different)]
        exact consistent.found allocated
      async := fun member' => consistent.async (Finset.mem_of_mem_erase member')
      timed := by
        intro other
        simp only [CRLMap.remove, Finset.mem_erase, consistent.timed, and_assoc]
      pending := by
        intro other member'
        obtain ⟨different, allocated⟩ := Finset.mem_erase.mp member'
        obtain ⟨below', notInvoked', notDeleted'⟩ := consistent.pending allocated
        refine ⟨below', ?_⟩
        rcases completed with ⟨rfl, rfl⟩ | ⟨rfl, rfl⟩
        · exact ⟨List.not_mem_cons_of_ne_of_not_mem (others allocated different) notInvoked',
            notDeleted'⟩
        · exact ⟨notInvoked',
            List.not_mem_cons_of_ne_of_not_mem (others allocated different) notDeleted'⟩
      distinct := fun first second =>
        consistent.distinct (Finset.mem_of_mem_erase first) (Finset.mem_of_mem_erase second)
      past := by
        intro request
        have before := consistent.past request
        rcases completed with ⟨rfl, rfl⟩ | ⟨rfl, rfl⟩ <;> simp only [List.mem_cons] <;> grind
      once := by
        rcases completed with ⟨rfl, rfl⟩ | ⟨rfl, rfl⟩
        · exact List.nodup_cons.mpr ⟨notInvoked, consistent.once⟩
        · exact consistent.once
      notAfter := by
        intro request gone
        rcases completed with ⟨rfl, rfl⟩ | ⟨rfl, rfl⟩
        · refine List.not_mem_cons_of_ne_of_not_mem ?_ (consistent.notAfter request gone)
          rintro rfl
          exact notDeleted gone
        · rcases List.mem_cons.mp gone with rfl | gone
          · exact notInvoked
          · exact consistent.notAfter request gone
      kept := consistent.kept }

/-! ## New requests -/

theorem schedSec_pos (call : AddCall γ) :
    0 < schedSec call ↔ call.ifType = 1 ∧ call.cbTimeoutMS > 0 := by
  have := call.clock.past
  unfold schedSec
  split
  · next timed =>
      simp only [timed, and_self, iff_true]
      split <;> omega
  · next untimed => simp [untimed]

/-- A call that leaves the three structures alone keeps them consistent. -/
theorem failed (consistent : history.Consistent) {map : CRLMap (Nat × γ)}
    (ready : map.ready = history.map.ready) (table : map.crlTable = history.map.crlTable)
    (timers : map.cbTimerPool = history.map.cbTimerPool)
    (allocated : map.allocated = history.map.allocated)
    (entries : ∀ slot ∈ history.map.allocated, map.entries slot = history.map.entries slot) :
    { history with map, failures := (history.map, map) :: history.failures }.Consistent := by
  have request : ∀ slot ∈ history.map.allocated,
      (map.entries slot).cb.1 = history.request slot := fun slot member => by
    rw [entries slot member, History.request]
  exact
    { ready := ready.trans consistent.ready
      keyed := by
        intro key slot found
        rw [table] at found
        obtain ⟨member, key_eq⟩ := consistent.keyed found
        rw [allocated, entries slot member]
        exact ⟨member, key_eq⟩
      found := by
        intro slot member
        rw [allocated] at member
        rw [table, entries slot member]
        exact consistent.found member
      async := by
        intro slot member
        rw [allocated] at member
        rw [entries slot member]
        exact consistent.async member
      timed := by
        intro slot
        rw [timers, allocated, consistent.timed]
        refine and_congr_right fun member => ?_
        rw [entries slot member]
      pending := by
        intro slot member
        rw [allocated] at member
        simp only [History.request, request slot member]
        exact consistent.pending member
      distinct := by
        intro slot slot' member member' same
        rw [allocated] at member member'
        simp only [History.request, request slot member, request slot' member'] at same
        exact consistent.distinct member member' same
      past := consistent.past
      once := consistent.once
      notAfter := consistent.notAfter
      kept := by
        intro failure member
        rcases List.mem_cons.mp member with rfl | member
        · exact ⟨table, timers, allocated⟩
        · exact consistent.kept failure member }

/-- A new request is pending. -/
theorem accepted (consistent : history.Consistent) {entry : CRB3_CRL (Nat × γ)}
    {map : CRLMap (Nat × γ)} (free : slot ∉ history.map.allocated)
    (unused : history.map.crlTable key = none) (ready : map.ready = history.map.ready)
    (entries : map.entries = Function.update history.map.entries slot entry)
    (table : map.crlTable = Function.update history.map.crlTable key (some slot))
    (allocated : map.allocated = insert slot history.map.allocated)
    (timers : ∀ other, other ∈ map.cbTimerPool ↔
      other ∈ history.map.cbTimerPool ∨ other = slot ∧ 0 < entry.schedSec)
    (intKey : entry.intKey = key) (ifType : entry.ifType = 1)
    (number : entry.cb.1 = history.accepted) :
    { history with map, accepted := history.accepted + 1 }.Consistent := by
  have apart : ∀ {other}, other ∈ history.map.allocated → other ≠ slot := by
    rintro other member rfl
    exact free member
  have here : map.entries slot = entry := by rw [entries, Function.update_self]
  have there : ∀ {other}, other ∈ history.map.allocated →
      map.entries other = history.map.entries other := by
    intro other member
    rw [entries, Function.update_of_ne (apart member)]
  have fresh : ∀ {other}, other ∈ history.map.allocated →
      history.request other ≠ history.accepted := fun member =>
    Nat.ne_of_lt (consistent.pending member).1
  exact
    { ready := ready.trans consistent.ready
      keyed := by
        intro key' other found
        simp only [table, allocated, Finset.mem_insert] at found ⊢
        by_cases same : key' = key
        · subst same
          rw [Function.update_self] at found
          obtain rfl := Option.some.inj found
          exact ⟨.inl rfl, by rw [here, intKey]⟩
        · rw [Function.update_of_ne same] at found
          obtain ⟨member, key_eq⟩ := consistent.keyed found
          exact ⟨.inr member, by rw [there member, key_eq]⟩
      found := by
        intro other member
        simp only [allocated, Finset.mem_insert] at member
        rcases member with rfl | member
        · rw [here, intKey, table, Function.update_self]
        · have found := consistent.found member
          have different : (history.map.entries other).intKey ≠ key := by
            intro same
            rw [same, unused] at found
            cases found
          rw [there member, table, Function.update_of_ne different, found]
      async := by
        intro other member
        simp only [allocated, Finset.mem_insert] at member
        rcases member with rfl | member
        · rw [here, ifType]
        · rw [there member, consistent.async member]
      timed := by
        intro other
        simp only [timers, allocated, Finset.mem_insert]
        by_cases same : other = slot
        · subst same
          simp [here, free, consistent.timed]
        · simp only [same, false_and, or_false, false_or, consistent.timed]
          exact and_congr_right fun member => by rw [there member]
      pending := by
        intro other member
        simp only [allocated, Finset.mem_insert] at member
        simp only [History.request]
        rcases member with rfl | member
        · rw [here, number]
          exact ⟨Nat.lt_succ_self _, fun gone => Nat.lt_irrefl _ (consistent.past _ (.inl gone)),
            fun gone => Nat.lt_irrefl _ (consistent.past _ (.inr gone))⟩
        · rw [there member]
          obtain ⟨below, rest⟩ := consistent.pending member
          exact ⟨Nat.lt_succ_of_lt below, rest⟩
      distinct := by
        intro first second member member' same
        simp only [allocated, Finset.mem_insert] at member member'
        simp only [History.request] at same
        rcases member with rfl | member <;> rcases member' with rfl | member'
        · rfl
        · rw [here, there member', number] at same
          exact absurd same.symm (fresh member')
        · rw [here, there member, number] at same
          exact absurd same (fresh member)
        · rw [there member, there member'] at same
          exact consistent.distinct member member' same
      past := fun request gone => Nat.lt_succ_of_lt (consistent.past request gone)
      once := consistent.once
      notAfter := consistent.notAfter
      kept := consistent.kept }

end Consistent

/-! ## Steps and runs -/

section Steps

variable {refusedKey : UInt32 → UInt32} {history next : History γ} {op : Op γ}

/-- The armed nodes when `_AddCRL` inserts into the table. -/
def timersWith (map : CRLMap γ) (call : AddCall γ) : Finset Nat :=
  if call.ifType = 1 ∧ call.cbTimeoutMS > 0 then insert call.slot map.cbTimerPool
  else map.cbTimerPool

/-- The arguments of a call that goes on to the pool. -/
def Admits (map : CRLMap γ) (call : AddCall γ) : Prop :=
  ¬ call.paramIn.getTLVLength + CRB3_PARAM_RESERVE_LEN > call.bufSize ∧ map.ready = true ∧
    ¬ map.Full

theorem addCRL_of_not_admits (refusedKey : UInt32 → UInt32) {map : CRLMap γ} {call : AddCall γ}
    (refused : ¬ Admits map call) :
    (map.addCRL refusedKey call).1 ≠ .CRB3_OK ∧ (map.addCRL refusedKey call).2 = map := by
  unfold addCRL
  split
  · simp
  · next room =>
      split
      · simp
      · next ready =>
          split
          · simp
          · next notFull => exact absurd ⟨room, not_not.mp ready, notFull⟩ refused

theorem addCRL_of_pending {map : CRLMap γ} {call : AddCall γ} (admits : Admits map call)
    {other : Nat} (pending : map.crlTable map.crlSequence = some other) :
    map.addCRL refusedKey call =
      (.CRB3_DUPLICATE,
        { map with
          entries := Function.update map.entries call.slot
            (newEntry call (refusedKey map.crlSequence))
          allocated := (insert call.slot map.allocated).erase call.slot
          cbTimerPool := timersWith map call
          crlSequence := map.crlSequence + 1 }) := by
  obtain ⟨room, ready, notFull⟩ := admits
  unfold addCRL timersWith
  rw [if_neg room, if_neg (not_not.mpr ready), if_neg notFull]
  split <;> simp only [htimerInsert, pending] <;> rfl

theorem addCRL_of_unused {map : CRLMap γ} {call : AddCall γ} (admits : Admits map call)
    (unused : map.crlTable map.crlSequence = none) :
    map.addCRL refusedKey call =
      (.CRB3_OK,
        { map with
          entries := Function.update map.entries call.slot (newEntry call map.crlSequence)
          allocated := insert call.slot map.allocated
          crlTable := Function.update map.crlTable map.crlSequence (some call.slot)
          cbTimerPool := timersWith map call
          crlSequence := map.crlSequence + 1 }) := by
  obtain ⟨room, ready, notFull⟩ := admits
  unfold addCRL timersWith
  rw [if_neg room, if_neg (not_not.mpr ready), if_neg notFull]
  split <;> simp only [htimerInsert, unused] <;> rfl

theorem Consistent.addCRLAsync (consistent : history.Consistent) {call : AddCall γ}
    (fresh : history.Fresh (.addCRLAsync call))
    (stepped : step refusedKey history (.addCRLAsync call) = some next) : next.Consistent := by
  simp only [History.step] at stepped
  split at stepped
  case isFalse => cases stepped
  next offered =>
    by_cases admits : Admits history.map (history.numbered call)
    · have free : call.slot ∉ history.map.allocated :=
        (offered.resolve_left admits.2.2).2
      cases used : history.map.crlTable history.map.crlSequence with
      | some other =>
          have untimed : ¬ call.cbTimeoutMS > 0 := by
            intro timed
            have unused := fresh admits.1 admits.2.1 admits.2.2 timed
            rw [used] at unused
            cases unused
          simp only [addCRL_of_pending admits used, reduceCtorEq, if_false, Option.some.injEq]
            at stepped
          subst stepped
          refine consistent.failed rfl rfl ?_ (Finset.erase_insert free) ?_
          · exact if_neg fun timed => untimed timed.2
          · intro slot member
            refine Function.update_of_ne ?_ _ _
            rintro rfl
            exact free member
      | none =>
          simp only [addCRL_of_unused admits used, if_true, Option.some.injEq] at stepped
          subst stepped
          refine consistent.accepted free used rfl rfl rfl rfl ?_ rfl rfl rfl
          intro other
          simp only [timersWith, newEntry, schedSec_pos]
          split
          · next timed =>
              rw [Finset.mem_insert, or_comm, and_iff_left timed]
              rfl
          · next untimed => simp [untimed]
    · obtain ⟨notOk, same⟩ := addCRL_of_not_admits refusedKey admits
      simp only [same, if_neg notOk, Option.some.injEq] at stepped
      subst stepped
      exact consistent.failed rfl rfl rfl rfl fun _ _ => rfl

/-- A step that meets the condition keeps the structures consistent. -/
theorem Consistent.step (consistent : history.Consistent) (fresh : history.Fresh op)
    (stepped : History.step refusedKey history op = some next) : next.Consistent := by
  cases op with
  | addCRLAsync call => exact consistent.addCRLAsync fresh stepped
  | fillCRL crSeq paramOut =>
      cases found : history.map.crlTable crSeq with
      | none =>
          have missing : history.map.fillCRL crSeq paramOut =
              (.CRB3_NOT_FIND, history.map, none) := by
            simp [CRLMap.fillCRL, consistent.ready, found]
          simp only [History.step, missing, Option.some.injEq] at stepped
          subst stepped
          exact consistent
      | some slot =>
          simp only [History.step, consistent.fillCRL_eq paramOut found, Option.some.injEq]
            at stepped
          subst stepped
          exact consistent.remove (consistent.keyed found).1 (.inl ⟨rfl, rfl⟩)
  | delCRL crSeq =>
      cases found : history.map.crlTable crSeq with
      | none =>
          have missing : history.map.delCRL crSeq = (.CRB3_NOT_FIND, history.map) := by
            simp [CRLMap.delCRL, consistent.ready, found]
          simp only [History.step, found, missing, Option.some.injEq] at stepped
          subst stepped
          exact consistent
      | some slot =>
          simp only [History.step, found, consistent.delCRL_eq found, if_true,
            Option.some.injEq] at stepped
          subst stepped
          exact consistent.remove (consistent.keyed found).1 (.inr ⟨rfl, rfl⟩)
  | timeOut slot =>
      simp only [History.step] at stepped
      split at stepped
      · next armed =>
          simp only [consistent.crlTimeOutFunc_eq armed, Option.some.injEq] at stepped
          subst stepped
          exact consistent.remove (consistent.timed.mp armed).1 (.inl ⟨rfl, rfl⟩)
      · cases stepped

/-- A refused request with a timeout leaves a timer to an entry that is free. -/
theorem not_good_of_stale (stale : ¬ history.Fresh op)
    (stepped : History.step refusedKey history op = some next) : ¬ next.Good := by
  cases op with
  | addCRLAsync call =>
      simp only [Fresh, not_forall] at stale
      obtain ⟨room, ready, notFull, timed, used⟩ := stale
      have admits : Admits history.map (history.numbered call) := ⟨room, ready, notFull⟩
      obtain ⟨other, pending⟩ := Option.ne_none_iff_exists'.mp used
      simp only [History.step] at stepped
      split at stepped
      · simp only [addCRL_of_pending admits pending, reduceCtorEq, if_false, Option.some.injEq]
          at stepped
        subst stepped
        intro good
        have armed : call.slot ∈ timersWith history.map (history.numbered call) := by
          rw [timersWith, if_pos ⟨rfl, timed⟩]
          exact Finset.mem_insert_self _ _
        exact Finset.notMem_erase _ _ (good.armed armed)
      · cases stepped
  | _ => exact absurd trivial stale

/-- Whatever the clients, the packets and the timers do, the requests complete at most once and the
three structures agree throughout a run exactly when no request with a timeout is given the
sequence number of a pending one. -/
theorem good_iff_fresh (refusedKey : UInt32 → UInt32) (poolSize : Nat)
    (memory : Nat → CRB3_CRL (Nat × γ)) (crlSequence : UInt32) (ops : List (Op γ)) :
    Execution.AllStates (History.step refusedKey) Good (start poolSize memory crlSequence) ops ↔
      Execution.AllSteps (History.step refusedKey) Fresh (start poolSize memory crlSequence) ops :=
  Execution.allStates_iff_allSteps Consistent Consistent.good Consistent.step
    (fun _ => not_good_of_stale)
    (Consistent.start poolSize memory crlSequence) ops

end Steps

/-! ## Sequence numbers that come round -/

/-- A request without parameters. -/
def plainCall (slot : Nat) (cbTimeoutMS : Int32) : AddCall Unit :=
  { crId := 0, paramIn := ⟨[]⟩, ifType := 1, cb := (), cbTimeoutMS, bufSize := 64,
    clock := ⟨1, 0, Nat.one_pos⟩, slot }

/-- Requests without a timeout, each answered before the next. -/
def rounds : Nat → List (Op Unit)
  | 0 => []
  | count + 1 =>
      rounds count ++
        [.addCRLAsync (plainCall 1 0), .fillCRL (UInt32.ofNat (count + 1)) ⟨[]⟩]

/-- A request without a timeout that is never answered, all other sequence numbers, and a request
with a timeout of one second. -/
def wrapOps : List (Op Unit) :=
  .addCRLAsync (plainCall 0 0) :: (rounds (2 ^ 32 - 1) ++ [.addCRLAsync (plainCall 1 1000)])

/-- Only the first request is pending, and `count` others have been answered. -/
structure Waiting (history : History Unit) (count : Nat) : Prop where
  consistent : history.Consistent
  poolSize : history.map.poolSize = 2
  allocated : history.map.allocated = {0}
  crlTable : history.map.crlTable = Function.update (fun _ => none) 0 (some 0)
  crlSequence : history.map.crlSequence = UInt32.ofNat (count + 1)

section Waiting

variable {refusedKey : UInt32 → UInt32} {history : History Unit} {count : Nat}

theorem plainCall_room :
    ¬ (⟨[]⟩ : CRB3Param).getTLVLength + CRB3_PARAM_RESERVE_LEN > 64 := by
  decide

/-- A plain request without a timeout is accepted under an unused sequence number. -/
theorem step_plainCall (refusedKey : UInt32 → UInt32) {slot : Nat}
    (ready : history.map.ready = true)
    (free : history.map.Free slot) (unused : history.map.crlTable history.map.crlSequence = none) :
    ∃ next, step refusedKey history (.addCRLAsync (plainCall slot 0)) = some next ∧
      next.map.poolSize = history.map.poolSize ∧
      next.map.allocated = insert slot history.map.allocated ∧
      next.map.crlTable =
        Function.update history.map.crlTable history.map.crlSequence (some slot) ∧
      next.map.crlSequence = history.map.crlSequence + 1 := by
  have admits : Admits history.map (history.numbered (plainCall slot 0)) :=
    ⟨plainCall_room, ready, fun full => free.2 (full slot free.1)⟩
  simp only [step, addCRL_of_unused admits unused, if_true]
  rw [if_pos (.inr free)]
  exact ⟨_, rfl, rfl, rfl, rfl, rfl⟩

theorem plainCall_fresh (slot : Nat) : history.Fresh (.addCRLAsync (plainCall slot 0)) :=
  fun _ _ _ timed => absurd (show (0 : Int32) > 0 from timed) (by decide)

theorem start_waiting (memory : Nat → CRB3_CRL (Nat × Unit)) :
    ∃ next, step refusedKey (start 2 memory 0) (.addCRLAsync (plainCall 0 0)) = some next ∧
      Waiting next 0 := by
  have free : (start 2 memory 0).map.Free 0 := ⟨Nat.two_pos, by simp [start, CRLMap.start]⟩
  obtain ⟨next, stepped, poolSize, allocated, crlTable, crlSequence⟩ :=
    step_plainCall refusedKey rfl free rfl
  have consistent := (Consistent.start 2 memory 0).step (plainCall_fresh 0) stepped
  exact ⟨next, stepped, consistent, poolSize, allocated, crlTable, crlSequence⟩

theorem Waiting.free (waiting : Waiting history count) : history.map.Free 1 := by
  refine ⟨by rw [waiting.poolSize]; decide, ?_⟩
  rw [waiting.allocated]
  decide

theorem Waiting.round (waiting : Waiting history count) (short : count + 1 < 2 ^ 32) :
    ∃ next, Execution.run (step refusedKey) history
      [.addCRLAsync (plainCall 1 0), .fillCRL (UInt32.ofNat (count + 1)) ⟨[]⟩] = some next ∧
      Waiting next (count + 1) := by
  have nonzero : UInt32.ofNat (count + 1) ≠ 0 := by
    intro zero
    have value := congrArg UInt32.toNat zero
    rw [UInt32.toNat_ofNat_of_lt' short] at value
    exact absurd value (Nat.succ_ne_zero count)
  have unused : history.map.crlTable history.map.crlSequence = none := by
    rw [waiting.crlTable, waiting.crlSequence, Function.update_of_ne nonzero]
  obtain ⟨middle, added, poolSize, allocated, crlTable, crlSequence⟩ :=
    step_plainCall refusedKey waiting.consistent.ready waiting.free unused
  rw [waiting.crlSequence] at crlTable crlSequence
  rw [waiting.crlSequence] at unused
  have consistent : middle.Consistent := waiting.consistent.step (plainCall_fresh 1) added
  have found : middle.map.crlTable (UInt32.ofNat (count + 1)) = some 1 := by
    rw [crlTable, Function.update_self]
  have filled : step refusedKey middle (.fillCRL (UInt32.ofNat (count + 1)) ⟨[]⟩) =
      some (middle.invoke (middle.map.remove 1)
        (some ⟨(middle.map.entries 1).crId, some ⟨[]⟩, (middle.map.entries 1).cb⟩)) := by
    simp only [step, consistent.fillCRL_eq _ found]
  refine ⟨_, by rw [Execution.run, added, Option.bind_some, Execution.run, filled]; rfl, ?_⟩
  exact
    { consistent := consistent.step (show middle.Fresh (.fillCRL _ _) from trivial) filled
      poolSize := poolSize.trans waiting.poolSize
      allocated := by
        simp only [invoke, CRLMap.remove, allocated, waiting.allocated]
        decide
      crlTable := by
        simp only [invoke, CRLMap.remove, (consistent.keyed found).2, crlTable,
          Function.update_idem]
        have restored := Function.update_eq_self (UInt32.ofNat (count + 1)) history.map.crlTable
        rw [unused] at restored
        exact restored.trans waiting.crlTable
      crlSequence := by
        simp only [invoke, CRLMap.remove, crlSequence]
        exact (UInt32.ofNat_add _ _).symm }

theorem rounds_waiting {history : History Unit} (waiting : Waiting history 0) (count : Nat)
    (short : count < 2 ^ 32) :
    ∃ next, Execution.run (step refusedKey) history (rounds count) = some next ∧
      Waiting next count := by
  induction count with
  | zero => exact ⟨history, rfl, waiting⟩
  | succ count induction =>
      obtain ⟨middle, before, waiting'⟩ := induction (by omega)
      obtain ⟨next, round, waiting''⟩ := waiting'.round short
      exact ⟨next, by rw [rounds, Execution.run_append, before, Option.bind_some, round], waiting''⟩

/-- After all sequence numbers have been used, a request with a timeout is refused and leaves its
timer behind. -/
theorem wrapOps_not_good (refusedKey : UInt32 → UInt32) (memory : Nat → CRB3_CRL (Nat × Unit)) :
    ∃ history, Execution.run (step refusedKey) (start 2 memory 0) wrapOps = some history ∧
      ¬ history.Good := by
  obtain ⟨first, added, waiting⟩ := start_waiting memory
  obtain ⟨history, answered, waiting'⟩ :=
    rounds_waiting waiting (2 ^ 32 - 1) (by decide)
  have present : history.map.crlTable history.map.crlSequence = some 0 := by
    rw [waiting'.crlTable, waiting'.crlSequence]
    rfl
  have admits : Admits history.map (history.numbered (plainCall 1 1000)) :=
    ⟨plainCall_room, waiting'.consistent.ready,
      fun full => waiting'.free.2 (full 1 waiting'.free.1)⟩
  have stale : ¬ history.Fresh (.addCRLAsync (plainCall 1 1000)) := by
    intro fresh
    have unused := fresh admits.1 admits.2.1 admits.2.2 (by decide)
    rw [present] at unused
    cases unused
  have stepped : ∃ next, step refusedKey history (.addCRLAsync (plainCall 1 1000)) = some next := by
    simp only [step, addCRL_of_pending admits present, reduceCtorEq, if_false]
    rw [if_pos (.inr waiting'.free)]
    exact ⟨_, rfl⟩
  obtain ⟨next, stepped⟩ := stepped
  refine ⟨next, ?_, not_good_of_stale stale stepped⟩
  rw [wrapOps, Execution.run, added, Option.bind_some, Execution.run_append, answered,
    Option.bind_some, Execution.run, stepped]
  rfl

theorem wrapOps_leaves_timer :
    ∃ history, Execution.run (step id)
      (start 2 (fun _ => ⟨0, 0, 0, 0, none, (0, ())⟩) 0) wrapOps = some history ∧
        ¬ history.Good :=
  wrapOps_not_good id _

end Waiting

end History

end CRLMap

end CommonLib
