import CommonLib.Network.CrlMap
import CommonLib.Network.Crb3Packet

/-!
# The header that `_AddCRL` writes

`_AddCRL` releases `CRLMutex` before it writes the parameter buffer, and takes the CR-Id from its
entry then.  Other threads may have completed the request in the meantime, and the pool may have
handed out the entry again.
-/

namespace CommonLib

open CRB3Param Execution

/-! ## The parameter buffer -/

/-- The fields before the parameters, from ReqNum to PSize. -/
def requestHead (sequence crId : UInt32) (crFlag : UInt16) (param : CRB3Param) : List Byte :=
  bigEndian 2 1 ++ (bigEndian 2 0 ++ (bigEndian 4 sequence.toNat ++ (bigEndian 4 crId.toNat ++
    (bigEndian 2 crFlag.toNat ++ (bigEndian 2 (UInt16.ofNat param.paramTbl.length).toNat ++
      bigEndian 4 param.getTLVLength.toUInt32.toNat)))))

/-- Fill a parameter buffer at the cursor; `_AddCRL`, `RequestDio` and `CRSend` submit the same
fields. -/
def submitRequest (htonl_64 : Int64 → Int64) (sequence crId : UInt32) (crFlag : UInt16)
    (param : CRB3Param) (out : Output) : Output :=
  let out := submit (bigEndian 2 1) out
  let out := submit (bigEndian 2 0) out
  let out := submit (bigEndian 4 sequence.toNat) out
  let out := submit (bigEndian 4 crId.toNat) out
  let out := submit (bigEndian 2 crFlag.toNat) out
  let out := submit (bigEndian 2 (UInt16.ofNat param.paramTbl.length).toNat) out
  let out := submit (bigEndian 4 param.getTLVLength.toUInt32.toNat) out
  param.paramTbl.foldl (outputSlot htonl_64) out

section Submit

variable {htonl_64 : Int64 → Int64} {sequence crId : UInt32} {crFlag : UInt16} {param : CRB3Param}
  {out : Output}

@[simp] theorem requestHead_length : (requestHead sequence crId crFlag param).length = 20 := by
  simp [requestHead]

theorem submitRequest_eq :
    submitRequest htonl_64 sequence crId crFlag param out =
      param.paramTbl.foldl (outputSlot htonl_64)
        (submit (requestHead sequence crId crFlag param) out) := by
  simp only [submitRequest, requestHead, submit_submit, List.append_assoc]

theorem outputSlot_before (htonl_64 : Int64 → Int64) (out : Output) (tlv : CRB3_TLV) :
    out.2 ≤ (outputSlot htonl_64 out tlv).2 ∧
      ∀ cell < out.2, (outputSlot htonl_64 out tlv).1 cell = out.1 cell := by
  have submitted (bytes : List Byte) (out : Output) {cell : Nat} (before : cell < out.2) :
      (submit bytes out).1 cell = out.1 cell := move_outside (.inl before)
  have advanced (bytes : List Byte) (out : Output) : out.2 ≤ (submit bytes out).2 :=
    Nat.le_add_right ..
  have head_le := Nat.le_trans (advanced (bigEndian 2 tlv.type.toNat) out)
    (advanced (bigEndian 2 tlv.len.toNat) _)
  have head_eq {cell : Nat} (before : cell < out.2) :
      (submit (bigEndian 2 tlv.len.toNat) (submit (bigEndian 2 tlv.type.toNat) out)).1 cell =
        out.1 cell := by
    rw [submitted _ _ (Nat.lt_of_lt_of_le before (advanced ..)), submitted _ _ before]
  obtain ⟨len, value⟩ := tlv
  cases value with
  | null => exact ⟨Nat.le_trans head_le (Nat.le_add_right ..), fun cell before => head_eq before⟩
  | _ =>
      refine ⟨Nat.le_trans head_le (advanced ..), fun cell before => ?_⟩
      exact (submitted _ _ (Nat.lt_of_lt_of_le before head_le)).trans (head_eq before)

/-- `OutputTLV` leaves alone what lies before its cursor. -/
theorem foldl_outputSlot_before (table : List CRB3_TLV) {cell : Nat} (before : cell < out.2) :
    (table.foldl (outputSlot htonl_64) out).1 cell = out.1 cell := by
  induction table generalizing out with
  | nil => rfl
  | cons tlv table induction =>
      obtain ⟨advanced, kept⟩ := outputSlot_before htonl_64 out tlv
      rw [List.foldl_cons, induction (Nat.lt_of_lt_of_le before advanced), kept cell before]

theorem submitRequest_before {cell : Nat} (before : cell < out.2) :
    (submitRequest htonl_64 sequence crId crFlag param out).1 cell = out.1 cell := by
  rw [submitRequest_eq, foldl_outputSlot_before]
  · exact move_outside (.inl before)
  · exact Nat.lt_of_lt_of_le before (Nat.le_add_right ..)

/-- The fields stand before the parameters. -/
theorem cells_submitRequest (memory : Nat → Byte) (ptr : Nat) :
    cells (submitRequest htonl_64 sequence crId crFlag param (memory, ptr)).1 ptr 20 =
      requestHead sequence crId crFlag param := by
  have head := cells_move (requestHead sequence crId crFlag param) memory ptr
  rw [requestHead_length] at head
  rw [← head, cells_congr]
  intro offset inside
  rw [submitRequest_eq, foldl_outputSlot_before]
  · rfl
  · rw [submit, requestHead_length]
    exact Nat.add_lt_add_left inside ptr

/-- The CR-Seq, the CR-Id and the PSize read back. -/
theorem fetch_submitRequest (htonl_64 : Int64 → Int64) (sequence crId : UInt32) (crFlag : UInt16)
    (param : CRB3Param) (memory : Nat → Byte) (ptr : Nat) :
    let filled := (submitRequest htonl_64 sequence crId crFlag param (memory, ptr)).1
    (fetchInt32 filled (ptr + 4)).value = sequence ∧
      (fetchInt32 filled (ptr + 8)).value = crId ∧
      (fetchInt32 filled (ptr + 16)).value = param.getTLVLength.toUInt32 := by
  intro filled
  have stored : cells filled ptr 20 = requestHead sequence crId crFlag param :=
    cells_submitRequest memory ptr
  rw [show 20 = 2 + (2 + (4 + (4 + (2 + (2 + 4))))) from rfl, requestHead, cells_add, cells_add,
    cells_add, cells_add, cells_add, cells_add] at stored
  obtain ⟨-, stored⟩ := List.append_inj stored (by simp)
  obtain ⟨-, stored⟩ := List.append_inj stored (by simp)
  obtain ⟨sequence_eq, stored⟩ := List.append_inj stored (by simp)
  obtain ⟨crId_eq, stored⟩ := List.append_inj stored (by simp)
  obtain ⟨-, stored⟩ := List.append_inj stored (by simp)
  obtain ⟨-, psize_eq⟩ := List.append_inj stored (by simp)
  exact ⟨(fetchInt32_yields sequence sequence_eq).1, (fetchInt32_yields crId crId_eq).1,
    (fetchInt32_yields param.getTLVLength.toUInt32 psize_eq).1⟩

end Submit

/-! ## Threads -/

/-- A call of `_AddCRL` that has released the mutex and not yet read its entry. -/
structure OpenCall where
  sequence : UInt32
  slot : Nat
  crId : UInt32
  paramIn : CRB3Param
  /-- The CR-Ids for which the entry was handed out since, the last one first. -/
  reused : List UInt32

/-- A parameter buffer with the sequence number and the CR-Id of its call. -/
structure FilledBuffer where
  paramBuf : Nat → Byte
  sequence : UInt32
  crId : UInt32

/-- A map and the threads which call `_AddCRL`. -/
structure Callers (γ : Type) where
  map : CRLMap γ
  /-- The call of each thread. -/
  calls : Nat → Option OpenCall
  filled : List FilledBuffer

namespace Callers

variable {γ : Type}

inductive Op (γ : Type)
  /-- `_AddCRL` up to the release of the mutex. -/
  | addCRL (thread : Nat) (call : AddCall γ)
  /-- `_AddCRL` from there on, with what is in the buffer. -/
  | fillBuffer (thread : Nat) (paramBuf : Nat → Byte)
  | fillCRL (crSeq : UInt32) (paramOut : CRB3Param)
  | delCRL (crSeq : UInt32)
  | timeOut (slot : Nat)

/-- Note that an entry was handed out. -/
def handOut (calls : Nat → Option OpenCall) (slot : Nat) (crId : UInt32) : Nat → Option OpenCall :=
  fun thread => (calls thread).map fun call =>
    if call.slot = slot then { call with reused := crId :: call.reused } else call

def start (poolSize : Nat) (memory : Nat → CRB3_CRL γ) (crlSequence : UInt32) : Callers γ :=
  { map := .start poolSize memory crlSequence, calls := fun _ => none, filled := [] }

def step (htonl_64 : Int64 → Int64) (refusedKey : UInt32 → UInt32) (callers : Callers γ) :
    Op γ → Option (Callers γ)
  | .addCRL thread call =>
      if (callers.calls thread).isNone ∧ (callers.map.Full ∨ callers.map.Free call.slot) then
        let (status, map) := callers.map.addCRL refusedKey call
        match status with
        | .CRB3_OK =>
            some { callers with
              map
              calls := Function.update (handOut callers.calls call.slot call.crId) thread
                (some ⟨callers.map.crlSequence, call.slot, call.crId, call.paramIn, []⟩) }
        | .CRB3_DUPLICATE =>
            some { callers with map, calls := handOut callers.calls call.slot call.crId }
        | _ => some { callers with map }
      else none
  | .fillBuffer thread paramBuf =>
      (callers.calls thread).map fun call =>
        -- the entry is read without the mutex
        let crId := (callers.map.entries call.slot).crId
        let out := submitRequest htonl_64 call.sequence crId 0 call.paramIn (paramBuf, 0)
        { callers with
          calls := Function.update callers.calls thread none
          filled := ⟨out.1, call.sequence, call.crId⟩ :: callers.filled }
  | .fillCRL crSeq paramOut => some { callers with map := (callers.map.fillCRL crSeq paramOut).2.1 }
  | .delCRL crSeq => some { callers with map := (callers.map.delCRL crSeq).2 }
  | .timeOut slot =>
      if slot ∈ callers.map.cbTimerPool then
        some { callers with map := (callers.map.crlTimeOutFunc slot).1 }
      else none

/-- Every buffer carries the sequence number and the CR-Id of its call. -/
def CarriesOwn (callers : Callers γ) : Prop :=
  ∀ buffer ∈ callers.filled, (fetchInt32 buffer.paramBuf 4).value = buffer.sequence ∧
    (fetchInt32 buffer.paramBuf 8).value = buffer.crId

/-- The entry of a call that fills its buffer was not handed out since, or last to a call with the
same CR-Id. -/
def NotReused (callers : Callers γ) : Op γ → Prop
  | .fillBuffer thread _ => ∀ call, callers.calls thread = some call →
      call.reused.headD call.crId = call.crId
  | _ => True

/-- The entry of a call carries the CR-Id for which it was handed out last. -/
structure Inv (callers : Callers γ) : Prop where
  owned : ∀ thread call, callers.calls thread = some call →
    (callers.map.entries call.slot).crId = call.reused.headD call.crId
  own : CarriesOwn callers

section Inv

variable {htonl_64 : Int64 → Int64} {refusedKey : UInt32 → UInt32} {callers next : Callers γ}
  {op : Op γ}

theorem Inv.start (poolSize : Nat) (memory : Nat → CRB3_CRL γ) (crlSequence : UInt32) :
    Inv (start poolSize memory crlSequence) := by
  constructor
  · intro thread call called
    cases called
  · intro buffer member
    cases member

theorem fillCRL_crId (map : CRLMap γ) (crSeq : UInt32) (paramOut : CRB3Param) (slot : Nat) :
    ((map.fillCRL crSeq paramOut).2.1.entries slot).crId = (map.entries slot).crId := by
  unfold CRLMap.fillCRL
  split
  · rfl
  · split
    · rfl
    · next found _ =>
        dsimp only
        split
        · simp only [CRLMap.store]
          by_cases same : slot = found
          · rw [same, Function.update_self]
          · rw [Function.update_of_ne same]
        · split <;> rfl

theorem delCRL_entries (map : CRLMap γ) (crSeq : UInt32) :
    (map.delCRL crSeq).2.entries = map.entries := by
  unfold CRLMap.delCRL
  split
  · rfl
  · split
    · dsimp only
      split <;> rfl
    · rfl

theorem crlTimeOutFunc_entries (map : CRLMap γ) (slot : Nat) :
    (map.crlTimeOutFunc slot).1.entries = map.entries := by
  unfold CRLMap.crlTimeOutFunc
  dsimp only
  split <;> rfl

/-- A call that does not come to the pool is not refused as a duplicate. -/
theorem addCRL_ne_duplicate (refusedKey : UInt32 → UInt32) {map : CRLMap γ} {call : AddCall γ}
    (refused : ¬ CRLMap.History.Admits map call) :
    (map.addCRL refusedKey call).1 ≠ .CRB3_DUPLICATE := by
  unfold CRLMap.addCRL
  split
  · simp
  · next room =>
      split
      · simp
      · next ready =>
          split
          · simp
          · next notFull => exact absurd ⟨room, not_not.mp ready, notFull⟩ refused

/-- Operations that keep the CR-Ids of the entries. -/
theorem Inv.of_crId (inv : Inv callers) {map : CRLMap γ}
    (same : ∀ slot, (map.entries slot).crId = (callers.map.entries slot).crId) :
    Inv { callers with map } where
  owned thread call called := (same call.slot).trans (inv.owned thread call called)
  own := inv.own

/-- Handing out an entry is noted for the calls that had it. -/
theorem Inv.handOut (inv : Inv callers) {slot : Nat} {entry : CRB3_CRL γ} {thread : Nat}
    {call : OpenCall}
    (called : Callers.handOut callers.calls slot entry.crId thread = some call) :
    (Function.update callers.map.entries slot entry call.slot).crId =
      call.reused.headD call.crId := by
  obtain ⟨before, before_eq, rfl⟩ := Option.map_eq_some_iff.mp called
  by_cases same : before.slot = slot
  · rw [if_pos same]
    dsimp only
    rw [same, Function.update_self, List.headD_cons]
  · rw [if_neg same, Function.update_of_ne same]
    exact inv.owned thread before before_eq

theorem Inv.addCRL (inv : Inv callers) {thread : Nat} {call : AddCall γ}
    (stepped : step htonl_64 refusedKey callers (.addCRL thread call) = some next) : Inv next := by
  simp only [step] at stepped
  split at stepped
  case isFalse => cases stepped
  by_cases admits : CRLMap.History.Admits callers.map call
  · cases used : callers.map.crlTable callers.map.crlSequence with
    | some other =>
        simp only [CRLMap.History.addCRL_of_pending admits used, Option.some.injEq] at stepped
        subst stepped
        exact ⟨fun _ _ called => inv.handOut called, inv.own⟩
    | none =>
        simp only [CRLMap.History.addCRL_of_unused admits used, Option.some.injEq] at stepped
        subst stepped
        refine ⟨fun thread' _ called => ?_, inv.own⟩
        dsimp only at called ⊢
        by_cases same : thread' = thread
        · rw [same, Function.update_self] at called
          obtain rfl := Option.some.inj called
          rw [Function.update_self]
          rfl
        · rw [Function.update_of_ne same] at called
          exact inv.handOut called
  · obtain ⟨notOk, same⟩ := CRLMap.History.addCRL_of_not_admits refusedKey admits
    have notDuplicate := addCRL_ne_duplicate refusedKey admits
    rw [same] at stepped
    split at stepped
    · next ok => exact absurd ok notOk
    · next duplicate => exact absurd duplicate notDuplicate
    · obtain rfl := Option.some.inj stepped
      exact inv

/-- The buffer carries the CR-Id for which the entry was handed out last. -/
theorem Inv.fillBuffer_crId (htonl_64 : Int64 → Int64) (inv : Inv callers) {thread : Nat}
    {call : OpenCall}
    (called : callers.calls thread = some call) (paramBuf : Nat → Byte) :
    let filled := (submitRequest htonl_64 call.sequence (callers.map.entries call.slot).crId 0
      call.paramIn (paramBuf, 0)).1
    (fetchInt32 filled 4).value = call.sequence ∧
      (fetchInt32 filled 8).value = call.reused.headD call.crId := by
  obtain ⟨sequence_eq, crId_eq, -⟩ :=
    fetch_submitRequest htonl_64 call.sequence (callers.map.entries call.slot).crId 0 call.paramIn
      paramBuf 0
  exact ⟨sequence_eq, crId_eq.trans (inv.owned thread call called)⟩

theorem Inv.step (inv : Inv callers) (notReused : NotReused callers op)
    (stepped : step htonl_64 refusedKey callers op = some next) : Inv next := by
  cases op with
  | addCRL thread call => exact inv.addCRL stepped
  | fillBuffer thread paramBuf =>
      obtain ⟨call, called, rfl⟩ := Option.map_eq_some_iff.mp stepped
      constructor
      · intro thread' call' called'
        dsimp only at called' ⊢
        by_cases same : thread' = thread
        · rw [same, Function.update_self] at called'
          cases called'
        · rw [Function.update_of_ne same] at called'
          exact inv.owned thread' call' called'
      · intro buffer member
        rcases List.mem_cons.mp member with rfl | member
        · obtain ⟨sequence_eq, crId_eq⟩ :=
            inv.fillBuffer_crId htonl_64 called paramBuf
          exact ⟨sequence_eq, crId_eq.trans (notReused call called)⟩
        · exact inv.own buffer member
  | fillCRL crSeq paramOut =>
      obtain rfl := Option.some.inj stepped
      exact inv.of_crId fun slot => fillCRL_crId callers.map crSeq paramOut slot
  | delCRL crSeq =>
      obtain rfl := Option.some.inj stepped
      exact inv.of_crId fun slot => by rw [delCRL_entries]
  | timeOut slot =>
      simp only [Callers.step] at stepped
      split at stepped
      · obtain rfl := Option.some.inj stepped
        exact inv.of_crId fun other => by rw [crlTimeOutFunc_entries]
      · cases stepped

/-- A buffer filled from a reused entry carries the CR-Id of another call. -/
theorem Inv.not_carriesOwn (inv : Inv callers) (reused : ¬ NotReused callers op)
    (stepped : Callers.step htonl_64 refusedKey callers op = some next) :
    ¬ CarriesOwn next := by
  cases op with
  | fillBuffer thread paramBuf =>
      obtain ⟨call, called, rfl⟩ := Option.map_eq_some_iff.mp stepped
      intro own
      obtain ⟨-, crId_eq⟩ := inv.fillBuffer_crId htonl_64 called paramBuf
      apply reused
      intro call' called'
      obtain rfl := Option.some.inj (called.symm.trans called')
      exact crId_eq.symm.trans (own _ List.mem_cons_self).2
  | _ => exact absurd trivial reused

end Inv

/-- Whatever the threads, the responses and the timers do, every buffer carries the sequence number
and the CR-Id of its call throughout a run exactly when no entry is last handed out for another
CR-Id before its call has read it. -/
theorem carriesOwn_iff_notReused (htonl_64 : Int64 → Int64) (refusedKey : UInt32 → UInt32)
    (poolSize : Nat) (memory : Nat → CRB3_CRL γ) (crlSequence : UInt32) (ops : List (Op γ)) :
    AllStates (step htonl_64 refusedKey) CarriesOwn (start poolSize memory crlSequence) ops ↔
      AllSteps (step htonl_64 refusedKey) NotReused (start poolSize memory crlSequence) ops :=
  allStates_iff_allSteps Inv Inv.own Inv.step Inv.not_carriesOwn
    (Inv.start poolSize memory crlSequence) ops

/-! ## An entry that is handed out again -/

/-- A request without parameters that waits a millisecond. -/
def briefCall (crId : UInt32) : AddCall Unit :=
  { crId, paramIn := ⟨[]⟩, ifType := 1, cb := (), cbTimeoutMS := 1, bufSize := 64,
    clock := ⟨1, 0, Nat.one_pos⟩, slot := 0 }

/-- The request of thread 0 expires before its header is written, and its entry goes to thread 1. -/
def reusingOps : List (Op Unit) :=
  [.addCRL 0 (briefCall 1), .timeOut 0, .addCRL 1 (briefCall 2), .fillBuffer 0 fun _ => 0]

theorem reusingOps_not_carriesOwn :
    ¬ ∀ (htonl_64 : Int64 → Int64) (refusedKey : UInt32 → UInt32) (poolSize : Nat)
      (memory : Nat → CRB3_CRL Unit) (crlSequence : UInt32) (ops : List (Op Unit)),
      AllStates (step htonl_64 refusedKey) CarriesOwn (start poolSize memory crlSequence) ops := by
  intro carries
  have facts : (run (step id id)
      (start 1 (fun _ => ⟨0, 0, 0, 0, none, ()⟩) 0) reusingOps).any (fun callers =>
        callers.filled.any fun buffer =>
          decide ((fetchInt32 buffer.paramBuf 8).value ≠ buffer.crId)) = true := by
    decide
  obtain ⟨callers, execution, wrong⟩ := (Option.any_eq_true _ _).mp facts
  obtain ⟨buffer, member, differs⟩ := List.any_eq_true.mp wrong
  exact of_decide_eq_true differs
    ((carries id id 1 _ 0 reusingOps).of_run execution buffer member).2

end Callers

end CommonLib
