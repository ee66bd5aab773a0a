import CommonLib.Network.CrlMap

/-!
# Where the responses of a client are

Each response that a client receives is an object of its own, which `FillCRL` leaves with the entry
of its request until `WaitCRL` fetches it.  Whoever has the object last deletes it.
-/

namespace CommonLib

open Execution

namespace CRLMap

variable {γ : Type}

/-- What `WaitCRL` does when it has found its entry. -/
inductive WaitResult
  | CRB3_OK (paramOut : CRB3Param)
  | CRB3_TIMEOUT
  | CRB3_FAILED
  /-- It waits for `CRLCond`. -/
  | waits

/-- The part of `CRLMap::WaitCRL` from a search to the end or to the next wait, while the map is
ready. -/
def waitCRL (map : CRLMap γ) (crSeq : UInt32) (timedOut : Bool) : WaitResult × CRLMap γ :=
  match map.crlTable crSeq with
  | none => (.CRB3_FAILED, map)
  | some slot =>
      match (map.entries slot).paramOut with
      | some paramOut => (.CRB3_OK paramOut, (map.ihashDelete crSeq).flstFree slot)
      | none =>
          if timedOut then (.CRB3_TIMEOUT, (map.ihashDelete crSeq).flstFree slot)
          else (.waits, map)

end CRLMap

/-- Where an object is. -/
inductive ResponsePlace
  /-- With the pending entry of a sequence number. -/
  | held (crSeq : UInt32)
  /-- With the caller of `WaitCRL`. -/
  | waited
  /-- Back with `_PacketProcess`. -/
  | returned
  | deleted

/-- A map, its waiting threads and the objects that were passed to `FillCRL`, numbered in order. -/
structure Responses (γ : Type) where
  map : CRLMap γ
  /-- The number of objects passed. -/
  passed : Nat
  /-- The sequence numbers with which they were passed. -/
  crSeq : Nat → UInt32
  /-- The object to which the field `ParamOut` of an entry points, unless it is `NULL`. -/
  object : Nat → Nat
  /-- The sequence number for which a thread waits, and whether it wants the object. -/
  waiting : Nat → Option (UInt32 × Bool)
  waited : List Nat
  returned : List Nat
  deleted : List Nat

namespace Responses

variable {γ : Type}

inductive Op (γ : Type)
  | addCRLSync (call : AddCall γ)
  /-- `_PacketProcess` passes the object of a response to `FillCRL`. -/
  | fillCRL (crSeq : UInt32) (paramOut : CRB3Param)
  /-- `_PacketProcess` deletes an object for which `FillCRL` failed. -/
  | discard (object : Nat)
  /-- A call of `WaitCRL`, with `ParamOut` or `NULL`. -/
  | waitCRL (thread : Nat) (crSeq : UInt32) (wanted : Bool)
  /-- The wait of a thread ends. -/
  | wake (thread : Nat) (timedOut : Bool)
  | delCRL (crSeq : UInt32)

def start (poolSize : Nat) (memory : Nat → CRB3_CRL γ) (crlSequence : UInt32) : Responses γ :=
  { map := .start poolSize memory crlSequence, passed := 0, crSeq := fun _ => 0,
    object := fun _ => 0, waiting := fun _ => none, waited := [], returned := [], deleted := [] }

/-- A thread goes through `WaitCRL` up to its end or its next wait. -/
def wait (responses : Responses γ) (thread : Nat) (crSeq : UInt32) (wanted timedOut : Bool) :
    Responses γ :=
  let (result, map) := responses.map.waitCRL crSeq timedOut
  let stay := { responses with
    map, waiting := Function.update responses.waiting thread (some (crSeq, wanted)) }
  let leave := { responses with map, waiting := Function.update responses.waiting thread none }
  match result, responses.map.crlTable crSeq with
  | .waits, _ => stay
  | .CRB3_OK _, some slot =>
      if wanted then { leave with waited := responses.object slot :: responses.waited }
      else { leave with deleted := responses.object slot :: responses.deleted }
  | _, _ => leave

/-- The object of a response is passed to `FillCRL`. -/
def fill (responses : Responses γ) (crSeq : UInt32) (paramOut : CRB3Param) : Responses γ :=
  let (status, map, _) := responses.map.fillCRL crSeq paramOut
  let pass := { responses with
    map, passed := responses.passed + 1,
    crSeq := Function.update responses.crSeq responses.passed crSeq }
  match status, responses.map.crlTable crSeq with
  | .CRB3_OK, some slot =>
      { pass with object := Function.update responses.object slot responses.passed }
  | _, _ => { pass with returned := responses.passed :: responses.returned }

def step (refusedKey : UInt32 → UInt32) (responses : Responses γ) : Op γ → Option (Responses γ)
  | .addCRLSync call =>
      if responses.map.Full ∨ responses.map.Free call.slot then
        some { responses with
          map := (responses.map.addCRL refusedKey { call with ifType := 0 }).2 }
      else none
  | .fillCRL crSeq paramOut => some (responses.fill crSeq paramOut)
  | .discard object =>
      if object ∈ responses.returned then
        some { responses with
          returned := responses.returned.erase object
          deleted := object :: responses.deleted }
      else none
  | .waitCRL thread crSeq wanted =>
      if (responses.waiting thread).isNone then
        some (responses.wait thread crSeq wanted false)
      else none
  | .wake thread timedOut =>
      (responses.waiting thread).map fun call => responses.wait thread call.1 call.2 timedOut
  | .delCRL crSeq => some { responses with map := (responses.map.delCRL crSeq).2 }

/-- The object is at the place. -/
def At (responses : Responses γ) (object : Nat) : ResponsePlace → Prop
  | .held crSeq => ∃ slot, responses.map.crlTable crSeq = some slot ∧
      (responses.map.entries slot).paramOut.isSome ∧ responses.object slot = object
  | .waited => object ∈ responses.waited
  | .returned => object ∈ responses.returned
  | .deleted => object ∈ responses.deleted

/-- Every object is in exactly one place, and changes hands once. -/
structure Conserved (responses : Responses γ) : Prop where
  place : ∀ object < responses.passed, ∃! place, responses.At object place
  own : ∀ object crSeq, responses.At object (.held crSeq) → crSeq = responses.crSeq object
  waited : responses.waited.Nodup
  returned : responses.returned.Nodup
  deleted : responses.deleted.Nodup

/-- No second response comes for an entry, and no entry with a response is deleted. -/
def KeepsHeld (responses : Responses γ) : Op γ → Prop
  | .fillCRL crSeq _ => Unfilled crSeq
  | .delCRL crSeq => Unfilled crSeq
  | _ => True
where
  Unfilled (crSeq : UInt32) : Prop := ∀ slot, responses.map.crlTable crSeq = some slot →
    (responses.map.entries slot).paramOut = none

/-! ## The invariant -/

/-- The entries in the table are allocated, distinct and synchronous. -/
structure Table (map : CRLMap γ) : Prop where
  ready : map.ready = true
  keyed : ∀ {key slot}, map.crlTable key = some slot → slot ∈ map.allocated
  injective : ∀ {key key' slot}, map.crlTable key = some slot → map.crlTable key' = some slot →
    key = key'
  sync : ∀ {key slot}, map.crlTable key = some slot → (map.entries slot).ifType = 0

structure Inv (responses : Responses γ) : Prop where
  table : Table responses.map
  below : ∀ {object place}, responses.At object place → object < responses.passed
  conserved : Conserved responses

section Inv

variable {refusedKey : UInt32 → UInt32} {responses next : Responses γ} {map : CRLMap γ}
  {op : Op γ} {object slot : Nat} {crSeq : UInt32} {place target : ResponsePlace}

theorem Inv.start (poolSize : Nat) (memory : Nat → CRB3_CRL γ) (crlSequence : UInt32) :
    Inv (Responses.start poolSize memory crlSequence) := by
  have nowhere {object : Nat} {place : ResponsePlace} :
      ¬ (Responses.start poolSize memory crlSequence).At object place := by
    cases place <;> simp [At, Responses.start, CRLMap.start]
  exact
    { table := by constructor <;> simp [Responses.start, CRLMap.start]
      below := fun somewhere => absurd somewhere nowhere
      conserved :=
        { place := fun object below => absurd below (Nat.not_lt_zero object)
          own := fun object crSeq somewhere => absurd somewhere nowhere
          waited := List.nodup_nil
          returned := List.nodup_nil
          deleted := List.nodup_nil } }

/-- An object is nowhere else. -/
theorem Inv.at_iff (inv : Inv responses) (here : responses.At object place) :
    responses.At object target ↔ target = place := by
  constructor
  · intro there
    exact (inv.conserved.place object (inv.below here)).unique there here
  · rintro rfl
    exact here

/-- What is left of the table without a key. -/
theorem remaining {key : UInt32} :
    Function.update map.crlTable crSeq none key = some slot ↔
      key ≠ crSeq ∧ map.crlTable key = some slot := by
  by_cases same : key = crSeq
  · simp [same]
  · simp [same]

/-- An entry leaves the table. -/
theorem Table.remove (table : Table map) (found : map.crlTable crSeq = some slot) :
    Table ((map.ihashDelete crSeq).flstFree slot) := by
  constructor
  · exact table.ready
  · intro key slot' left
    obtain ⟨differs, old⟩ := remaining.mp left
    refine Finset.mem_erase.mpr ⟨?_, table.keyed old⟩
    rintro rfl
    exact differs (table.injective old found)
  · exact fun left left' => table.injective (remaining.mp left).2 (remaining.mp left').2
  · exact fun left => table.sync (remaining.mp left).2

/-- Steps that leave every object where it is. -/
theorem Inv.of_at (inv : Inv responses) {waiting : Nat → Option (UInt32 × Bool)}
    (table : Table map)
    (same : ∀ object crSeq, { responses with map, waiting }.At object (.held crSeq) ↔
      responses.At object (.held crSeq)) :
    Inv { responses with map, waiting } := by
  have same_at (object : Nat) (place : ResponsePlace) :
      { responses with map, waiting }.At object place ↔ responses.At object place := by
    cases place with
    | held crSeq => exact same object crSeq
    | _ => exact Iff.rfl
  exact
    { table
      below := fun here => inv.below ((same_at _ _).mp here)
      conserved :=
        { place := by
            simp only [same_at]
            exact inv.conserved.place
          own := fun object crSeq here => inv.conserved.own object crSeq ((same_at _ _).mp here)
          waited := inv.conserved.waited
          returned := inv.conserved.returned
          deleted := inv.conserved.deleted } }

/-- An entry without a response leaves the table. -/
theorem Inv.remove_unfilled (inv : Inv responses) (found : responses.map.crlTable crSeq = some slot)
    (unfilled : (responses.map.entries slot).paramOut = none)
    (waiting : Nat → Option (UInt32 × Bool)) :
    Inv { responses with map := (responses.map.ihashDelete crSeq).flstFree slot, waiting } := by
  apply inv.of_at (inv.table.remove found)
  intro object key
  constructor
  · rintro ⟨slot', left, filled, points⟩
    exact ⟨slot', (remaining.mp left).2, filled, points⟩
  · rintro ⟨slot', found', filled, points⟩
    refine ⟨slot', remaining.mpr ⟨?_, found'⟩, filled, points⟩
    rintro rfl
    obtain rfl := Option.some.inj (found.symm.trans found')
    rw [unfilled] at filled
    cases filled

/-- One object goes to a place, and the others stay. -/
theorem Inv.of_moved (inv : Inv responses) (object₀ : Nat) (target : ResponsePlace)
    (table : Table next.map)
    (moved : ∀ object place, next.At object place ↔
      if object = object₀ then place = target else responses.At object place)
    (passed : ∀ object, object < next.passed ↔ object = object₀ ∨ object < responses.passed)
    (own : ∀ crSeq, target = .held crSeq → crSeq = next.crSeq object₀)
    (same : ∀ object ≠ object₀, next.crSeq object = responses.crSeq object)
    (waited : next.waited.Nodup) (returned : next.returned.Nodup)
    (deleted : next.deleted.Nodup) : Inv next := by
  refine ⟨table, fun {object place} here => (passed object).mpr ?_,
    ⟨fun object below => ?_, fun object crSeq here => ?_, waited, returned, deleted⟩⟩
  · rw [moved] at here
    split at here
    · next first => exact .inl first
    · exact .inr (inv.below here)
  · simp only [moved]
    split
    · exact ⟨target, rfl, fun other same => same⟩
    · next differs =>
        exact inv.conserved.place object (((passed object).mp below).resolve_left differs)
  · rw [moved] at here
    split at here
    · next first =>
        rw [first]
        exact own crSeq here.symm
    · next differs =>
        rw [same object differs]
        exact inv.conserved.own object crSeq here

/-- What stays where it is when an entry leaves the table with its response. -/
theorem Inv.left_iff (inv : Inv responses) (found : responses.map.crlTable crSeq = some slot)
    (filled : (responses.map.entries slot).paramOut.isSome)
    (waiting : Nat → Option (UInt32 × Bool)) (object : Nat) (place : ResponsePlace) :
    { responses with map := (responses.map.ihashDelete crSeq).flstFree slot, waiting }.At object
        place ↔ object ≠ responses.object slot ∧ responses.At object place := by
  have here : responses.At (responses.object slot) (.held crSeq) := ⟨slot, found, filled, rfl⟩
  have apart (place : ResponsePlace) (differs : place ≠ .held crSeq) : responses.At object place ↔
      object ≠ responses.object slot ∧ responses.At object place := by
    refine ⟨fun there => ⟨?_, there⟩, And.right⟩
    rintro rfl
    exact differs ((inv.at_iff here).mp there)
  cases place with
  | held key =>
      constructor
      · rintro ⟨slot', left, filled', rfl⟩
        obtain ⟨differs, found'⟩ := remaining.mp left
        refine ⟨fun same => differs ?_, slot', found', filled', rfl⟩
        have there : responses.At (responses.object slot) (.held key) :=
          ⟨slot', found', filled', same⟩
        exact ResponsePlace.held.inj ((inv.at_iff here).mp there)
      · rintro ⟨differs, slot', found', filled', rfl⟩
        refine ⟨slot', remaining.mpr ⟨?_, found'⟩, filled', rfl⟩
        rintro rfl
        obtain rfl := Option.some.inj (found.symm.trans found')
        exact differs rfl
  | waited => exact apart .waited (by simp)
  | returned => exact apart .returned (by simp)
  | deleted => exact apart .deleted (by simp)

/-- The response of an entry leaves with the entry. -/
theorem Inv.take (inv : Inv responses) (found : responses.map.crlTable crSeq = some slot)
    (filled : (responses.map.entries slot).paramOut.isSome)
    (waiting : Nat → Option (UInt32 × Bool)) (wanted : Bool) :
    let leave := { responses with
      map := (responses.map.ihashDelete crSeq).flstFree slot, waiting }
    Inv (if wanted then { leave with waited := responses.object slot :: responses.waited }
      else { leave with deleted := responses.object slot :: responses.deleted }) := by
  have here : responses.At (responses.object slot) (.held crSeq) := ⟨slot, found, filled, rfl⟩
  have passed (object : Nat) : object < responses.passed ↔
      object = responses.object slot ∨ object < responses.passed := by
    constructor
    · exact .inr
    · rintro (rfl | other)
      · exact inv.below here
      · exact other
  have nowhere (place : ResponsePlace) (differs : place ≠ .held crSeq) :
      ¬ responses.At (responses.object slot) place := fun there =>
    differs ((inv.at_iff here).mp there)
  intro leave
  cases wanted with
  | true =>
      refine inv.of_moved (responses.object slot) .waited (inv.table.remove found) ?_ passed
        (by simp) (fun _ _ => rfl)
        (List.nodup_cons.mpr ⟨nowhere .waited (by simp), inv.conserved.waited⟩)
        inv.conserved.returned inv.conserved.deleted
      intro object place
      have moved : { leave with waited := responses.object slot :: responses.waited }.At object
          place ↔ object = responses.object slot ∧ place = .waited ∨ leave.At object place := by
        cases place <;> simp [At, leave]
      rw [if_pos rfl, moved, inv.left_iff found filled]
      split <;> simp [*]
  | false =>
      refine inv.of_moved (responses.object slot) .deleted (inv.table.remove found) ?_ passed
        (by simp) (fun _ _ => rfl) inv.conserved.waited inv.conserved.returned
        (List.nodup_cons.mpr ⟨nowhere .deleted (by simp), inv.conserved.deleted⟩)
      intro object place
      have moved : { leave with deleted := responses.object slot :: responses.deleted }.At object
          place ↔ object = responses.object slot ∧ place = .deleted ∨ leave.At object place := by
        cases place <;> simp [At, leave]
      rw [if_neg Bool.false_ne_true, moved, inv.left_iff found filled]
      split <;> simp [*]

theorem Inv.discard (inv : Inv responses) (member : object ∈ responses.returned) :
    Inv { responses with
      returned := responses.returned.erase object
      deleted := object :: responses.deleted } := by
  have here : responses.At object .returned := member
  have notDeleted : object ∉ responses.deleted := by
    intro there
    have same := (inv.at_iff here).mp (show responses.At object .deleted from there)
    cases same
  refine inv.of_moved object .deleted inv.table ?_ ?_ (by simp) (fun _ _ => rfl)
    inv.conserved.waited (inv.conserved.returned.erase object)
    (List.nodup_cons.mpr ⟨notDeleted, inv.conserved.deleted⟩)
  · intro other place
    by_cases same : other = object
    · rw [if_pos same, same]
      have left (place : ResponsePlace) (there : responses.At object place) : place = .returned :=
        (inv.at_iff here).mp there
      cases place with
      | deleted => simp [At]
      | returned => simp [At, inv.conserved.returned.mem_erase_iff]
      | waited => simpa [At] using left .waited
      | held key => simpa [At] using left (.held key)
    · rw [if_neg same]
      cases place with
      | deleted => simp [At, same]
      | returned => simp [At, inv.conserved.returned.mem_erase_iff, same]
      | _ => exact Iff.rfl
  · intro other
    constructor
    · exact .inr
    · rintro (rfl | below)
      · exact inv.below here
      · exact below

/-- The next object is nowhere yet. -/
theorem Inv.not_at (inv : Inv responses) : ¬ responses.At responses.passed place :=
  fun here => Nat.lt_irrefl _ (inv.below here)

theorem Inv.fill_returned (inv : Inv responses) (crSeq : UInt32) :
    Inv { responses with
      passed := responses.passed + 1
      crSeq := Function.update responses.crSeq responses.passed crSeq
      returned := responses.passed :: responses.returned } := by
  have notReturned : ¬ responses.At responses.passed .returned := inv.not_at
  refine inv.of_moved responses.passed .returned inv.table ?_ (fun object => by simp only; omega)
    (by simp) (fun object differs => Function.update_of_ne differs ..) inv.conserved.waited
    (List.nodup_cons.mpr ⟨notReturned, inv.conserved.returned⟩)
    inv.conserved.deleted
  intro object place
  split
  · next first =>
      rw [first]
      have before : ¬ responses.At responses.passed place := inv.not_at
      cases place with
      | returned => simp [At]
      | _ => exact iff_of_false before (by simp)
  · next differs => cases place <;> simp [At, differs]

theorem Inv.fill_held (inv : Inv responses) (found : responses.map.crlTable crSeq = some slot)
    (unfilled : (responses.map.entries slot).paramOut = none) (paramOut : CRB3Param) :
    Inv { responses with
      map := responses.map.store slot
        { responses.map.entries slot with paramOut := some paramOut }
      passed := responses.passed + 1
      crSeq := Function.update responses.crSeq responses.passed crSeq
      object := Function.update responses.object slot responses.passed } := by
  refine inv.of_moved responses.passed (.held crSeq) ?_ ?_ (fun object => by simp only; omega)
    ?_ (fun object differs => Function.update_of_ne differs ..) inv.conserved.waited
    inv.conserved.returned inv.conserved.deleted
  · refine ⟨inv.table.ready, inv.table.keyed, inv.table.injective, fun {key other} found' => ?_⟩
    have sync := inv.table.sync found'
    by_cases same : other = slot
    · subst same
      simpa [CRLMap.store] using sync
    · simpa [CRLMap.store, same] using sync
  · intro object place
    have before : ¬ responses.At responses.passed place := inv.not_at
    cases place with
    | held key =>
        split
        · next first =>
            rw [first]
            constructor
            · rintro ⟨slot', found', filled', points⟩
              by_cases same : slot' = slot
              · rw [inv.table.injective found (same ▸ found')]
              · simp only [CRLMap.store, Function.update_of_ne same] at filled' points
                exact absurd ⟨slot', found', filled', points⟩ before
            · rintro ⟨⟩
              refine ⟨slot, found, ?_, Function.update_self ..⟩
              simp [CRLMap.store]
        · next differs =>
            constructor
            · rintro ⟨slot', found', filled', points⟩
              have other : slot' ≠ slot := by
                rintro rfl
                simp only [Function.update_self] at points
                exact differs points.symm
              simp only [CRLMap.store, Function.update_of_ne other] at filled' points
              exact ⟨slot', found', filled', points⟩
            · rintro ⟨slot', found', filled', points⟩
              have other : slot' ≠ slot := by
                rintro rfl
                rw [unfilled] at filled'
                cases filled'
              refine ⟨slot', found', ?_, ?_⟩
              · simpa only [CRLMap.store, Function.update_of_ne other] using filled'
              · simpa only [Function.update_of_ne other] using points
    | _ =>
        split
        · next first =>
            rw [first]
            exact iff_of_false before (by simp)
        · exact Iff.rfl
  · intro key same
    obtain rfl := ResponsePlace.held.inj same
    simp

/-- What is in the table with a new key. -/
theorem entered {key : UInt32} {other : Nat}
    (found : Function.update map.crlTable crSeq (some slot) key = some other) :
    key = crSeq ∧ other = slot ∨ map.crlTable key = some other := by
  by_cases same : key = crSeq
  · rw [same, Function.update_self] at found
    exact .inl ⟨same, (Option.some.inj found).symm⟩
  · rw [Function.update_of_ne same] at found
    exact .inr found

theorem Table.apart (table : Table map) (free : slot ∉ map.allocated) {key : UInt32} {other : Nat}
    (found : map.crlTable key = some other) : other ≠ slot := by
  rintro rfl
  exact free (table.keyed found)

/-- A synchronous entry enters the table. -/
theorem Table.enter (table : Table map) (free : slot ∉ map.allocated) {entry : CRB3_CRL γ}
    (sync : entry.ifType = 0) (cbTimerPool : Finset Nat) (crlSequence : UInt32) :
    Table { map with
      entries := Function.update map.entries slot entry
      allocated := insert slot map.allocated
      crlTable := Function.update map.crlTable crSeq (some slot)
      cbTimerPool
      crlSequence } := by
  refine ⟨table.ready, fun {key other} found => ?_, fun {key key' other} found found' => ?_,
    fun {key other} found => ?_⟩
  · rcases entered found with ⟨-, rfl⟩ | old
    · exact Finset.mem_insert_self ..
    · exact Finset.mem_insert_of_mem (table.keyed old)
  · rcases entered found with ⟨rfl, slot_eq⟩ | old
    · rcases entered found' with ⟨rfl, -⟩ | old'
      · rfl
      · exact absurd slot_eq (table.apart free old')
    · rcases entered found' with ⟨rfl, slot_eq⟩ | old'
      · exact absurd slot_eq (table.apart free old)
      · exact table.injective old old'
  · dsimp only
    rcases entered found with ⟨-, rfl⟩ | old
    · rw [Function.update_self]
      exact sync
    · rw [Function.update_of_ne (table.apart free old)]
      exact table.sync old

/-- A request whose sequence number is still in the table. -/
theorem Inv.addCRL_pending (inv : Inv responses) (free : slot ∉ responses.map.allocated)
    (entry : CRB3_CRL γ) (cbTimerPool : Finset Nat) (crlSequence : UInt32) :
    Inv { responses with
      map := { responses.map with
        entries := Function.update responses.map.entries slot entry
        allocated := (insert slot responses.map.allocated).erase slot
        cbTimerPool
        crlSequence } } := by
  refine inv.of_at ⟨inv.table.ready, fun {key other} found => ?_, inv.table.injective,
    fun {key other} found => ?_⟩ fun object key => ?_
  · dsimp only
    rw [Finset.erase_insert free]
    exact inv.table.keyed found
  · dsimp only
    rw [Function.update_of_ne (inv.table.apart free found)]
    exact inv.table.sync found
  · refine exists_congr fun other => and_congr_right fun found => ?_
    dsimp only at found ⊢
    rw [Function.update_of_ne (inv.table.apart free found)]

/-- A request with an entry of its own, which has no response yet. -/
theorem Inv.addCRL_unused (inv : Inv responses) (free : slot ∉ responses.map.allocated)
    (unused : responses.map.crlTable crSeq = none) {entry : CRB3_CRL γ} (sync : entry.ifType = 0)
    (unfilled : entry.paramOut = none) (cbTimerPool : Finset Nat) (crlSequence : UInt32) :
    Inv { responses with
      map := { responses.map with
        entries := Function.update responses.map.entries slot entry
        allocated := insert slot responses.map.allocated
        crlTable := Function.update responses.map.crlTable crSeq (some slot)
        cbTimerPool
        crlSequence } } := by
  refine inv.of_at (inv.table.enter free sync cbTimerPool crlSequence) fun object key => ?_
  constructor
  · rintro ⟨other, found, filled, points⟩
    dsimp only at found filled points
    rcases entered found with ⟨-, rfl⟩ | old
    · rw [Function.update_self, unfilled] at filled
      cases filled
    · rw [Function.update_of_ne (inv.table.apart free old)] at filled
      exact ⟨other, old, filled, points⟩
  · rintro ⟨other, old, filled, points⟩
    have differs : key ≠ crSeq := by
      rintro rfl
      rw [unused] at old
      cases old
    refine ⟨other, ?_, ?_, points⟩
    · dsimp only
      rw [Function.update_of_ne differs]
      exact old
    · dsimp only
      rw [Function.update_of_ne (inv.table.apart free old)]
      exact filled

theorem Inv.addCRLSync (inv : Inv responses) {call : AddCall γ}
    (offered : responses.map.Full ∨ responses.map.Free call.slot) :
    Inv { responses with
      map := (responses.map.addCRL refusedKey { call with ifType := 0 }).2 } := by
  by_cases admits : CRLMap.History.Admits responses.map { call with ifType := 0 }
  case neg =>
    rw [(CRLMap.History.addCRL_of_not_admits refusedKey admits).2]
    exact inv
  have free : call.slot ∉ responses.map.allocated := (offered.resolve_left admits.2.2).2
  cases used : responses.map.crlTable responses.map.crlSequence with
  | some other =>
      rw [CRLMap.History.addCRL_of_pending admits used]
      exact inv.addCRL_pending free ..
  | none =>
      rw [CRLMap.History.addCRL_of_unused admits used]
      apply inv.addCRL_unused free used
      · rfl
      · rfl

theorem delCRL_of_none (ready : map.ready = true) (unused : map.crlTable crSeq = none) :
    (map.delCRL crSeq).2 = map := by
  rw [CRLMap.delCRL, if_neg (not_not.mpr ready), unused]

theorem Table.delCRL_eq (table : Table map) (found : map.crlTable crSeq = some slot) :
    (map.delCRL crSeq).2 = (map.ihashDelete crSeq).flstFree slot := by
  have untimed : ¬ ((map.entries slot).ifType = 1 ∧ (map.entries slot).schedSec > 0) := by
    rw [table.sync found]
    simp
  rw [CRLMap.delCRL, if_neg (not_not.mpr table.ready), found]
  simp only [if_neg untimed]

theorem Inv.delCRL (inv : Inv responses) (unfilled : KeepsHeld.Unfilled responses crSeq) :
    Inv { responses with map := (responses.map.delCRL crSeq).2 } := by
  cases found : responses.map.crlTable crSeq with
  | none =>
      rw [delCRL_of_none inv.table.ready found]
      exact inv
  | some slot =>
      rw [inv.table.delCRL_eq found]
      exact inv.remove_unfilled found (unfilled slot found) responses.waiting

theorem fillCRL_of_none (ready : map.ready = true) (unused : map.crlTable crSeq = none)
    (paramOut : CRB3Param) : map.fillCRL crSeq paramOut = (.CRB3_NOT_FIND, map, none) := by
  rw [CRLMap.fillCRL, if_neg (not_not.mpr ready), unused]

theorem Table.fillCRL_eq (table : Table map) (found : map.crlTable crSeq = some slot)
    (paramOut : CRB3Param) :
    map.fillCRL crSeq paramOut =
      (.CRB3_OK, map.store slot { map.entries slot with paramOut := some paramOut }, none) := by
  rw [CRLMap.fillCRL, if_neg (not_not.mpr table.ready), found]
  exact if_pos (table.sync found)

theorem Inv.fill (inv : Inv responses) (unfilled : KeepsHeld.Unfilled responses crSeq)
    (paramOut : CRB3Param) : Inv (responses.fill crSeq paramOut) := by
  cases found : responses.map.crlTable crSeq with
  | none =>
      simp only [Responses.fill, fillCRL_of_none inv.table.ready found]
      exact inv.fill_returned crSeq
  | some slot =>
      simp only [Responses.fill, inv.table.fillCRL_eq found, found]
      exact inv.fill_held found (unfilled slot found) paramOut

theorem Inv.wait (inv : Inv responses) (thread : Nat) (crSeq : UInt32) (wanted timedOut : Bool) :
    Inv (responses.wait thread crSeq wanted timedOut) := by
  have unmoved (waiting : Nat → Option (UInt32 × Bool)) : Inv { responses with waiting } :=
    inv.of_at inv.table fun _ _ => Iff.rfl
  cases found : responses.map.crlTable crSeq with
  | none =>
      simp only [Responses.wait, CRLMap.waitCRL, found]
      exact unmoved _
  | some slot =>
      cases filled : (responses.map.entries slot).paramOut with
      | some paramOut =>
          simp only [Responses.wait, CRLMap.waitCRL, found, filled]
          exact inv.take found (by rw [filled]; rfl) _ wanted
      | none =>
          cases timedOut with
          | true =>
              simp only [Responses.wait, CRLMap.waitCRL, found, filled, if_true]
              exact inv.remove_unfilled found filled _
          | false =>
              simp only [Responses.wait, CRLMap.waitCRL, found, filled]
              exact unmoved _

theorem Inv.step (inv : Inv responses) (keeps : KeepsHeld responses op)
    (stepped : step refusedKey responses op = some next) : Inv next := by
  cases op with
  | addCRLSync call =>
      simp only [Responses.step] at stepped
      split at stepped
      · next offered =>
          obtain rfl := Option.some.inj stepped
          exact inv.addCRLSync offered
      · cases stepped
  | fillCRL crSeq paramOut =>
      obtain rfl := Option.some.inj stepped
      exact inv.fill keeps paramOut
  | discard object =>
      simp only [Responses.step] at stepped
      split at stepped
      · next member =>
          obtain rfl := Option.some.inj stepped
          exact inv.discard member
      · cases stepped
  | waitCRL thread crSeq wanted =>
      simp only [Responses.step] at stepped
      split at stepped
      · obtain rfl := Option.some.inj stepped
        exact inv.wait thread crSeq wanted false
      · cases stepped
  | wake thread timedOut =>
      obtain ⟨call, -, rfl⟩ := Option.map_eq_some_iff.mp stepped
      exact inv.wait thread call.1 call.2 timedOut
  | delCRL crSeq =>
      obtain rfl := Option.some.inj stepped
      exact inv.delCRL keeps

/-- An object that leaves its entry for no other place is lost. -/
theorem Inv.not_conserved_of_lost (inv : Inv responses) (here : responses.At object (.held crSeq))
    (passed : responses.passed ≤ next.passed)
    (lost : ∀ key, ¬ next.At object (.held key))
    (elsewhere : ∀ place, (∀ key, place ≠ .held key) → next.At object place →
      responses.At object place) : ¬ Conserved next := by
  intro conserved
  obtain ⟨place, there, -⟩ := conserved.place object (Nat.lt_of_lt_of_le (inv.below here) passed)
  have held : ∀ key, place ≠ .held key := by
    rintro key rfl
    exact lost key there
  exact held crSeq ((inv.at_iff here).mp (elsewhere place held there))

/-- A response that is overwritten or deleted with its entry is nowhere. -/
theorem Inv.not_conserved (inv : Inv responses) (loses : ¬ KeepsHeld responses op)
    (stepped : Responses.step refusedKey responses op = some next) : ¬ Conserved next := by
  have filled_of {crSeq : UInt32} (loses : ¬ KeepsHeld.Unfilled responses crSeq) :
      ∃ slot, responses.map.crlTable crSeq = some slot ∧
        responses.At (responses.object slot) (.held crSeq) := by
    simp only [KeepsHeld.Unfilled, not_forall] at loses
    obtain ⟨slot, found, filled⟩ := loses
    exact ⟨slot, found, slot, found, Option.isSome_iff_ne_none.mpr filled, rfl⟩
  cases op with
  | fillCRL crSeq paramOut =>
      obtain ⟨slot, found, here⟩ := filled_of loses
      obtain rfl := Option.some.inj stepped
      simp only [Responses.fill, inv.table.fillCRL_eq found, found]
      refine inv.not_conserved_of_lost here (Nat.le_succ _) ?_ fun place other there => ?_
      swap
      · cases place with
        | held key => exact absurd rfl (other key)
        | _ => exact there
      rintro key ⟨slot', found', filled', points⟩
      by_cases same : slot' = slot
      · subst same
        simp only [Function.update_self] at points
        exact absurd (inv.below here) (by omega)
      · simp only [CRLMap.store, Function.update_of_ne same] at filled' points
        have there : responses.At (responses.object slot) (.held key) :=
          ⟨slot', found', filled', points⟩
        obtain rfl := ResponsePlace.held.inj ((inv.at_iff here).mp there)
        exact same (Option.some.inj (found'.symm.trans found))
  | delCRL crSeq =>
      obtain ⟨slot, found, here⟩ := filled_of loses
      obtain rfl := Option.some.inj stepped
      rw [inv.table.delCRL_eq found]
      refine inv.not_conserved_of_lost here (Nat.le_refl _) ?_ fun place other there => ?_
      swap
      · cases place with
        | held key => exact absurd rfl (other key)
        | _ => exact there
      rintro key ⟨slot', left, filled', points⟩
      obtain ⟨differs, found'⟩ := remaining.mp left
      have there : responses.At (responses.object slot) (.held key) :=
        ⟨slot', found', filled', points⟩
      exact differs (ResponsePlace.held.inj ((inv.at_iff here).mp there))
  | _ => exact absurd trivial loses

end Inv

/-- Whatever responses, waits and cancellations come in a run, every object is in exactly one place
throughout exactly when no response comes for an entry that has one and no such entry is deleted. -/
theorem conserved_iff_keepsHeld (refusedKey : UInt32 → UInt32) (poolSize : Nat)
    (memory : Nat → CRB3_CRL γ) (crlSequence : UInt32) (ops : List (Op γ)) :
    AllStates (step refusedKey) Conserved (start poolSize memory crlSequence) ops ↔
      AllSteps (step refusedKey) KeepsHeld (start poolSize memory crlSequence) ops :=
  allStates_iff_allSteps Inv Inv.conserved Inv.step Inv.not_conserved
    (Inv.start poolSize memory crlSequence) ops

/-! ## A second response -/

/-- A request and two responses to it. -/
def secondResponse : List (Op Unit) :=
  [.addCRLSync
      { crId := 1, paramIn := ⟨[]⟩, ifType := 0, cb := (), cbTimeoutMS := 0, bufSize := 64,
        clock := ⟨1, 0, Nat.one_pos⟩, slot := 0 },
    .fillCRL 0 ⟨[]⟩, .fillCRL 0 ⟨[]⟩]

/-- The second response takes the place of the first one, which nobody deletes. -/
theorem secondResponse_not_conserved :
    ¬ ∀ (refusedKey : UInt32 → UInt32) (poolSize : Nat) (memory : Nat → CRB3_CRL Unit)
      (crlSequence : UInt32) (ops : List (Op Unit)),
      AllStates (step refusedKey) Conserved (start poolSize memory crlSequence) ops := by
  intro all
  have keeps := (allStates_iff_allSteps Inv Inv.conserved Inv.step Inv.not_conserved
    (Inv.start 1 (fun _ => ⟨0, 0, 0, 0, none, ()⟩) 0) secondResponse).mp (all id 1 _ 0 _)
  have second := (((keeps _ rfl).2 _ rfl).2 _ rfl).1
  have unfilled := second 0 rfl
  cases unfilled

end Responses

end CommonLib
