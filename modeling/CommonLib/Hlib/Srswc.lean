import CommonLib.Library.Execution
import Mathlib.Data.List.Infix
import Mathlib.Data.Nat.ModEq
import Mathlib.Logic.Function.Basic

/-!
# The single read single write controller of `hsrswc.cpp`

`THSRSWC` passes values from one writer to one reader through a ring.  There is no common counter:
each slot has a flag, which `Write` raises and `Read` lowers, and each side has a position of its
own.  The two calls are cut into their accesses to fields, which may alternate in any way.
-/

namespace CommonLib

open Execution

structure THDataNode (α : Type*) where
  sign : Bool
  data : α

structure THSRSWC (α : Type*) where
  buf : Nat → THDataNode α
  bufSize : Nat
  readpos : Nat
  writepos : Nat

/-- How far a call of `Write` is. -/
inductive WriteCall (α : Type*)
  | idle
  /-- The flag was found lowered. -/
  | checked (x : α)
  /-- The value is in the slot. -/
  | stored (x : α)
  /-- The flag is raised; the position is still the old one. -/
  | raised (x : α)
  deriving DecidableEq

/-- How far a call of `Read` is. -/
inductive ReadCall (α : Type*)
  | idle
  /-- The flag was found raised. -/
  | checked
  /-- The value is copied. -/
  | loaded (x : α)
  /-- The flag is lowered; the position is still the old one. -/
  | lowered (x : α)
  deriving DecidableEq

/-- The controller and the calls of its two sides. -/
structure SharedRing (α : Type*) where
  ring : THSRSWC α
  writer : WriteCall α
  reader : ReadCall α
  /-- The values of the `Write` calls which raised their flag; such a call returns `true`. -/
  written : List α
  /-- The values of the `Read` calls which returned `true`. -/
  read : List α

namespace THSRSWC

variable {α : Type*}

/-- The constructor, which calls `SetEmpty`. -/
def new [Zero α] (nSize : Nat) : THSRSWC α where
  buf _ := { sign := false, data := 0 }
  bufSize := nSize
  readpos := 0
  writepos := 0

def setSign (ring : THSRSWC α) (position : Nat) (sign : Bool) : THSRSWC α :=
  { ring with buf := Function.update ring.buf position { ring.buf position with sign } }

def setData (ring : THSRSWC α) (position : Nat) (data : α) : THSRSWC α :=
  { ring with buf := Function.update ring.buf position { ring.buf position with data } }

@[simp] theorem setSign_data (ring : THSRSWC α) (position : Nat) (sign : Bool) (other : Nat) :
    ((ring.setSign position sign).buf other).data = (ring.buf other).data := by
  simp only [setSign, Function.update_apply]
  split
  · next here => rw [here]
  · rfl

@[simp] theorem setData_sign (ring : THSRSWC α) (position : Nat) (data : α) (other : Nat) :
    ((ring.setData position data).buf other).sign = (ring.buf other).sign := by
  simp only [setData, Function.update_apply]
  split
  · next here => rw [here]
  · rfl

@[simp] theorem setSign_sign (ring : THSRSWC α) (position : Nat) (sign : Bool) (other : Nat) :
    ((ring.setSign position sign).buf other).sign =
      if other = position then sign else (ring.buf other).sign := by
  simp only [setSign, Function.update_apply]
  split <;> rfl

@[simp] theorem setData_data (ring : THSRSWC α) (position : Nat) (data : α) (other : Nat) :
    ((ring.setData position data).buf other).data =
      if other = position then data else (ring.buf other).data := by
  simp only [setData, Function.update_apply]
  split <;> rfl

end THSRSWC

namespace SharedRing

variable {α : Type*}

def start [Zero α] (nSize : Nat) : SharedRing α where
  ring := THSRSWC.new nSize
  writer := .idle
  reader := .idle
  written := []
  read := []

/-! ## The accesses -/

/-- `Write` begins with the test of the flag. -/
def beginWrite (state : SharedRing α) (x : α) : SharedRing α :=
  if (state.ring.buf state.ring.writepos).sign then state else { state with writer := .checked x }

/-- The next access of `Write`. -/
def continueWrite (state : SharedRing α) : Option (SharedRing α) :=
  match state.writer with
  | .idle => none
  | .checked x =>
      some { state with ring := state.ring.setData state.ring.writepos x, writer := .stored x }
  | .stored x =>
      some { state with
        ring := state.ring.setSign state.ring.writepos true
        writer := .raised x
        written := state.written ++ [x] }
  | .raised _ =>
      let ring := state.ring
      some { state with
        ring := { ring with writepos := (ring.writepos + 1) % ring.bufSize }
        writer := .idle }

/-- `Read` begins with the test of the flag. -/
def beginRead (state : SharedRing α) : SharedRing α :=
  if (state.ring.buf state.ring.readpos).sign then { state with reader := .checked } else state

/-- The next access of `Read`. -/
def continueRead (state : SharedRing α) : Option (SharedRing α) :=
  match state.reader with
  | .idle => none
  | .checked =>
      some { state with reader := .loaded (state.ring.buf state.ring.readpos).data }
  | .loaded x =>
      some { state with
        ring := state.ring.setSign state.ring.readpos false
        reader := .lowered x }
  | .lowered x =>
      let ring := state.ring
      some { state with
        ring := { ring with readpos := (ring.readpos + 1) % ring.bufSize }
        reader := .idle
        read := state.read ++ [x] }

inductive Access (α : Type*)
  | beginWrite (x : α)
  | continueWrite
  | beginRead
  | continueRead

/-- One access of one side; a side begins a call when its last one has returned. -/
def step (state : SharedRing α) : Access α → Option (SharedRing α)
  | .beginWrite x =>
      match state.writer with
      | .idle => some (state.beginWrite x)
      | _ => none
  | .continueWrite => state.continueWrite
  | .beginRead =>
      match state.reader with
      | .idle => some state.beginRead
      | _ => none
  | .continueRead => state.continueRead

/-! ## What the flags say -/

/-- The value which a `Read` has taken out of its slot and is about to return. -/
def inHand (state : SharedRing α) : List α :=
  match state.reader with
  | .lowered x => [x]
  | _ => []

/-- The values that left the ring. -/
def taken (state : SharedRing α) : List α := state.read ++ state.inHand

/-- The `Write` calls which have moved the position on. -/
def completed (state : SharedRing α) : Nat :=
  match state.writer with
  | .raised _ => state.written.length - 1
  | _ => state.written.length

/-- What is returned was written, in this order, and at most `bufSize` values are in the ring. -/
structure BoundedFifo (state : SharedRing α) : Prop where
  read : state.read <+: state.written
  taken : state.taken <+: state.written
  room : state.written.length ≤ state.taken.length + state.ring.bufSize

/-- The value with number `number` is in the ring. -/
def Unread (state : SharedRing α) (number : Nat) : Prop :=
  state.taken.length ≤ number ∧ number < state.written.length

/-- The next value has a slot, in which `Write` finds or has put it. -/
def WriterFits (state : SharedRing α) : Prop :=
  match state.writer with
  | .idle => True
  | .checked _ => state.written.length < state.taken.length + state.ring.bufSize
  | .stored x => state.written.length < state.taken.length + state.ring.bufSize ∧
      (state.ring.buf (state.written.length % state.ring.bufSize)).data = x
  | .raised _ => 0 < state.written.length

/-- The value which `Read` is about to take is the oldest one in the ring. -/
def ReaderFits (state : SharedRing α) : Prop :=
  match state.reader with
  | .checked => state.Unread state.taken.length
  | .loaded x => state.written[state.taken.length]? = some x
  | _ => True

structure Inv (state : SharedRing α) : Prop where
  positive : 0 < state.ring.bufSize
  taken : state.taken <+: state.written
  room : state.written.length ≤ state.taken.length + state.ring.bufSize
  readpos : state.ring.readpos = state.read.length % state.ring.bufSize
  writepos : state.ring.writepos = state.completed % state.ring.bufSize
  raised : ∀ position, (state.ring.buf position).sign = true ↔
    ∃ number, state.Unread number ∧ number % state.ring.bufSize = position
  stored : ∀ number, state.Unread number →
    state.written[number]? = some (state.ring.buf (number % state.ring.bufSize)).data
  writer : state.WriterFits
  reader : state.ReaderFits

/-! ## Slots -/

/-- Numbers which lie less than `size` apart have slots of their own. -/
theorem eq_of_slot_eq {size low number number' : Nat}
    (above : low ≤ number ∧ number < low + size) (above' : low ≤ number' ∧ number' < low + size)
    (same : number % size = number' % size) : number = number' := by
  wlog ordered : number ≤ number' generalizing number number'
  · exact (this above' above same.symm (Nat.le_of_not_le ordered)).symm
  have divides : size ∣ number' - number := (Nat.modEq_iff_dvd' ordered).mp same
  have none : number' - number = 0 := Nat.eq_zero_of_dvd_of_lt divides (by omega)
  omega

theorem prefix_concat {front all : List α} (isPrefix : front <+: all) {x : α}
    (here : all[front.length]? = some x) : front ++ [x] <+: all := by
  obtain ⟨rest, rfl⟩ := isPrefix
  cases rest with
  | nil => simp at here
  | cons y rest =>
      obtain rfl : y = x := by simpa using here
      exact ⟨rest, by simp⟩

namespace Inv

variable {state : SharedRing α}

theorem taken_le (inv : state.Inv) : state.taken.length ≤ state.written.length :=
  inv.taken.length_le

/-- Unread values and the next one to come lie less than `bufSize` apart, once there is room. -/
theorem in_window (inv : state.Inv) {number : Nat} (unread : state.Unread number) :
    state.taken.length ≤ number ∧ number < state.taken.length + state.ring.bufSize :=
  ⟨unread.1, Nat.lt_of_lt_of_le unread.2 inv.room⟩

/-- No unread value is in the slot of the next one. -/
theorem next_slot_free (inv : state.Inv)
    (room : state.written.length < state.taken.length + state.ring.bufSize) {number : Nat}
    (unread : state.Unread number) :
    number % state.ring.bufSize ≠ state.written.length % state.ring.bufSize := by
  intro same
  have next := eq_of_slot_eq (inv.in_window unread) ⟨inv.taken_le, room⟩ same
  exact Nat.lt_irrefl _ (next ▸ unread.2)

theorem boundedFifo (inv : state.Inv) : state.BoundedFifo where
  read := (List.prefix_append _ _).trans inv.taken
  taken := inv.taken
  room := inv.room

/-! ### The writer -/

/-- A lowered flag at the position of the writer means that there is room. -/
theorem room_of_lowered (inv : state.Inv) (idle : state.writer = .idle)
    (lowered : (state.ring.buf state.ring.writepos).sign = false) :
    state.written.length < state.taken.length + state.ring.bufSize := by
  apply Nat.lt_of_le_of_ne inv.room
  intro full
  have oldest : state.Unread state.taken.length := ⟨Nat.le_refl _, by have := inv.positive; omega⟩
  have same : state.taken.length % state.ring.bufSize = state.ring.writepos := by
    rw [inv.writepos, completed, idle, full, Nat.add_mod_right]
  have raised := (inv.raised state.ring.writepos).mpr ⟨_, oldest, same⟩
  rw [lowered] at raised
  exact Bool.false_ne_true raised

theorem beginWrite (inv : state.Inv) (idle : state.writer = .idle) (x : α) :
    (state.beginWrite x).Inv := by
  unfold SharedRing.beginWrite
  split
  · exact inv
  · next lowered =>
      have room := inv.room_of_lowered idle (Bool.eq_false_iff.mpr lowered)
      have writepos := inv.writepos
      rw [completed, idle] at writepos
      exact { inv with writepos, writer := room }

theorem store (inv : state.Inv) {x : α} (checked : state.writer = .checked x) :
    Inv { state with ring := state.ring.setData state.ring.writepos x, writer := .stored x } := by
  have writepos := inv.writepos
  rw [completed, checked] at writepos
  change state.ring.writepos = state.written.length % state.ring.bufSize at writepos
  have room := inv.writer
  rw [WriterFits, checked] at room
  change state.written.length < state.taken.length + state.ring.bufSize at room
  have kept {number : Nat} (unread : state.Unread number) :
      ((state.ring.setData state.ring.writepos x).buf (number % state.ring.bufSize)).data =
        (state.ring.buf (number % state.ring.bufSize)).data := by
    have apart := inv.next_slot_free room unread
    rw [THSRSWC.setData_data, writepos, if_neg apart]
  have filled : ((state.ring.setData state.ring.writepos x).buf
      (state.written.length % state.ring.bufSize)).data = x := by
    rw [THSRSWC.setData_data, writepos, if_pos rfl]
  exact {
    inv with
    writepos
    raised := fun position => by
      rw [THSRSWC.setData_sign]
      exact inv.raised position
    stored := fun number unread =>
      (inv.stored number unread).trans (congrArg some (kept unread).symm)
    writer := ⟨room, filled⟩ }

theorem raise (inv : state.Inv) {x : α} (call : state.writer = .stored x) :
    Inv { state with
      ring := state.ring.setSign state.ring.writepos true
      writer := .raised x
      written := state.written ++ [x] } := by
  have writepos := inv.writepos
  rw [completed, call] at writepos
  obtain ⟨room, here⟩ : state.written.length < state.taken.length + state.ring.bufSize ∧
      (state.ring.buf (state.written.length % state.ring.bufSize)).data = x := by
    have fits := inv.writer
    rwa [WriterFits, call] at fits
  have taken_le := inv.taken_le
  have unread_iff (number : Nat) :
      (state.taken.length ≤ number ∧ number < state.written.length + 1) ↔
        state.Unread number ∨ number = state.written.length := by
    unfold Unread
    omega
  have stored (number : Nat)
      (unread : state.taken.length ≤ number ∧ number < (state.written ++ [x]).length) :
      (state.written ++ [x])[number]? =
        some (state.ring.buf (number % state.ring.bufSize)).data := by
    rw [List.length_append, List.length_singleton] at unread
    rcases (unread_iff number).mp unread with before | rfl
    · rw [List.getElem?_append_left before.2]
      exact inv.stored number before
    · rw [List.getElem?_concat_length, here]
  exact {
    positive := inv.positive
    taken := inv.taken.trans (List.prefix_append _ _)
    room := by
      rw [List.length_append, List.length_singleton]
      exact room
    readpos := inv.readpos
    writepos := by
      rw [completed, List.length_append, List.length_singleton]
      exact writepos
    raised := fun position => by
      rw [THSRSWC.setSign_sign]
      simp only [Unread, List.length_append, List.length_singleton]
      split
      · next same =>
          refine iff_of_true rfl ⟨state.written.length, ⟨taken_le, Nat.lt_succ_self _⟩, ?_⟩
          exact (same.trans writepos).symm
      · next apart =>
          rw [inv.raised position]
          constructor
          · rintro ⟨number, unread, same⟩
            exact ⟨number, (unread_iff number).mpr (.inl unread), same⟩
          · rintro ⟨number, unread, same⟩
            rcases (unread_iff number).mp unread with before | rfl
            · exact ⟨number, before, same⟩
            · exact absurd (same.symm.trans writepos.symm) apart
    stored := fun number unread => by
      rw [THSRSWC.setSign_data]
      exact stored number unread
    writer := by simp [WriterFits]
    reader := by
      have reader := inv.reader
      unfold ReaderFits at reader ⊢
      dsimp only
      split
      · next checked =>
          simp only [checked] at reader
          change state.taken.length ≤ state.taken.length ∧ state.taken.length < (_ ++ [x]).length
          rw [List.length_append, List.length_singleton]
          exact (unread_iff _).mpr (.inl reader)
      · next y loaded =>
          simp only [loaded] at reader
          obtain ⟨inside, value⟩ := List.getElem?_eq_some_iff.mp reader
          exact (List.getElem?_append_left inside).trans reader
      · trivial }

theorem moveWritepos (inv : state.Inv) {x : α} (call : state.writer = .raised x) :
    Inv { state with
      ring := { state.ring with writepos := (state.ring.writepos + 1) % state.ring.bufSize }
      writer := .idle } := by
  have positive := inv.writer
  rw [WriterFits, call] at positive
  have writepos := inv.writepos
  rw [completed, call] at writepos
  exact {
    inv with
    writepos := by
      change (state.ring.writepos + 1) % state.ring.bufSize =
        state.written.length % state.ring.bufSize
      rw [writepos, Nat.mod_add_mod, Nat.sub_add_cancel positive]
    writer := trivial }

/-! ### The reader -/

/-- An access of the reader that takes nothing out of the ring. -/
theorem keep_taken (inv : state.Inv) {reader : ReadCall α} {read : List α} {readpos : Nat}
    (same : SharedRing.taken { state with reader, read } = state.taken)
    (position : readpos = read.length % state.ring.bufSize)
    (fits : ReaderFits { state with reader, read }) :
    Inv { state with ring := { state.ring with readpos }, reader, read } := by
  have unread_iff (number : Nat) :
      Unread { state with ring := { state.ring with readpos }, reader, read } number ↔
        state.Unread number := by
    change (SharedRing.taken { state with reader, read }).length ≤ number ∧ _ ↔ _
    rw [same, Unread]
  have room : WriterFits { state with ring := { state.ring with readpos }, reader, read } ↔
      state.WriterFits := by
    change (match state.writer with
      | .idle => True
      | .checked _ => _ < (SharedRing.taken { state with reader, read }).length + _
      | .stored x => _ < (SharedRing.taken { state with reader, read }).length + _ ∧ _
      | .raised _ => _) ↔ _
    rw [same, WriterFits]
  exact {
    positive := inv.positive
    taken := by
      change SharedRing.taken { state with reader, read } <+: state.written
      rw [same]
      exact inv.taken
    room := by
      change _ ≤ (SharedRing.taken { state with reader, read }).length + _
      rw [same]
      exact inv.room
    readpos := position
    writepos := inv.writepos
    raised := fun position => by
      simp only [unread_iff]
      exact inv.raised position
    stored := fun number unread => inv.stored number ((unread_iff number).mp unread)
    writer := room.mpr inv.writer
    reader := fits }

theorem beginRead (inv : state.Inv) (idle : state.reader = .idle) : state.beginRead.Inv := by
  have taken_eq : state.taken = state.read := by simp [SharedRing.taken, inHand, idle]
  unfold SharedRing.beginRead
  split
  · next raised =>
      obtain ⟨number, unread, same⟩ := (inv.raised state.ring.readpos).mp raised
      have oldest : number = state.taken.length := by
        have positive := inv.positive
        apply eq_of_slot_eq (inv.in_window unread) (by omega)
        rw [same, inv.readpos, taken_eq]
      have taken_same : SharedRing.taken { state with reader := .checked } = state.taken := by
        rw [taken_eq]
        exact List.append_nil _
      apply inv.keep_taken taken_same inv.readpos
      change (SharedRing.taken { state with reader := .checked }).length ≤
        (SharedRing.taken { state with reader := .checked }).length ∧ _ < state.written.length
      rw [taken_same]
      exact ⟨Nat.le_refl _, oldest ▸ unread.2⟩
  · exact inv

theorem load (inv : state.Inv) (call : state.reader = .checked) :
    Inv { state with reader := .loaded (state.ring.buf state.ring.readpos).data } := by
  have taken_eq : state.taken = state.read := by simp [SharedRing.taken, inHand, call]
  have taken_same : SharedRing.taken { state with
      reader := .loaded (state.ring.buf state.ring.readpos).data } = state.taken := by
    rw [taken_eq]
    exact List.append_nil _
  apply inv.keep_taken taken_same inv.readpos
  have oldest := inv.reader
  rw [ReaderFits, call] at oldest
  change state.written[(SharedRing.taken { state with reader := .loaded _ }).length]? = some _
  rw [taken_same, inv.stored _ oldest, inv.readpos, taken_eq]

theorem lower (inv : state.Inv) {x : α} (call : state.reader = .loaded x) :
    Inv { state with
      ring := state.ring.setSign state.ring.readpos false
      reader := .lowered x } := by
  have taken_eq : state.taken = state.read := by simp [SharedRing.taken, inHand, call]
  have readpos : state.ring.readpos = state.taken.length % state.ring.bufSize := by
    rw [taken_eq]
    exact inv.readpos
  have oldest := inv.reader
  rw [ReaderFits, call] at oldest
  change state.written[state.taken.length]? = some x at oldest
  have inside : state.taken.length < state.written.length :=
    (List.getElem?_eq_some_iff.mp oldest).1
  have taken_now : SharedRing.taken { state with
      ring := state.ring.setSign state.ring.readpos false
      reader := .lowered x } = state.taken ++ [x] := by
    rw [taken_eq]
    rfl
  have unread_now (number : Nat) :
      Unread { state with
        ring := state.ring.setSign state.ring.readpos false
        reader := .lowered x } number ↔ state.Unread number ∧ number ≠ state.taken.length := by
    rw [Unread, taken_now, List.length_append, List.length_singleton, Unread]
    change _ ∧ number < state.written.length ↔ _
    omega
  have room := inv.room
  have positive := inv.positive
  exact {
    positive
    taken := by
      rw [taken_now]
      exact prefix_concat inv.taken oldest
    room := by
      rw [taken_now, List.length_append]
      change state.written.length ≤ state.taken.length + 1 + state.ring.bufSize
      omega
    readpos := inv.readpos
    writepos := inv.writepos
    raised := fun position => by
      simp only [unread_now, THSRSWC.setSign_sign]
      change _ ↔ ∃ number, _ ∧ number % state.ring.bufSize = position
      split
      · next same =>
          refine iff_of_false Bool.false_ne_true ?_
          rintro ⟨number, ⟨unread, younger⟩, slot⟩
          apply younger
          apply eq_of_slot_eq (inv.in_window unread) (by omega)
          rw [slot, same, readpos]
      · next apart =>
          rw [inv.raised position]
          constructor
          · rintro ⟨number, unread, slot⟩
            refine ⟨number, ⟨unread, ?_⟩, slot⟩
            rintro rfl
            exact apart (slot.symm.trans readpos.symm)
          · rintro ⟨number, ⟨unread, -⟩, slot⟩
            exact ⟨number, unread, slot⟩
    stored := fun number unread => by
      rw [THSRSWC.setSign_data]
      exact inv.stored number ((unread_now number).mp unread).1
    writer := by
      have writer := inv.writer
      unfold WriterFits at writer ⊢
      rw [taken_now, List.length_append, List.length_singleton]
      dsimp only
      split
      · trivial
      · next writing =>
          simp only [writing] at writer
          exact Nat.lt_of_lt_of_le writer (Nat.add_le_add_right (Nat.le_succ _) _)
      · next writing =>
          simp only [writing] at writer
          refine ⟨Nat.lt_of_lt_of_le writer.1 (Nat.add_le_add_right (Nat.le_succ _) _), ?_⟩
          rw [THSRSWC.setSign_data]
          exact writer.2
      · next writing =>
          simpa only [writing] using writer
    reader := trivial }

theorem moveReadpos (inv : state.Inv) {x : α} (call : state.reader = .lowered x) :
    Inv { state with
      ring := { state.ring with readpos := (state.ring.readpos + 1) % state.ring.bufSize }
      reader := .idle
      read := state.read ++ [x] } := by
  have taken_same : SharedRing.taken { state with reader := .idle, read := state.read ++ [x] } =
      state.taken := by
    rw [SharedRing.taken, SharedRing.taken, inHand, inHand, call]
    exact List.append_nil _
  apply inv.keep_taken taken_same
  · rw [inv.readpos, Nat.mod_add_mod, List.length_append, List.length_singleton]
  · trivial

/-! ### Whole runs -/

theorem step {next : SharedRing α} {access : Access α} (inv : state.Inv)
    (accessed : state.step access = some next) : next.Inv := by
  cases access with
  | beginWrite x =>
      simp only [SharedRing.step] at accessed
      split at accessed
      · next idle =>
          obtain rfl := Option.some.inj accessed
          exact inv.beginWrite idle x
      · cases accessed
  | continueWrite =>
      simp only [SharedRing.step, continueWrite] at accessed
      split at accessed
      · cases accessed
      · next checked =>
          obtain rfl := Option.some.inj accessed
          exact inv.store checked
      · next stored =>
          obtain rfl := Option.some.inj accessed
          exact inv.raise stored
      · next raised =>
          obtain rfl := Option.some.inj accessed
          exact inv.moveWritepos raised
  | beginRead =>
      simp only [SharedRing.step] at accessed
      split at accessed
      · next idle =>
          obtain rfl := Option.some.inj accessed
          exact inv.beginRead idle
      · cases accessed
  | continueRead =>
      simp only [SharedRing.step, continueRead] at accessed
      split at accessed
      · cases accessed
      · next checked =>
          obtain rfl := Option.some.inj accessed
          exact inv.load checked
      · next loaded =>
          obtain rfl := Option.some.inj accessed
          exact inv.lower loaded
      · next lowered =>
          obtain rfl := Option.some.inj accessed
          exact inv.moveReadpos lowered

end Inv

theorem start_inv [Zero α] {nSize : Nat} (positive : 0 < nSize) :
    (start nSize : SharedRing α).Inv where
  positive := positive
  taken := List.prefix_rfl
  room := Nat.zero_le _
  readpos := (Nat.zero_mod _).symm
  writepos := (Nat.zero_mod _).symm
  raised position := by
    refine iff_of_false Bool.false_ne_true ?_
    rintro ⟨number, unread, -⟩
    exact Nat.not_lt_zero _ unread.2
  stored number unread := absurd unread.2 (Nat.not_lt_zero _)
  writer := trivial
  reader := trivial

/-- However the accesses of the two sides alternate, the controller is a bounded queue. -/
theorem srswc_bounded_fifo [Zero α] {nSize : Nat} (positive : 0 < nSize)
    (accesses : List (Access α)) : AllStates step BoundedFifo (start nSize) accesses := by
  apply allStates_of_invariant Inv
  · exact Inv.boundedFifo
  · exact Inv.step
  · exact start_inv positive

/-- One slot which both sides use in turn. -/
theorem srswc_bounded_fifo_one : 0 < 1 ∧
    AllStates step BoundedFifo (start 1 : SharedRing Nat) [.beginWrite 7, .continueWrite,
      .continueWrite, .beginRead, .continueWrite, .continueRead, .beginWrite 8, .continueRead,
      .beginWrite 8, .continueWrite, .continueRead, .continueWrite, .continueWrite] :=
  ⟨by decide, srswc_bounded_fifo (by decide) _⟩

end SharedRing
end CommonLib
