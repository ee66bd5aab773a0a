import Mathlib.Algebra.Group.Nat.Defs
import Mathlib.Algebra.Ring.Nat
import CommonLib.Library.Circular

/-!
# Parsers with a cursor

A parser moves a cursor over a memory and notes every offset it reads.  Two questions are asked of a
parser: what it makes of bytes that stand at the cursor, and whether everything it read lies below a
bound.
-/

namespace CommonLib

/-- What a parser did: its value, the cursor behind what it consumed and the offsets it read. -/
structure Fetched (α : Type) where
  value : α
  ptr : Nat
  reads : List Nat

/-- A parser over a memory of cells `β`, started at a cursor. -/
def Fetch (β α : Type) : Type := (Nat → β) → Nat → Fetched α

namespace Fetch

variable {α β γ : Type}

instance : Monad (Fetch β) where
  pure value := fun _ ptr => ⟨value, ptr, []⟩
  bind fetch next := fun memory ptr =>
    let first := fetch memory ptr
    let second := next first.value memory first.ptr
    ⟨second.value, second.ptr, first.reads ++ second.reads⟩

/-- Read the next `count` cells. -/
def take (count : Nat) : Fetch β (List β) := fun memory ptr =>
  ⟨cells memory ptr count, ptr + count, List.range' ptr count⟩

/-- The cursor. -/
def position : Fetch β Nat := fun _ ptr => ⟨ptr, ptr, []⟩

/-- Move the cursor without reading. -/
def skip (count : Nat) : Fetch β Unit := fun _ ptr => ⟨(), ptr + count, []⟩

/-- Run a parser and put the cursor back. -/
def peek (fetch : Fetch β α) : Fetch β α := fun memory ptr =>
  { fetch memory ptr with ptr := ptr }

/-- Run a parser at a distance behind the cursor, which stays. -/
def ahead (offset : Nat) (fetch : Fetch β α) : Fetch β α := peek (do skip offset; fetch)

/-- Read the cell at a distance behind the cursor. -/
def cell (offset : Nat) : Fetch β β := fun memory ptr =>
  ⟨memory (ptr + offset), ptr, [ptr + offset]⟩

/-- Read `count` cells at a distance behind the cursor. -/
def field (offset count : Nat) : Fetch β (List β) := ahead offset (take count)

/-- Read the cells before the first `stop` at a distance behind the cursor, and that cell; the
search is given up after `limit` cells. -/
def scan [DecidableEq β] (stop : β) (limit offset : Nat) : Fetch β (List β) := fun memory ptr =>
  let text := (cells memory (ptr + offset) limit).takeWhile (· ≠ stop)
  ⟨text, ptr, List.range' (ptr + offset) (min (text.length + 1) limit)⟩

/-- Run a parser for its reads if a condition holds; the cursor stays. -/
def onlyIf (condition : Bool) (fetch : Fetch β α) : Fetch β Unit :=
  if condition then peek (do let _ ← fetch) else pure ()

/-- The body of a loop for each of the first `count` indices. -/
def rows (body : Nat → Fetch β Unit) : Nat → Fetch β Unit
  | 0 => pure ()
  | count + 1 => do rows body count; body count

variable {memory : Nat → β} {ptr : Nat}

@[simp] theorem value_pure (value : α) : ((pure value : Fetch β α) memory ptr).value = value := rfl

@[simp] theorem ptr_pure (value : α) : ((pure value : Fetch β α) memory ptr).ptr = ptr := rfl

@[simp] theorem value_bind (fetch : Fetch β α) (next : α → Fetch β γ) :
    ((fetch >>= next) memory ptr).value =
      (next (fetch memory ptr).value memory (fetch memory ptr).ptr).value := rfl

@[simp] theorem ptr_bind (fetch : Fetch β α) (next : α → Fetch β γ) :
    ((fetch >>= next) memory ptr).ptr =
      (next (fetch memory ptr).value memory (fetch memory ptr).ptr).ptr := rfl

@[simp] theorem value_ite {condition : Prop} [Decidable condition] (first second : Fetch β α) :
    ((if condition then first else second) memory ptr).value =
      if condition then (first memory ptr).value else (second memory ptr).value := by
  split <;> rfl

@[simp] theorem value_take (count : Nat) : (take count memory ptr).value = cells memory ptr count :=
  rfl

@[simp] theorem ptr_take (count : Nat) : (take count memory ptr).ptr = ptr + count := rfl

@[simp] theorem value_position : ((position : Fetch β Nat) memory ptr).value = ptr := rfl

@[simp] theorem ptr_position : ((position : Fetch β Nat) memory ptr).ptr = ptr := rfl

@[simp] theorem ptr_skip (count : Nat) : ((skip count : Fetch β Unit) memory ptr).ptr = ptr + count :=
  rfl

@[simp] theorem value_peek (fetch : Fetch β α) :
    (peek fetch memory ptr).value = (fetch memory ptr).value := rfl

@[simp] theorem ptr_peek (fetch : Fetch β α) : (peek fetch memory ptr).ptr = ptr := rfl

@[simp] theorem value_ahead (offset : Nat) (fetch : Fetch β α) :
    (ahead offset fetch memory ptr).value = (fetch memory (ptr + offset)).value := rfl

@[simp] theorem ptr_ahead (offset : Nat) (fetch : Fetch β α) :
    (ahead offset fetch memory ptr).ptr = ptr := rfl

@[simp] theorem value_cell (offset : Nat) :
    (cell offset memory ptr).value = memory (ptr + offset) := rfl

@[simp] theorem ptr_cell (offset : Nat) : (cell offset memory ptr).ptr = ptr := rfl

@[simp] theorem ptr_field (offset count : Nat) : (field offset count memory ptr).ptr = ptr := rfl

@[simp] theorem ptr_scan [DecidableEq β] (stop : β) (limit offset : Nat) :
    (scan stop limit offset memory ptr).ptr = ptr := rfl

@[simp] theorem ptr_onlyIf (condition : Bool) (fetch : Fetch β α) :
    (onlyIf condition fetch memory ptr).ptr = ptr := by
  cases condition <;> rfl

/-- A loop whose rounds put the cursor back does so. -/
theorem ptr_rows {body : Nat → Fetch β Unit} (count : Nat)
    (stays : ∀ index, (body index memory ptr).ptr = ptr) :
    (rows body count memory ptr).ptr = ptr := by
  induction count with
  | zero => rfl
  | succ count induction => rw [rows, ptr_bind, induction, stays]

@[simp] theorem ptr_rows_ahead (offset : Nat → Nat) (fetch : Fetch β Unit) (count : Nat) :
    (rows (fun index => ahead (offset index) fetch) count memory ptr).ptr = ptr :=
  ptr_rows count fun _ => rfl

theorem value_scan_length [DecidableEq β] (stop : β) (limit offset : Nat) :
    (scan stop limit offset memory ptr).value.length =
      (cells memory (ptr + offset) limit).findIdx (· = stop) := by
  have first : (cells memory (ptr + offset) limit).findIdx (fun cell => !decide (cell ≠ stop)) =
      (cells memory (ptr + offset) limit).findIdx (· = stop) := by
    simp only [ne_eq, decide_not, Bool.not_not]
  rw [scan, List.takeWhile_eq_take_findIdx_not, List.length_take, first]
  exact Nat.min_eq_left List.findIdx_le_length

/-- A text has `length` cells if they are no `stop` and the next one is. -/
theorem value_scan_length_eq [DecidableEq β] {stop : β} {limit offset length : Nat}
    (room : length < limit) :
    (scan stop limit offset memory ptr).value.length = length ↔
      memory (ptr + offset + length) = stop ∧
        ∀ index < length, memory (ptr + offset + index) ≠ stop := by
  rw [value_scan_length, List.findIdx_eq (by rwa [cells_length])]
  simp only [cells_getElem, decide_eq_true_eq, decide_eq_false_iff_not]

/-! ## What stands at the cursor -/

/-- `fetch` consumes `bytes` at the cursor and makes `value` of them. -/
def Yields (fetch : Fetch β α) (memory : Nat → β) (ptr : Nat) (bytes : List β) (value : α) : Prop :=
  (fetch memory ptr).value = value ∧ (fetch memory ptr).ptr = ptr + bytes.length

theorem yields_pure (value : α) : Yields (pure value) memory ptr [] value :=
  ⟨rfl, rfl⟩

theorem Yields.bind {fetch : Fetch β α} {next : α → Fetch β γ} {bytes bytes' : List β} {value : α}
    {value' : γ} (first : Yields fetch memory ptr bytes value)
    (second : Yields (next value) memory (ptr + bytes.length) bytes' value') :
    Yields (fetch >>= next) memory ptr (bytes ++ bytes') value' := by
  obtain ⟨value_eq, ptr_eq⟩ := first
  obtain ⟨value_eq', ptr_eq'⟩ := second
  constructor
  · rw [value_bind, value_eq, ptr_eq, value_eq']
  · rw [ptr_bind, value_eq, ptr_eq, ptr_eq', List.length_append, Nat.add_assoc]

theorem Yields.map {fetch : Fetch β α} {bytes : List β} {value : α}
    (first : Yields fetch memory ptr bytes value) (next : α → γ) :
    Yields (do return next (← fetch)) memory ptr bytes (next value) := by
  have both : Yields (fetch >>= fun value => pure (next value)) memory ptr (bytes ++ [])
      (next value) := first.bind (yields_pure _)
  rwa [List.append_nil] at both

/-! ## Where it reads -/

/-- Everything that `fetch` reads lies below `bound`. -/
def Within (fetch : Fetch β α) (memory : Nat → β) (bound ptr : Nat) : Prop :=
  ∀ offset ∈ (fetch memory ptr).reads, offset < bound

variable {bound : Nat}

@[simp] theorem within_pure (value : α) : Within (pure value) memory bound ptr := by
  intro offset read
  cases read

@[simp] theorem within_position : Within position memory bound ptr := by
  intro offset read
  cases read

@[simp] theorem within_skip (count : Nat) : Within (skip count) memory bound ptr := by
  intro offset read
  cases read

@[simp] theorem within_peek (fetch : Fetch β α) :
    Within (peek fetch) memory bound ptr ↔ Within fetch memory bound ptr :=
  Iff.rfl

theorem within_bind {fetch : Fetch β α} {next : α → Fetch β γ} :
    Within (fetch >>= next) memory bound ptr ↔
      Within fetch memory bound ptr ∧
        Within (next (fetch memory ptr).value) memory bound (fetch memory ptr).ptr :=
  List.forall_mem_append

theorem within_map {fetch : Fetch β α} (next : α → γ) :
    Within (do return next (← fetch)) memory bound ptr ↔ Within fetch memory bound ptr := by
  rw [within_bind, and_iff_left (within_pure _)]

theorem within_take {count : Nat} :
    Within (take count) memory bound ptr ↔ count = 0 ∨ ptr + count ≤ bound := by
  constructor
  · intro within
    by_contra outside
    have last := within (ptr + count - 1) (List.mem_range'_1.mpr (by omega))
    omega
  · intro room offset read
    have := List.mem_range'_1.mp read
    omega

@[simp] theorem within_ahead (offset : Nat) (fetch : Fetch β α) :
    Within (ahead offset fetch) memory bound ptr ↔ Within fetch memory bound (ptr + offset) :=
  Iff.rfl

@[simp] theorem within_cell (offset : Nat) :
    Within (cell offset) memory bound ptr ↔ ptr + offset < bound :=
  List.forall_mem_singleton

@[simp] theorem within_field (offset count : Nat) :
    Within (field offset count) memory bound ptr ↔ count = 0 ∨ ptr + offset + count ≤ bound := by
  rw [field, within_ahead, within_take]

@[simp] theorem within_onlyIf (condition : Bool) (fetch : Fetch β α) :
    Within (onlyIf condition fetch) memory bound ptr ↔
      (condition = true → Within fetch memory bound ptr) := by
  cases condition with
  | false => exact iff_of_true (within_pure _) fun met => absurd met Bool.false_ne_true
  | true =>
      rw [onlyIf, if_pos rfl, within_peek, within_bind, and_iff_left (within_pure _),
        forall_prop_of_true rfl]

/-- A text ends below the bound if there is a `stop` below it. -/
theorem within_scan [DecidableEq β] {stop : β} {limit offset : Nat} (room : bound < limit) :
    Within (scan stop limit offset) memory bound ptr ↔
      ∃ index, ptr + offset ≤ index ∧ index < bound ∧ memory index = stop := by
  have length_le : (scan stop limit offset memory ptr).value.length ≤ limit := by
    rw [value_scan_length]
    exact Nat.le_trans List.findIdx_le_length (Nat.le_of_eq (cells_length ..))
  constructor
  · intro within
    have reads_lt {index : Nat} (least : ptr + offset ≤ index)
        (most : index < ptr + offset + min ((scan stop limit offset memory ptr).value.length + 1)
          limit) : index < bound :=
      within index (List.mem_range'_1.mpr ⟨least, most⟩)
    rcases Nat.lt_or_eq_of_le length_le with found | missing
    · have ends := ((value_scan_length_eq found).mp rfl).1
      exact ⟨_, Nat.le_add_right .., reads_lt (Nat.le_add_right ..) (by omega), ends⟩
    · have last : ptr + offset + (limit - 1) < bound := reads_lt (by omega) (by omega)
      omega
  · rintro ⟨index, least, below, stop_eq⟩ offset' read
    have first : (scan stop limit offset memory ptr).value.length ≤ index - (ptr + offset) := by
      rw [value_scan_length]
      by_contra later
      have notStop := List.not_of_lt_findIdx (Nat.lt_of_not_le later)
      rw [cells_getElem, Nat.add_sub_cancel' least] at notStop
      simp [stop_eq] at notStop
    have inside := List.mem_range'_1.mp read
    change _ ∧ offset' < ptr + offset +
      min ((scan stop limit offset memory ptr).value.length + 1) limit at inside
    omega

/-- A loop reads below the bound if each round does, from where the rounds before it end. -/
theorem within_rows {body : Nat → Fetch β Unit} {count : Nat} :
    Within (rows body count) memory bound ptr ↔
      ∀ index < count, Within (body index) memory bound (rows body index memory ptr).ptr := by
  induction count with
  | zero => exact iff_of_true (within_pure _) fun _ below => absurd below (Nat.not_lt_zero _)
  | succ count induction => rw [rows, within_bind, induction, Nat.forall_lt_succ_right]

theorem within_rows_of_stays {body : Nat → Fetch β Unit} {count : Nat}
    (stays : ∀ index, (body index memory ptr).ptr = ptr) :
    Within (rows body count) memory bound ptr ↔
      ∀ index < count, Within (body index) memory bound ptr := by
  simp only [within_rows, ptr_rows _ stays]

end Fetch

/-! ## Numbers as bytes -/

/-- The `count` low bytes of a number, the lowest first. -/
def littleEndian : Nat → Nat → List UInt8
  | 0, _ => []
  | count + 1, value => UInt8.ofNat value :: littleEndian count (value / 256)

def ofLittleEndian : List UInt8 → Nat
  | [] => 0
  | byte :: bytes => byte.toNat + 256 * ofLittleEndian bytes

/-- The `count` low bytes of a number, the highest first. -/
def bigEndian (count value : Nat) : List UInt8 := (littleEndian count value).reverse

def ofBigEndian (bytes : List UInt8) : Nat := ofLittleEndian bytes.reverse

@[simp] theorem littleEndian_length (count value : Nat) :
    (littleEndian count value).length = count := by
  induction count generalizing value with
  | zero => rfl
  | succ count induction => simp [littleEndian, induction]

@[simp] theorem bigEndian_length (count value : Nat) : (bigEndian count value).length = count := by
  simp [bigEndian]

theorem ofLittleEndian_littleEndian (count value : Nat) :
    ofLittleEndian (littleEndian count value) = value % 256 ^ count := by
  induction count generalizing value with
  | zero => simp [littleEndian, ofLittleEndian, Nat.mod_one]
  | succ count induction =>
      rw [littleEndian, ofLittleEndian, induction, Nat.pow_succ', Nat.mod_mul]
      simp

theorem ofBigEndian_bigEndian (count value : Nat) :
    ofBigEndian (bigEndian count value) = value % 256 ^ count := by
  rw [ofBigEndian, bigEndian, List.reverse_reverse, ofLittleEndian_littleEndian]

theorem littleEndian_ofLittleEndian (bytes : List UInt8) :
    littleEndian bytes.length (ofLittleEndian bytes) = bytes := by
  induction bytes with
  | nil => rfl
  | cons byte bytes induction =>
      have := byte.toNat_lt
      have low : UInt8.ofNat (byte.toNat + 256 * ofLittleEndian bytes) = byte := by
        apply UInt8.toNat_inj.mp
        rw [UInt8.toNat_ofNat']
        omega
      have high : (byte.toNat + 256 * ofLittleEndian bytes) / 256 = ofLittleEndian bytes := by omega
      rw [List.length_cons, ofLittleEndian, littleEndian, low, high, induction]

theorem ofLittleEndian_lt (bytes : List UInt8) : ofLittleEndian bytes < 256 ^ bytes.length := by
  induction bytes with
  | nil => simp [ofLittleEndian]
  | cons byte bytes induction =>
      have := byte.toNat_lt
      rw [ofLittleEndian, List.length_cons, Nat.pow_succ']
      omega

theorem ofBigEndian_lt (bytes : List UInt8) : ofBigEndian bytes < 256 ^ bytes.length := by
  simpa [ofBigEndian] using ofLittleEndian_lt bytes.reverse

end CommonLib
