import CommonLib.Library.Conversion
import CommonLib.Library.DoubleChain
import Mathlib.Data.List.Nodup
import Mathlib.Data.List.Perm.Subperm
import Mathlib.Logic.Function.Basic

/-!
# The time wheel

`time_wheel.c`: entries hang in the bucket of the step at which they are due.  Bucket indices are
computed with unsigned numbers of 32 bits, converted to `int`, and corrected at most once.  Which
of them were used is noted, so that the model can go on behind a bad one.
-/

namespace CommonLib

/-- `struct time_wheel` and its entries, `struct wheel_bucket`, field by field. -/
structure TimeWheel where
  maxSteps : Nat
  maxSteps_pos : 1 ≤ maxSteps
  maxSteps_lt : maxSteps < 2 ^ 32
  /-- The heads of the buckets; the memory around the array is behind the other indices. -/
  buckets : Int → Option Nat
  index : Nat
  next : Nat → Option Nat
  prev : Nat → Option Nat
  /-- The field `index` of the entries. -/
  bucketIndex : Nat → Nat
  steps : Nat → UInt32
  /-- The entries that are allocated. -/
  live : Nat → Bool
  allocs : Nat
  /-- The bucket indices used so far. -/
  used : List Int
  /-- The entries whose callbacks the latest step has run. -/
  ran : List Nat

namespace TimeWheel

/-- The assignment of a link of `target`, if there is a target. -/
def assign (links : Nat → Option Nat) : Option Nat → Option Nat → Nat → Option Nat
  | none, _ => links
  | some target, value => Function.update links target value

theorem assign_self {links : Nat → Option Nat} {target : Option Nat} {cell : Nat}
    (here : target = some cell) (value : Option Nat) : assign links target value cell = value := by
  simp [here, assign]

theorem assign_of_ne {links : Nat → Option Nat} {target : Option Nat} {cell : Nat}
    (elsewhere : target ≠ some cell) (value : Option Nat) :
    assign links target value cell = links cell := by
  cases target with
  | none => rfl
  | some target =>
      have cell_ne : cell ≠ target := fun same => elsewhere (by rw [same])
      simp [assign, cell_ne]

/-- `time_wheel_create`. -/
def create (maxSteps : UInt32) (positive : 1 ≤ maxSteps.toNat) : TimeWheel where
  maxSteps := maxSteps.toNat
  maxSteps_pos := positive
  maxSteps_lt := maxSteps.toNat_lt
  buckets _ := none
  index := maxSteps.toNat - 1
  next _ := none
  prev _ := none
  bucketIndex _ := 0
  steps _ := 0
  live _ := false
  allocs := 0
  used := []
  ran := []

variable (wheel : TimeWheel) (bucket : Nat)

/-- `index = wheel->index - steps` and `index = wheel->index - steps + 1` with their correction;
`difference` is the exact difference. -/
def corrected (difference : Int) : Int :=
  let index := toInt difference
  if index < 0 then toInt (index + wheel.maxSteps) else index

/-- Make an entry the first of a bucket. -/
def push (index : Int) : TimeWheel :=
  { wheel with
    next := Function.update wheel.next bucket (wheel.buckets index)
    prev := assign (Function.update wheel.prev bucket none) (wheel.buckets index) (some bucket)
    buckets := Function.update wheel.buckets index (some bucket)
    bucketIndex := Function.update wheel.bucketIndex bucket (toUnsigned index)
    used := wheel.used ++ [index] }

/-- Take an entry out of its bucket. -/
def unlink : TimeWheel :=
  let index := toInt (wheel.bucketIndex bucket)
  { wheel with
    next := assign wheel.next (wheel.prev bucket) (wheel.next bucket)
    prev := assign wheel.prev (wheel.next bucket) (wheel.prev bucket)
    buckets :=
      if wheel.buckets index = some bucket then
        Function.update wheel.buckets index (wheel.next bucket)
      else wheel.buckets
    used := wheel.used ++ [index] }

/-- `free`. -/
def free : TimeWheel :=
  { wheel with live := Function.update wheel.live bucket false }

/-- The bucket index of `time_wheel_submit`. -/
def submitIndex (steps : UInt32) : Int :=
  if wheel.maxSteps < steps.toNat then
    let index := toInt (wheel.index + 1)
    if wheel.maxSteps ≤ toUnsigned index then 0 else index
  else wheel.corrected (wheel.index - steps.toNat)

/-- `time_wheel_submit`; the handle is the number of entries made before. -/
def submit (steps : UInt32) : TimeWheel :=
  let made :=
    { wheel with
      steps := Function.update wheel.steps wheel.allocs steps
      live := Function.update wheel.live wheel.allocs true
      allocs := wheel.allocs + 1 }
  made.push wheel.allocs (wheel.submitIndex steps)

/-- `time_wheel_cancel`. -/
def cancel : TimeWheel :=
  (wheel.unlink bucket).free bucket

/-- `time_wheel_refresh`; `none` when its assertion fails. -/
def refresh : Option TimeWheel :=
  if wheel.bucketIndex bucket < wheel.maxSteps then
    some ((wheel.unlink bucket).push bucket
      (wheel.corrected (wheel.index - (wheel.steps bucket).toNat)))
  else none

/-- The step of the index in `time_wheel_step`.  C leaves undefined what `index--` makes of the
least `int`; here it is negative. -/
def nextIndex : Nat :=
  let index := toInt wheel.index - 1
  toUnsigned (if index < 0 then toInt (wheel.maxSteps - 1) else index)

/-- The loop of `time_wheel_step`; `loops` says which callbacks return `TIME_WHEEL_EXPIRE_LOOP`.
A wheel whose links do not end runs out of `fuel`. -/
def fire (loops : Nat → Bool) : Nat → Option Nat → TimeWheel → Option TimeWheel
  | _, none, wheel => some wheel
  | 0, some _, _ => none
  | fuel + 1, some bucket, wheel =>
      let called := { wheel with ran := wheel.ran ++ [bucket] }
      let after :=
        if loops bucket then
          called.push bucket (wheel.corrected (wheel.index - (wheel.steps bucket).toNat + 1))
        else called.free bucket
      fire loops fuel (wheel.next bucket) after

/-- `time_wheel_step` up to its loop. -/
def detach : TimeWheel :=
  { wheel with
    buckets := Function.update wheel.buckets wheel.index none
    index := wheel.nextIndex
    used := wheel.used ++ [(wheel.index : Int)]
    ran := [] }

/-- `time_wheel_step`. -/
def stepWheel (loops : Nat → Bool) : Option TimeWheel :=
  wheel.detach.fire loops wheel.allocs (wheel.buckets wheel.index)

end TimeWheel

/-- The calls of a wheel. -/
inductive WheelOp
  | submit (steps : UInt32)
  | cancel (bucket : Nat)
  | refresh (bucket : Nat)
  | step (loops : Nat → Bool)

namespace TimeWheel

def step (wheel : TimeWheel) : WheelOp → Option TimeWheel
  | .submit steps => some (wheel.submit steps)
  | .cancel bucket => some (wheel.cancel bucket)
  | .refresh bucket => wheel.refresh bucket
  | .step loops => wheel.stepWheel loops

/-- Only live entries are cancelled and refreshed. -/
def Legal (wheel : TimeWheel) : WheelOp → Prop
  | .submit _ | .step _ => True
  | .cancel bucket | .refresh bucket => wheel.live bucket = true

instance decidableLegal (wheel : TimeWheel) : (op : WheelOp) → Decidable (wheel.Legal op)
  | .submit _ | .step _ => isTrue trivial
  | .cancel _ | .refresh _ => inferInstanceAs (Decidable (_ = _))

/-! ## The links -/

/-- `contents` are the entries of the buckets; the entries `out` are allocated but in no bucket. -/
structure Links (wheel : TimeWheel) (contents : Int → List Nat) (out : List Nat) : Prop where
  row : ∀ index, DoubleChain wheel.next wheel.prev none (contents index) none
  head : ∀ index, wheel.buckets index = (contents index).head?
  nodup : ∀ index, (contents index).Nodup
  mem : ∀ bucket index, bucket ∈ contents index ↔
    wheel.live bucket = true ∧ bucket ∉ out ∧ toInt (wheel.bucketIndex bucket) = index
  below : ∀ bucket, wheel.live bucket = true → bucket < wheel.allocs

namespace Links

variable {wheel : TimeWheel} {contents : Int → List Nat} {out : List Nat} {bucket : Nat}

theorem create {maxSteps : UInt32} (positive : 1 ≤ maxSteps.toNat) :
    (create maxSteps positive).Links (fun _ => []) [] where
  row _ := trivial
  head _ := rfl
  nodup _ := List.nodup_nil
  mem bucket index := by simp [TimeWheel.create]
  below bucket alive := by simp [TimeWheel.create] at alive

/-- One bucket changes.  The entries of the others keep their links and their heads. -/
theorem update (links : wheel.Links contents out) {after : TimeWheel} {index : Int}
    {cells out' : List Nat} (row : DoubleChain after.next after.prev none cells none)
    (head : after.buckets index = cells.head?) (nodup : cells.Nodup)
    (mem : ∀ cell, cell ∈ cells ↔ after.live cell = true ∧ cell ∉ out' ∧
      toInt (after.bucketIndex cell) = index)
    (next_eq : ∀ other ≠ index, ∀ cell ∈ contents other, after.next cell = wheel.next cell)
    (prev_eq : ∀ other ≠ index, ∀ cell ∈ contents other, after.prev cell = wheel.prev cell)
    (heads : ∀ other ≠ index, after.buckets other = wheel.buckets other)
    (mem_iff : ∀ other ≠ index, ∀ cell, cell ∈ contents other ↔ after.live cell = true ∧
      cell ∉ out' ∧ toInt (after.bucketIndex cell) = other)
    (below : ∀ cell, after.live cell = true → cell < after.allocs) :
    after.Links (Function.update contents index cells) out' := by
  constructor
  · intro other
    by_cases same : other = index
    · subst same
      rwa [Function.update_self]
    · rw [Function.update_of_ne same]
      exact (links.row other).congr (next_eq other same) (prev_eq other same)
  · intro other
    by_cases same : other = index
    · subst same
      rwa [Function.update_self]
    · rw [Function.update_of_ne same, heads other same, links.head]
  · intro other
    by_cases same : other = index
    · subst same
      rwa [Function.update_self]
    · rw [Function.update_of_ne same]
      exact links.nodup other
  · intro cell other
    by_cases same : other = index
    · subst same
      rw [Function.update_self]
      exact mem cell
    · rw [Function.update_of_ne same]
      exact mem_iff other same cell
  · exact below

/-- An entry is in one bucket only. -/
theorem apart (links : wheel.Links contents out) {cell : Nat} {index other : Int}
    (here : cell ∈ contents index) (there : cell ∈ contents other) : other = index :=
  ((links.mem cell other).mp there).2.2.symm.trans ((links.mem cell index).mp here).2.2

/-- An entry that is in no bucket becomes the first of one. -/
theorem push (links : wheel.Links contents (bucket :: out)) (fresh : bucket ∉ out)
    (alive : wheel.live bucket = true) {index : Int} (low : -2 ^ 31 ≤ index)
    (high : index < 2 ^ 31) :
    (wheel.push bucket index).Links
      (Function.update contents index (bucket :: contents index)) out := by
  have absent : ∀ other, bucket ∉ contents other := fun other member =>
    ((links.mem bucket other).mp member).2.1 (by simp)
  have head := links.head index
  have prev_eq : ∀ cell, cell ≠ bucket → (contents index).head? ≠ some cell →
      (wheel.push bucket index).prev cell = wheel.prev cell := by
    intro cell cell_ne not_head
    rw [← head] at not_head
    simp [TimeWheel.push, assign_of_ne not_head, cell_ne]
  have next_eq : ∀ cell, cell ≠ bucket →
      (wheel.push bucket index).next cell = wheel.next cell := fun cell cell_ne => by
    simp [TimeWheel.push, cell_ne]
  have slot : toInt ((wheel.push bucket index).bucketIndex bucket) = index := by
    simpa [TimeWheel.push] using toInt_toUnsigned low high
  have slot_eq : ∀ cell, cell ≠ bucket →
      (wheel.push bucket index).bucketIndex cell = wheel.bucketIndex cell := by
    intro cell cell_ne
    simp [TimeWheel.push, cell_ne]
  apply links.update
  case row =>
    have not_head : wheel.buckets index ≠ some bucket := fun is_head =>
      absent index (List.mem_of_mem_head? (head.symm.trans is_head))
    change DoubleChain _ _ _ ([] ++ bucket :: contents index) _
    apply DoubleChain.insert (links.row index) (links.nodup index)
    · simp [TimeWheel.push, head]
    · simp [TimeWheel.push, assign_of_ne not_head]
    · simp
    · intro first first_eq
      exact assign_self (head.trans first_eq) _
    · exact fun cell member _ => next_eq cell (ne_of_mem_of_not_mem member (absent _))
    · exact fun cell member not_head =>
        prev_eq cell (ne_of_mem_of_not_mem member (absent _)) not_head
  case head => simp [TimeWheel.push]
  case nodup => exact List.nodup_cons.mpr ⟨absent index, links.nodup index⟩
  case mem =>
    intro cell
    by_cases is_bucket : cell = bucket
    · subst is_bucket
      rw [slot]
      simpa [TimeWheel.push, alive] using fresh
    · rw [slot_eq cell is_bucket]
      simpa [is_bucket, TimeWheel.push] using links.mem cell index
  case next_eq =>
    exact fun other _ cell member => next_eq cell (ne_of_mem_of_not_mem member (absent other))
  case prev_eq =>
    exact fun other other_ne cell member =>
      prev_eq cell (ne_of_mem_of_not_mem member (absent other)) fun is_head =>
        other_ne (links.apart (List.mem_of_mem_head? is_head) member)
  case heads =>
    intro other other_ne
    simp [TimeWheel.push, other_ne]
  case mem_iff =>
    intro other other_ne cell
    by_cases is_bucket : cell = bucket
    · subst is_bucket
      rw [slot]
      exact iff_of_false (absent other) fun here => other_ne here.2.2.symm
    · rw [slot_eq cell is_bucket]
      simpa [is_bucket, TimeWheel.push] using links.mem cell other
  case below => exact links.below

/-- An entry is taken out of its bucket. -/
theorem unlink (links : wheel.Links contents out) (alive : wheel.live bucket = true)
    (inside : bucket ∉ out) :
    ∃ contents', (wheel.unlink bucket).Links contents' (bucket :: out) := by
  obtain ⟨index, slot⟩ : ∃ index, toInt (wheel.bucketIndex bucket) = index := ⟨_, rfl⟩
  obtain ⟨front, back, split⟩ := List.append_of_mem
    ((links.mem bucket index).mpr ⟨alive, inside, slot⟩)
  have row := links.row index
  have nodup := links.nodup index
  have head := links.head index
  have before := fun cell => links.mem cell index
  rw [split] at row nodup head before
  have prev_eq : wheel.prev bucket = front.getLast? := by simpa using row.prev_eq
  have next_eq : wheel.next bucket = back.head? := by simpa using row.next_eq
  obtain ⟨absent, distinct⟩ := List.nodup_middle.mp nodup |> List.nodup_cons.mp
  have other_bucket : ∀ other ≠ index, ∀ cell ∈ contents other, cell ∉ front ++ back := by
    intro other other_ne cell member listed
    have here : cell ∈ contents index := by
      rw [split]
      rcases List.mem_append.mp listed with early | late
      · exact List.mem_append_left _ early
      · exact List.mem_append_right _ (List.mem_cons_of_mem _ late)
    exact other_ne (links.apart here member)
  have buckets_eq : (wheel.unlink bucket).buckets =
      if wheel.buckets index = some bucket then
        Function.update wheel.buckets index (wheel.next bucket)
      else wheel.buckets := by
    rw [← slot]
    rfl
  refine ⟨Function.update contents index (front ++ back), ?_⟩
  apply links.update
  case row =>
    apply DoubleChain.remove row distinct
    · intro last last_eq
      rw [Option.or_none, ← next_eq]
      exact assign_self (prev_eq.trans last_eq) _
    · intro first first_eq
      rw [Option.or_none, ← prev_eq]
      exact assign_self (next_eq.trans first_eq) _
    · exact fun cell _ not_last => assign_of_ne (by rwa [prev_eq]) _
    · exact fun cell _ not_first => assign_of_ne (by rwa [next_eq]) _
  case head =>
    rw [buckets_eq]
    cases front with
    | nil => simp [head, next_eq]
    | cons first front =>
        have first_ne : first ≠ bucket := fun same => absent (by simp [same])
        simp [head, first_ne]
  case nodup => exact distinct
  case mem =>
    intro cell
    by_cases is_bucket : cell = bucket
    · subst is_bucket
      exact iff_of_false absent fun here => here.2.1 (by simp)
    · simpa [is_bucket, TimeWheel.unlink] using before cell
  case next_eq =>
    intro other other_ne cell member
    apply assign_of_ne
    rw [prev_eq]
    exact fun last => other_bucket other other_ne cell member
      (List.mem_append_left _ (List.mem_of_getLast? last))
  case prev_eq =>
    intro other other_ne cell member
    apply assign_of_ne
    rw [next_eq]
    exact fun first => other_bucket other other_ne cell member
      (List.mem_append_right _ (List.mem_of_mem_head? first))
  case heads =>
    intro other other_ne
    rw [buckets_eq]
    split
    · exact Function.update_of_ne other_ne _ _
    · rfl
  case mem_iff =>
    intro other other_ne cell
    rw [links.mem cell other]
    by_cases is_bucket : cell = bucket
    · subst is_bucket
      exact iff_of_false (fun here => other_ne (here.2.2.symm.trans slot)) fun here =>
        here.2.1 (by simp)
    · simp [is_bucket, TimeWheel.unlink]
  case below => exact links.below

/-- An entry that is in no bucket is freed. -/
theorem free (links : wheel.Links contents (bucket :: out)) :
    (wheel.free bucket).Links contents out where
  row := links.row
  head := links.head
  nodup := links.nodup
  mem cell index := by
    rw [links.mem]
    by_cases is_bucket : cell = bucket <;> simp [TimeWheel.free, is_bucket]
  below cell alive := by
    by_cases is_bucket : cell = bucket
    · simp [TimeWheel.free, is_bucket] at alive
    · exact links.below cell (by simpa [TimeWheel.free, is_bucket] using alive)

/-- A new entry is allocated, and in no bucket yet. -/
theorem allocate (links : wheel.Links contents []) (steps : UInt32) :
    Links
      { wheel with
        steps := Function.update wheel.steps wheel.allocs steps
        live := Function.update wheel.live wheel.allocs true
        allocs := wheel.allocs + 1 }
      contents [wheel.allocs] where
  row := links.row
  head := links.head
  nodup := links.nodup
  mem cell index := by
    rw [links.mem]
    by_cases is_new : cell = wheel.allocs
    · subst is_new
      have unborn : ¬ wheel.live wheel.allocs = true := fun alive =>
        Nat.lt_irrefl _ (links.below _ alive)
      simp [unborn]
    · simp [is_new]
  below cell alive := by
    by_cases is_new : cell = wheel.allocs
    · exact is_new ▸ Nat.lt_succ_self _
    · exact Nat.lt_succ_of_lt (links.below cell (by simpa [is_new] using alive))

end Links

theorem corrected_ge (wheel : TimeWheel) (difference : Int) :
    -2 ^ 31 ≤ wheel.corrected difference := by
  unfold corrected
  dsimp only
  split
  · exact toInt_ge _
  · exact toInt_ge _

theorem corrected_lt (wheel : TimeWheel) (difference : Int) :
    wheel.corrected difference < 2 ^ 31 := by
  unfold corrected
  dsimp only
  split
  · exact toInt_lt _
  · exact toInt_lt _

theorem submitIndex_ge (wheel : TimeWheel) (steps : UInt32) :
    -2 ^ 31 ≤ wheel.submitIndex steps := by
  unfold submitIndex
  dsimp only
  split_ifs
  · decide
  · exact toInt_ge _
  · exact wheel.corrected_ge _

theorem submitIndex_lt (wheel : TimeWheel) (steps : UInt32) : wheel.submitIndex steps < 2 ^ 31 := by
  unfold submitIndex
  dsimp only
  split_ifs
  · decide
  · exact toInt_lt _
  · exact wheel.corrected_lt _

/-- The bucket index with which the loop of `time_wheel_step` reinserts an entry. -/
def loopIndex (wheel : TimeWheel) (bucket : Nat) : Int :=
  wheel.corrected (wheel.index - (wheel.steps bucket).toNat + 1)

/-- What the loop of `time_wheel_step` leaves of a wheel after the entries `cells`. -/
structure Fired (loops : Nat → Bool) (wheel after : TimeWheel) (cells : List Nat) : Prop where
  maxSteps : after.maxSteps = wheel.maxSteps
  index : after.index = wheel.index
  allocs : after.allocs = wheel.allocs
  steps : after.steps = wheel.steps
  ran : after.ran = wheel.ran ++ cells
  used : after.used = wheel.used ++ (cells.filter loops).map wheel.loopIndex
  live : ∀ bucket, after.live bucket = true ↔
    wheel.live bucket = true ∧ (bucket ∈ cells → loops bucket = true)
  bucketIndex : ∀ bucket, after.bucketIndex bucket =
    if bucket ∈ cells ∧ loops bucket = true then toUnsigned (wheel.loopIndex bucket)
    else wheel.bucketIndex bucket

namespace Fired

variable {loops : Nat → Bool} {wheel middle after : TimeWheel} {front back : List Nat}

theorem nil (loops : Nat → Bool) (wheel : TimeWheel) : Fired loops wheel wheel [] := by
  constructor <;> simp

theorem loopIndex (fired : Fired loops wheel after front) (bucket : Nat) :
    after.loopIndex bucket = wheel.loopIndex bucket := by
  unfold TimeWheel.loopIndex corrected
  rw [fired.maxSteps, fired.index, fired.steps]

theorem trans (first : Fired loops wheel middle front) (second : Fired loops middle after back) :
    Fired loops wheel after (front ++ back) where
  maxSteps := second.maxSteps.trans first.maxSteps
  index := second.index.trans first.index
  allocs := second.allocs.trans first.allocs
  steps := second.steps.trans first.steps
  ran := by rw [second.ran, first.ran, List.append_assoc]
  used := by
    have same : middle.loopIndex = wheel.loopIndex := funext first.loopIndex
    rw [second.used, first.used, same, List.filter_append, List.map_append, List.append_assoc]
  live bucket := by
    rw [second.live, first.live, List.mem_append, and_assoc, or_imp]
  bucketIndex bucket := by
    rw [second.bucketIndex, first.bucketIndex, first.loopIndex]
    by_cases late : bucket ∈ back <;> by_cases early : bucket ∈ front <;>
      by_cases again : loops bucket = true <;> simp [late, early, again]

end Fired

/-- One turn of the loop. -/
theorem fired_one (loops : Nat → Bool) (wheel : TimeWheel) (bucket : Nat) :
    Fired loops wheel
      (if loops bucket then
        { wheel with ran := wheel.ran ++ [bucket] }.push bucket (wheel.loopIndex bucket)
      else { wheel with ran := wheel.ran ++ [bucket] }.free bucket) [bucket] := by
  by_cases again : loops bucket = true
  · rw [if_pos again]
    refine ⟨rfl, rfl, rfl, rfl, rfl, by simp [push, again], fun cell => ?_, fun cell => ?_⟩
    · simp +contextual [push, again]
    · by_cases here : cell = bucket
      · subst here
        simp [push, again]
      · simp [push, here]
  · rw [if_neg again]
    refine ⟨rfl, rfl, rfl, rfl, rfl, by simp [free, again], fun cell => ?_, fun cell => ?_⟩
    · by_cases here : cell = bucket
      · subst here
        simp [free, again]
      · simp [free, here]
    · have kept : ¬ (cell ∈ [bucket] ∧ loops cell = true) := by
        rintro ⟨here, loops_cell⟩
        exact again (List.mem_singleton.mp here ▸ loops_cell)
      rw [if_neg kept]
      rfl

/-- The loop runs the callbacks of the detached entries in their order. -/
theorem fire_spec {wheel : TimeWheel} {contents : Int → List Nat} {cells : List Nat}
    (links : wheel.Links contents cells) (loops : Nat → Bool) {fuel : Nat} {start : Option Nat}
    (chain : Chain wheel.next start cells none) (nodup : cells.Nodup)
    (alive : ∀ bucket ∈ cells, wheel.live bucket = true) (enough : cells.length ≤ fuel) :
    ∃ after contents', wheel.fire loops fuel start = some after ∧ after.Links contents' [] ∧
      Fired loops wheel after cells := by
  induction cells generalizing wheel contents fuel start with
  | nil =>
      obtain rfl : start = none := chain
      exact ⟨wheel, contents, by cases fuel <;> rfl, links, .nil loops wheel⟩
  | cons bucket rest induction =>
      obtain ⟨rfl, tail⟩ := chain
      obtain ⟨fresh, nodup⟩ := List.nodup_cons.mp nodup
      obtain ⟨fuel, rfl⟩ := Nat.exists_eq_succ_of_ne_zero
        (Nat.ne_of_gt (Nat.lt_of_lt_of_le (Nat.succ_pos rest.length) enough))
      let called := { wheel with ran := wheel.ran ++ [bucket] }
      let after :=
        if loops bucket then called.push bucket (wheel.loopIndex bucket) else called.free bucket
      have one : Fired loops wheel after [bucket] := fired_one loops wheel bucket
      have called_links : called.Links contents (bucket :: rest) :=
        ⟨links.row, links.head, links.nodup, links.mem, links.below⟩
      have moved : (∃ contents', after.Links contents' rest) ∧
          ∀ cell ∈ rest, after.next cell = wheel.next cell := by
        by_cases again : loops bucket = true
        · have after_eq : after = called.push bucket (wheel.loopIndex bucket) := if_pos again
          rw [after_eq]
          refine ⟨⟨_, called_links.push fresh (alive bucket (by simp)) (corrected_ge ..)
            (corrected_lt ..)⟩, fun cell member => ?_⟩
          simp [push, called, ne_of_mem_of_not_mem member fresh]
        · have after_eq : after = called.free bucket := if_neg again
          rw [after_eq]
          exact ⟨⟨contents, called_links.free⟩, fun cell member => rfl⟩
      obtain ⟨⟨contents', links'⟩, next_eq⟩ := moved
      obtain ⟨final, contents'', fire, final_links, fired⟩ := induction links'
        (tail.congr next_eq) nodup
        (fun cell member => (one.live cell).mpr
          ⟨alive cell (by simp [member]), fun here =>
            absurd (List.mem_singleton.mp here ▸ member) fresh⟩)
        (by simpa using enough)
      refine ⟨final, contents'', ?_, final_links, one.trans fired⟩
      rw [TimeWheel.fire]
      exact fire

@[simp] theorem detach_maxSteps (wheel : TimeWheel) : wheel.detach.maxSteps = wheel.maxSteps := by
  rw [detach]

@[simp] theorem detach_index (wheel : TimeWheel) : wheel.detach.index = wheel.nextIndex := by
  rw [detach]

@[simp] theorem detach_ran (wheel : TimeWheel) : wheel.detach.ran = [] := by
  rw [detach]

@[simp] theorem detach_steps (wheel : TimeWheel) : wheel.detach.steps = wheel.steps := by
  rw [detach]

@[simp] theorem detach_live (wheel : TimeWheel) : wheel.detach.live = wheel.live := by
  rw [detach]

@[simp] theorem detach_bucketIndex (wheel : TimeWheel) :
    wheel.detach.bucketIndex = wheel.bucketIndex := by
  rw [detach]

/-- The bucket under the index is emptied. -/
theorem Links.detach {wheel : TimeWheel} {contents : Int → List Nat}
    (links : wheel.Links contents []) :
    wheel.detach.Links (Function.update contents wheel.index []) (contents wheel.index) := by
  have here := fun cell => links.mem cell wheel.index
  apply links.update
  case row => trivial
  case head => simp [TimeWheel.detach]
  case nodup => exact List.nodup_nil
  case mem =>
    intro cell
    refine iff_of_false (by simp) fun inside => inside.2.1 ?_
    exact (here cell).mpr ⟨inside.1, by simp, inside.2.2⟩
  case next_eq => exact fun _ _ _ _ => rfl
  case prev_eq => exact fun _ _ _ _ => rfl
  case heads =>
    intro other other_ne
    simp [TimeWheel.detach, other_ne]
  case mem_iff =>
    intro other other_ne cell
    rw [links.mem cell other]
    constructor
    · intro inside
      refine ⟨inside.1, fun member => ?_, inside.2.2⟩
      exact other_ne (inside.2.2.symm.trans ((here cell).mp member).2.2)
    · exact fun inside => ⟨inside.1, by simp, inside.2.2⟩
  case below => exact links.below

/-- What `time_wheel_step` does: it moves on and runs the callbacks of the entries of a bucket. -/
theorem stepWheel_spec {wheel : TimeWheel} {contents : Int → List Nat}
    (links : wheel.Links contents []) (loops : Nat → Bool) :
    ∃ after contents', wheel.stepWheel loops = some after ∧ after.Links contents' [] ∧
      Fired loops wheel.detach after (contents wheel.index) := by
  have alive : ∀ bucket ∈ contents wheel.index, wheel.live bucket = true := fun bucket member =>
    ((links.mem bucket wheel.index).mp member).1
  have chain := (links.row wheel.index).chain
  rw [Option.or_none, ← links.head] at chain
  have inside : contents wheel.index ⊆ List.range wheel.allocs := fun bucket member =>
    List.mem_range.mpr (links.below bucket (alive bucket member))
  have enough : (contents wheel.index).length ≤ wheel.allocs := by
    simpa using ((links.nodup wheel.index).subperm inside).length_le
  exact fire_spec links.detach loops chain (links.nodup wheel.index) alive enough

end TimeWheel

end CommonLib
