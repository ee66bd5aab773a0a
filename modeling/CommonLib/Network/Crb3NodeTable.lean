import CommonLib.Network.Crb3Search
import Mathlib.Algebra.Order.Ring.Int
import Mathlib.Data.List.Nodup
import Mathlib.Tactic.Linarith
import Mathlib.Tactic.Ring

/-!
# The node table

`_NCHLoad` fills `NCHTable` with 1024 numbers from `genid`, whose variables are static: they are
shared by all clients of a process, and they are never set back.
-/

namespace CommonLib

/-- The value as an `int`; an overflow is undefined. -/
def checkInt (value : Int) : Option Int :=
  if -2 ^ 31 ≤ value ∧ value < 2 ^ 31 then some value else none

/-- The division of two `int`s. -/
def divInt (value divisor : Int) : Option Int :=
  if divisor = 0 then none else checkInt (value.tdiv divisor)

/-- An index into an array of `CRB3_MAX_HASH_NODES` cells. -/
def checkIndex (index : Int) : Option Nat :=
  if 0 ≤ index ∧ index < CRB3_MAX_HASH_NODES then some index.toNat else none

/-- The static variables of `genid`; `m` is never written. -/
structure GenId where
  idMap : Nat → Bool
  n : Int
  k : Int

namespace GenId

def initial : GenId := ⟨fun _ => false, 0, 0⟩

/-- The `m` of `genid`. -/
def m : Int := CRB3_MAX_HASH_NODES

def mark (idMap : Nat → Bool) (index : Nat) : Nat → Bool :=
  fun other => if other = index then true else idMap other

/-- The `while` loop of `genid`, with `room` cells behind `index`. -/
def probe (idMap : Nat → Bool) : Nat → Nat → Nat
  | 0, index => index
  | room + 1, index => if idMap index then probe idMap room (index + 1) else index

/-- The end of the default branch: the next free cell from `n * m / (x * k)` on, if there is one. -/
def genidProbe (x : Int) (idMap : Nat → Bool) (n k : Int) : Option (Int × GenId) := do
  let start ← checkIndex (← divInt (← checkInt (n * m)) (← checkInt (x * k)))
  let index := probe idMap (CRB3_MAX_HASH_NODES - 1 - start) start
  if idMap index then return (-1, ⟨idMap, n, k⟩)
  else return (index, ⟨mark idMap index, n, k⟩)

/-- The default branch of the `switch`. -/
def genidDefault (x : Int) (gen : GenId) : Option (Int × GenId) := do
  let n ← checkInt (gen.n + 2)
  let width ← checkInt (x * gen.k)
  if n ≥ width then genidProbe x gen.idMap 1 (← checkInt (gen.k * 2))
  else genidProbe x gen.idMap n gen.k

/-- `genid`; `none` if an `int` overflows, a division is by zero or an index is out of range. -/
def genid (x : Int) (gen : GenId) : Option (Int × GenId) :=
  if gen.k = 0 then some (0, ⟨mark gen.idMap 0, gen.n, 1⟩)
  else if gen.k = 1 then do
    let n ← checkInt (gen.n + 1)
    if n < x then
      let index ← checkIndex (← divInt (← checkInt (n * m)) x)
      return (index, ⟨mark gen.idMap index, n, 1⟩)
    else genidDefault x ⟨gen.idMap, -1, 2⟩
  else genidDefault x gen

/-- The loop of `_NCHLoad` over the last entries of the table. -/
def loadEntries (initNodes : Int) : Nat → GenId → Option (List Int × GenId)
  | 0, gen => some ([], gen)
  | count + 1, gen => do
      let (entry, gen) ← genid initNodes gen
      let (entries, gen) ← loadEntries initNodes count gen
      return (entry :: entries, gen)

/-- `CRB3Client::_NCHLoad`: the table, and what the call leaves behind in `genid`. -/
def nchLoad (initNodes : Int) (gen : GenId) : Option (List Int × GenId) :=
  loadEntries initNodes CRB3_MAX_HASH_NODES gen

/-- Calls of `_NCHLoad` in one process, one after the other: their tables. -/
def nchLoads : List Int → GenId → Option (List (List Int))
  | [], _ => some []
  | initNodes :: rest, gen => do
      let (table, gen) ← nchLoad initNodes gen
      return table :: (← nchLoads rest gen)

/-- The entries that are numbers of nodes differ and lie in the range. -/
def Distinct (table : List Int) : Prop :=
  (table.filter (0 ≤ ·)).Nodup ∧ ∀ entry ∈ table, entry < CRB3_MAX_HASH_NODES

/-- All calls end, and each makes a sound table, the one it makes in a process of its own. -/
def Agreed (calls : List Int) : Prop :=
  ∃ tables, nchLoads calls initial = some tables ∧
    ∀ call ∈ calls.zip tables, Distinct call.2 ∧
      ∃ gen, nchLoad call.1 initial = some (call.2, gen)

/-! ## What one call hands out -/

@[simp] theorem mark_self (idMap : Nat → Bool) (index : Nat) : mark idMap index index = true :=
  if_pos rfl

theorem mark_of_ne {idMap : Nat → Bool} {index other : Nat} (differ : other ≠ index) :
    mark idMap index other = idMap other :=
  if_neg differ

theorem mark_eq_true {idMap : Nat → Bool} {index other : Nat} :
    mark idMap index other = true ↔ other = index ∨ idMap other = true := by
  unfold mark
  split <;> simp_all

theorem checkInt_eq {value : Int} (low : -2 ^ 31 ≤ value) (high : value < 2 ^ 31) :
    checkInt value = some value :=
  if_pos ⟨low, high⟩

theorem checkInt_eq_some {value result : Int} (checked : checkInt value = some result) :
    result = value := by
  unfold checkInt at checked
  split at checked
  · exact (Option.some.inj checked).symm
  · cases checked

theorem checkIndex_eq_some {index : Int} {cell : Nat} (checked : checkIndex index = some cell) :
    (cell : Int) = index ∧ cell < CRB3_MAX_HASH_NODES := by
  unfold checkIndex at checked
  split at checked
  · next inside =>
    obtain rfl := Option.some.inj checked
    have limit : CRB3_MAX_HASH_NODES = 1024 := rfl
    omega
  · cases checked

theorem probe_le (idMap : Nat → Bool) (room index : Nat) :
    index ≤ probe idMap room index ∧ probe idMap room index ≤ index + room := by
  induction room generalizing index with
  | zero => simp [probe]
  | succ room induction =>
      rw [probe]
      split
      · have := induction (index + 1)
        omega
      · omega

/-- The number is -1, or a cell that was free and is marked now. -/
def Fresh (idMap idMap' : Nat → Bool) (entry : Int) : Prop :=
  entry = -1 ∧ idMap' = idMap ∨
    ∃ index < CRB3_MAX_HASH_NODES, entry = (index : Int) ∧ idMap index = false ∧
      idMap' = mark idMap index

theorem Fresh.lt {idMap idMap' : Nat → Bool} {entry : Int} (fresh : Fresh idMap idMap' entry) :
    entry < CRB3_MAX_HASH_NODES := by
  have limit : CRB3_MAX_HASH_NODES = 1024 := rfl
  obtain ⟨rfl, -⟩ | ⟨index, inside, rfl, -⟩ := fresh
  · omega
  · omega

theorem Fresh.keeps {idMap idMap' : Nat → Bool} {entry : Int} (fresh : Fresh idMap idMap' entry)
    {index : Nat} (free : idMap' index = false) : idMap index = false ∧ entry ≠ index := by
  obtain ⟨rfl, rfl⟩ | ⟨marked, inside, rfl, -, rfl⟩ := fresh
  · exact ⟨free, by omega⟩
  · have differ : index ≠ marked := by
      rintro rfl
      simp at free
    rw [mark_of_ne differ] at free
    exact ⟨free, by omega⟩

theorem genidProbe_eq_some {x n k : Int} {idMap : Nat → Bool} {gen : GenId} {entry : Int}
    (ends : genidProbe x idMap n k = some (entry, gen)) :
    Fresh idMap gen.idMap entry ∧ gen.n = n ∧ gen.k = k := by
  simp only [genidProbe, Option.bind_eq_bind, Option.bind_eq_some_iff] at ends
  obtain ⟨numerator, -, divisor, -, quotient, -, start, start_eq, ends⟩ := ends
  obtain ⟨-, inside⟩ := checkIndex_eq_some start_eq
  have found := probe_le idMap (CRB3_MAX_HASH_NODES - 1 - start) start
  split at ends
  · cases ends
    exact ⟨.inl ⟨rfl, rfl⟩, rfl, rfl⟩
  · next free =>
    cases ends
    exact ⟨.inr ⟨_, by omega, rfl, by simpa using free, rfl⟩, rfl, rfl⟩

theorem genidDefault_eq_some {x : Int} {gen gen' : GenId} {entry : Int}
    (ends : genidDefault x gen = some (entry, gen')) :
    Fresh gen.idMap gen'.idMap entry ∧ (gen'.k = gen.k ∨ gen'.k = gen.k * 2) := by
  simp only [genidDefault, Option.bind_eq_bind, Option.bind_eq_some_iff] at ends
  obtain ⟨n, -, width, -, ends⟩ := ends
  split at ends
  · obtain ⟨k, k_eq, ends⟩ := Option.bind_eq_some_iff.mp ends
    obtain ⟨fresh, -, k_eq'⟩ := genidProbe_eq_some ends
    exact ⟨fresh, .inr (k_eq'.trans (checkInt_eq_some k_eq))⟩
  · obtain ⟨fresh, -, k_eq⟩ := genidProbe_eq_some ends
    exact ⟨fresh, .inl k_eq⟩

/-- The spacing `x * k` is small, and `n` lies below it. -/
theorem genidProbe_ends {x n k : Int} (idMap : Nat → Bool) (inside : 0 ≤ n ∧ n < x * k)
    (small : x * k < 2 ^ 20) :
    ∃ entry gen, genidProbe x idMap n k = some (entry, gen) := by
  have limit : m = 1024 := rfl
  have numerator : checkInt (n * m) = some (n * 1024) := by
    rw [limit]
    exact checkInt_eq (by omega) (by omega)
  have divisor : checkInt (x * k) = some (x * k) := checkInt_eq (by omega) (by omega)
  have low : 0 ≤ n * 1024 / (x * k) := Int.ediv_nonneg (by omega) (by omega)
  have high : n * 1024 / (x * k) < 1024 := Int.ediv_lt_of_lt_mul (by omega) (by omega)
  have quotient : divInt (n * 1024) (x * k) = some (n * 1024 / (x * k)) := by
    rw [divInt, if_neg (by omega), Int.tdiv_eq_ediv_of_nonneg (by omega)]
    exact checkInt_eq (by omega) (by omega)
  have start : checkIndex (n * 1024 / (x * k)) = some (n * 1024 / (x * k)).toNat :=
    if_pos ⟨low, high⟩
  simp only [genidProbe, numerator, divisor, quotient, start, Option.bind_eq_bind,
    Option.bind_some]
  split
  · exact ⟨_, _, rfl⟩
  · exact ⟨_, _, rfl⟩

/-- What a number of calls for the same `x` leave behind: `k` is the number of parts into which the
`x` spaces between the first cells are divided, and `n` counts the parts. -/
inductive Stage (x : Int) : Nat → GenId → Prop
  | start : Stage x 0 initial
  | spread {count : Nat} {idMap : Nat → Bool} {n : Int} (count_eq : count = n + 1)
      (inside : 0 ≤ n ∧ n < x) (marked : ∀ index : Nat, idMap index = true → index * x ≤ n * 1024) :
      Stage x count ⟨idMap, n, 1⟩
  | divide {count : Nat} {idMap : Nat → Bool} {n k : Int} (count_eq : 2 * count = x * k + n + 1)
      (inside : 1 ≤ n ∧ n < x * k) (parts : 2 ≤ k) : Stage x count ⟨idMap, n, k⟩

theorem genidDefault_stage {x n k n' k' : Int} {count : Nat} {idMap : Nat → Bool}
    (positive : 1 ≤ x) (room : count < CRB3_MAX_HASH_NODES) (below : -1 ≤ n ∧ n < x * k)
    (turn : n + 2 < x * k ∧ n' = n + 2 ∧ k' = k ∨ x * k ≤ n + 2 ∧ n' = 1 ∧ k' = k * 2)
    (count_eq : 2 * (count + 1) = x * k' + n' + 1) (inside : 1 ≤ n' ∧ n' < x * k')
    (parts : 2 ≤ k') :
    ∃ entry gen, genidDefault x ⟨idMap, n, k⟩ = some (entry, gen) ∧ Stage x (count + 1) gen ∧
      Fresh idMap gen.idMap entry := by
  have limit : CRB3_MAX_HASH_NODES = 1024 := rfl
  obtain ⟨entry, gen, ends⟩ : ∃ entry gen, genidProbe x idMap n' k' = some (entry, gen) :=
    genidProbe_ends idMap (by omega) (by omega)
  obtain ⟨fresh, rfl, rfl⟩ := genidProbe_eq_some ends
  have parts_le : gen.k ≤ x * gen.k := le_mul_of_one_le_left (by omega) positive
  refine ⟨entry, gen, ?_, .divide (by exact_mod_cast count_eq) inside parts, fresh⟩
  have width_small : x * k < 2 ^ 20 := by
    rcases turn with ⟨-, -, k_eq⟩ | ⟨-, -, k_eq⟩
    · rw [← k_eq]
      omega
    · rw [k_eq, ← mul_assoc] at inside count_eq
      omega
  have next : checkInt (n + 2) = some (n + 2) := checkInt_eq (by omega) (by omega)
  have width : checkInt (x * k) = some (x * k) := checkInt_eq (by omega) (by omega)
  simp only [genidDefault, next, width, Option.bind_eq_bind, Option.bind_some]
  rcases turn with ⟨more, n_eq, k_eq⟩ | ⟨less, n_eq, k_eq⟩
  · rw [if_neg (by omega), ← n_eq, ← k_eq, ends]
  · rw [if_pos less, ← k_eq, checkInt_eq (by omega) (by omega), Option.bind_some, ← n_eq, ends]

/-- A call ends, and hands out a free cell or none. -/
theorem genid_stage {x : Int} {count : Nat} {gen : GenId} (stage : Stage x count gen)
    (positive : 1 ≤ x) (x_le : x ≤ 1024) (room : count < CRB3_MAX_HASH_NODES) :
    ∃ entry gen', genid x gen = some (entry, gen') ∧ Stage x (count + 1) gen' ∧
      Fresh gen.idMap gen'.idMap entry := by
  have limit : CRB3_MAX_HASH_NODES = 1024 := rfl
  cases stage with
  | start =>
      refine ⟨0, ⟨mark initial.idMap 0, 0, 1⟩, rfl, .spread rfl (by omega) ?_,
        .inr ⟨0, by omega, rfl, rfl, rfl⟩⟩
      intro index marked
      rcases mark_eq_true.mp marked with rfl | old
      · simp
      · cases old
  | @spread count idMap n count_eq inside marked =>
      have next : checkInt (n + 1) = some (n + 1) := checkInt_eq (by omega) (by omega)
      rw [genid, if_neg one_ne_zero, if_pos rfl]
      simp only [next, Option.bind_eq_bind, Option.bind_some]
      by_cases more : n + 1 < x
      · rw [if_pos more]
        have low : 0 ≤ (n + 1) * 1024 / x := Int.ediv_nonneg (by omega) (by omega)
        have high : (n + 1) * 1024 / x < 1024 := Int.ediv_lt_of_lt_mul (by omega) (by omega)
        have numerator : checkInt ((n + 1) * m) = some ((n + 1) * 1024) :=
          checkInt_eq (by change _ ≤ (n + 1) * 1024; omega) (by change (n + 1) * 1024 < _; omega)
        have quotient : divInt ((n + 1) * 1024) x = some ((n + 1) * 1024 / x) := by
          rw [divInt, if_neg (by omega), Int.tdiv_eq_ediv_of_nonneg (by omega)]
          exact checkInt_eq (by omega) (by omega)
        have start : checkIndex ((n + 1) * 1024 / x) = some ((n + 1) * 1024 / x).toNat :=
          if_pos ⟨low, high⟩
        have index_eq : (((n + 1) * 1024 / x).toNat : Int) = (n + 1) * 1024 / x :=
          Int.toNat_of_nonneg low
        -- the cells handed out so far lie below, by the spacing of at least one cell
        have above : (n + 1) * 1024 < ((n + 1) * 1024 / x + 1) * x :=
          Int.lt_ediv_add_one_mul_self _ (by omega)
        have least : (n + 1) * 1024 / x * x ≤ (n + 1) * 1024 := Int.ediv_mul_le _ (by omega)
        have free : idMap ((n + 1) * 1024 / x).toNat = false := by
          by_contra taken
          have := marked _ (by simpa using taken)
          rw [index_eq] at this
          rw [add_one_mul ((n + 1) * 1024 / x)] at above
          omega
        simp only [numerator, quotient, start, Option.bind_some]
        refine ⟨_, _, rfl, .spread (by omega) ⟨by omega, more⟩ ?_,
          .inr ⟨_, by omega, rfl, free, rfl⟩⟩
        intro index taken
        rcases mark_eq_true.mp taken with rfl | old
        · rwa [index_eq]
        · have := marked index old
          omega
      · rw [if_neg more]
        exact genidDefault_stage positive room (by omega) (.inl ⟨by omega, rfl, rfl⟩) (by omega)
          (by omega) le_rfl
  | @divide count idMap n k count_eq inside parts =>
      have zero : k ≠ 0 := by omega
      have one : k ≠ 1 := by omega
      rw [genid, if_neg zero, if_neg one]
      by_cases more : n + 2 < x * k
      · exact genidDefault_stage positive room (by omega) (.inl ⟨more, rfl, rfl⟩) (by omega)
          (by omega) parts
      · have double : x * (k * 2) = x * k * 2 := (mul_assoc x k 2).symm
        exact genidDefault_stage positive room (by omega) (.inr ⟨by omega, rfl, rfl⟩) (by omega)
          (by omega) (by omega)

/-! ## The first call of `_NCHLoad` -/

/-- The entries are free cells at first, each another one. -/
theorem loadEntries_ends {x : Int} (positive : 1 ≤ x) (x_le : x ≤ 1024) (rest : Nat)
    {count : Nat} {gen : GenId} (stage : Stage x count gen)
    (room : count + rest ≤ CRB3_MAX_HASH_NODES) :
    ∃ entries gen', loadEntries x rest gen = some (entries, gen') ∧ Distinct entries ∧
      ∀ index : Nat, (index : Int) ∈ entries → gen.idMap index = false := by
  induction rest generalizing count gen with
  | zero => exact ⟨[], gen, rfl, ⟨List.nodup_nil, by simp⟩, by simp⟩
  | succ rest induction =>
      obtain ⟨entry, gen', handed, stage', fresh⟩ :=
        genid_stage stage positive x_le (by omega)
      obtain ⟨entries, gen'', loaded, ⟨nodup, below⟩, free⟩ := induction stage' (by omega)
      refine ⟨entry :: entries, gen'', ?_, ⟨?_, ?_⟩, ?_⟩
      · simp only [loadEntries, handed, loaded, Option.bind_eq_bind, Option.bind_some]
        rfl
      · rw [List.filter_cons]
        split
        · next number =>
          obtain ⟨index, rfl⟩ := Int.eq_ofNat_of_zero_le (by simpa using number)
          refine List.nodup_cons.mpr ⟨fun again => ?_, nodup⟩
          exact (fresh.keeps (free index (List.mem_filter.mp again).1)).2 rfl
        · exact nodup
      · exact List.forall_mem_cons.mpr ⟨fresh.lt, below⟩
      · intro index member
        rcases List.mem_cons.mp member with rfl | later
        · obtain ⟨none, -⟩ | ⟨index', -, same, free, -⟩ := fresh
          · omega
          · rwa [Int.ofNat_inj.mp same]
        · exact (fresh.keeps (free index later)).1

theorem nchLoad_initial {x : Int} (positive : 1 ≤ x) (x_le : x ≤ 1024) :
    ∃ table gen, nchLoad x initial = some (table, gen) ∧ Distinct table := by
  obtain ⟨table, gen, loaded, distinct, -⟩ :=
    loadEntries_ends positive x_le CRB3_MAX_HASH_NODES .start le_rfl
  exact ⟨table, gen, loaded, distinct⟩

/-! ## Later calls -/

/-- The cell 0 is handed out. -/
structure Used (gen : GenId) : Prop where
  started : gen.k ≠ 0
  taken : gen.idMap 0 = true
  spread : gen.k = 1 → 0 ≤ gen.n

theorem Fresh.used {idMap idMap' : Nat → Bool} {entry : Int} (fresh : Fresh idMap idMap' entry)
    (taken : idMap 0 = true) : entry ≠ 0 ∧ idMap' 0 = true := by
  obtain ⟨rfl, rfl⟩ | ⟨index, inside, rfl, free, rfl⟩ := fresh
  · exact ⟨by omega, taken⟩
  · refine ⟨?_, mark_eq_true.mpr (.inr taken)⟩
    rintro same
    rw [Int.ofNat_eq_zero.mp same, taken] at free
    cases free

theorem genid_used {x : Int} (x_le : x ≤ 1024) {gen gen' : GenId} {entry : Int} (used : Used gen)
    (ends : genid x gen = some (entry, gen')) : entry ≠ 0 ∧ Used gen' := by
  obtain ⟨started, taken, spread⟩ := used
  rw [genid, if_neg started] at ends
  split at ends
  · next one =>
    obtain ⟨n, n_eq, ends⟩ := Option.bind_eq_some_iff.mp ends
    obtain rfl := checkInt_eq_some n_eq
    split at ends
    · next inside =>
      simp only [Option.bind_eq_bind, Option.bind_eq_some_iff] at ends
      obtain ⟨numerator, numerator_eq, quotient, quotient_eq, index, index_eq, ends⟩ := ends
      have nonneg := spread one
      obtain rfl := checkInt_eq_some numerator_eq
      rw [divInt, if_neg (by omega), Int.tdiv_eq_ediv_of_nonneg (by change 0 ≤ _ * 1024; omega)]
        at quotient_eq
      obtain rfl := checkInt_eq_some quotient_eq
      have positive : 1 ≤ (gen.n + 1) * m / x :=
        Int.le_ediv_of_mul_le (by omega) (by change 1 * x ≤ _ * 1024; omega)
      have index_eq := (checkIndex_eq_some index_eq).1
      cases ends
      refine ⟨by omega, one_ne_zero, mark_eq_true.mpr (.inr taken), fun _ => ?_⟩
      change 0 ≤ gen.n + 1
      omega
    · obtain ⟨fresh, k_eq⟩ := genidDefault_eq_some ends
      have k_eq : gen'.k = 2 ∨ gen'.k = 2 * 2 := k_eq
      obtain ⟨nonzero, still⟩ := fresh.used taken
      exact ⟨nonzero, by omega, still, by omega⟩
  · next one =>
    obtain ⟨fresh, k_eq⟩ := genidDefault_eq_some ends
    obtain ⟨nonzero, still⟩ := fresh.used taken
    exact ⟨nonzero, by omega, still, by omega⟩

theorem loadEntries_eq_some {x : Int} {rest : Nat} {gen gen' : GenId} {entries : List Int}
    (loaded : loadEntries x (rest + 1) gen = some (entries, gen')) :
    ∃ entry between later, genid x gen = some (entry, between) ∧
      loadEntries x rest between = some (later, gen') ∧ entries = entry :: later := by
  simp only [loadEntries, Option.bind_eq_bind, Option.bind_eq_some_iff] at loaded
  obtain ⟨⟨entry, between⟩, handed, ⟨later, last⟩, loaded, same⟩ := loaded
  cases same
  exact ⟨entry, between, later, handed, loaded, rfl⟩

theorem loadEntries_used {x : Int} (x_le : x ≤ 1024) (rest : Nat) {gen gen' : GenId}
    {entries : List Int} (used : Used gen) (loaded : loadEntries x rest gen = some (entries, gen')) :
    0 ∉ entries ∧ Used gen' := by
  induction rest generalizing gen entries with
  | zero =>
      cases loaded
      exact ⟨List.not_mem_nil, used⟩
  | succ rest induction =>
      obtain ⟨entry, between, later, handed, later_loaded, rfl⟩ := loadEntries_eq_some loaded
      obtain ⟨nonzero, used⟩ := genid_used x_le used handed
      obtain ⟨absent, used⟩ := induction used later_loaded
      exact ⟨by simp [absent, nonzero.symm], used⟩

theorem loadEntries_initial {x : Int} (x_le : x ≤ 1024) (rest : Nat) {entries : List Int}
    {gen : GenId} (loaded : loadEntries x (rest + 1) initial = some (entries, gen)) :
    0 ∈ entries ∧ Used gen := by
  obtain ⟨entry, between, later, handed, later_loaded, rfl⟩ := loadEntries_eq_some loaded
  cases handed
  have used : Used ⟨mark initial.idMap 0, 0, 1⟩ :=
    ⟨one_ne_zero, mark_self initial.idMap 0, fun _ => le_rfl⟩
  exact ⟨List.mem_cons_self, (loadEntries_used x_le _ used later_loaded).2⟩

/-- In a process of its own a call hands out the cell 0. -/
theorem nchLoad_initial_used {x : Int} (x_le : x ≤ 1024) {table : List Int} {gen : GenId}
    (loaded : nchLoad x initial = some (table, gen)) : 0 ∈ table ∧ Used gen :=
  loadEntries_initial x_le 1023 loaded

theorem loadEntries_zero (rest : Nat) : loadEntries 0 (rest + 2) initial = none := rfl

/-- Without nodes to space out, the second number divides by zero. -/
theorem nchLoad_zero : nchLoad 0 initial = none := loadEntries_zero 1022

/-! ## Sequences of calls -/

theorem agreed_singleton {x : Int} (positive : 1 ≤ x) (x_le : x ≤ 1024) : Agreed [x] := by
  obtain ⟨table, gen, loaded, distinct⟩ := nchLoad_initial positive x_le
  refine ⟨[table], ?_, ?_⟩
  · simp only [nchLoads, loaded, Option.bind_eq_bind, Option.bind_some]
    rfl
  · intro call member
    obtain rfl := List.mem_singleton.mp member
    exact ⟨distinct, gen, loaded⟩

/-- The second table lacks the 0 which it has in a process of its own. -/
theorem not_agreed_pair {first second : Int} (first_le : first ≤ 1024) (second_le : second ≤ 1024)
    (rest : List Int) : ¬ Agreed (first :: second :: rest) := by
  rintro ⟨tables, loaded, agreed⟩
  obtain ⟨⟨table, gen⟩, loaded_first, loaded⟩ := Option.bind_eq_some_iff.mp loaded
  obtain ⟨later, loaded_rest, same⟩ := Option.bind_eq_some_iff.mp loaded
  cases same
  obtain ⟨⟨table', gen'⟩, loaded_second, loaded⟩ := Option.bind_eq_some_iff.mp loaded_rest
  obtain ⟨last, -, same⟩ := Option.bind_eq_some_iff.mp loaded
  cases same
  obtain ⟨-, own, loaded_own⟩ := agreed (second, table') (by simp)
  have absent := (loadEntries_used second_le _ (nchLoad_initial_used first_le loaded_first).2
    loaded_second).1
  exact absent (nchLoad_initial_used second_le loaded_own).1

/-- Sequences of calls agree exactly when they consist of one call, for at least one node, or of
none. -/
theorem nchLoads_agreed_iff (calls : List Int) (range : ∀ call ∈ calls, 0 ≤ call ∧ call ≤ 1024) :
    Agreed calls ↔ calls.length ≤ 1 ∧ ∀ call ∈ calls, 1 ≤ call := by
  cases calls with
  | nil => exact iff_of_true ⟨[], rfl, by simp⟩ (by simp)
  | cons first rest =>
      have first_range := range first List.mem_cons_self
      cases rest with
      | nil =>
          constructor
          · rintro ⟨tables, loaded, -⟩
            refine ⟨le_rfl, fun call member => ?_⟩
            obtain rfl := List.mem_singleton.mp member
            by_contra less
            obtain rfl : call = 0 := by omega
            rw [nchLoads, nchLoad_zero] at loaded
            cases loaded
          · rintro ⟨-, some⟩
            exact agreed_singleton (some first List.mem_cons_self) first_range.2
      | cons second rest =>
          have second_range := range second (by simp)
          exact iff_of_false (not_agreed_pair first_range.2 second_range.2 rest) (by simp)

theorem nchLoads_agreed_four : Agreed [4] :=
  (nchLoads_agreed_iff [4] (by decide)).mpr (by decide)

/-- Two clients with the same configuration. -/
theorem nchLoads_disagree :
    ¬ ∀ calls : List Int, (∀ call ∈ calls, 0 ≤ call ∧ call ≤ 1024) → Agreed calls := by
  intro all
  exact not_agreed_pair (by decide) (by decide) [] (all [4, 4] (by decide))

end GenId

end CommonLib
