import CommonLib.Library.DoubleChain
import CommonLib.Net.TimerLists
import Mathlib.Data.List.Nodup
import Mathlib.Data.List.Perm.Subperm

/-!
# The list of a timer queue

What `insert_timer_inloop` and `remove_timer_inloop` make of a well-formed list: the list with the
timer behind those that are not later, and the list without the timer.  Apart from the links, the
timers stay as they are.
-/

namespace CommonLib.TimerQueue

variable {queue : TimerQueue} {timer : Nat} {value : LoopTimer} {cells front back : List Nat}

/-! ## Fields of the timers -/

/-- The `next` fields. -/
def nexts (queue : TimerQueue) (timer : Nat) : Option Nat :=
  (queue.timers timer).bind LoopTimer.next

/-- The `prev` fields. -/
def prevs (queue : TimerQueue) (timer : Nat) : Option Nat :=
  (queue.timers timer).bind LoopTimer.prev

/-- The `timestamp` fields. -/
def timestampOf (queue : TimerQueue) (timer : Nat) : UInt64 :=
  ((queue.timers timer).map LoopTimer.timestamp).getD 0

end TimerQueue

/-- The timer without its links. -/
def LoopTimer.bare (value : LoopTimer) : LoopTimer := { value with prev := none, next := none }

namespace TimerQueue

variable {queue queue' : TimerQueue} {timer : Nat} {value : LoopTimer} {cells front back : List Nat}

/-- The timers without their links. -/
def bares (queue : TimerQueue) (timer : Nat) : Option LoopTimer :=
  (queue.timers timer).map LoopTimer.bare

theorem modify_eq (found : queue.timers timer = some value) (change : LoopTimer → LoopTimer) :
    queue.modify timer change = some (queue.store timer (change value)) := by
  rw [modify, found]
  rfl

theorem modify_same (found : queue.timers timer = some value) {change : LoopTimer → LoopTimer}
    (same : change value = value) : queue.modify timer change = some queue := by
  rw [modify_eq found, same, store, Function.update_eq_self_iff.mpr found.symm]

theorem free_eq (found : queue.timers timer = some value) :
    queue.free timer =
      some ({ queue with timers := Function.update queue.timers timer none }.record
        (.freed timer)) := by
  rw [free, found]
  rfl

@[simp] theorem store_timers (queue : TimerQueue) (timer : Nat) (value : LoopTimer) :
    (queue.store timer value).timers = Function.update queue.timers timer (some value) := rfl

@[simp] theorem record_timers (queue : TimerQueue) (event : TimerEvent) :
    (queue.record event).timers = queue.timers := rfl

theorem nexts_store (queue : TimerQueue) (timer : Nat) (value : LoopTimer) :
    (queue.store timer value).nexts = Function.update queue.nexts timer value.next := by
  funext other
  by_cases same : other = timer
  · subst same
    simp [nexts]
  · simp [nexts, same]

theorem prevs_store (queue : TimerQueue) (timer : Nat) (value : LoopTimer) :
    (queue.store timer value).prevs = Function.update queue.prevs timer value.prev := by
  funext other
  by_cases same : other = timer
  · subst same
    simp [prevs]
  · simp [prevs, same]

theorem bares_store (queue : TimerQueue) (timer : Nat) (value : LoopTimer) :
    (queue.store timer value).bares = Function.update queue.bares timer (some value.bare) := by
  funext other
  by_cases same : other = timer
  · subst same
    simp [bares]
  · simp [bares, same]

/-- Assigning links leaves the rest of the timers. -/
theorem bares_relink (found : queue.timers timer = some value) {value' : LoopTimer}
    (same : value'.bare = value.bare) : (queue.store timer value').bares = queue.bares := by
  rw [bares_store, same, Function.update_eq_self_iff, bares, found]
  rfl

theorem nexts_eq (found : queue.timers timer = some value) : queue.nexts timer = value.next := by
  simp [nexts, found]

theorem prevs_eq (found : queue.timers timer = some value) : queue.prevs timer = value.prev := by
  simp [prevs, found]

theorem timestampOf_eq (found : queue.timers timer = some value) :
    queue.timestampOf timer = value.timestamp := by
  simp [timestampOf, found]

theorem timestampOf_eq_bares (queue : TimerQueue) (timer : Nat) :
    queue.timestampOf timer = ((queue.bares timer).map LoopTimer.timestamp).getD 0 := by
  simp [timestampOf, bares, Function.comp_def, LoopTimer.bare]

theorem isSome_bares (queue : TimerQueue) (timer : Nat) :
    (queue.bares timer).isSome = (queue.timers timer).isSome := by
  simp [bares]

/-! ## Well-formed lists -/

/-- The list of the queue consists of `cells`: both fields link them, they are in the order of
their timestamps, and the fields of the queue name the ends and the least timestamp. -/
structure Holds (queue : TimerQueue) (cells : List Nat) : Prop where
  row : DoubleChain queue.nexts queue.prevs none cells none
  head : queue.timerList = cells.head?
  last : queue.timerListEnd = cells.getLast?
  nodup : cells.Nodup
  allocated : ∀ timer ∈ cells, (queue.timers timer).isSome
  below : ∀ timer ∈ cells, timer < queue.allocs
  sorted : cells.Pairwise fun first second => queue.timestampOf first ≤ queue.timestampOf second
  min : ∀ first, cells.head? = some first → queue.minTimestamp = queue.timestampOf first

theorem length_le_allocs (nodup : cells.Nodup) (below : ∀ timer ∈ cells, timer < queue.allocs) :
    cells.length ≤ queue.allocs := by
  have inside : cells ⊆ List.range queue.allocs :=
    fun timer member => List.mem_range.mpr (below timer member)
  simpa using (nodup.subperm inside).length_le

theorem Holds.length_le (holds : queue.Holds cells) : cells.length ≤ queue.allocs :=
  length_le_allocs holds.nodup holds.below

/-- The links of a queue say which timers it holds. -/
theorem Holds.unique {cells' : List Nat} (holds : queue.Holds cells) (holds' : queue.Holds cells') :
    cells = cells' := by
  have chain := holds.row.chain
  have chain' := holds'.row.chain
  rw [Option.or_none, ← holds.head] at chain
  rw [Option.or_none, ← holds'.head] at chain'
  exact chain.unique chain'

/-- The loop over the timers up to a timestamp stops at the first later one. -/
theorem skipDue_eq {start : Option Nat} {fuel : Nat} (timestamp : UInt64)
    (chain : Chain queue.nexts start cells none)
    (allocated : ∀ timer ∈ cells, (queue.timers timer).isSome) (enough : cells.length ≤ fuel) :
    queue.skipDue timestamp fuel start = some (late queue.timestampOf timestamp cells).head? := by
  induction cells generalizing start fuel with
  | nil =>
      obtain rfl : start = none := chain
      cases fuel <;> rfl
  | cons timer cells induction =>
      obtain ⟨rfl, tail⟩ := chain
      obtain ⟨value, found⟩ := Option.isSome_iff_exists.mp (allocated timer (by simp))
      obtain ⟨fuel, rfl⟩ := Nat.exists_eq_succ_of_ne_zero
        (Nat.ne_of_gt (Nat.lt_of_lt_of_le (Nat.succ_pos cells.length) enough))
      rw [nexts_eq found] at tail
      have rest := induction tail (fun other member => allocated other (by simp [member]))
        (by simpa using enough)
      simp only [skipDue, found, Option.bind_eq_bind, Option.bind_some]
      by_cases passed : value.timestamp ≤ timestamp
      · rw [if_pos passed, rest, late, late, List.dropWhile_cons_of_pos]
        simpa [timestampOf_eq found] using passed
      · rw [if_neg passed, late, List.dropWhile_cons_of_neg]
        · rfl
        · simpa [timestampOf_eq found] using passed

/-! ## Changes of links -/

/-- `queue'` has the timers of `queue`, only the links of the `touched` ones may differ. -/
structure Relinks (queue queue' : TimerQueue) (touched : List Nat) : Prop where
  bares : queue'.bares = queue.bares
  timers : ∀ timer ∉ touched, queue'.timers timer = queue.timers timer
  allocs : queue'.allocs = queue.allocs
  clock : queue'.clock = queue.clock
  trace : queue'.trace = queue.trace

namespace Relinks

variable {queue'' : TimerQueue} {touched : List Nat}

theorem refl (queue : TimerQueue) (touched : List Nat) : Relinks queue queue touched :=
  ⟨rfl, fun _ _ => rfl, rfl, rfl, rfl⟩

theorem store (relinks : Relinks queue queue' touched) (found : queue'.timers timer = some value)
    {value' : LoopTimer} (same : value'.bare = value.bare) (member : timer ∈ touched) :
    Relinks queue (queue'.store timer value') touched := by
  refine ⟨(bares_relink found same).trans relinks.bares, fun other absent => ?_, relinks.allocs,
    relinks.clock, relinks.trace⟩
  rw [store_timers, Function.update_of_ne (ne_of_mem_of_not_mem member absent).symm,
    relinks.timers other absent]

theorem timestampOf (relinks : Relinks queue queue' touched) (timer : Nat) :
    queue'.timestampOf timer = queue.timestampOf timer := by
  rw [timestampOf_eq_bares, timestampOf_eq_bares, relinks.bares]

theorem isSome (relinks : Relinks queue queue' touched) (timer : Nat) :
    (queue'.timers timer).isSome = (queue.timers timer).isSome := by
  rw [← isSome_bares, ← isSome_bares, relinks.bares]

end Relinks

/-! ## Insertion -/

theorem linkLast_spec {front : List Nat} {last : Nat} {lastValue : LoopTimer}
    (row : DoubleChain queue.nexts queue.prevs none (front ++ [last]) none)
    (nodup : (front ++ [last]).Nodup) (absent : timer ∉ front ++ [last])
    (foot : queue.timerListEnd = some last) (foundLast : queue.timers last = some lastValue)
    (found : queue.timers timer = some value) (clear : value.next = none) :
    ∃ queue', queue.linkLast timer = some queue' ∧
      Relinks queue queue' (timer :: (front ++ [last])) ∧
      DoubleChain queue'.nexts queue'.prevs none (front ++ [last] ++ [timer]) none ∧
      queue'.timerList = queue.timerList ∧ queue'.timerListEnd = some timer ∧
      queue'.minTimestamp = queue.minTimestamp := by
  have timer_ne : timer ≠ last := fun same => absent (by simp [same])
  let first := queue.store last { lastValue with next := some timer }
  have found' : first.timers timer = some value := by
    rw [store_timers, Function.update_of_ne timer_ne, found]
  refine ⟨{ first.store timer { value with prev := some last } with timerListEnd := some timer },
    ?_, ?_, ?_, rfl, rfl, rfl⟩
  · simp only [linkLast, foot, Option.bind_eq_bind, Option.bind_some, modify_eq foundLast]
    rw [modify_eq found']
    rfl
  · have one : Relinks queue first (timer :: (front ++ [last])) :=
      (Relinks.refl queue _).store foundLast rfl (by simp)
    have two : Relinks queue (first.store timer { value with prev := some last })
        (timer :: (front ++ [last])) := one.store found' rfl (by simp)
    exact ⟨two.bares, two.timers, two.allocs, two.clock, two.trace⟩
  · have nexts_eq : (first.store timer { value with prev := some last }).nexts =
        Function.update (Function.update queue.nexts last (some timer)) timer none := by
      rw [nexts_store, nexts_store, clear]
    have prevs_eq : (first.store timer { value with prev := some last }).prevs =
        Function.update queue.prevs timer (some last) := by
      rw [prevs_store, prevs_store, ← TimerQueue.prevs_eq foundLast, Function.update_eq_self]
    change DoubleChain (first.store timer { value with prev := some last }).nexts
      (first.store timer { value with prev := some last }).prevs _ _ _
    rw [nexts_eq, prevs_eq]
    refine DoubleChain.insert (by simpa using row) (by simpa using nodup) (by simp) (by simp) ?_
      (by simp) ?_ ?_
    · intro other same
      obtain rfl : last = other := by simpa using same
      simp [timer_ne.symm]
    · intro other member other_ne
      have member : other ∈ front ++ [last] := by simpa using member
      have last_ne : other ≠ last := fun same => other_ne (by simp [same])
      simp [ne_of_mem_of_not_mem member absent, last_ne]
    · intro other member _
      have member : other ∈ front ++ [last] := by simpa using member
      simp [ne_of_mem_of_not_mem member absent]

theorem linkFirst_spec {iter : Nat} {back : List Nat} {iterValue : LoopTimer} (timestamp : UInt64)
    (row : DoubleChain queue.nexts queue.prevs none (iter :: back) none)
    (nodup : (iter :: back).Nodup) (absent : timer ∉ iter :: back)
    (foundIter : queue.timers iter = some iterValue) (found : queue.timers timer = some value) :
    ∃ queue', queue.linkFirst timer iter timestamp = some queue' ∧
      Relinks queue queue' (timer :: iter :: back) ∧
      DoubleChain queue'.nexts queue'.prevs none (timer :: iter :: back) none ∧
      queue'.timerList = some timer ∧ queue'.timerListEnd = queue.timerListEnd ∧
      queue'.minTimestamp = timestamp := by
  have timer_ne : timer ≠ iter := fun same => absent (by simp [same])
  let first := queue.store timer { value with prev := none, next := some iter }
  have foundIter' : first.timers iter = some iterValue := by
    rw [store_timers, Function.update_of_ne timer_ne.symm, foundIter]
  let second := first.store iter { iterValue with prev := some timer }
  refine ⟨{ second with timerList := some timer, minTimestamp := timestamp },
    ?_, ?_, ?_, rfl, rfl, rfl⟩
  · simp only [linkFirst, Option.bind_eq_bind, modify_eq found, Option.bind_some]
    rw [modify_eq foundIter']
    rfl
  · have one : Relinks queue first (timer :: iter :: back) :=
      (Relinks.refl queue _).store found rfl (by simp)
    have two : Relinks queue second (timer :: iter :: back) := one.store foundIter' rfl (by simp)
    exact ⟨two.bares, two.timers, two.allocs, two.clock, two.trace⟩
  · have nexts_eq : second.nexts = Function.update queue.nexts timer (some iter) := by
      rw [nexts_store, ← TimerQueue.nexts_eq foundIter', Function.update_eq_self, nexts_store]
    have prevs_eq : second.prevs =
        Function.update (Function.update queue.prevs timer none) iter (some timer) := by
      rw [prevs_store, prevs_store]
    change DoubleChain second.nexts second.prevs none ([] ++ timer :: iter :: back) none
    rw [nexts_eq, prevs_eq]
    refine DoubleChain.insert row nodup (by simp) (by simp [timer_ne]) (by simp) (by simp) ?_ ?_
    · intro other member _
      simp [ne_of_mem_of_not_mem member absent]
    · intro other member other_ne
      have iter_ne : other ≠ iter := fun same => other_ne (by simp [same])
      simp [ne_of_mem_of_not_mem member absent, iter_ne]

theorem linkBetween_spec {before iter : Nat} {front back : List Nat}
    {beforeValue iterValue : LoopTimer}
    (row : DoubleChain queue.nexts queue.prevs none (front ++ [before] ++ iter :: back) none)
    (nodup : (front ++ [before] ++ iter :: back).Nodup)
    (absent : timer ∉ front ++ [before] ++ iter :: back)
    (foundBefore : queue.timers before = some beforeValue)
    (foundIter : queue.timers iter = some iterValue) (found : queue.timers timer = some value) :
    ∃ queue', queue.linkBetween timer before iter = some queue' ∧
      Relinks queue queue' (timer :: (front ++ [before] ++ iter :: back)) ∧
      DoubleChain queue'.nexts queue'.prevs none (front ++ [before] ++ timer :: iter :: back) none ∧
      queue'.timerList = queue.timerList ∧ queue'.timerListEnd = queue.timerListEnd ∧
      queue'.minTimestamp = queue.minTimestamp := by
  have before_ne : before ≠ timer := fun same => absent (by simp [same])
  have iter_ne : iter ≠ timer := fun same => absent (by simp [same])
  have apart : iter ≠ before := fun same =>
    (List.nodup_append.mp nodup).2.2 before (by simp) iter (by simp) same.symm
  let first := queue.store before { beforeValue with next := some timer }
  have found' : first.timers timer = some value := by
    rw [store_timers, Function.update_of_ne before_ne.symm, found]
  let second := first.store timer { value with prev := some before, next := some iter }
  have foundIter' : second.timers iter = some iterValue := by
    rw [store_timers, Function.update_of_ne iter_ne, store_timers, Function.update_of_ne apart,
      foundIter]
  refine ⟨second.store iter { iterValue with prev := some timer }, ?_, ?_, ?_, rfl, rfl, rfl⟩
  · simp only [linkBetween, Option.bind_eq_bind, modify_eq foundBefore, Option.bind_some]
    rw [modify_eq found', Option.bind_some, modify_eq foundIter']
  · have one : Relinks queue first (timer :: (front ++ [before] ++ iter :: back)) :=
      (Relinks.refl queue _).store foundBefore rfl (by simp)
    have two : Relinks queue second (timer :: (front ++ [before] ++ iter :: back)) :=
      one.store found' rfl (by simp)
    exact two.store foundIter' rfl (by simp)
  · have nexts_eq : (second.store iter { iterValue with prev := some timer }).nexts =
        Function.update (Function.update queue.nexts before (some timer)) timer (some iter) := by
      rw [nexts_store, ← TimerQueue.nexts_eq foundIter', Function.update_eq_self, nexts_store,
        nexts_store]
    have prevs_eq : (second.store iter { iterValue with prev := some timer }).prevs =
        Function.update (Function.update queue.prevs timer (some before)) iter (some timer) := by
      rw [prevs_store, prevs_store, prevs_store, ← TimerQueue.prevs_eq foundBefore,
        Function.update_eq_self]
    rw [nexts_eq, prevs_eq]
    refine DoubleChain.insert row nodup (by simp) (by simp [iter_ne.symm]) ?_ (by simp) ?_ ?_
    · intro other same
      obtain rfl : before = other := by simpa using same
      simp [before_ne]
    · intro other member other_ne
      have last_ne : other ≠ before := fun same => other_ne (by simp [same])
      simp [ne_of_mem_of_not_mem member absent, last_ne]
    · intro other member other_ne
      have first_ne : other ≠ iter := fun same => other_ne (by simp [same])
      simp [ne_of_mem_of_not_mem member absent, first_ne]

/-- The list of a queue after the links of its timers changed. -/
theorem Holds.of_relinks {cells' touched : List Nat} (relinks : Relinks queue queue' touched)
    (row : DoubleChain queue'.nexts queue'.prevs none cells' none)
    (head : queue'.timerList = cells'.head?) (last : queue'.timerListEnd = cells'.getLast?)
    (nodup : cells'.Nodup) (allocated : ∀ timer ∈ cells', (queue.timers timer).isSome)
    (below : ∀ timer ∈ cells', timer < queue.allocs)
    (sorted : cells'.Pairwise fun first second =>
      queue.timestampOf first ≤ queue.timestampOf second)
    (min : ∀ first, cells'.head? = some first →
      queue'.minTimestamp = queue.timestampOf first) : queue'.Holds cells' where
  row := row
  head := head
  last := last
  nodup := nodup
  allocated := fun timer member => (relinks.isSome timer).trans (allocated timer member)
  below := fun timer member => relinks.allocs ▸ below timer member
  sorted := sorted.imp fun {first second} inOrder => by
    rwa [relinks.timestampOf, relinks.timestampOf]
  min := fun first same => (min first same).trans (relinks.timestampOf first).symm

/-- The links after an insertion between `front` and `back`, where the loop over the earlier timers
stopped. -/
theorem Holds.linkTimer_row (holds : queue.Holds (front ++ back))
    (found : queue.timers timer = some value) (clear : value.bare = value)
    (absent : timer ∉ front ++ back)
    (skipped : queue.skipDue value.timestamp queue.allocs queue.timerList = some back.head?) :
    ∃ queue', queue.linkTimer timer value.timestamp = some queue' ∧
      Relinks queue queue' (timer :: (front ++ back)) ∧
      DoubleChain queue'.nexts queue'.prevs none (front ++ timer :: back) none ∧
      queue'.timerList = (front ++ timer :: back).head? ∧
      queue'.timerListEnd = (front ++ timer :: back).getLast? ∧
      queue'.minTimestamp = if front = [] then value.timestamp else queue.minTimestamp := by
  obtain ⟨row, head, foot, nodup, allocated, -, -, -⟩ := holds
  have lookup : ∀ other ∈ front ++ back, ∃ value, queue.timers other = some value :=
    fun other member => Option.isSome_iff_exists.mp (allocated other member)
  have unlinked : value.prev = none ∧ value.next = none := by
    rw [← clear]
    exact ⟨rfl, rfl⟩
  cases back with
  | nil =>
      rw [List.append_nil] at *
      cases front using List.reverseRecOn with
      | nil =>
          refine ⟨{ queue with
              timerList := some timer
              timerListEnd := some timer
              minTimestamp := value.timestamp },
            ?_, ⟨rfl, fun _ _ => rfl, rfl, rfl, rfl⟩, ?_, rfl, rfl, rfl⟩
          · rw [TimerQueue.linkTimer, head]
            rfl
          · exact ⟨(prevs_eq found).trans unlinked.1, (nexts_eq found).trans unlinked.2, trivial⟩
      | append_singleton front last =>
          obtain ⟨lastValue, foundLast⟩ := lookup last (by simp)
          obtain ⟨queue', linked, relinks, row', head', foot', min'⟩ :=
            linkLast_spec row nodup absent (by simp [foot]) foundLast found unlinked.2
          refine ⟨queue', ?_, relinks, row', ?_, ?_, ?_⟩
          · obtain ⟨first, first_eq⟩ : ∃ first, queue.timerList = some first :=
              Option.isSome_iff_exists.mp (by simp [head])
            rw [first_eq] at skipped
            simp only [TimerQueue.linkTimer, first_eq, skipped, Option.bind_eq_bind,
              Option.bind_some]
            exact linked
          · rw [head', head]
            simp
          · rw [foot']
            simp
          · rw [min', if_neg (by simp)]
  | cons iter back =>
      obtain ⟨iterValue, foundIter⟩ := lookup iter (by simp)
      obtain ⟨first, first_eq⟩ : ∃ first, queue.timerList = some first :=
        Option.isSome_iff_exists.mp (by simp [head])
      have behind := row.prev_eq
      rw [Option.or_none, prevs_eq foundIter] at behind
      rw [first_eq] at skipped
      cases front using List.reverseRecOn with
      | nil =>
          obtain ⟨queue', linked, relinks, row', head', foot', min'⟩ :=
            linkFirst_spec value.timestamp row nodup absent foundIter found
          refine ⟨queue', ?_, relinks, row', head', ?_, min'⟩
          · simp only [TimerQueue.linkTimer, first_eq, skipped, Option.bind_eq_bind,
              Option.bind_some, List.head?_cons, foundIter, behind, List.getLast?_nil]
            exact linked
          · rw [foot', foot]
            simp
      | append_singleton front before =>
          obtain ⟨beforeValue, foundBefore⟩ := lookup before (by simp)
          obtain ⟨queue', linked, relinks, row', head', foot', min'⟩ :=
            linkBetween_spec row nodup absent foundBefore foundIter found
          refine ⟨queue', ?_, relinks, row', ?_, ?_, ?_⟩
          · simp only [TimerQueue.linkTimer, first_eq, skipped, Option.bind_eq_bind,
              Option.bind_some, List.head?_cons, foundIter, behind, List.getLast?_concat]
            exact linked
          · rw [head', head]
            simp
          · rw [foot', foot]
            simp
          · rw [min', if_neg (by simp)]

/-- A timer goes behind those that are not later. -/
theorem Holds.linkTimer (holds : queue.Holds cells) (found : queue.timers timer = some value)
    (clear : value.bare = value) (absent : timer ∉ cells) (fresh : timer < queue.allocs) :
    ∃ queue', queue.linkTimer timer value.timestamp = some queue' ∧
      Relinks queue queue' (timer :: cells) ∧
      queue'.Holds (early queue.timestampOf value.timestamp cells ++
        timer :: late queue.timestampOf value.timestamp cells) := by
  have parts := early_append_late queue.timestampOf value.timestamp cells
  have front_le : ∀ other ∈ early queue.timestampOf value.timestamp cells,
      queue.timestampOf other ≤ value.timestamp := fun other member => early_le member
  have back_lt : ∀ other ∈ late queue.timestampOf value.timestamp cells,
      value.timestamp < queue.timestampOf other := fun other member => late_lt holds.sorted member
  have skipped := skipDue_eq value.timestamp holds.row.chain holds.allocated holds.length_le
  rw [Option.or_none, ← holds.head] at skipped
  generalize early queue.timestampOf value.timestamp cells = front at parts front_le
  generalize late queue.timestampOf value.timestamp cells = back at parts back_lt skipped
  subst parts
  obtain ⟨queue', linked, relinks, row, head, last, min⟩ :=
    holds.linkTimer_row found clear absent skipped
  have cases_of_mem : ∀ other ∈ front ++ timer :: back, other = timer ∨ other ∈ front ++ back := by
    intro other member
    simpa [or_left_comm] using member
  refine ⟨queue', linked, relinks, Holds.of_relinks relinks row head last ?_ ?_ ?_ ?_ ?_⟩
  · exact List.nodup_middle.mpr (List.nodup_cons.mpr ⟨absent, holds.nodup⟩)
  · intro other member
    rcases cases_of_mem other member with rfl | member
    · rw [found]
      rfl
    · exact holds.allocated other member
  · intro other member
    rcases cases_of_mem other member with rfl | member
    · exact fresh
    · exact holds.below other member
  · obtain ⟨sortedFront, sortedBack, across⟩ := List.pairwise_append.mp holds.sorted
    refine List.pairwise_append.mpr ⟨sortedFront, List.pairwise_cons.mpr ⟨?_, sortedBack⟩, ?_⟩
    · intro other member
      rw [timestampOf_eq found]
      exact UInt64.le_of_lt (back_lt other member)
    · intro other memberFront later memberBack
      rcases List.mem_cons.mp memberBack with rfl | memberBack
      · rw [timestampOf_eq found]
        exact front_le other memberFront
      · exact across other memberFront later memberBack
  · intro first same
    rw [min]
    cases front with
    | nil =>
        obtain rfl : timer = first := by simpa using same
        rw [if_pos rfl, timestampOf_eq found]
    | cons head front =>
        rw [if_neg (by simp)]
        exact holds.min first (by simpa using same)

/-- Only the listed timers and the fields of the queue matter for its list. -/
theorem Holds.frame (holds : queue.Holds cells)
    (timers : ∀ timer ∈ cells, queue'.timers timer = queue.timers timer)
    (head : queue'.timerList = queue.timerList) (last : queue'.timerListEnd = queue.timerListEnd)
    (min : queue'.minTimestamp = queue.minTimestamp) (allocs : queue.allocs ≤ queue'.allocs) :
    queue'.Holds cells where
  row := holds.row.congr (fun timer member => by rw [nexts, nexts, timers timer member])
    fun timer member => by rw [prevs, prevs, timers timer member]
  head := head.trans holds.head
  last := last.trans holds.last
  nodup := holds.nodup
  allocated := fun timer member => timers timer member ▸ holds.allocated timer member
  below := fun timer member => Nat.lt_of_lt_of_le (holds.below timer member) allocs
  sorted := holds.sorted.imp_of_mem fun {first second} memberFirst memberSecond inOrder => by
    rwa [timestampOf, timestampOf, timers first memberFirst, timers second memberSecond]
  min := fun first same => by
    rw [min, holds.min first same, timestampOf, timestampOf,
      timers first (List.mem_of_mem_head? same)]

/-- Flags of a timer do not matter for the list. -/
theorem Holds.store (holds : queue.Holds cells) (found : queue.timers timer = some value)
    {value' : LoopTimer} (prev : value'.prev = value.prev) (next : value'.next = value.next)
    (timestamp : value'.timestamp = value.timestamp) : (queue.store timer value').Holds cells := by
  have nexts_same : (queue.store timer value').nexts = queue.nexts := by
    rw [nexts_store, next, ← nexts_eq found, Function.update_eq_self]
  have prevs_same : (queue.store timer value').prevs = queue.prevs := by
    rw [prevs_store, prev, ← prevs_eq found, Function.update_eq_self]
  have timestamp_same : ∀ other, (queue.store timer value').timestampOf other =
      queue.timestampOf other := by
    intro other
    by_cases same : other = timer
    · subst same
      simp [timestampOf, found, timestamp]
    · simp [timestampOf, same]
  refine ⟨?_, holds.head, holds.last, holds.nodup, fun other member => ?_, holds.below, ?_, ?_⟩
  · rw [nexts_same, prevs_same]
    exact holds.row
  · by_cases same : other = timer
    · subst same
      simp
    · rw [store_timers, Function.update_of_ne same]
      exact holds.allocated other member
  · simp only [timestamp_same]
    exact holds.sorted
  · intro first same
    rw [timestamp_same]
    exact holds.min first same

/-- `insert_timer_inloop` puts a timer behind those that are not later and marks it. -/
theorem Holds.insertTimerInloop (holds : queue.Holds cells)
    (found : queue.timers timer = some value) (absent : timer ∉ cells)
    (fresh : timer < queue.allocs) :
    ∃ queue', queue.insertTimerInloop timer = some queue' ∧
      queue'.Holds (early queue.timestampOf value.timestamp cells ++
        timer :: late queue.timestampOf value.timestamp cells) ∧
      queue'.bares = Function.update queue.bares timer
        (some { value with isInQueue := true }.bare) ∧
      (∀ other ∉ timer :: cells, queue'.timers other = queue.timers other) ∧
      queue'.allocs = queue.allocs ∧ queue'.clock = queue.clock ∧
      queue'.trace = .inserted timer :: queue.trace := by
  let cleared := queue.store timer value.bare
  have others : ∀ other ∈ cells, cleared.timers other = queue.timers other := by
    intro other member
    rw [store_timers, Function.update_of_ne (ne_of_mem_of_not_mem member absent)]
  have foundCleared : cleared.timers timer = some value.bare := Function.update_self ..
  have holdsCleared : cleared.Holds cells := holds.frame others rfl rfl rfl (Nat.le_refl _)
  obtain ⟨linked, link, relinks, holdsLinked⟩ :=
    holdsCleared.linkTimer foundCleared rfl absent fresh
  have timestamp_eq : ∀ other ∈ cells, cleared.timestampOf other = queue.timestampOf other :=
    fun other member => by rw [timestampOf, timestampOf, others other member]
  obtain ⟨early_eq, late_eq⟩ := early_late_congr value.timestamp timestamp_eq
  obtain ⟨linkedValue, foundLinked⟩ : ∃ linkedValue, linked.timers timer = some linkedValue :=
    Option.isSome_iff_exists.mp (by rw [relinks.isSome, foundCleared]; rfl)
  have bare_eq : linkedValue.bare = value.bare := by
    have at_timer := congrFun relinks.bares timer
    rw [bares, bares, foundLinked, foundCleared] at at_timer
    exact Option.some.inj at_timer
  refine ⟨(linked.store timer { linkedValue with isInQueue := true }).record (.inserted timer),
    ?_, ?_, ?_, ?_, relinks.allocs, relinks.clock, ?_⟩
  · rw [TimerQueue.insertTimerInloop, modify_eq found]
    change (cleared.timers timer).bind (fun value =>
      (cleared.linkTimer timer value.timestamp).bind fun queue =>
        (queue.modify timer ({ · with isInQueue := true })).bind fun queue =>
          some (queue.record (.inserted timer))) = _
    rw [foundCleared, Option.bind_some, link, Option.bind_some, modify_eq foundLinked]
    rfl
  · rw [show value.timestamp = value.bare.timestamp from rfl] at early_eq late_eq
    rw [early_eq, late_eq] at holdsLinked
    have holdsMarked : (linked.store timer { linkedValue with isInQueue := true }).Holds
        (early queue.timestampOf value.timestamp cells ++
          timer :: late queue.timestampOf value.timestamp cells) :=
      holdsLinked.store foundLinked rfl rfl rfl
    exact holdsMarked.frame (fun _ _ => rfl) rfl rfl rfl (Nat.le_refl _)
  · change (linked.store timer { linkedValue with isInQueue := true }).bares = _
    rw [bares_store, relinks.bares, bares_store, Function.update_idem]
    exact congrArg (fun bare : LoopTimer => Function.update queue.bares timer
      (some { bare with isInQueue := true })) bare_eq
  · intro other absent'
    have other_ne : other ≠ timer := List.ne_of_not_mem_cons absent'
    change (linked.store timer { linkedValue with isInQueue := true }).timers other = _
    rw [store_timers, Function.update_of_ne other_ne, relinks.timers other absent', store_timers,
      Function.update_of_ne other_ne]
  · change _ :: linked.trace = _
    rw [relinks.trace]
    rfl

/-! ## Removal -/

/-- `remove_timer_inloop` of a timer that is neither the head nor the end of the list links its
neighbours to each other. -/
theorem removeTimerInloop_middle {before after : Nat} {beforeValue afterValue : LoopTimer}
    (head_ne : queue.timerList ≠ some timer) (foot_ne : queue.timerListEnd ≠ some timer)
    (found : queue.timers timer = some value) (prev : value.prev = some before)
    (next : value.next = some after) (foundBefore : queue.timers before = some beforeValue)
    (foundAfter : queue.timers after = some afterValue) (before_ne : before ≠ timer)
    (apart : after ≠ before) :
    queue.removeTimerInloop timer =
      some ((queue.store before { beforeValue with next := some after }).store after
        { afterValue with prev := some before }) := by
  let first := queue.store before { beforeValue with next := some after }
  have found' : first.timers timer = some value := by
    rw [store_timers, Function.update_of_ne before_ne.symm, found]
  have foundAfter' : first.timers after = some afterValue := by
    rw [store_timers, Function.update_of_ne apart, foundAfter]
  rw [TimerQueue.removeTimerInloop]
  simp only [found, Option.bind_eq_bind, Option.bind_some, if_neg head_ne, if_neg foot_ne, prev,
    modify_eq foundBefore, next]
  change (first.timers timer).bind (fun value => value.next.bind fun after =>
    first.modify after ({ · with prev := value.prev })) = _
  rw [found', Option.bind_some, next, Option.bind_some, modify_eq foundAfter', prev]

/-- The links after `removeTimerInloop_middle`. -/
theorem unlink_row {before after : Nat} {beforeValue afterValue : LoopTimer}
    {front back : List Nat} {start stop : Option Nat}
    (row : DoubleChain queue.nexts queue.prevs start (front ++ [before] ++ timer :: after :: back)
      stop)
    (nodup : (front ++ [before] ++ after :: back).Nodup)
    (foundBefore : queue.timers before = some beforeValue)
    (foundAfter : queue.timers after = some afterValue) (apart : after ≠ before) :
    DoubleChain
      ((queue.store before { beforeValue with next := some after }).store after
        { afterValue with prev := some before }).nexts
      ((queue.store before { beforeValue with next := some after }).store after
        { afterValue with prev := some before }).prevs start
      (front ++ [before] ++ after :: back) stop := by
  have foundAfter' : (queue.store before { beforeValue with next := some after }).timers after =
      some afterValue := by
    rw [store_timers, Function.update_of_ne apart, foundAfter]
  rw [nexts_store, ← nexts_eq foundAfter', Function.update_eq_self, nexts_store, prevs_store,
    prevs_store, ← prevs_eq foundBefore, Function.update_eq_self]
  refine DoubleChain.remove row nodup ?_ (by simp) ?_ ?_
  · intro other same
    obtain rfl : before = other := by simpa using same
    simp
  · intro other member other_ne
    have before_ne : other ≠ before := fun same => other_ne (by simp [same])
    rw [Function.update_of_ne before_ne]
  · intro other member other_ne
    have after_ne : other ≠ after := fun same => other_ne (by simp [same])
    rw [Function.update_of_ne after_ne]

/-- `remove_timer_inloop` of the head of the list makes the next timer the head. -/
theorem removeTimerInloop_first {second : Nat} {secondValue : LoopTimer}
    (head : queue.timerList = some timer) (found : queue.timers timer = some value)
    (next : value.next = some second) (foundSecond : queue.timers second = some secondValue) :
    queue.removeTimerInloop timer =
      some { queue.store second { secondValue with prev := none } with
        timerList := some second
        minTimestamp := secondValue.timestamp } := by
  have second_found : (queue.store second { secondValue with prev := none }).timers second =
      some { secondValue with prev := none } := Function.update_self ..
  simp only [removeTimerInloop, found, head, next, Option.bind_eq_bind, Option.bind_some, if_true,
    modify_eq foundSecond, second_found]
  rfl

/-- The links after `removeTimerInloop_first`. -/
theorem unlink_first_row {second : Nat} {secondValue : LoopTimer} {back : List Nat}
    {start stop : Option Nat}
    (row : DoubleChain queue.nexts queue.prevs start (second :: back) stop)
    (absent : second ∉ back) (foundSecond : queue.timers second = some secondValue) :
    DoubleChain (queue.store second { secondValue with prev := none }).nexts
      (queue.store second { secondValue with prev := none }).prevs none (second :: back) stop := by
  rw [nexts_store, ← nexts_eq foundSecond, Function.update_eq_self, prevs_store]
  refine row.setBefore (by simp) (fun _ _ => rfl) fun other member => ?_
  have other_ne : other ≠ second := fun same => absent (same ▸ member)
  rw [Function.update_of_ne other_ne]

/-- `remove_timer_inloop` of the last timer makes the one before it the last. -/
theorem removeTimerInloop_last {before : Nat} {beforeValue : LoopTimer}
    (head_ne : queue.timerList ≠ some timer) (foot : queue.timerListEnd = some timer)
    (found : queue.timers timer = some value) (prev : value.prev = some before)
    (foundBefore : queue.timers before = some beforeValue) :
    queue.removeTimerInloop timer =
      some { queue.store before { beforeValue with next := none } with
        timerListEnd := some before } := by
  simp only [removeTimerInloop, found, if_neg head_ne, foot, if_true, prev, Option.bind_eq_bind,
    Option.bind_some, modify_eq foundBefore]
  rfl

/-- The links after `removeTimerInloop_last`. -/
theorem unlink_last_row {before : Nat} {beforeValue : LoopTimer} {front : List Nat}
    {start stop : Option Nat}
    (row : DoubleChain queue.nexts queue.prevs start (front ++ [before]) stop)
    (nodup : (front ++ [before]).Nodup) (foundBefore : queue.timers before = some beforeValue) :
    DoubleChain (queue.store before { beforeValue with next := none }).nexts
      (queue.store before { beforeValue with next := none }).prevs start (front ++ [before])
      none := by
  rw [nexts_store, prevs_store, ← prevs_eq foundBefore, Function.update_eq_self]
  refine row.setAfter (by simp) (fun other member => ?_) fun _ _ => rfl
  have other_ne : other ≠ before := by
    rintro rfl
    exact DoubleChain.getLast?_ne_of_mem_dropLast nodup member (by simp)
  rw [Function.update_of_ne other_ne]

theorem Holds.removeTimerInloop_row (holds : queue.Holds (front ++ timer :: back)) :
    ∃ queue', queue.removeTimerInloop timer = some queue' ∧
      Relinks queue queue' (front ++ back) ∧
      DoubleChain queue'.nexts queue'.prevs none (front ++ back) none ∧
      queue'.timerList = (front ++ back).head? ∧ queue'.timerListEnd = (front ++ back).getLast? ∧
      ∀ first, (front ++ back).head? = some first →
        queue'.minTimestamp = queue.timestampOf first := by
  obtain ⟨row, head, foot, nodup, allocated, -, -, min⟩ := holds
  have lookup : ∀ other ∈ front ++ timer :: back, ∃ value, queue.timers other = some value :=
    fun other member => Option.isSome_iff_exists.mp (allocated other member)
  obtain ⟨absent, nodup'⟩ := List.nodup_cons.mp (List.nodup_middle.mp nodup)
  obtain ⟨value, found⟩ := lookup timer (by simp)
  have behind := row.prev_eq
  have ahead := row.next_eq
  rw [Option.or_none, prevs_eq found] at behind
  rw [Option.or_none, nexts_eq found] at ahead
  cases front using List.reverseRecOn with
  | nil =>
      cases back with
      | nil =>
          refine ⟨{ queue with
              timerList := none
              timerListEnd := none
              minTimestamp := queue.clock },
            ?_, ⟨rfl, fun _ _ => rfl, rfl, rfl, rfl⟩, trivial, rfl, rfl, by simp⟩
          simp [removeTimerInloop, found, head, ahead]
      | cons second back =>
          obtain ⟨secondValue, foundSecond⟩ := lookup second (by simp)
          have relinks : Relinks queue (queue.store second { secondValue with prev := none })
              (second :: back) := (Relinks.refl queue _).store foundSecond rfl (by simp)
          refine ⟨_, removeTimerInloop_first (by simpa using head) found (by simpa using ahead)
            foundSecond, ⟨relinks.bares, relinks.timers, rfl, rfl, rfl⟩, ?_, rfl, ?_, ?_⟩
          · obtain ⟨-, -, tail⟩ := row
            exact unlink_first_row tail (List.nodup_cons.mp nodup').1 foundSecond
          · change queue.timerListEnd = _
            simpa using foot
          · intro first same
            obtain rfl : second = first := by simpa using same
            exact (timestampOf_eq foundSecond).symm
  | append_singleton front before =>
      obtain ⟨beforeValue, foundBefore⟩ := lookup before (by simp)
      have before_ne : before ≠ timer := fun same => absent (by simp [same])
      have head_ne : queue.timerList ≠ some timer := by
        obtain ⟨first, first_eq⟩ : ∃ first, (front ++ [before]).head? = some first :=
          Option.isSome_iff_exists.mp (by simp)
        rw [head, List.head?_append, first_eq]
        rintro same
        obtain rfl := Option.some.inj same
        exact absent (List.mem_append_left _ (List.mem_of_mem_head? first_eq))
      cases back with
      | nil =>
          rw [List.append_nil] at nodup' ⊢
          have relinks : Relinks queue (queue.store before { beforeValue with next := none })
              (front ++ [before]) :=
            (Relinks.refl queue _).store foundBefore rfl (by simp)
          refine ⟨_, removeTimerInloop_last head_ne (by simpa using foot) found
            (by simpa using behind) foundBefore,
            ⟨relinks.bares, relinks.timers, rfl, rfl, rfl⟩, ?_, ?_, by simp, ?_⟩
          · obtain ⟨init, -⟩ := DoubleChain.append_iff.mp row
            exact unlink_last_row init nodup' foundBefore
          · change queue.timerList = _
            rw [head]
            simp
          · intro first same
            exact min first (by simpa using same)
      | cons after back =>
          obtain ⟨afterValue, foundAfter⟩ := lookup after (by simp)
          have foot_ne : queue.timerListEnd ≠ some timer := by
            obtain ⟨last, last_eq⟩ : ∃ last, (after :: back).getLast? = some last :=
              Option.isSome_iff_exists.mp (by simp)
            rw [foot, List.getLast?_append, List.getLast?_cons_cons, last_eq]
            rintro same
            obtain rfl := Option.some.inj same
            exact absent (List.mem_append_right _ (List.mem_of_getLast? last_eq))
          have apart : after ≠ before := fun same =>
            (List.nodup_append.mp nodup').2.2 before (by simp) after (by simp) same.symm
          have one : Relinks queue (queue.store before { beforeValue with next := some after })
              (front ++ [before] ++ after :: back) :=
            (Relinks.refl queue _).store foundBefore rfl (by simp)
          have foundAfter' : (queue.store before { beforeValue with next := some after }).timers
              after = some afterValue := by
            rw [store_timers, Function.update_of_ne apart, foundAfter]
          refine ⟨_, removeTimerInloop_middle head_ne foot_ne found (by simpa using behind)
            (by simpa using ahead) foundBefore foundAfter before_ne apart,
            one.store foundAfter' rfl (by simp),
            unlink_row row nodup' foundBefore foundAfter apart, ?_, ?_, ?_⟩
          · change queue.timerList = _
            rw [head]
            simp
          · change queue.timerListEnd = _
            rw [foot]
            simp
          · intro first same
            exact min first (by simpa using same)

/-- `remove_timer_inloop` takes a timer out of the list. -/
theorem Holds.removeTimerInloop (holds : queue.Holds (front ++ timer :: back)) :
    ∃ queue', queue.removeTimerInloop timer = some queue' ∧ queue'.Holds (front ++ back) ∧
      Relinks queue queue' (front ++ back) := by
  obtain ⟨queue', removed, relinks, row, head, last, min⟩ := holds.removeTimerInloop_row
  have sublist : (front ++ back).Sublist (front ++ timer :: back) :=
    (List.sublist_cons_self timer back).append_left front
  refine ⟨queue', removed, Holds.of_relinks relinks row head last (holds.nodup.sublist sublist)
    (fun other member => holds.allocated other (sublist.subset member))
    (fun other member => holds.below other (sublist.subset member))
    (holds.sorted.sublist sublist) min, relinks⟩

end CommonLib.TimerQueue
