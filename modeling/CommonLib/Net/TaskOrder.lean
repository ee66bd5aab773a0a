import CommonLib.Library.Execution
import Mathlib.Data.List.Nodup
import Mathlib.Data.List.Infix

/-!
# Tasks of an event loop

`loop_run_inloop` of `loop.c` runs a task at once if the loop does not run or the caller is its
thread, and submits it to the queue of `async_task_queue.c` otherwise; `loop_async` always submits.
The loop takes the whole queue and runs its tasks one by one.
-/

namespace CommonLib

/-- A task; `number` is its place among all calls. -/
structure LoopTask where
  number : Nat
  thread : Nat
  /-- It comes from `loop_run_inloop`. -/
  inloop : Bool
  /-- Its callback is `do_loop_quit`. -/
  quits : Bool
deriving DecidableEq

/-- The fields of `struct loop` and of its task queue, and what the threads did. -/
structure TaskLoop where
  run : Bool
  /-- `none` before the first `loop_loop`. -/
  threadId : Option Nat
  /-- The tasks of threads between the test of `loop_run_inloop` and `async_task_queue_submit`. -/
  submitting : List LoopTask
  /-- The list from `async_task` on. -/
  asyncTask : List LoopTask
  /-- The tasks that `async_task_queue_process` took and has not started. -/
  task : List LoopTask
  /-- The tasks whose callbacks were called, the first one first. -/
  started : List LoopTask
  /-- The tasks of all calls, the first one first. -/
  requests : List LoopTask

namespace TaskLoop

inductive Op
  | runInloop (thread : Nat) (quits : Bool)
  | async (thread : Nat) (quits : Bool)
  /-- The thread goes on in `loop_run_inloop`. -/
  | submit (thread : Nat)
  /-- The thread calls `loop_loop`. -/
  | loop (thread : Nat)
  /-- `async_task_queue_process` takes the tasks. -/
  | detach
  /-- It starts the next one. -/
  | runTask

def new : TaskLoop :=
  { run := false, threadId := none, submitting := [], asyncTask := [], task := [], started := [],
    requests := [] }

/-- The thread is in `loop_run_inloop`. -/
def Busy (state : TaskLoop) (thread : Nat) : Prop := ∃ task ∈ state.submitting, task.thread = thread

instance (state : TaskLoop) (thread : Nat) : Decidable (state.Busy thread) :=
  inferInstanceAs (Decidable (∃ task ∈ state.submitting, task.thread = thread))

/-- The test of `loop_run_inloop`. -/
def Inline (state : TaskLoop) (thread : Nat) : Prop :=
  state.run = false ∨ state.threadId = some thread

instance (state : TaskLoop) (thread : Nat) : Decidable (state.Inline thread) :=
  inferInstanceAs (Decidable (_ ∨ _))

/-- The callback of a task is called; `do_loop_quit` clears `run`. -/
def call (state : TaskLoop) (task : LoopTask) : TaskLoop :=
  { state with run := state.run && !task.quits, started := state.started ++ [task] }

/-- A thread makes a task. -/
def request (state : TaskLoop) (task : LoopTask) : TaskLoop :=
  { state with requests := state.requests ++ [task] }

/-- One step; a step that cannot be made has no successor. -/
def step (state : TaskLoop) : Op → Option TaskLoop
  | .runInloop thread quits =>
      let task : LoopTask := { number := state.requests.length, thread, inloop := true, quits }
      if state.Busy thread then none
      else if state.Inline thread then some ((state.request task).call task)
      else some { state.request task with submitting := state.submitting ++ [task] }
  | .async thread quits =>
      let task : LoopTask := { number := state.requests.length, thread, inloop := false, quits }
      if state.Busy thread then none
      else some { state.request task with asyncTask := state.asyncTask ++ [task] }
  | .submit thread =>
      match state.submitting.find? (·.thread = thread) with
      | none => none
      | some task =>
          some { state with
            submitting := state.submitting.erase task
            asyncTask := state.asyncTask ++ [task] }
  | .loop thread =>
      if state.Busy thread ∨ state.run = true ∨ state.task ≠ [] then none
      else some { state with run := true, threadId := some thread }
  | .detach =>
      if state.task = [] then some { state with asyncTask := [], task := state.asyncTask } else none
  | .runTask =>
      match state.task with
      | [] => none
      | first :: rest => some ({ state with task := rest }.call first)

/-- The tasks of a thread that come from `loop_run_inloop`. -/
def mine (thread : Nat) (tasks : List LoopTask) : List LoopTask :=
  tasks.filter fun task => task.inloop && task.thread = thread

/-- The tasks that are not started. -/
def queued (state : TaskLoop) : List LoopTask := state.task ++ state.asyncTask ++ state.submitting

/-- The tasks of a thread start in the order in which it made them: of its tasks the started ones
are the first. -/
def InOrder (state : TaskLoop) : Prop :=
  ∀ thread, mine thread state.started <+: mine thread state.requests

/-- A task is run at once only if no earlier task of the thread is queued. -/
def Prompt (state : TaskLoop) : Op → Prop
  | .runInloop thread _ => state.Inline thread → mine thread state.queued = []
  | _ => True

variable {state next : TaskLoop} {task : LoopTask} {thread : Nat} {first second : List LoopTask}

theorem mine_append : mine thread (first ++ second) = mine thread first ++ mine thread second :=
  List.filter_append ..

theorem mine_singleton_same (inloop : task.inloop = true) : mine task.thread [task] = [task] := by
  simp [mine, inloop]

theorem mine_singleton_other (other : task.inloop = false ∨ task.thread ≠ thread) :
    mine thread [task] = [] := by
  rcases other with async | other
  · simp [mine, async]
  · simp [mine, other]

theorem mine_eq_nil_of_thread (others : ∀ task ∈ first, task.thread ≠ thread) :
    mine thread first = [] := by
  refine List.filter_eq_nil_iff.mpr fun task member => ?_
  simp [others task member]

/-- The task that a thread submits is the first of its tasks there. -/
theorem find_submitting (found : state.submitting.find? (·.thread = thread) = some task) :
    ∃ front back, state.submitting = front ++ task :: back ∧
      state.submitting.erase task = front ++ back ∧ task.thread = thread ∧
      ∀ other ∈ front, other.thread ≠ thread := by
  obtain ⟨thread_eq, front, back, split, others⟩ := List.find?_eq_some_iff_append.mp found
  have thread_eq : task.thread = thread := by simpa using thread_eq
  have others : ∀ other ∈ front, other.thread ≠ thread := by simpa using others
  have absent : task ∉ front := fun member => others task member thread_eq
  refine ⟨front, back, split, ?_, thread_eq, others⟩
  rw [split, List.erase_append_right _ absent, List.erase_cons_head]

/-- What a step does to the tasks: it starts a new one, queues a new one, or neither. -/
inductive Effect (state : TaskLoop) (op : Op) (next : TaskLoop) : Prop
  | inline (task : LoopTask) (op_eq : op = .runInloop task.thread task.quits)
      (inloop : task.inloop = true) (test : state.Inline task.thread)
      (number : task.number = state.requests.length)
      (requests : next.requests = state.requests ++ [task])
      (started : next.started = state.started ++ [task]) (queued : next.queued = state.queued)
  | queue (task : LoopTask) (number : task.number = state.requests.length)
      (requests : next.requests = state.requests ++ [task]) (started : next.started = state.started)
      (perm : next.queued.Perm (state.queued ++ [task]))
      (order : ∀ thread, mine thread next.queued = mine thread state.queued ++ mine thread [task])
  | keep (requests : next.requests = state.requests)
      (perm : (next.started ++ next.queued).Perm (state.started ++ state.queued))
      (order : ∀ thread, mine thread (next.started ++ next.queued) =
        mine thread (state.started ++ state.queued))

theorem runInloop_inline {quits : Bool} (idle : ¬ state.Busy thread) (test : state.Inline thread) :
    state.step (.runInloop thread quits) =
      some ((state.request { number := state.requests.length, thread, inloop := true, quits }).call
        { number := state.requests.length, thread, inloop := true, quits }) := by
  simp [step, idle, test]

theorem step_effect {op : Op} (step_eq : state.step op = some next) : Effect state op next := by
  cases op with
  | runInloop thread quits =>
      by_cases busy : state.Busy thread
      · simp [step, busy] at step_eq
      by_cases test : state.Inline thread
      · rw [runInloop_inline busy test] at step_eq
        obtain rfl := Option.some.inj step_eq
        exact .inline _ rfl rfl test rfl rfl rfl rfl
      · simp only [step, if_neg busy, if_neg test] at step_eq
        obtain rfl := Option.some.inj step_eq
        refine .queue _ rfl rfl rfl (.of_eq ?_) fun other => ?_
        · simp [queued, request]
        · simp [queued, mine_append, request]
  | async thread quits =>
      by_cases busy : state.Busy thread
      · simp [step, busy] at step_eq
      simp only [step, if_neg busy] at step_eq
      obtain rfl := Option.some.inj step_eq
      refine .queue _ rfl rfl rfl ?_ fun other => ?_
      · simp only [queued, request]
        rw [List.append_assoc, List.append_assoc, List.append_assoc, List.append_assoc]
        exact (List.perm_append_comm.append_left _).append_left _
      · have nil : mine other [{ number := state.requests.length, thread, inloop := false, quits }] =
            [] := mine_singleton_other (.inl rfl)
        simp only [queued, request, mine_append, nil, List.append_nil]
  | submit thread =>
      simp only [step] at step_eq
      split at step_eq
      · cases step_eq
      next task found =>
        obtain rfl := Option.some.inj step_eq
        obtain ⟨front, back, split, erase, thread_eq, others⟩ := find_submitting found
        refine .keep rfl ?_ fun other => ?_
        · simp only [queued]
          rw [erase, split]
          refine List.Perm.append_left _ ?_
          rw [List.append_assoc, List.append_assoc, List.append_assoc, List.singleton_append]
          exact ((List.perm_middle.symm).append_left _).append_left _
        · simp only [queued]
          rw [erase, split]
          simp only [mine_append]
          by_cases same : other = thread
          · subst same
            have cons_eq : mine other (task :: back) = mine other [task] ++ mine other back := by
              rw [← mine_append, List.singleton_append]
            simp only [mine_eq_nil_of_thread others, cons_eq, List.nil_append, List.append_assoc]
          · have nil : mine other [task] = [] :=
              mine_singleton_other (.inr fun same' => same (same'.symm.trans thread_eq))
            have cons_eq : mine other (task :: back) = mine other back := by
              rw [← List.singleton_append, mine_append, nil, List.nil_append]
            rw [nil, cons_eq, List.append_nil]
  | loop thread =>
      simp only [step] at step_eq
      split at step_eq
      · cases step_eq
      obtain rfl := Option.some.inj step_eq
      exact .keep rfl (.refl _) fun _ => rfl
  | detach =>
      simp only [step] at step_eq
      split at step_eq
      next ran =>
        obtain rfl := Option.some.inj step_eq
        have same : state.asyncTask ++ [] ++ state.submitting =
            state.task ++ state.asyncTask ++ state.submitting := by
          simp [ran]
        exact .keep rfl (.of_eq (congrArg (state.started ++ ·) same)) fun other =>
          congrArg (mine other <| state.started ++ ·) same
      · cases step_eq
  | runTask =>
      simp only [step] at step_eq
      split at step_eq
      · cases step_eq
      next first rest tasks =>
        obtain rfl := Option.some.inj step_eq
        have same : state.started ++ [first] ++ (rest ++ state.asyncTask ++ state.submitting) =
            state.started ++ state.queued := by
          simp [queued, tasks]
        exact .keep rfl (.of_eq same) fun other => congrArg (mine other) same

/-! ## Every task is started once -/

/-- The started and the queued tasks are those of the calls. -/
structure Counted (state : TaskLoop) : Prop where
  perm : (state.started ++ state.queued).Perm state.requests
  nodup : state.requests.Nodup
  fresh : ∀ task ∈ state.requests, task.number < state.requests.length

theorem Counted.new : Counted new := ⟨.refl _, List.nodup_nil, by simp [TaskLoop.new]⟩

/-- A task of a new call. -/
theorem Counted.request (counted : Counted state) (number : task.number = state.requests.length)
    (requests : next.requests = state.requests ++ [task])
    (perm : (next.started ++ next.queued).Perm (state.started ++ state.queued ++ [task])) :
    Counted next := by
  refine ⟨?_, ?_, fun other member => ?_⟩
  · rw [requests]
    exact perm.trans (counted.perm.append_right [task])
  · rw [requests]
    refine counted.nodup.append (List.nodup_singleton task) ?_
    rw [List.disjoint_singleton]
    intro member
    exact Nat.lt_irrefl _ (number ▸ counted.fresh task member)
  · rw [requests] at member ⊢
    rw [List.length_append, List.length_singleton]
    rcases List.mem_append.mp member with before | same
    · exact Nat.lt_succ_of_lt (counted.fresh other before)
    · obtain rfl := List.mem_singleton.mp same
      omega

theorem Counted.step (counted : Counted state) {op : Op} (step_eq : state.step op = some next) :
    Counted next := by
  cases step_effect step_eq with
  | inline task op_eq inloop test number requests started queued =>
      refine counted.request number requests ?_
      rw [started, queued, List.append_assoc, List.append_assoc]
      exact List.perm_append_comm.append_left _
  | queue task number requests started perm order =>
      refine counted.request number requests ?_
      rw [started, List.append_assoc]
      exact perm.append_left _
  | keep requests perm order =>
      obtain ⟨perm', nodup, fresh⟩ := counted
      exact ⟨requests ▸ perm.trans perm', requests ▸ nodup, requests ▸ fresh⟩

theorem Counted.started_nodup (counted : Counted state) : state.started.Nodup :=
  (counted.perm.nodup_iff.mpr counted.nodup).sublist (List.sublist_append_left _ _)

/-! ## The order of the tasks of a thread -/

/-- The tasks of each thread are started and queued in the order of its calls. -/
structure Kept (state : TaskLoop) : Prop where
  counted : Counted state
  order : ∀ thread, mine thread state.started ++ mine thread state.queued =
    mine thread state.requests

theorem Kept.new : Kept new := ⟨.new, fun _ => rfl⟩

theorem Kept.inOrder (kept : Kept state) : state.InOrder := fun thread =>
  ⟨mine thread state.queued, kept.order thread⟩

theorem Kept.step (kept : Kept state) {op : Op} (prompt : state.Prompt op)
    (step_eq : state.step op = some next) : Kept next := by
  refine ⟨kept.counted.step step_eq, fun thread => ?_⟩
  have order := kept.order thread
  cases step_effect step_eq with
  | inline task op_eq inloop test number requests started queued =>
      subst op_eq
      have nothing := prompt test
      rw [started, queued, requests, mine_append, mine_append, ← order]
      by_cases same : task.thread = thread
      · subst same
        simp [nothing]
      · simp [mine_singleton_other (.inr same)]
  | queue task number requests started perm order' =>
      rw [started, requests, mine_append, order', ← order, List.append_assoc]
  | keep requests perm order' =>
      rw [requests, ← order, ← mine_append, ← mine_append, order']

/-- A task that overtakes another one of its thread breaks the order. -/
theorem Kept.overtaken (kept : Kept state) {op : Op} (late : ¬ state.Prompt op)
    (step_eq : state.step op = some next) : ¬ next.InOrder := by
  intro inOrder
  cases op with
  | runInloop thread quits =>
      obtain ⟨test, overtaken⟩ : state.Inline thread ∧ mine thread state.queued ≠ [] := by
        simpa [Prompt] using late
      by_cases busy : state.Busy thread
      · simp [TaskLoop.step, busy] at step_eq
      rw [runInloop_inline busy test] at step_eq
      obtain rfl := Option.some.inj step_eq
      let task : LoopTask :=
        { number := state.requests.length, thread, inloop := true, quits }
      have alone : mine thread [task] = [task] := mine_singleton_same rfl
      have here : mine thread (state.started ++ [task]) <+: mine thread (state.requests ++ [task]) :=
        inOrder thread
      rw [mine_append, mine_append, ← kept.order thread, alone, List.append_assoc,
        List.prefix_append_right_inj] at here
      obtain ⟨first, rest, queued⟩ := List.exists_cons_of_ne_nil overtaken
      rw [queued, List.cons_append, List.singleton_prefix_cons_iff] at here
      -- the queued task was requested before, so its number is smaller
      have member : first ∈ mine thread state.requests := by
        rw [← kept.order thread, queued]
        simp
      have earlier := kept.counted.fresh first (List.mem_of_mem_filter member)
      rw [← here] at earlier
      exact Nat.lt_irrefl _ earlier
  | _ => exact late trivial

/-! ## Runs -/

open Execution

/-- No task is started twice; and the tasks of every thread start in the order of its calls exactly
as long as none is run at once while an earlier one of its thread is queued. -/
theorem run_inloop_in_order_iff (ops : List Op) :
    AllStates step (fun state => state.started.Nodup) new ops ∧
      (AllStates step InOrder new ops ↔ AllSteps step Prompt new ops) := by
  constructor
  · exact allStates_of_invariant Counted Counted.started_nodup
      (fun counted step_eq => counted.step step_eq) Counted.new ops
  · exact allStates_iff_allSteps Kept Kept.inOrder
      (fun kept prompt step_eq => kept.step prompt step_eq)
      (fun kept late step_eq => kept.overtaken late step_eq) Kept.new ops

/-- The loop quits while a task is queued, and the next task of the thread is run at once. -/
theorem run_inloop_overtakes :
    ¬ ∀ ops : List Op, AllStates step InOrder new ops := by
  intro every
  let ops : List Op := [.loop 0, .runInloop 1 true, .submit 1, .runInloop 1 false, .submit 1,
    .detach, .runTask, .runInloop 1 false]
  have facts : (Execution.run step new ops).any (fun state =>
      ¬ mine 1 state.started <+: mine 1 state.requests) = true := by decide
  obtain ⟨state, execution, here⟩ := (Option.any_eq_true _ _).mp facts
  exact of_decide_eq_true here ((every ops).of_run execution 1)

end TaskLoop
end CommonLib
