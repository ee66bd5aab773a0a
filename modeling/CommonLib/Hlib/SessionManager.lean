import CommonLib.Hlib.Stack
import CommonLib.Library.Execution
import Mathlib.Data.List.Nodup

/-!
# The session manager of `scksvr.cpp`

`THSessionManager` hands out sessions for tokens.  Session pointers are positions in `Sessions`, and
`UsedSessionMap` is assumed to be a finite map.
-/

namespace CommonLib

open Execution

structure THSession where
  info : List String
  index : Int
  dataLen : Int
  data : Option Nat
  used : Bool
  token : String
  lastOp : UInt32

/-- A finite map of bounded capacity, which is what `UsedSessionMap` is assumed to be. -/
structure TokenMap where
  capacity : Nat
  entries : List (String × Int)

namespace TokenMap

def findS (map : TokenMap) (key : String) : Option Int := map.entries.lookup key

/-- A present key or a full map is left alone. -/
def addS (map : TokenMap) (key : String) (value : Int) : TokenMap :=
  if (map.findS key).isSome ∨ map.capacity ≤ map.entries.length then map
  else { map with entries := (key, value) :: map.entries }

theorem findS_addS {map : TokenMap} {key other : String} {value found : Int}
    (present : (map.addS key value).findS other = some found) :
    map.findS other = some found ∨ other = key ∧ found = value := by
  unfold addS at present
  split at present
  · exact Or.inl present
  · by_cases same : other = key
    · subst same
      right
      simpa [findS, eq_comm] using present
    · left
      simpa [findS, List.lookup_cons, beq_eq_false_iff_ne.mpr same] using present

end TokenMap

structure THSessionManager where
  sessionCount : Nat
  sessions : Nat → THSession
  usedSessionMap : TokenMap
  freeSessionStack : THSP Nat

namespace THSessionManager

/-! ## Operations -/

/-- `THSessionManager::THSessionManager`; `lastOp` is what the fields held before, and `capacity`
the number of keys which the map can hold. -/
def new (sessionCount capacity : Nat) (lastOp : Nat → UInt32) : THSessionManager where
  sessionCount
  sessions position :=
    { info := [], index := position, dataLen := 0, data := none, used := false, token := "",
      lastOp := lastOp position }
  usedSessionMap := { capacity, entries := [] }
  freeSessionStack := (THSP.new (sessionCount * 2)).pushRange sessionCount

/-- The index under which the map holds a token, or `-1`. -/
def indexOf (manager : THSessionManager) (token : String) : Int :=
  (manager.usedSessionMap.findS token).getD (-1)

/-- `THSessionManager::GetSession`. -/
def getSession (manager : THSessionManager) (token : String) : Option Nat :=
  let i := manager.indexOf token
  if i > -1 ∧ i < manager.sessionCount then some i.toNat else none

/-- `THSessionManager::NewSession` at time `tick`.  The token made up for an empty one is not used
by the source. -/
def newSession (manager : THSessionManager) (token : String) (tick : UInt32) :
    Option Nat × THSessionManager :=
  let i := manager.indexOf token
  if i = -1 then
    match manager.freeSessionStack.popValue with
    | none => (none, manager)
    | some (p, freeSessionStack) =>
        let session : THSession := { manager.sessions p with
          token, used := true, info := [], data := none, dataLen := 0, lastOp := tick }
        (some p,
          { manager with
            sessions := Function.update manager.sessions p session
            usedSessionMap := manager.usedSessionMap.addS token session.index
            freeSessionStack })
  else if i < manager.sessionCount then (some i.toNat, manager)
  else (none, manager)

/-- `THSessionManager::DelSession`. -/
def delSession (manager : THSessionManager) (token : String) : Bool × THSessionManager :=
  let i := manager.indexOf token
  if i > -1 then
    let p := i.toNat
    (true,
      { manager with
        sessions := Function.update manager.sessions p { manager.sessions p with
          token := "", info := [], dataLen := 0, data := none, used := false, lastOp := 0 }
        freeSessionStack := (manager.freeSessionStack.push p).2 })
  else (false, manager)

/-! ## Histories -/

/-- The calls of a history. -/
inductive Op
  | new (token : String) (tick : UInt32)
  | get (token : String)
  | del (token : String)

/-- A manager together with the tokens created and not deleted since. -/
structure History where
  manager : THSessionManager
  live : List String

namespace History

/-- One call.  A token is created when `NewSession` returns a session for it. -/
def step (history : History) : Op → Option History
  | .new token tick =>
      let (session, manager) := history.manager.newSession token tick
      some { manager, live := if session.isSome then token :: history.live else history.live }
  | .get _ => some history
  | .del token =>
      some
        { manager := (history.manager.delSession token).2
          live := history.live.filter (· ≠ token) }

/-- What `GetSession` promises in a state. -/
structure Safe (history : History) : Prop where
  found : ∀ {token p}, history.manager.getSession token = some p →
    token ∈ history.live ∧ (history.manager.sessions p).used = true ∧
      (history.manager.sessions p).token = token
  distinct : ∀ {token token' p p'}, token ∈ history.live → token' ∈ history.live →
    token ≠ token' → history.manager.getSession token = some p →
    history.manager.getSession token' = some p' → p ≠ p'

/-- The call does not delete a token which the map holds. -/
def Undeleted (history : History) : Op → Prop
  | .del token => history.manager.usedSessionMap.findS token = none
  | _ => True

/-- Map, sessions and stack are in step as long as nothing is deleted. -/
structure InStep (history : History) : Prop where
  held : ∀ {token i}, history.manager.usedSessionMap.findS token = some i →
    ∃ p : Nat, i = p ∧ p < history.manager.sessionCount ∧ token ∈ history.live ∧
      (history.manager.sessions p).used = true ∧ (history.manager.sessions p).token = token
  free : ∀ p ∈ history.manager.freeSessionStack.items, p < history.manager.sessionCount ∧
    (history.manager.sessions p).used = false
  nodup : history.manager.freeSessionStack.items.Nodup
  index : ∀ p, (history.manager.sessions p).index = p

variable {history next : History}

theorem InStep.findS_of_getSession (inStep : history.InStep) {token : String} {p : Nat}
    (found : history.manager.getSession token = some p) :
    history.manager.usedSessionMap.findS token = some (p : Int) := by
  unfold getSession indexOf at found
  dsimp only at found
  split at found
  · next inside =>
      obtain rfl := Option.some.inj found
      obtain ⟨lower, _⟩ := inside
      cases present : history.manager.usedSessionMap.findS token with
      | none => simp [present] at lower
      | some i =>
          obtain ⟨p, rfl, _⟩ := inStep.held present
          simp
  · simp at found

theorem InStep.getSession_of_findS (inStep : history.InStep) {token : String} {i : Int}
    (present : history.manager.usedSessionMap.findS token = some i) :
    history.manager.getSession token = some i.toNat := by
  obtain ⟨p, rfl, inside, _⟩ := inStep.held present
  have inside' : (p : Int) > -1 ∧ (p : Int) < history.manager.sessionCount := by omega
  simp only [getSession, indexOf, present, Option.getD_some, if_pos inside']

theorem InStep.safe (inStep : history.InStep) : history.Safe where
  found found := by
    obtain ⟨p, same, _, live, used, token_eq⟩ := inStep.held (inStep.findS_of_getSession found)
    obtain rfl := Int.ofNat_inj.mp same
    exact ⟨live, used, token_eq⟩
  distinct := by
    rintro token token' p _ _ _ different found found' rfl
    obtain ⟨q, same, _, _, _, token_eq⟩ := inStep.held (inStep.findS_of_getSession found)
    obtain ⟨q', same', _, _, _, token_eq'⟩ := inStep.held (inStep.findS_of_getSession found')
    obtain rfl : q = q' := by omega
    exact different (token_eq.symm.trans token_eq')

theorem new_inStep (sessionCount capacity : Nat) (lastOp : Nat → UInt32) :
    InStep { manager := new sessionCount capacity lastOp, live := [] } := by
  have fits : sessionCount ≤ (THSP.new (sessionCount * 2) : THSP Nat).size := by
    rw [THSP.new_size]
    omega
  have items_eq := (THSP.pushRange_items (THSP.new_items _) fits).1
  refine ⟨?_, ?_, ?_, fun _ => rfl⟩
  · intro token i present
    simp [new, TokenMap.findS] at present
  · intro p free
    simp only [new, items_eq, List.mem_reverse, List.mem_range] at free
    exact ⟨free, rfl⟩
  · simp only [new, items_eq, List.nodup_reverse]
    exact List.nodup_range

/-- `NewSession` keeps map, sessions and stack in step. -/
theorem InStep.newSession (inStep : history.InStep) (token : String) (tick : UInt32)
    (result : history.step (.new token tick) = some next) : next.InStep := by
  obtain ⟨held, free, nodup, index⟩ := inStep
  have unchanged (live : List String) (more : ∀ token ∈ history.live, token ∈ live) :
      InStep { manager := history.manager, live } :=
    ⟨fun present => by
        obtain ⟨p, i_eq, inside, isLive, rest⟩ := held present
        exact ⟨p, i_eq, inside, more _ isLive, rest⟩,
      free, nodup, index⟩
  simp only [step, Option.some.injEq] at result
  subst result
  unfold THSessionManager.newSession
  dsimp only
  split
  · next absent =>
      cases popped : history.manager.freeSessionStack.popValue with
      | none => exact unchanged _ fun _ isLive => isLive
      | some pair =>
          obtain ⟨p, rest⟩ := pair
          obtain ⟨items_eq, _⟩ := THSP.popValue_eq_some.mp popped
          rw [items_eq] at free nodup
          obtain ⟨inside, notUsed⟩ := free p (List.mem_cons_self ..)
          obtain ⟨fresh, nodup⟩ := List.nodup_cons.mp nodup
          have index_eq := index p
          refine ⟨?_, ?_, nodup, ?_⟩
          · intro other i present
            rcases TokenMap.findS_addS present with old | ⟨rfl, rfl⟩
            · obtain ⟨q, i_eq, inside', isLive, used, token_eq⟩ := held old
              have different : q ≠ p := by
                rintro rfl
                simp [used] at notUsed
              refine ⟨q, i_eq, inside', List.mem_cons_of_mem _ isLive, ?_⟩
              simp only [Function.update_of_ne different]
              exact ⟨used, token_eq⟩
            · refine ⟨p, index_eq, inside, List.mem_cons_self .., ?_⟩
              simp
          · intro q member
            have different : q ≠ p := fun same => fresh (same ▸ member)
            simp only [Function.update_of_ne different]
            exact free q (List.mem_cons_of_mem _ member)
          · intro q
            by_cases same : q = p
            · subst same
              simpa using index_eq
            · simpa [Function.update_of_ne same] using index q
  · split
    · exact unchanged _ fun _ isLive => List.mem_cons_of_mem _ isLive
    · exact unchanged _ fun _ isLive => isLive

/-- A call that deletes nothing keeps map, sessions and stack in step. -/
theorem InStep.step (inStep : history.InStep) {op : Op} (undeleted : history.Undeleted op)
    (result : history.step op = some next) : next.InStep := by
  cases op with
  | new token tick => exact inStep.newSession token tick result
  | get token =>
      obtain rfl : history = next := Option.some.inj result
      exact inStep
  | del token =>
      have absent : history.manager.usedSessionMap.findS token = none := undeleted
      have kept : (history.manager.delSession token).2 = history.manager := by
        simp [delSession, indexOf, absent]
      simp only [History.step, kept, Option.some.injEq] at result
      subst result
      obtain ⟨held, free, nodup, index⟩ := inStep
      refine ⟨fun {other i} present => ?_, free, nodup, index⟩
      obtain ⟨p, i_eq, inside, isLive, rest⟩ := held present
      refine ⟨p, i_eq, inside, List.mem_filter.mpr ⟨isLive, ?_⟩, rest⟩
      have different : other ≠ token := by
        rintro rfl
        simp [absent] at present
      simpa using different

/-- A deleted token is still found. -/
theorem InStep.not_safe_del (inStep : history.InStep) {op : Op}
    (deleted : ¬ history.Undeleted op) (result : history.step op = some next) : ¬ next.Safe := by
  cases op with
  | new token tick => exact absurd trivial deleted
  | get token => exact absurd trivial deleted
  | del token =>
      intro safe
      obtain ⟨i, present⟩ := Option.ne_none_iff_exists'.mp deleted
      have found := inStep.getSession_of_findS present
      have map_eq : (history.manager.delSession token).2.getSession token =
          history.manager.getSession token := by
        unfold delSession
        dsimp only
        split <;> rfl
      simp only [History.step, Option.some.injEq] at result
      subst result
      obtain ⟨isLive, _⟩ := safe.found (map_eq.trans found)
      simp at isLive

end History

/-- `GetSession` keeps its promises throughout a run exactly when no `DelSession` of the run names
a token which the map holds. -/
theorem safe_iff_undeleted (sessionCount capacity : Nat) (lastOp : Nat → UInt32) (ops : List Op) :
    AllStates History.step History.Safe
        { manager := new sessionCount capacity lastOp, live := [] } ops ↔
      AllSteps History.step History.Undeleted
        { manager := new sessionCount capacity lastOp, live := [] } ops :=
  allStates_iff_allSteps History.InStep (fun inStep => inStep.safe)
    (fun inStep undeleted result => inStep.step undeleted result)
    (fun inStep deleted result => inStep.not_safe_del deleted result)
    (History.new_inStep sessionCount capacity lastOp) ops

/-- A session is created, deleted and its slot handed out again. -/
def recycleOps : List Op := [.new "a" 0, .del "a", .new "b" 0]

theorem recycleOps_getSession :
    (run History.step { manager := new 1 1 fun _ => 0, live := [] } recycleOps).map
        (fun history => (history.manager.getSession "a", history.live)) =
      some (some 0, ["b"]) := by decide +kernel

/-- The deleted token still yields a session, the one of the new token. -/
theorem recycleOps_unsafe :
    ¬ ∀ (sessionCount capacity : Nat) (lastOp : Nat → UInt32) (ops : List Op),
      sessionCount ≤ capacity →
        AllStates History.step History.Safe
          { manager := new sessionCount capacity lastOp, live := [] } ops := by
  intro promised
  obtain ⟨final, execution, seen⟩ := Option.map_eq_some_iff.mp recycleOps_getSession
  obtain ⟨found, live_eq⟩ := Prod.mk.inj seen
  obtain ⟨isLive, _⟩ :=
    ((promised 1 1 _ recycleOps (Nat.le_refl 1)).of_run execution).found found
  rw [live_eq] at isLive
  simp at isLive

end THSessionManager
end CommonLib
