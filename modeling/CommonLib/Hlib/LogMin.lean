import CommonLib.Library.LongestSuffix
import CommonLib.Library.Tracking
import CommonLib.Hlib.PasUtils

/-!
# The log of `logout.cpp`

`LogMin` keeps the last texts that were logged within a number of bytes.  `Log` counts the bytes of
a string, `strdup` stores those in front of its first NUL, and `DeleteLog` counts what is stored.
-/

namespace CommonLib

open Execution PasUtils

def H_COMMON : Int := 5

/-- `LogMin`. -/
structure LogMin where
  buf : List (List Byte)
  maxLen : Int
  remain : Int
  savinglog : Int

namespace LogMin

/-- `LogMin::LogMin`. -/
def new (len : Nat) : LogMin where
  buf := []
  maxLen := len
  remain := len
  savinglog := 0

/-- `LogMin::DeleteLog`; an empty list has no front. -/
def deleteLog (log : LogMin) : Option LogMin :=
  match log.buf with
  | [] => none
  | tmp :: rest =>
      let len : Int := tmp.length
      some { log with
        savinglog := log.savinglog - len, remain := log.remain + len, buf := rest }

/-- The loop of `AddLog`. -/
def makeRoom (len : Int) : Nat → LogMin → Option LogMin
  | 0, _ => none
  | turns + 1, log =>
      if len > log.remain then log.deleteLog.bind (makeRoom len turns) else some log

/-- `LogMin::AddLog`; each turn of the loop but the last takes a text from the list. -/
def addLog (log : LogMin) (strbuf : List Byte) (len : Int) : Option LogMin :=
  if len > log.maxLen then some log
  else
    (makeRoom len (log.buf.length + 1) log).map fun log =>
      { log with
        savinglog := log.savinglog + len
        remain := log.remain - len
        buf := log.buf ++ [cString strbuf] }

/-- A call of `LogMin::Log`. -/
structure Call where
  strbuf : List Byte
  level : Int

/-- `LogMin::Log`. -/
def log (log : LogMin) (call : Call) : Option LogMin :=
  if call.level ≥ H_COMMON then log.addLog call.strbuf call.strbuf.length else some log

/-! ## What the log should hold -/

/-- A call is accepted if its level is stored and its string fits into an empty log. -/
def Accepted (maxLen : Nat) (call : Call) : Prop :=
  call.level ≥ H_COMMON ∧ call.strbuf.length ≤ maxLen

instance (maxLen : Nat) (call : Call) : Decidable (Accepted maxLen call) := instDecidableAnd

/-- The strings that have been accepted. -/
def accept (maxLen : Nat) (accepted : List (List Byte)) (call : Call) : List (List Byte) :=
  if Accepted maxLen call then accepted ++ [call.strbuf] else accepted

/-- The counters tell the bytes that are stored, and as many of the last strings are stored as
fit. -/
structure Accounts (maxLen : Nat) (log : LogMin) (accepted : List (List Byte)) : Prop where
  maxLen_eq : log.maxLen = maxLen
  balance : log.savinglog + log.remain = maxLen
  saved : log.savinglog = totalWeight List.length log.buf
  longest : IsLongestSuffix List.length maxLen log.buf accepted

/-- `DeleteLog` always finds a text, and after each call the log accounts for the strings. -/
def Bounded (maxLen : Nat) (calls : List Call) : Prop :=
  Tracks log (accept maxLen) (Accounts maxLen) (new maxLen) [] calls

/-- A string that is accepted holds no NUL. -/
def Provided (maxLen : Nat) (call : Call) : Prop := Accepted maxLen call → 0 ∉ call.strbuf

instance (maxLen : Nat) (call : Call) : Decidable (Provided maxLen call) :=
  inferInstanceAs (Decidable (Accepted maxLen call → 0 ∉ call.strbuf))

variable {maxLen : Nat} {state : LogMin} {accepted : List (List Byte)}

/-- The counters follow the loop. -/
theorem makeRoom_eq {len : Nat} (small : len ≤ maxLen) {turns : Nat}
    (enough : state.buf.length < turns)
    (balance : state.savinglog + state.remain = maxLen)
    (saved : state.savinglog = totalWeight List.length state.buf) :
    ∃ room, makeRoom len turns state = some room ∧ room.maxLen = state.maxLen ∧
      room.buf = evict List.length (maxLen - len) state.buf ∧
      room.savinglog + room.remain = maxLen ∧
      room.savinglog = totalWeight List.length room.buf := by
  induction turns generalizing state with
  | zero => exact absurd enough (Nat.not_lt_zero _)
  | succ turns ih =>
      rw [makeRoom]
      obtain ⟨buf, bound, remain, savinglog⟩ := state
      cases buf with
      | nil =>
          have free : ¬ (len : Int) > remain := by
            simp only [totalWeight] at saved balance
            omega
          exact ⟨_, if_neg free, rfl, rfl, balance, saved⟩
      | cons tmp rest =>
          have counted : savinglog + remain = maxLen := balance
          have stored : savinglog = (tmp.length + totalWeight List.length rest : Nat) := saved
          by_cases full : (len : Int) > remain
          · have beyond : ¬ totalWeight List.length (tmp :: rest) ≤ maxLen - len := by
              rw [totalWeight]
              omega
            rw [if_pos full, evict, if_neg beyond]
            refine ih (Nat.lt_of_succ_lt_succ enough) ?_ ?_
            · show savinglog - tmp.length + (remain + tmp.length) = maxLen
              omega
            · show savinglog - tmp.length = totalWeight List.length rest
              omega
          · have within : totalWeight List.length (tmp :: rest) ≤ maxLen - len := by
              rw [totalWeight]
              omega
            rw [if_neg full, evict, if_pos within]
            exact ⟨_, rfl, rfl, rfl, balance, saved⟩

/-- What an accepted string leaves in the log. -/
theorem log_accepted {call : Call} (accounts : Accounts maxLen state accepted)
    (met : Accepted maxLen call) :
    ∃ next, state.log call = some next ∧ next.maxLen = maxLen ∧
      next.buf =
        evict List.length (maxLen - call.strbuf.length) state.buf ++ [cString call.strbuf] ∧
      next.savinglog + next.remain = maxLen ∧
      next.savinglog =
        totalWeight List.length (evict List.length (maxLen - call.strbuf.length) state.buf) +
          call.strbuf.length := by
  obtain ⟨stored, small⟩ := met
  have fits : ¬ (call.strbuf.length : Int) > state.maxLen := by
    rw [accounts.maxLen_eq]
    omega
  obtain ⟨room, made, maxLen_eq, buf_eq, balance, saved⟩ :=
    makeRoom_eq small (Nat.lt_succ_self _) accounts.balance accounts.saved
  refine ⟨{ room with
      savinglog := room.savinglog + call.strbuf.length
      remain := room.remain - call.strbuf.length
      buf := room.buf ++ [cString call.strbuf] },
    ?_, maxLen_eq.trans accounts.maxLen_eq, ?_, ?_, ?_⟩
  · rw [log, if_pos stored, addLog, if_neg fits, made]
    rfl
  · show room.buf ++ [cString call.strbuf] = _
    rw [buf_eq]
  · show room.savinglog + call.strbuf.length + (room.remain - call.strbuf.length) = maxLen
    omega
  · show room.savinglog + call.strbuf.length = _
    rw [saved, buf_eq]

theorem log_of_not_accepted {call : Call} (accounts : Accounts maxLen state accepted)
    (refused : ¬ Accepted maxLen call) : state.log call = some state := by
  rw [log]
  split
  · rename_i stored
    have large : (call.strbuf.length : Int) > state.maxLen := by
      rw [accounts.maxLen_eq]
      have := not_and.mp refused stored
      omega
    rw [addLog, if_pos large]
  · rfl

/-- A call is accounted for exactly if it brings no NUL into the log. -/
theorem log_accounts_iff {call : Call} (accounts : Accounts maxLen state accepted) :
    (∃ next, state.log call = some next ∧ Accounts maxLen next (accept maxLen accepted call)) ↔
      Provided maxLen call := by
  by_cases met : Accepted maxLen call
  · obtain ⟨next, log_eq, maxLen_eq, buf_eq, balance, saved⟩ := log_accepted accounts met
    have total_eq : totalWeight List.length next.buf =
        totalWeight List.length (evict List.length (maxLen - call.strbuf.length) state.buf) +
          (cString call.strbuf).length := by
      rw [buf_eq, totalWeight_append]
      rfl
    constructor
    · rintro ⟨next', log_eq', accounts'⟩ - present
      obtain rfl : next = next' := Option.some.inj (log_eq.symm.trans log_eq')
      have shorter := length_cString_lt present
      have counted := accounts'.saved
      omega
    · intro provided
      have same := cString_of_not_mem (provided met)
      refine ⟨next, log_eq, maxLen_eq, balance, ?_, ?_⟩
      · rw [saved, total_eq, same]
        rfl
      · rw [buf_eq, same, accept, if_pos met]
        exact accounts.longest.concat met.2
  · refine iff_of_true ⟨state, log_of_not_accepted accounts met, ?_⟩ fun met' => absurd met' met
    rw [accept, if_neg met]
    exact accounts

theorem new_accounts (maxLen : Nat) : Accounts maxLen (new maxLen) [] where
  maxLen_eq := rfl
  balance := Int.zero_add _
  saved := rfl
  longest := isLongestSuffix_nil

/-- A sequence of calls is accounted for exactly if no accepted string holds a NUL. -/
theorem bounded_iff (maxLen : Nat) (calls : List Call) :
    Bounded maxLen calls ↔ ∀ call ∈ calls, Provided maxLen call := by
  have tracked : Bounded maxLen calls ↔
      ∀ front call back, calls = front ++ call :: back → Provided maxLen call :=
    @tracks_iff _ _ _ log (accept maxLen) (Accounts maxLen) (fun _ => Provided maxLen)
      (fun _ accounts => log_accounts_iff accounts) (new maxLen) [] (new_accounts maxLen) calls
  refine tracked.trans ⟨fun provided call among => ?_, fun provided front call back split => ?_⟩
  · obtain ⟨front, back, split⟩ := List.append_of_mem among
    exact provided front call back split
  · refine provided call ?_
    rw [split]
    exact List.mem_append_right front List.mem_cons_self

/-- After `a\0b` two bytes are counted and one is stored, and `DeleteLog` gives one back. -/
theorem log_nul :
    run log (new 2) [⟨[97, 0, 98], 5⟩] = some (new 2) ∧
      run log (new 3) [⟨[97, 0, 98], 5⟩, ⟨[97, 98], 5⟩] = none ∧
      ¬ ∀ maxLen calls, (∀ call ∈ calls, call.level ≥ H_COMMON) → Bounded maxLen calls := by
  have stopped : run log (new 3) [⟨[97, 0, 98], 5⟩, ⟨[97, 98], 5⟩] = none := rfl
  refine ⟨rfl, stopped, fun bounded => ?_⟩
  obtain ⟨state, made, -⟩ := bounded 3 _ (by decide) [⟨[97, 0, 98], 5⟩, ⟨[97, 98], 5⟩] [] rfl
  rw [stopped] at made
  cases made

end LogMin
end CommonLib
