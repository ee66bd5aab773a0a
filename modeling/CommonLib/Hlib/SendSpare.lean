import CommonLib.Hlib.SendOrder

/-!
# What the two pools of the send side have to spare

Whether `SendData` queues a payload depends only on two counters, that of the free transfer buffers
and that of the free cache blocks.  The pair of counters is an abstract model of the server, which
`SendData` refines; several payloads in a row are queued or refused one by one.
-/

namespace CommonLib.THEpollServer

/-- The counters of the free buffers and of the free blocks. -/
structure Spare where
  buffers : Int
  blocks : Int
  deriving DecidableEq

namespace Spare

variable (spare : Spare)

/-- There are enough buffers and a block for a payload. -/
def Takes (count : Nat) : Prop := count ≤ spare.buffers ∧ 0 < spare.blocks

instance (count : Nat) : Decidable (spare.Takes count) :=
  inferInstanceAs (Decidable (_ ∧ _))

/-- What is left after a payload that needs `count` buffers. -/
def after (count : Nat) : Spare :=
  if spare.Takes count then { buffers := spare.buffers - count, blocks := spare.blocks - 1 }
  else spare

/-- Offer payloads one after the other: those which are queued and what is left then. -/
def offer (bufLen : Nat) : Spare → List (List Byte) → List (List Byte) × Spare
  | spare, [] => ([], spare)
  | spare, payload :: payloads =>
      let count := needed bufLen payload.length
      let (queued, left) := offer bufLen (spare.after count) payloads
      (if spare.Takes count then payload :: queued else queued, left)

variable {spare}

theorem after_of_takes {count : Nat} (takes : spare.Takes count) :
    spare.after count =
      { buffers := spare.buffers - count, blocks := spare.blocks - 1 } := if_pos takes

theorem after_of_not_takes {count : Nat} (refused : ¬ spare.Takes count) :
    spare.after count = spare := if_neg refused

/-- Two payloads are both queued exactly when there is enough for both at once. -/
theorem takes_both_iff (spare : Spare) (first second : Nat) :
    spare.Takes first ∧ (spare.after first).Takes second ↔
      (first + second : Nat) ≤ spare.buffers ∧ 2 ≤ spare.blocks := by
  constructor
  · rintro ⟨takes, takes'⟩
    rw [after_of_takes takes] at takes'
    simp only [Takes] at takes takes'
    constructor <;> omega
  · rintro ⟨buffers, blocks⟩
    have takes : spare.Takes first := by
      simp only [Takes]
      constructor <;> omega
    refine ⟨takes, ?_⟩
    rw [after_of_takes takes]
    simp only [Takes]
    constructor <;> omega

/-- Neither of two payloads is queued exactly when there is no block or too little for each. -/
theorem takes_neither_iff (spare : Spare) (first second : Nat) :
    ¬ spare.Takes first ∧ ¬ (spare.after first).Takes second ↔
      spare.blocks ≤ 0 ∨ (spare.buffers < first ∧ spare.buffers < second) := by
  constructor
  · rintro ⟨refused, refused'⟩
    rw [after_of_not_takes refused] at refused'
    simp only [Takes] at refused refused'
    omega
  · intro scarce
    have refused : ¬ spare.Takes first := by
      simp only [Takes]
      omega
    refine ⟨refused, ?_⟩
    rw [after_of_not_takes refused]
    simp only [Takes]
    omega

theorem offer_append (bufLen : Nat) (spare : Spare) (first second : List (List Byte)) :
    spare.offer bufLen (first ++ second) =
      ((spare.offer bufLen first).1 ++ ((spare.offer bufLen first).2.offer bufLen second).1,
        ((spare.offer bufLen first).2.offer bufLen second).2) := by
  induction first generalizing spare with
  | nil => rfl
  | cons payload payloads induction =>
      simp only [List.cons_append, offer, induction]
      split <;> rfl

theorem mem_of_mem_offer {bufLen : Nat} {payloads : List (List Byte)} {payload : List Byte}
    (mem : payload ∈ (spare.offer bufLen payloads).1) : payload ∈ payloads := by
  induction payloads generalizing spare with
  | nil => exact mem
  | cons first payloads induction =>
      simp only [offer] at mem
      split at mem
      · rcases List.mem_cons.mp mem with rfl | later
        · exact List.mem_cons_self
        · exact List.mem_cons_of_mem _ (induction later)
      · exact List.mem_cons_of_mem _ (induction mem)

end Spare

/-! ## Refinement -/

variable {server next : THEpollServer} {lists : Place → List Nat}

def spare (server : THEpollServer) : Spare where
  buffers := server.bufferMgr.count
  blocks := server.cache.fc

/-- `GetBufferEx` counts the buffers it gives out. -/
theorem getBufferEx_count {mgr mgr' : THBufferMgr} {len : Int} {b : Option Nat}
    (result : mgr.getBufferEx len = some (b, mgr')) :
    if b.isSome then len ≤ mgr.count ∧ mgr'.count = mgr.count - len else mgr.count < len := by
  simp only [THBufferMgr.getBufferEx] at result
  split at result
  · next few =>
      obtain ⟨rfl, -⟩ := Prod.mk.inj (Option.some.inj result)
      exact few
  · next enough =>
      split at result
      · exact absurd result (by simp)
      · split at result
        · exact absurd result (by simp)
        · obtain ⟨rfl, rfl⟩ := Prod.mk.inj (Option.some.inj result)
          exact ⟨Int.not_lt.mp enough, rfl⟩

/-- What `SendData` does to the counters. -/
theorem sendChain_counts {postClose added : Bool} {c : Nat} {data : List Byte}
    (result : server.sendChain postClose c data = some (added, next)) :
    next.bufLen = server.bufLen ∧
      if added then
        (needed server.bufLen data.length : Nat) ≤ server.bufferMgr.count ∧
          server.cache.fb.isSome = true ∧
          next.bufferMgr.count = server.bufferMgr.count - needed server.bufLen data.length ∧
          next.cache.fc = server.cache.fc - 1
      else
        (server.bufferMgr.count < (needed server.bufLen data.length : Nat) ∨
          server.cache.fb = none) ∧
          next.bufferMgr.count = server.bufferMgr.count ∧ next.cache.fc = server.cache.fc := by
  have count_eq := needed_eq server.one_lt data.length
  simp only [sendChain, count_eq] at result
  split at result
  · exact absurd result (by simp)
  · next taken =>
      obtain ⟨rfl, rfl⟩ := Prod.mk.inj (Option.some.inj result)
      exact ⟨rfl, Or.inl (getBufferEx_count taken), rfl, rfl⟩
  · next b bufferMgr taken =>
      obtain ⟨enough, left⟩ := getBufferEx_count taken
      split at result
      · exact absurd result (by simp)
      · split at result
        · next cache added_eq =>
            obtain ⟨rfl, rfl⟩ := Prod.mk.inj (Option.some.inj result)
            cases free : server.cache.fb with
            | none =>
                rw [THQCache.add_of_full free] at added_eq
                exact absurd (congrArg Prod.fst added_eq) (by simp)
            | some block =>
                rw [THQCache.add_of_free free] at added_eq
                obtain rfl := (Prod.mk.inj added_eq).2
                exact ⟨rfl, enough, rfl, left, rfl⟩
        · next cache added_eq =>
            obtain ⟨rfl, rfl⟩ := Prod.mk.inj (Option.some.inj result)
            cases free : server.cache.fb with
            | none =>
                refine ⟨rfl, Or.inr rfl, ?_, rfl⟩
                show bufferMgr.count + _ = _
                rw [left]
                exact Int.sub_add_cancel _ _
            | some block =>
                rw [THQCache.add_of_free free] at added_eq
                exact absurd (congrArg Prod.fst added_eq) (by simp)

theorem Conserved.fb_isSome_iff (conserved : server.Conserved lists) :
    server.cache.fb.isSome = true ↔ 0 < server.cache.fc := by
  obtain ⟨stack, chain, _, _, count⟩ := conserved.linked.free
  rw [count, chain.head?_eq]
  cases stack with
  | nil => simp
  | cons block stack => simp

/-- `SendData` returns and refines the two counters. -/
theorem Conserved.sendChain_spare (conserved : server.Conserved lists) (postClose : Bool) (c : Nat)
    (data : List Byte) :
    ∃ next lists', server.sendChain postClose c data =
        some (decide (server.spare.Takes (needed server.bufLen data.length)), next) ∧
      next.Conserved lists' ∧ next.bufLen = server.bufLen ∧
      next.spare = server.spare.after (needed server.bufLen data.length) := by
  obtain ⟨added, next, returned, outcome⟩ := conserved.sendChain postClose c data
  obtain ⟨bufLen_eq, counts⟩ := sendChain_counts returned
  cases added with
  | true =>
      obtain ⟨enough, free, count_eq, fc_eq⟩ := counts
      obtain ⟨block, count, queued⟩ := outcome
      have takes : server.spare.Takes (needed server.bufLen data.length) :=
        ⟨enough, conserved.fb_isSome_iff.mp free⟩
      refine ⟨next, _, ?_, queued.conserved, bufLen_eq, ?_⟩
      · rw [returned, decide_eq_true takes]
      · rw [Spare.after_of_takes takes, spare, count_eq, fc_eq]
        rfl
  | false =>
      obtain ⟨scarce, count_eq, fc_eq⟩ := counts
      have refused : ¬ server.spare.Takes (needed server.bufLen data.length) := by
        rintro ⟨enough, blocks⟩
        rcases scarce with few | full
        · exact absurd enough (Int.not_le.mpr few)
        · have free := conserved.fb_isSome_iff.mpr blocks
          simp [full] at free
      refine ⟨next, lists, ?_, Refused.conserved outcome, bufLen_eq, ?_⟩
      · rw [returned, decide_eq_false refused]
      · rw [Spare.after_of_not_takes refused, spare, count_eq, fc_eq]
        rfl

/-! ## Several payloads -/

/-- Calls of `SendData` in a row, whose results are ignored: the payloads queued. -/
def sendAll (c : Nat) : THEpollServer → List (List Byte) → Option (List (List Byte) × THEpollServer)
  | server, [] => some ([], server)
  | server, payload :: payloads =>
      (server.sendData c payload).bind fun (added, next) =>
        (sendAll c next payloads).map fun (queued, last) =>
          (if added then payload :: queued else queued, last)

/-- The server queues what its counters offer. -/
theorem Conserved.sendAll (conserved : server.Conserved lists) (c : Nat)
    (payloads : List (List Byte)) :
    ∃ next lists', sendAll c server payloads =
        some ((server.spare.offer server.bufLen payloads).1, next) ∧
      next.Conserved lists' ∧ next.bufLen = server.bufLen ∧
      next.spare = (server.spare.offer server.bufLen payloads).2 := by
  induction payloads generalizing server lists with
  | nil => exact ⟨server, lists, rfl, conserved, rfl, rfl⟩
  | cons payload payloads induction =>
      obtain ⟨middle, lists', sent, conserved', bufLen_eq, spare_eq⟩ :=
        conserved.sendChain_spare false c payload
      obtain ⟨next, lists'', rest, conserved'', bufLen_eq', spare_eq'⟩ := induction conserved'
      rw [spare_eq, bufLen_eq] at rest spare_eq'
      refine ⟨next, lists'', ?_, conserved'', bufLen_eq'.trans bufLen_eq, spare_eq'⟩
      simp only [THEpollServer.sendAll, sendData, sent, Option.bind_some, rest, Option.map_some,
        Spare.offer, decide_eq_true_eq]

end CommonLib.THEpollServer
