import CommonLib.Network.Crb3Connect

/-!
# The load counter of a connection

`Pending` counts the requests on a connection.  Each service mode of `_GetConnect` counts in its own
way, and `_PutConnect` takes one off whatever the mode.
-/

namespace CommonLib

open Execution

namespace Connects

variable {α : Type}

section Memory

variable {client : Connects α} {cnode other : Nat} {write : CRB3_CONNECTION α → CRB3_CONNECTION α}

theorem update_memory_self :
    (client.update cnode write).memory cnode = (client.memory cnode).map write := by
  simp [update, rewrite]

theorem update_memory_of_ne (differs : other ≠ cnode) :
    (client.update cnode write).memory other = client.memory other := by
  simp [update, rewrite, differs]

end Memory

/-! ## The speculative search -/

def subPending (client : Connects α) (cnode : Nat) : Connects α :=
  client.update cnode fun conn => { conn with pending := conn.pending - 1 }

/-- The search of the service mode 1 as it is written: count the request, test, and take it off
again before the next connection is tried. -/
def tryConnects (client : Connects α) : List Nat → Option Nat × Connects α
  | [] => (none, client)
  | cnode :: cnodes =>
      let counted := client.addPending cnode
      if (counted.memory cnode).any fun conn => conn.pending ≤ conn.pendMax then
        (some cnode, counted)
      else (counted.subPending cnode).tryConnects cnodes

theorem subPending_addPending (client : Connects α) (cnode : Nat) :
    (client.addPending cnode).subPending cnode = client := by
  have memory_eq : ((client.addPending cnode).subPending cnode).memory = client.memory := by
    funext other
    simp only [subPending, addPending, update, rewrite]
    cases client.memory other with
    | none => rfl
    | some conn =>
        by_cases same : other = cnode
        · simp [same]
        · simp [same]
  calc
    (client.addPending cnode).subPending cnode
    _ = { client with memory := ((client.addPending cnode).subPending cnode).memory } := rfl
    _ = client := by rw [memory_eq]

/-- What is taken off again leaves no trace: the first connection with room is counted. -/
theorem tryConnects_eq (client : Connects α) (cnodes : List Nat) :
    client.tryConnects cnodes =
      match cnodes.find? fun cnode =>
        (client.memory cnode).any fun conn => conn.pending + 1 ≤ conn.pendMax with
      | some cnode => (some cnode, client.addPending cnode)
      | none => (none, client) := by
  induction cnodes with
  | nil => rfl
  | cons cnode cnodes induction =>
      have test_eq : ((client.addPending cnode).memory cnode).any
          (fun conn => conn.pending ≤ conn.pendMax) =
            (client.memory cnode).any fun conn => conn.pending + 1 ≤ conn.pendMax := by
        simp only [addPending, update, rewrite]
        cases client.memory cnode <;> simp
      rw [tryConnects, test_eq, List.find?_cons, subPending_addPending]
      split
      · next room => rw [room]
      · next full => rw [induction, Bool.eq_false_iff.mpr full]

/-- `_GetConnect` chooses as the search does. -/
theorem chooseConnect_eq_tryConnects {config : ConnectConfig} (balance : config.serviceMode = 1)
    (client : Connects α) (hash : Nat) :
    chooseConnect config client hash =
      ((client.tryConnects (client.lists .working)).1).map fun cnode =>
        (cnode, (((client.tryConnects (client.lists .working)).2).lstDelete .working cnode).lstAdd
          .working cnode) := by
  rw [tryConnects_eq, chooseConnect, if_neg (by omega), if_pos balance]
  cases (client.lists .working).find? fun cnode =>
    (client.memory cnode).any fun conn => conn.pending + 1 ≤ conn.pendMax <;> rfl

/-! ## The counters -/

/-- The counters of a connection say how many callers hold it. -/
def Balanced (client : Connects α) : Prop :=
  ∀ cnode conn, client.memory cnode = some conn →
    conn.pending = client.held.count cnode ∧ conn.reference = client.held.count cnode

/-- In the service modes 1 and 2 a connection is counted; in the mode 0 there must be none to
return. -/
def Counts (config : ConnectConfig) (client : Connects α) : Op α → Prop
  | .getConnect _ => config.serviceMode = 1 ∨ config.serviceMode = 2 ∨
      ∀ cnode ∈ (client.lists .working).head?, client.memory cnode = none
  | _ => True

/-- The counters agree, and all addresses were handed out. -/
structure Load (client : Connects α) : Prop where
  fresh : ∀ cnode conn, client.memory cnode = some conn → cnode < client.next
  listed : ∀ list, ∀ cnode ∈ client.lists list, cnode < client.next
  held : ∀ cnode ∈ client.held, cnode < client.next
  balanced : Balanced client

namespace Load

variable {config : ConnectConfig} {client client' : Connects α} {cnode : Nat}
  {list : ConnectStatus} {op : Op α}

theorem new : Load (new : Connects α) := by
  constructor <;> simp [Connects.new, Balanced]

/-- Writes that keep the counters. -/
theorem rewrite (load : Load client) {write : Nat → CRB3_CONNECTION α → CRB3_CONNECTION α}
    (same : ∀ cnode conn, (write cnode conn).pending = conn.pending ∧
      (write cnode conn).reference = conn.reference) : Load (client.rewrite write) := by
  refine ⟨fun cnode conn found => ?_, load.listed, load.held, fun cnode conn found => ?_⟩
  · obtain ⟨old, old_found, -⟩ := Option.map_eq_some_iff.mp found
    exact load.fresh cnode old old_found
  · obtain ⟨old, old_found, rfl⟩ := Option.map_eq_some_iff.mp found
    rw [(same cnode old).1, (same cnode old).2]
    exact load.balanced cnode old old_found

theorem update (load : Load client) {write : CRB3_CONNECTION α → CRB3_CONNECTION α}
    (same : ∀ conn, (write conn).pending = conn.pending ∧
      (write conn).reference = conn.reference) : Load (client.update cnode write) := by
  apply load.rewrite
  intro other conn
  split
  · exact same conn
  · exact ⟨rfl, rfl⟩

/-- A change of the lists. -/
theorem relisted (load : Load client) (same : Relisted client client')
    (listed : ∀ list, ∀ cnode ∈ client'.lists list, cnode < client.next) : Load client' := by
  rw [← same]
  exact ⟨load.fresh, listed, load.held, load.balanced⟩

theorem lstAdd (load : Load client) (below : cnode < client.next) :
    Load (client.lstAdd list cnode) := by
  apply load.relisted (lstAdd_relisted ..)
  intro name other member
  rcases mem_lstAdd.mp member with old | ⟨-, rfl⟩
  · exact load.listed name other old
  · exact below

theorem lstInsert (load : Load client) (below : cnode < client.next) :
    Load (client.lstInsert list cnode) := by
  apply load.relisted (lstInsert_relisted ..)
  intro name other member
  rcases mem_lstInsert.mp member with old | ⟨-, rfl⟩
  · exact load.listed name other old
  · exact below

theorem mem_of_mem_lstDelete {name : ConnectStatus} {other : Nat}
    (member : other ∈ (client.lstDelete list cnode).lists name) : other ∈ client.lists name := by
  unfold Connects.lstDelete at member
  split at member
  · by_cases same : name = list
    · subst same
      simp only [setList, Function.update_self] at member
      exact List.mem_of_mem_erase member
    · simpa only [setList, Function.update_of_ne same] using member
  · exact member

theorem lstDelete (load : Load client) : Load (client.lstDelete list cnode) := by
  apply load.relisted (lstDelete_relisted ..)
  exact fun name other member => load.listed name other (mem_of_mem_lstDelete member)

theorem free (load : Load client) : Load (client.free cnode) := by
  have left {other : Nat} {conn : CRB3_CONNECTION α}
      (found : (client.free cnode).memory other = some conn) :
      client.memory other = some conn := by
    by_cases same : other = cnode
    · subst same
      simp [Connects.free] at found
    · simpa [Connects.free, same] using found
  exact ⟨fun other conn found => load.fresh other conn (left found), load.listed, load.held,
    fun other conn found => load.balanced other conn (left found)⟩

/-- One connection is counted anew. -/
theorem recount (load : Load client) (cnode : Nat) (next_le : client.next ≤ client'.next)
    (below : cnode < client'.next)
    (listed : ∀ list, ∀ other ∈ client'.lists list, other < client'.next)
    (memory : ∀ other ≠ cnode, client'.memory other = client.memory other)
    (count : ∀ other ≠ cnode, client'.held.count other = client.held.count other)
    (here : ∀ conn, client'.memory cnode = some conn →
      conn.pending = client'.held.count cnode ∧ conn.reference = client'.held.count cnode) :
    Load client' := by
  refine ⟨fun other conn found => ?_, listed, fun other member => ?_, fun other conn found => ?_⟩
  · by_cases same : other = cnode
    · exact same ▸ below
    · rw [memory other same] at found
      exact Nat.lt_of_lt_of_le (load.fresh other conn found) next_le
  · by_cases same : other = cnode
    · exact same ▸ below
    · have old : other ∈ client.held := by
        rw [← List.count_pos_iff, ← count other same]
        exact List.count_pos_iff.mpr member
      exact Nat.lt_of_lt_of_le (load.held other old) next_le
  · by_cases same : other = cnode
    · subst same
      exact here conn found
    · rw [memory other same] at found
      rw [count other same]
      exact load.balanced other conn found

/-! ## The operations -/

theorem searchLoop_working {ν : Type} {tree : Irbt ν} {status : ν → Int} {fuel : Nat} {loop : Bool}
    {inode : Option ν} {found : ν}
    (ends : searchLoop tree status fuel loop inode = some (some found)) :
    status found = CRB3_STATUS_WORKING := by
  induction fuel generalizing loop inode with
  | zero => cases ends
  | succ fuel induction =>
      cases inode with
      | none => cases ends
      | some cnode =>
          rw [searchLoop] at ends
          split at ends
          · next working =>
              obtain rfl := Option.some.inj (Option.some.inj ends)
              exact working
          · split at ends
            · split at ends
              · exact induction ends
              · exact induction ends
            · exact induction ends

/-- The search returns a connection that works, which was not freed. -/
theorem nchAlgCalc_mem {hash : Nat} (chosen : nchAlgCalc config client hash = some cnode) :
    ∃ conn, client.memory cnode = some conn := by
  obtain ⟨node, found, rfl⟩ := Option.map_eq_some_iff.mp chosen
  have ends := Option.join_eq_some_iff.mp found
  have working : ((client.memory node.2).map (·.status.code)).getD CRB3_STATUS_NULL =
      CRB3_STATUS_WORKING := by
    unfold nchSearch at ends
    dsimp only at ends
    split at ends
    · have working := searchLoop_working ends
      exact working
    · have working := searchLoop_working ends
      exact working
  cases memory : client.memory node.2 with
  | none =>
      simp only [memory, Option.map_none, Option.getD_none] at working
      cases working
  | some conn => exact ⟨conn, rfl⟩

/-- The connection that is chosen, and what is written for it. -/
theorem chosen_spec (load : Load client) {hash : Nat} {chosen : Connects α}
    (choose : chooseConnect config client hash = some (cnode, chosen)) :
    cnode < client.next ∧ chosen.next = client.next ∧ chosen.held = client.held ∧
      (∀ list, ∀ other ∈ chosen.lists list, other < client.next) ∧
      ((config.serviceMode = 1 ∨ config.serviceMode = 2) ∧
          chosen.memory = (client.addPending cnode).memory ∨
        ¬ (config.serviceMode = 1 ∨ config.serviceMode = 2) ∧ chosen.memory = client.memory ∧
          (client.lists .working).head? = some cnode) := by
  unfold chooseConnect at choose
  split at choose
  · next hashed =>
      obtain ⟨node, selected, pair_eq⟩ := Option.map_eq_some_iff.mp choose
      obtain ⟨rfl, rfl⟩ := Prod.mk.inj pair_eq
      obtain ⟨conn, found⟩ := nchAlgCalc_mem selected
      exact ⟨load.fresh _ conn found, rfl, rfl, load.listed, .inl ⟨.inr hashed, rfl⟩⟩
  · next notHashed =>
      split at choose
      · next balance =>
          obtain ⟨node, selected, pair_eq⟩ := Option.map_eq_some_iff.mp choose
          obtain ⟨rfl, rfl⟩ := Prod.mk.inj pair_eq
          have below := load.listed .working node (List.mem_of_find?_eq_some selected)
          have same := (lstDelete_relisted (client.addPending node) .working node).trans
            (lstAdd_relisted ((client.addPending node).lstDelete .working node) .working node)
          refine ⟨below, ?_, ?_, ?_, .inl ⟨.inl balance, same.memory_eq⟩⟩
          · rw [← same]
            rfl
          · rw [← same]
            rfl
          · intro list other member
            rcases mem_lstAdd.mp member with old | ⟨-, rfl⟩
            · have counted := mem_of_mem_lstDelete old
              exact load.listed list other counted
            · exact below
      · next notBalance =>
          obtain ⟨node, selected, pair_eq⟩ := Option.map_eq_some_iff.mp choose
          obtain ⟨rfl, rfl⟩ := Prod.mk.inj pair_eq
          exact ⟨load.listed .working _ (List.mem_of_mem_head? selected), rfl, rfl, load.listed,
            .inr ⟨not_or.mpr ⟨notBalance, notHashed⟩, rfl, selected⟩⟩

theorem getConnect (load : Load client) {hash : Nat}
    (counts : Counts config client (.getConnect hash)) :
    Load (client.getConnect config hash) := by
  unfold Connects.getConnect
  split
  · exact load
  · next cnode chosen choose =>
      obtain ⟨below, next_eq, held_eq, listed, counted⟩ := load.chosen_spec choose
      refine load.recount cnode (Nat.le_of_eq next_eq.symm) ?_ ?_ ?_ ?_ ?_
      · exact next_eq.symm ▸ below
      · exact next_eq.symm ▸ listed
      · intro other differs
        refine (update_memory_of_ne differs).trans ?_
        rcases counted with ⟨-, memory_eq⟩ | ⟨-, memory_eq, -⟩
        · rw [memory_eq]
          exact update_memory_of_ne differs
        · rw [memory_eq]
      · intro other differs
        rw [held_eq]
        exact List.count_cons_of_ne (Ne.symm differs)
      · intro conn found
        obtain ⟨before, before_found, rfl⟩ :=
          Option.map_eq_some_iff.mp (update_memory_self.symm.trans found)
        rw [held_eq, List.count_cons_self]
        rcases counted with ⟨-, memory_eq⟩ | ⟨notCounted, memory_eq, first⟩
        · rw [memory_eq] at before_found
          obtain ⟨old, old_found, rfl⟩ :=
            Option.map_eq_some_iff.mp (update_memory_self.symm.trans before_found)
          obtain ⟨pending_eq, reference_eq⟩ := load.balanced cnode old old_found
          dsimp only
          omega
        · rw [memory_eq] at before_found
          rcases counts with balance | hashed | gone
          · exact absurd (.inl balance) notCounted
          · exact absurd (.inr hashed) notCounted
          · rw [gone cnode first] at before_found
            cases before_found

/-- A connection is freed by its last caller. -/
theorem release (load : Load client) (below : cnode < client.next) {left : Connects α}
    (memory : left.memory = client.memory) (next_eq : left.next = client.next)
    (listed : ∀ list, ∀ other ∈ left.lists list, other < client.next)
    (held : left.held = client.held.erase cnode) : Load (left.free cnode) := by
  refine load.recount cnode (Nat.le_of_eq next_eq.symm) (next_eq.symm ▸ below)
    (next_eq.symm ▸ listed) ?_ ?_ ?_
  · intro other differs
    rw [← memory]
    exact Function.update_of_ne differs ..
  · intro other differs
    change left.held.count other = client.held.count other
    rw [held, List.count_erase_of_ne differs]
  · intro conn found
    simp [Connects.free] at found

theorem putConnect (load : Load client) (put : client.putConnect cnode = some client') :
    Load client' := by
  unfold Connects.putConnect at put
  split at put
  case isFalse => cases put
  next member =>
    obtain ⟨conn, found, rfl⟩ := Option.map_eq_some_iff.mp put
    have below := load.fresh cnode conn found
    have counted : 0 < client.held.count cnode := List.count_pos_iff.mpr member
    have count (other : Nat) (differs : other ≠ cnode) :
        (client.held.erase cnode).count other = client.held.count other :=
      List.count_erase_of_ne differs
    dsimp only
    split
    · -- the connection is freed, and the others keep their callers
      split
      · next list _ =>
          have same := lstDelete_relisted { client with held := client.held.erase cnode } list cnode
          apply load.release below same.memory_eq
          · rw [← same]
          · intro name other member
            have old := mem_of_mem_lstDelete member
            exact load.listed name other old
          · rw [← same]
      · exact load.release below rfl rfl load.listed rfl
    · refine load.recount cnode (Nat.le_refl _) below load.listed ?_ count ?_
      · exact fun other differs => update_memory_of_ne differs
      · intro new new_found
        obtain ⟨old, old_found, rfl⟩ :=
          Option.map_eq_some_iff.mp (update_memory_self.symm.trans new_found)
        obtain ⟨pending_eq, reference_eq⟩ := load.balanced cnode old old_found
        have count_eq : ((client.held.erase cnode).count cnode : Int) =
            client.held.count cnode - 1 := by
          rw [List.count_erase_self]
          omega
        dsimp only [Connects.update, Connects.rewrite]
        omega

theorem check (load : Load client) (late : Nat → Bool) (pendMax : Nat → Int) :
    Load (client.check late pendMax) := by
  apply load.rewrite
  intro cnode conn
  dsimp only
  split_ifs <;> exact ⟨rfl, rfl⟩

theorem goActionNode (load : Load client) (config : ConnectConfig) (fromList : ConnectStatus)
    (below : cnode < client.next) :
    Load (goActionNode config fromList client cnode) ∧
      (Connects.goActionNode config fromList client cnode).next = client.next := by
  unfold Connects.goActionNode
  split
  · exact ⟨load.update fun conn => ⟨rfl, rfl⟩, rfl⟩
  · next status _ =>
      have next_eq : (client.lstDelete fromList cnode).next = client.next := by
        rw [← lstDelete_relisted client fromList cnode]
      have below : cnode < (client.lstDelete fromList cnode).next := next_eq.symm ▸ below
      dsimp only
      split
      · exact ⟨(load.lstDelete.lstInsert below).update fun conn => ⟨rfl, rfl⟩, next_eq⟩
      · exact ⟨(load.lstDelete.lstAdd below).update fun conn => ⟨rfl, rfl⟩, next_eq⟩

theorem goActionList (load : Load client) (fromList : ConnectStatus) :
    Load (goActionList config client fromList) := by
  have kept (cnodes : List Nat) : ∀ client : Connects α, Load client →
      (∀ cnode ∈ cnodes, cnode < client.next) →
      Load (cnodes.foldl (Connects.goActionNode config fromList) client) := by
    induction cnodes with
    | nil => exact fun client load _ => load
    | cons cnode cnodes induction =>
        intro client load below
        obtain ⟨here, later⟩ := List.forall_mem_cons.mp below
        obtain ⟨turned, next_eq⟩ := load.goActionNode config fromList here
        exact induction _ turned (next_eq.symm ▸ later)
  exact kept _ client load (load.listed fromList)

theorem goAction (load : Load client) : Load (client.goAction config) :=
  ((load.goActionList .working).goActionList .backup).goActionList .exception

variable [DecidableEq α]

theorem addConnect (load : Load client) (addr : α) (protocol : SockType) (memoryLeft : Bool) :
    Load (client.addConnect config addr protocol memoryLeft) := by
  have later {list : ConnectStatus} {other : Nat} (member : other ∈ client.lists list) :
      other < client.next + 1 := Nat.lt_succ_of_lt (load.listed list other member)
  unfold Connects.addConnect
  split
  · dsimp only
    split
    · exact ⟨fun other conn found => Nat.lt_succ_of_lt (load.fresh other conn found),
        fun _ _ => later, fun other member => Nat.lt_succ_of_lt (load.held other member),
        load.balanced⟩
    · have absent : client.held.count client.next = 0 :=
        List.count_eq_zero.mpr fun member => Nat.lt_irrefl _ (load.held _ member)
      refine load.recount client.next (Nat.le_succ _) (Nat.lt_succ_self _) ?_ ?_ (fun _ _ => rfl) ?_
      · intro list other member
        rcases mem_lstInsert.mp member with old | ⟨-, rfl⟩
        · exact later old
        · exact Nat.lt_succ_self _
      · intro other differs
        exact Function.update_of_ne differs ..
      · intro conn found
        simp only [Connects.lstInsert, setList, Function.update_self, Option.some.injEq] at found
        subst found
        exact ⟨(congrArg Nat.cast absent).symm, (congrArg Nat.cast absent).symm⟩
  · exact load

theorem delConnect (load : Load client) (addr : α) : Load (client.delConnect addr) := by
  unfold Connects.delConnect
  split
  · exact load
  · next cnode fromList _ =>
      have called : Load { client with deleted := cnode :: client.deleted } :=
        ⟨load.fresh, load.listed, load.held, load.balanced⟩
      dsimp only
      split
      · exact called.lstDelete.free
      · exact called.update fun conn => ⟨rfl, rfl⟩

theorem notify (load : Load client) (addr : α) (status : Int) :
    Load (client.notify addr status) := by
  unfold Connects.notify
  split
  · exact load
  · apply load.update
    intro conn
    split_ifs <;> exact ⟨rfl, rfl⟩

theorem step (load : Load client) (counts : Counts config client op)
    (stepped : Connects.step config client op = some client') : Load client' := by
  cases op with
  | putConnect cnode => exact load.putConnect stepped
  | addConnect addr protocol memoryLeft =>
      obtain rfl := Option.some.inj stepped
      exact load.addConnect addr protocol memoryLeft
  | addElsewhere =>
      obtain rfl := Option.some.inj stepped
      exact ⟨load.fresh, load.listed, load.held, load.balanced⟩
  | delConnect addr =>
      obtain rfl := Option.some.inj stepped
      exact load.delConnect addr
  | getConnect hash =>
      obtain rfl := Option.some.inj stepped
      exact load.getConnect counts
  | notify addr status =>
      obtain rfl := Option.some.inj stepped
      exact load.notify addr status
  | check late pendMax =>
      obtain rfl := Option.some.inj stepped
      exact load.check late pendMax
  | goAction =>
      obtain rfl := Option.some.inj stepped
      exact load.goAction

/-- In the mode 0 a connection is returned without being counted. -/
theorem not_balanced (load : Load client) (uncounted : ¬ Counts config client op)
    (stepped : Connects.step config client op = some client') : ¬ Balanced client' := by
  cases op with
  | getConnect hash =>
      obtain ⟨notBalance, notHashed, first⟩ :
          config.serviceMode ≠ 1 ∧ config.serviceMode ≠ 2 ∧
            ∃ cnode ∈ (client.lists .working).head?, client.memory cnode ≠ none := by
        simpa [Counts] using uncounted
      obtain ⟨cnode, head, live⟩ := first
      obtain ⟨conn, found⟩ := Option.ne_none_iff_exists'.mp live
      have choose : chooseConnect config client hash = some (cnode, client) := by
        rw [chooseConnect, if_neg notHashed, if_neg notBalance, Option.mem_def.mp head]
        rfl
      obtain rfl := Option.some.inj stepped
      intro balanced
      rw [Connects.getConnect, choose] at balanced
      have after := balanced cnode _ (update_memory_self.trans (congrArg _ found))
      have before := load.balanced cnode conn found
      have counted := after.1
      simp only [List.count_cons_self] at counted
      omega
  | _ => exact absurd trivial uncounted

end Load

variable [DecidableEq α]

/-- Whatever is called in a run, `Pending` and `Reference` of every connection are the number of
its callers throughout exactly when no connection is returned in the service mode 0. -/
theorem balanced_iff_counts (config : ConnectConfig) (ops : List (Op α)) :
    AllStates (step config) Balanced (new : Connects α) ops ↔
      AllSteps (step config) (Counts config) (new : Connects α) ops :=
  allStates_iff_allSteps Load Load.balanced Load.step Load.not_balanced Load.new ops

/-! ## The service mode 0 -/

def directConfig : ConnectConfig where
  dioEnable := false
  serviceMode := 0
  maxConcurrent := 10
  trustServer := false
  initNodes := 0
  nchTable _ := -1
  irbt tree := .ofList tree Prod.fst

/-- A connection that works is returned once. -/
def directOps : List (Op Nat) :=
  [.addConnect 10 .dgram true, .notify 10 0, .goAction, .getConnect 0]

theorem directOps_not_balanced :
    ¬ ∀ (config : ConnectConfig) (ops : List (Op Nat)),
      AllStates (step config) Balanced (new : Connects Nat) ops := by
  intro all
  have facts : (run (step directConfig) (new : Connects Nat) directOps).any (fun client =>
      (client.memory 0).any fun conn => decide (conn.pending ≠ (client.held.count 0 : Int))) =
        true := by
    decide
  obtain ⟨client, execution, wrong⟩ := (Option.any_eq_true _ _).mp facts
  obtain ⟨conn, found, differs⟩ := (Option.any_eq_true _ _).mp wrong
  exact of_decide_eq_true differs ((all directConfig directOps).of_run execution 0 conn found).1

end Connects

end CommonLib
