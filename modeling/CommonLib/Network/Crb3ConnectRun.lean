import CommonLib.Network.Crb3Connect

/-!
# Runs of the connection table

The invariant says where a connection is, what its counters are and which connections the tree has.
It survives every step that frees nothing with a hash, and only connections that work in
`_PutConnect`.
-/

namespace CommonLib.Connects

variable {α : Type}

structure Inv (config : ConnectConfig) (client : Connects α) : Prop where
  listed : Listed client
  counted : Counted client
  indexed : Indexed config client

section Step

variable {config : ConnectConfig} {client : Connects α} {cnode : Nat} {conn : CRB3_CONNECTION α}

theorem Inv.new (config : ConnectConfig) : Inv config (new : Connects α) where
  listed := ⟨fun _ => List.nodup_nil, by simp [Connects.new], rfl⟩
  counted := by
    refine ⟨fun _ _ => rfl, ?_, ?_, ?_, List.nodup_nil, ?_, ?_⟩ <;> simp [Connects.new]
  indexed := ⟨by simp [Connects.new], List.nodup_nil, by simp [Connects.new]⟩

theorem Inv.kept (inv : Inv config client) : Kept client := by
  obtain ⟨listed, counted, indexed⟩ := inv
  refine ⟨listed.nodup, listed.listed, listed.placed, counted.once, fun cnode member => ?_,
    fun cnode called unheld => (counted.deleted cnode called).resolve_left unheld,
    indexed.indexed⟩
  obtain ⟨gone, called, -⟩ := counted.freed cnode member
  refine ⟨gone, called, fun held => ?_⟩
  obtain ⟨conn, found, -⟩ := counted.live cnode held
  rw [gone] at found
  cases found

/-- Writing to fields that no structure depends on. -/
theorem Inv.rewrite (inv : Inv config client) {write : Nat → CRB3_CONNECTION α → CRB3_CONNECTION α}
    (same : ∀ cnode conn, (write cnode conn).status = conn.status ∧
      (write cnode conn).hash = conn.hash ∧ (write cnode conn).reference = conn.reference ∧
      (write cnode conn).toDelete = conn.toDelete ∧ (write cnode conn).refList = conn.refList) :
    Inv config (client.rewrite write) where
  listed := inv.listed.rewrite fun cnode conn => (same cnode conn).1
  counted := inv.counted.rewrite fun cnode conn => (same cnode conn).2.2
  indexed := inv.indexed.rewrite fun cnode conn => (same cnode conn).2.1

theorem Inv.update (inv : Inv config client) {write : CRB3_CONNECTION α → CRB3_CONNECTION α}
    (same : ∀ conn, (write conn).status = conn.status ∧ (write conn).hash = conn.hash ∧
      (write conn).reference = conn.reference ∧ (write conn).toDelete = conn.toDelete ∧
      (write conn).refList = conn.refList) (cnode : Nat) :
    Inv config (client.update cnode write) := by
  refine inv.rewrite fun other conn => ?_
  split
  · exact same conn
  · exact ⟨rfl, rfl, rfl, rfl, rfl⟩

theorem Inv.check (inv : Inv config client) (late : Nat → Bool) (pendMax : Nat → Int) :
    Inv config (client.check late pendMax) := by
  apply inv.rewrite
  intro cnode conn
  dsimp only
  (repeat' split) <;> exact ⟨rfl, rfl, rfl, rfl, rfl⟩

/-- A caller takes, gives back or deletes a connection that goes on. -/
theorem Inv.count (inv : Inv config client) (found : client.memory cnode = some conn)
    {write : CRB3_CONNECTION α → CRB3_CONNECTION α} {held deleted : List Nat}
    (same : ∀ conn, (write conn).status = conn.status ∧ (write conn).hash = conn.hash)
    (others : ∀ other, other ≠ cnode → held.count other = client.held.count other ∧
      (other ∈ deleted ↔ other ∈ client.deleted))
    (reference : (write conn).reference = held.count cnode)
    (toDelete : (write conn).toDelete = true ↔ cnode ∈ deleted)
    (refList : cnode ∈ held → (write conn).refList = some .working)
    (stays : cnode ∈ deleted → cnode ∈ held) :
    Inv config { client.update cnode write with held, deleted } := by
  have listed : Listed (client.update cnode write) := inv.listed.rewrite fun other conn => by
    split
    · exact (same conn).1
    · rfl
  have indexed : Indexed config (client.update cnode write) :=
    inv.indexed.rewrite fun other conn => by
      split
      · exact (same conn).2
      · rfl
  exact ⟨⟨listed.nodup, listed.listed, listed.placed⟩,
    inv.counted.update found others reference toDelete refList stays,
    ⟨indexed.indexed, indexed.keys, indexed.known⟩⟩

/-- A deleted connection that nobody holds any more is freed; it has no hash. -/
theorem Inv.free (inv : Inv config client) (found : client.memory cnode = some conn)
    (none : conn.hash < 0) {held deleted : List Nat}
    (others : ∀ other, other ≠ cnode → held.count other = client.held.count other ∧
      (other ∈ deleted ↔ other ∈ client.deleted))
    (unheld : cnode ∉ held) (called : cnode ∈ deleted) :
    Inv config (({ client with held, deleted }.lstDelete conn.status cnode).free cnode) := by
  have listed : Listed { client with held, deleted } :=
    ⟨inv.listed.nodup, inv.listed.listed, inv.listed.placed⟩
  have indexed : Indexed config { client with held, deleted } :=
    ⟨inv.indexed.indexed, inv.indexed.keys, inv.indexed.known⟩
  have unlisted := lstDelete_relisted { client with held, deleted } conn.status cnode
  exact ⟨listed.remove found,
    (inv.counted.free found others unheld called).relisted (unlisted.free cnode),
    (indexed.free found none).relisted (unlisted.free cnode)⟩

/-! ## `_GoAction` -/

/-- A connection that is moved changes its status and its list together. -/
theorem Inv.goActionNode (inv : Inv config client) {fromList : ConnectStatus}
    (member : cnode ∈ client.lists fromList) :
    Inv config (goActionNode config fromList client cnode) := by
  obtain ⟨conn, found, rfl⟩ := (inv.listed.listed _ _).mp member
  unfold Connects.goActionNode
  split
  · apply inv.update
    exact fun conn => ⟨rfl, rfl, rfl, rfl, rfl⟩
  · next status target =>
    have deleted := lstDelete_relisted client conn.status cnode
    have absent : cnode ∉ (client.lstDelete conn.status cnode).lists status := by
      rw [mem_lstDelete (inv.listed.nodup _) member]
      rintro ⟨listed, differ⟩
      obtain ⟨conn', found', rfl⟩ := (inv.listed.listed _ _).mp listed
      rw [found] at found'
      obtain rfl := Option.some.inj found'
      exact differ rfl rfl
    have nodup : ∀ name, ((client.lstDelete conn.status cnode).lists name).Nodup :=
      nodup_lstDelete inv.listed.nodup
    split
    · have inserted := deleted.trans (lstInsert_relisted _ status cnode)
      refine ⟨inv.listed.attach found inserted.memory_eq
          ((lstDelete_placed member).trans inv.listed.placed) (nodup_lstInsert nodup absent)
          (fun name other => ?_) (fun _ => rfl), ?_, ?_⟩
      · rw [mem_lstInsert, mem_lstDelete (inv.listed.nodup _) member]
      · exact (inv.counted.relisted inserted).rewrite fun other conn => by split <;> simp
      · exact (inv.indexed.relisted inserted).rewrite fun other conn => by split <;> rfl
    · have added := deleted.trans (lstAdd_relisted _ status cnode)
      refine ⟨inv.listed.attach found added.memory_eq
          ((lstDelete_placed member).trans inv.listed.placed) (nodup_lstAdd nodup absent)
          (fun name other => ?_) (fun _ => rfl), ?_, ?_⟩
      · rw [mem_lstAdd, mem_lstDelete (inv.listed.nodup _) member]
      · exact (inv.counted.relisted added).rewrite fun other conn => by split <;> simp
      · exact (inv.indexed.relisted added).rewrite fun other conn => by split <;> rfl

/-- The other connections stay on their lists. -/
theorem mem_goActionNode (nodup : ∀ list, (client.lists list).Nodup) {fromList name : ConnectStatus}
    (member : cnode ∈ client.lists fromList) {other : Nat} (differ : other ≠ cnode)
    (listed : other ∈ client.lists name) :
    other ∈ (goActionNode config fromList client cnode).lists name := by
  unfold goActionNode
  split
  · exact listed
  · have still : other ∈ (client.lstDelete fromList cnode).lists name :=
      (mem_lstDelete (nodup _) member).mpr ⟨listed, fun _ => differ⟩
    split
    · exact mem_lstInsert.mpr (.inl still)
    · exact mem_lstAdd.mpr (.inl still)

theorem Inv.goActionList (inv : Inv config client) (fromList : ConnectStatus) :
    Inv config (goActionList config client fromList) := by
  have moved : ∀ cnodes : List Nat, cnodes.Nodup → ∀ client : Connects α, Inv config client →
      (∀ cnode ∈ cnodes, cnode ∈ client.lists fromList) →
      Inv config (cnodes.foldl (Connects.goActionNode config fromList) client) := by
    intro cnodes
    induction cnodes with
    | nil => exact fun _ client inv _ => inv
    | cons cnode cnodes induction =>
        intro nodup client inv members
        obtain ⟨absent, nodup⟩ := List.nodup_cons.mp nodup
        have member := members cnode List.mem_cons_self
        refine induction nodup _ (inv.goActionNode member) fun other listed => ?_
        exact mem_goActionNode inv.listed.nodup member (ne_of_mem_of_not_mem listed absent)
          (members other (List.mem_cons_of_mem _ listed))
  exact moved _ (inv.listed.nodup fromList) client inv fun _ member => member

theorem Inv.goAction (inv : Inv config client) : Inv config (goAction config client) :=
  ((inv.goActionList _).goActionList _).goActionList _

/-! ## `_GetConnect` -/

/-- A connection that `_NCHAlgCalc` finds is in the tree. -/
theorem nchAlgCalc_live (lawful : ∀ tree : List (Nat × Nat), (tree.map Prod.fst).Nodup →
      (config.irbt tree).Lawful tree.toFinset Prod.fst)
    (indexed : Indexed config client) {hash : Nat}
    (found : nchAlgCalc config client hash = some cnode) :
    ∃ conn, client.memory cnode = some conn := by
  obtain ⟨⟨key, node⟩, selected, rfl⟩ := Option.map_eq_some_iff.mp found
  have enough : 2 * client.nchTree.toFinset.card < 2 * client.nchTree.length + 1 := by
    have := client.nchTree.toFinset_card_le
    omega
  have distinct : Set.InjOn Prod.fst (client.nchTree.toFinset : Set (Nat × Nat)) := by
    intro first first_member second second_member same
    exact List.inj_on_of_nodup_map indexed.keys (by simpa using first_member)
      (by simpa using second_member) same
  let status := fun node : Nat × Nat =>
    ((client.memory node.2).map (·.status.code)).getD CRB3_STATUS_NULL
  obtain ⟨result, ends, first⟩ : ∃ result,
      nchSearch (config.irbt client.nchTree) status hash (2 * client.nchTree.length + 1) =
        some result ∧
      MetFirst client.nchTree.toFinset Prod.fst status (hash % CRB3_MAX_HASH_NODES) result :=
    nchSearch_metFirst (lawful _ indexed.keys) distinct hash enough
  rw [ends] at selected
  obtain rfl : result = some (key, node) := selected
  obtain ⟨conn, conn_found, -⟩ := (indexed.indexed key node).mp (List.mem_toFinset.mp first.1)
  exact ⟨conn, conn_found⟩

theorem Inv.addPending (inv : Inv config client) (cnode : Nat) :
    Inv config (client.addPending cnode) := by
  apply inv.update
  exact fun conn => ⟨rfl, rfl, rfl, rfl, rfl⟩

/-- A connection goes to the end of the working list. -/
theorem Inv.rotate (inv : Inv config client) (member : cnode ∈ client.lists .working) :
    Inv config ((client.lstDelete .working cnode).lstAdd .working cnode) := by
  have nodup : ∀ list, ((client.lstDelete .working cnode).lists list).Nodup :=
    nodup_lstDelete inv.listed.nodup
  have absent : cnode ∉ (client.lstDelete .working cnode).lists .working := by
    rw [mem_lstDelete (inv.listed.nodup _) member]
    exact fun still => still.2 rfl rfl
  have same := (lstDelete_relisted client .working cnode).trans (lstAdd_relisted _ .working cnode)
  refine ⟨⟨nodup_lstAdd nodup absent, fun list other => ?_,
    (lstDelete_placed member).trans inv.listed.placed⟩, inv.counted.relisted same,
    inv.indexed.relisted same⟩
  rw [mem_lstAdd, mem_lstDelete (inv.listed.nodup _) member, same.memory_eq, ← inv.listed.listed]
  by_cases moved : list = .working ∧ other = cnode
  · obtain ⟨rfl, rfl⟩ := moved
    simp [member]
  · tauto

theorem chooseConnect_spec (lawful : ∀ tree : List (Nat × Nat), (tree.map Prod.fst).Nodup →
      (config.irbt tree).Lawful tree.toFinset Prod.fst)
    (inv : Inv config client) {hash : Nat} {chosen : Connects α}
    (choice : chooseConnect config client hash = some (cnode, chosen)) :
    Inv config chosen ∧ ∃ conn, chosen.memory cnode = some conn := by
  have pending : ∀ conn, client.memory cnode = some conn →
      ∃ conn, (client.addPending cnode).memory cnode = some conn := by
    intro conn found
    exact ⟨{ conn with pending := conn.pending + 1 },
      by simp [Connects.addPending, Connects.update, Connects.rewrite, found]⟩
  unfold chooseConnect at choice
  split at choice
  · obtain ⟨node, found, same⟩ := Option.map_eq_some_iff.mp choice
    cases same
    obtain ⟨conn, conn_found⟩ := nchAlgCalc_live lawful inv.indexed found
    exact ⟨inv.addPending cnode, pending conn conn_found⟩
  split at choice
  · obtain ⟨node, found, same⟩ := Option.map_eq_some_iff.mp choice
    cases same
    have member := List.mem_of_find?_eq_some found
    obtain ⟨conn, conn_found, -⟩ := (inv.listed.listed _ _).mp member
    have same := (lstDelete_relisted (client.addPending cnode) .working cnode).trans
      (lstAdd_relisted _ .working cnode)
    refine ⟨(inv.addPending cnode).rotate member, ?_⟩
    rw [same.memory_eq]
    exact pending conn conn_found
  · obtain ⟨node, found, same⟩ := Option.map_eq_some_iff.mp choice
    cases same
    obtain ⟨conn, conn_found, -⟩ :=
      (inv.listed.listed _ _).mp (List.mem_of_head? found)
    exact ⟨inv, conn, conn_found⟩

theorem Inv.getConnect (inv : Inv config client)
    (lawful : ∀ tree : List (Nat × Nat), (tree.map Prod.fst).Nodup →
      (config.irbt tree).Lawful tree.toFinset Prod.fst) (hash : Nat) :
    Inv config (client.getConnect config hash) := by
  unfold Connects.getConnect
  split
  · exact inv
  · next cnode chosen choice =>
    obtain ⟨inv, conn, found⟩ := chooseConnect_spec lawful inv choice
    have counts : Inv config
        { chosen.update cnode fun conn =>
            { conn with reference := conn.reference + 1, refList := some .working } with
          held := cnode :: chosen.held, deleted := chosen.deleted } := by
      refine inv.count found (fun _ => ⟨rfl, rfl⟩) (fun other differ => ?_) ?_
        (inv.counted.toDelete cnode conn found) (fun _ => rfl) (fun _ => List.mem_cons_self)
      · exact ⟨List.count_cons_of_ne differ.symm, Iff.rfl⟩
      · simp [inv.counted.reference cnode conn found]
    exact counts

/-- A connection with a hash must not be freed. -/
theorem Inv.free_dangling (inv : Inv config client) (found : client.memory cnode = some conn)
    (some_hash : ¬ conn.hash < 0) {unlisted : Connects α} (same : unlisted.nchTree = client.nchTree) :
    ¬ Kept (unlisted.free cnode) := by
  intro kept
  have member : (conn.hash.toNat, cnode) ∈ client.nchTree :=
    (inv.indexed.indexed _ _).mpr ⟨conn, found, by omega⟩
  rw [← same] at member
  obtain ⟨conn', found', -⟩ := (kept.indexed _ _).mp member
  have gone : (unlisted.free cnode).memory cnode = none := Function.update_self ..
  rw [gone] at found'
  cases found'

end Step

section Callers

variable [DecidableEq α] {config : ConnectConfig} {client : Connects α} {cnode : Nat}
  {conn : CRB3_CONNECTION α}

theorem findConnect_mem {addr : α} {list : ConnectStatus}
    (found : client.findConnect addr = some (cnode, list)) : cnode ∈ client.lists list := by
  obtain ⟨from_list, -, found⟩ := List.exists_of_findSome?_eq_some found
  obtain ⟨first, first_found, same⟩ := Option.map_eq_some_iff.mp found
  cases same
  exact List.mem_of_find?_eq_some first_found

/-! ## `AddConnect` -/

theorem addConnect_eq {addr : α} {protocol : SockType} {memoryLeft : Bool}
    (accepted : config.accepts protocol memoryLeft) :
    client.addConnect config addr protocol memoryLeft =
      match client.findConnect addr with
      | some _ =>
          { client with
            next := client.next + 1, sequence := client.sequence + 1,
            nchTree := Indexed.insertNew config client }
      | none =>
          { client with
            memory := Function.update client.memory client.next
              (some { serverAddr := addr, status := .exception, flag := .clear, protocol,
                      pending := 0, pendMax := config.maxConcurrent, reference := 0,
                      toDelete := false, hash := config.nchGet client.sequence, refList := none }),
            next := client.next + 1, sequence := client.sequence + 1,
            nchTree := Indexed.insertNew config client }.lstInsert .exception client.next := by
  rw [addConnect, if_pos accepted]
  rfl

theorem Inv.addConnect (inv : Inv config client) (distinct : config.Distinct) {addr : α}
    {protocol : SockType} {memoryLeft : Bool}
    (safe : Safe config client (.addConnect addr protocol memoryLeft)) :
    Inv config (client.addConnect config addr protocol memoryLeft) := by
  obtain ⟨listed, counted, indexed⟩ := inv
  by_cases accepted : config.accepts protocol memoryLeft
  swap
  · rw [Connects.addConnect, if_neg accepted]
    exact ⟨listed, counted, indexed⟩
  rw [addConnect_eq accepted]
  split
  · next found =>
    have none := safe accepted (Option.isSome_of_eq_some found)
    have tree_eq : Indexed.insertNew config client = client.nchTree := if_neg (by omega)
    rw [tree_eq]
    refine ⟨⟨listed.nodup, listed.listed, listed.placed⟩, ?_, indexed.later⟩
    refine ⟨fun cnode unused => counted.fresh cnode (Nat.le_of_succ_le unused), counted.reference,
      counted.toDelete, counted.live, counted.once, fun cnode member => ?_, counted.deleted⟩
    obtain ⟨gone, called, lower⟩ := counted.freed cnode member
    exact ⟨gone, called, Nat.lt_succ_of_lt lower⟩
  · have fresh := counted.fresh client.next le_rfl
    have absent : ∀ list, client.next ∉ client.lists list := by
      intro list member
      obtain ⟨conn, found, -⟩ := (listed.listed _ _).mp member
      rw [fresh] at found
      cases found
    refine ⟨⟨nodup_lstInsert listed.nodup (absent _), fun list cnode => mem_lstInsert.trans ?_,
      listed.placed⟩, (counted.add rfl rfl).relisted (lstInsert_relisted _ _ _),
      (indexed.add distinct fresh rfl).relisted (lstInsert_relisted _ _ _)⟩
    by_cases same : cnode = client.next
    · subst same
      simp [absent, lstInsert, setList, eq_comm]
    · simp [listed.listed, lstInsert, setList, same]

/-! ## `DelConnect` -/

theorem Inv.delConnect (inv : Inv config client) {addr : α}
    (safe : Safe config client (.delConnect addr)) : Inv config (client.delConnect addr) := by
  unfold Connects.delConnect
  split
  · exact inv
  · next cnode fromList found =>
    obtain ⟨conn, conn_found, rfl⟩ := (inv.listed.listed _ _).mp (findConnect_mem found)
    have reference := inv.counted.reference cnode conn conn_found
    have others : ∀ other, other ≠ cnode → client.held.count other = client.held.count other ∧
        (other ∈ cnode :: client.deleted ↔ other ∈ client.deleted) := by
      intro other differ
      exact ⟨rfl, by simp [differ]⟩
    simp only [conn_found, Option.any_some, decide_eq_true_eq]
    split
    · next unreferenced =>
      have unheld : cnode ∉ client.held := by
        rw [← List.count_eq_zero]
        omega
      exact inv.free conn_found (safe _ found conn conn_found unreferenced) others unheld
        List.mem_cons_self
    · next referenced =>
      have held : cnode ∈ client.held := by
        rw [← List.count_pos_iff]
        omega
      obtain ⟨conn', found', refList⟩ := inv.counted.live cnode held
      rw [conn_found] at found'
      obtain rfl := Option.some.inj found'
      have counts : Inv config
          { client.update cnode fun conn => { conn with toDelete := true } with
            held := client.held, deleted := cnode :: client.deleted } :=
        inv.count conn_found (fun _ => ⟨rfl, rfl⟩) others reference (by simp) (fun _ => refList)
          fun _ => held
      exact counts

/-! ## `_PutConnect` -/

theorem Inv.putConnect (inv : Inv config client) {client' : Connects α}
    (safe : Safe config client (.putConnect cnode)) (put : client.putConnect cnode = some client') :
    Inv config client' := by
  unfold Connects.putConnect at put
  split at put
  swap
  · cases put
  next held =>
  obtain ⟨conn, found, rfl⟩ := Option.map_eq_some_iff.mp put
  obtain ⟨conn', found', refList⟩ := inv.counted.live cnode held
  rw [found] at found'
  obtain rfl := Option.some.inj found'
  have reference := inv.counted.reference cnode conn found
  have others : ∀ other, other ≠ cnode →
      (client.held.erase cnode).count other = client.held.count other ∧
        (other ∈ client.deleted ↔ other ∈ client.deleted) :=
    fun other differ => ⟨List.count_erase_of_ne differ, Iff.rfl⟩
  have count_eq : (client.held.erase cnode).count cnode = client.held.count cnode - 1 :=
    List.count_erase_self
  have positive := List.count_pos_iff.mpr held
  split
  · next last =>
    obtain ⟨none, member⟩ := safe conn found (by omega) last.2
    obtain ⟨conn', found', working⟩ := (inv.listed.listed _ _).mp member
    rw [found] at found'
    obtain rfl := Option.some.inj found'
    rw [refList]
    have freed := inv.free found none others (by rw [← List.count_eq_zero]; omega)
      ((inv.counted.toDelete cnode conn found).mp last.2)
    rw [working] at freed
    exact freed
  · next stays =>
    have counts : Inv config
        { client.update cnode fun conn =>
            { conn with pending := conn.pending - 1, reference := conn.reference - 1 } with
          held := client.held.erase cnode, deleted := client.deleted } := by
      refine inv.count found (fun _ => ⟨rfl, rfl⟩) others ?_
        (inv.counted.toDelete cnode conn found) (fun _ => refList) (fun called => ?_)
      · change conn.reference - 1 = _
        omega
      · rw [← List.count_pos_iff]
        have := (inv.counted.toDelete cnode conn found).mpr called
        simp only [this, and_true] at stays
        omega
    exact counts

/-! ## All steps -/

theorem Inv.notify (inv : Inv config client) (addr : α) (status : Int) :
    Inv config (client.notify addr status) := by
  unfold Connects.notify
  split
  · exact inv
  · apply inv.update
    intro conn
    (repeat' split) <;> exact ⟨rfl, rfl, rfl, rfl, rfl⟩

theorem Inv.step (inv : Inv config client) (distinct : config.Distinct)
    (lawful : ∀ tree : List (Nat × Nat), (tree.map Prod.fst).Nodup →
      (config.irbt tree).Lawful tree.toFinset Prod.fst) {op : Op α} (safe : Safe config client op)
    {client' : Connects α} (made : client.step config op = some client') : Inv config client' := by
  cases op with
  | putConnect cnode => exact inv.putConnect safe made
  | addConnect addr protocol memoryLeft =>
      cases made
      exact inv.addConnect distinct safe
  | addElsewhere =>
      cases made
      exact ⟨⟨inv.listed.nodup, inv.listed.listed, inv.listed.placed⟩,
        ⟨inv.counted.fresh, inv.counted.reference, inv.counted.toDelete, inv.counted.live,
          inv.counted.once, inv.counted.freed, inv.counted.deleted⟩, inv.indexed.later⟩
  | delConnect addr =>
      cases made
      exact inv.delConnect safe
  | getConnect hash =>
      cases made
      exact inv.getConnect lawful hash
  | notify addr status =>
      cases made
      exact inv.notify addr status
  | check late pendMax =>
      cases made
      exact inv.check late pendMax
  | goAction =>
      cases made
      exact inv.goAction

/-! ## Unsafe steps -/

theorem Inv.addConnect_broken (inv : Inv config client) (distinct : config.Distinct) {addr : α}
    {protocol : SockType} {memoryLeft : Bool}
    (violated : ¬ Safe config client (.addConnect addr protocol memoryLeft)) :
    ¬ Kept (client.addConnect config addr protocol memoryLeft) := by
  simp only [Safe, not_forall] at violated
  obtain ⟨accepted, duplicate, some_hash⟩ := violated
  rw [addConnect_eq accepted]
  split
  · intro kept
    have member : ((config.nchGet client.sequence).toNat, client.next) ∈
        Indexed.insertNew config client := by
      rw [inv.indexed.insertNew_eq distinct (by omega)]
      exact List.mem_cons_self
    obtain ⟨conn, found, -⟩ := (kept.indexed _ _).mp member
    have fresh := inv.counted.fresh client.next le_rfl
    rw [fresh] at found
    cases found
  · next absent =>
    rw [absent] at duplicate
    cases duplicate

theorem Inv.delConnect_broken (inv : Inv config client) {addr : α}
    (violated : ¬ Safe config client (.delConnect addr)) : ¬ Kept (client.delConnect addr) := by
  simp only [Safe, not_forall] at violated
  obtain ⟨⟨cnode, fromList⟩, found, conn, conn_found, unreferenced, some_hash⟩ := violated
  have found : client.findConnect addr = some (cnode, fromList) := found
  have conn_found : client.memory cnode = some conn := conn_found
  unfold Connects.delConnect
  rw [found]
  simp only [conn_found, Option.any_some, unreferenced, decide_true, if_true]
  refine inv.free_dangling conn_found some_hash ?_
  rw [← lstDelete_relisted { client with deleted := cnode :: client.deleted } fromList cnode]

theorem Inv.putConnect_broken (inv : Inv config client) {client' : Connects α}
    (violated : ¬ Safe config client (.putConnect cnode))
    (put : client.putConnect cnode = some client') : ¬ Kept client' := by
  simp only [Safe, not_forall] at violated
  obtain ⟨conn, found, referenced, called, violation⟩ := violated
  have found : client.memory cnode = some conn := found
  unfold Connects.putConnect at put
  split at put
  swap
  · cases put
  next held =>
  obtain ⟨conn', found', refList⟩ := inv.counted.live cnode held
  rw [found] at found'
  obtain rfl := Option.some.inj found'
  have last : conn.reference - 1 = 0 ∧ conn.toDelete = true := ⟨by omega, called⟩
  simp only [found, Option.map_some, refList, if_pos last, Option.some.injEq] at put
  subst put
  by_cases some_hash : conn.hash < 0
  · have misplaced : cnode ∉ client.lists .working := fun member => violation ⟨some_hash, member⟩
    intro kept
    have placed := kept.placed
    rw [lstDelete, if_neg misplaced] at placed
    cases placed
  · refine inv.free_dangling found some_hash ?_
    rw [← lstDelete_relisted { client with held := client.held.erase cnode } .working cnode]

/-- A step that is not safe breaks the bookkeeping. -/
theorem Inv.step_broken (inv : Inv config client) (distinct : config.Distinct) {op : Op α}
    (violated : ¬ Safe config client op) {client' : Connects α}
    (made : client.step config op = some client') : ¬ Kept client' := by
  cases op with
  | putConnect cnode => exact inv.putConnect_broken violated made
  | addConnect addr protocol memoryLeft =>
      cases made
      exact inv.addConnect_broken distinct violated
  | delConnect addr =>
      cases made
      exact inv.delConnect_broken violated
  | _ => exact absurd trivial violated

end Callers

open Execution

/-- The bookkeeping is kept throughout a run exactly when no step frees a connection that has a
hash, or frees one in `_PutConnect` that does not work. -/
theorem kept_iff_safe [DecidableEq α] (config : ConnectConfig) (distinct : config.Distinct)
    (lawful : ∀ tree : List (Nat × Nat), (tree.map Prod.fst).Nodup →
      (config.irbt tree).Lawful tree.toFinset Prod.fst) (ops : List (Op α)) :
    AllStates (step config) Kept new ops ↔ AllSteps (step config) (Safe config) new ops :=
  allStates_iff_allSteps (Inv config) Inv.kept
    (fun inv safe made => inv.step distinct lawful safe made)
    (fun inv violated made => inv.step_broken distinct violated made) (Inv.new config) ops

instance decidableSafe [DecidableEq α] (config : ConnectConfig) (client : Connects α) :
    (op : Op α) → Decidable (Safe config client op)
  | .addConnect addr protocol memoryLeft =>
      inferInstanceAs (Decidable (config.accepts protocol memoryLeft →
        (client.findConnect addr).isSome → config.nchGet client.sequence < 0))
  | .delConnect addr =>
      inferInstanceAs (Decidable (∀ found ∈ client.findConnect addr,
        ∀ conn ∈ client.memory found.1, conn.reference = 0 → conn.hash < 0))
  | .putConnect cnode =>
      inferInstanceAs (Decidable (∀ conn ∈ client.memory cnode, conn.reference = 1 →
        conn.toDelete → conn.hash < 0 ∧ cnode ∈ client.lists .working))
  | .addElsewhere | .getConnect _ | .notify _ _ | .check _ _ | .goAction => isTrue trivial

/-- Balance mode, and a table for one node. -/
def balanceConfig : ConnectConfig where
  dioEnable := false
  serviceMode := 1
  maxConcurrent := 10
  trustServer := false
  initNodes := 1
  nchTable srvId := if srvId = 0 then 0 else -1
  irbt tree := .ofList tree Prod.fst

theorem balanceConfig_distinct : balanceConfig.Distinct := by
  intro first _ second _ some_hash same
  simp only [balanceConfig] at some_hash same
  split at some_hash
  · split at same
    · omega
    · omega
  · omega

/-- A connection without a hash is deleted while a caller holds it, and freed by the last
`_PutConnect`. -/
theorem kept_iff_safe_deferred :
    AllStates (step balanceConfig) Kept new
      [.addConnect 10 .dgram true, .addConnect 20 .dgram true, .notify 20 0, .goAction,
        .getConnect 5, .delConnect 20, .addConnect 30 .dgram true, .putConnect 1] :=
  (kept_iff_safe balanceConfig balanceConfig_distinct (fun tree _ => Irbt.ofList_lawful tree _)
    [.addConnect 10 .dgram true, .addConnect 20 .dgram true, .notify 20 0, .goAction,
      .getConnect 5, .delConnect 20, .addConnect 30 .dgram true, .putConnect 1]).mpr (by decide)

/-- A connection is deferred for deletion while it works, and goes to the exception list before the
last `_PutConnect`, which looks for it on the working list. -/
theorem putConnect_misplaced :
    ¬ ∀ (config : ConnectConfig) (ops : List (Op Nat)), config.Distinct →
      (∀ tree : List (Nat × Nat), (tree.map Prod.fst).Nodup →
        (config.irbt tree).Lawful tree.toFinset Prod.fst) →
      AllStates (step config) Kept new ops := by
  intro all
  let ops : List (Op Nat) :=
    [.addElsewhere, .addConnect 10 .dgram true, .notify 10 0, .goAction, .getConnect 5,
      .delConnect 10, .notify 10 2, .goAction, .putConnect 0]
  have facts : (run (step balanceConfig) new ops).any (fun client => client.misplaced) = true := by
    decide
  obtain ⟨client, execution, misplaced⟩ := (Option.any_eq_true _ _).mp facts
  have kept := (all balanceConfig ops balanceConfig_distinct
    (fun tree _ => Irbt.ofList_lawful tree _)).of_run execution
  rw [kept.placed] at misplaced
  cases misplaced

end CommonLib.Connects
