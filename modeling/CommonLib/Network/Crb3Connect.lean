import CommonLib.Library.Execution
import CommonLib.Network.Crb3Search
import Mathlib.Data.List.Nodup

/-!
# The connections of the CRB3 client

`AddConnect`, `DelConnect`, `_GetConnect`, `_PutConnect` and `_GoAction` each work on the three
lists of connections, on `NCHTree` and on the counters of a connection under `ConnectLocker`.  An
address handed out by `malloc` is a number that was not handed out before.
-/

namespace CommonLib

/-- `CRB3_STATUS_xxxx` of a connection, which also names the list of the connections with that
status. -/
inductive ConnectStatus
  | working
  | backup
  | exception
deriving DecidableEq

def ConnectStatus.code : ConnectStatus → Int
  | working => CRB3_STATUS_WORKING
  | backup => CRB3_STATUS_BACKUP
  | exception => CRB3_STATUS_EXCEPTION

/-- The bits `CRB3_FLAG_GO_xxxx`. -/
structure ConnectFlag where
  goWorking : Bool
  goBackup : Bool
  goException : Bool
deriving DecidableEq

def ConnectFlag.clear : ConnectFlag := ⟨false, false, false⟩

/-- Where the flags send a connection. -/
def ConnectFlag.target (flag : ConnectFlag) : Option ConnectStatus :=
  if flag.goWorking then some .working
  else if flag.goBackup then some .backup
  else if flag.goException then some .exception
  else none

inductive SockType
  | dgram
  | stream
deriving DecidableEq

structure CRB3_CONNECTION (α : Type) where
  serverAddr : α
  status : ConnectStatus
  flag : ConnectFlag
  protocol : SockType
  pending : Int
  pendMax : Int
  reference : Int
  toDelete : Bool
  hash : Int
  refList : Option ConnectStatus

/-- What does not change while the client runs; `irbt` is the tree library. -/
structure ConnectConfig where
  dioEnable : Bool
  serviceMode : Nat
  maxConcurrent : Int
  /-- `CRB3_TRUST_SERVER` is defined. -/
  trustServer : Bool
  initNodes : Int
  nchTable : Nat → Int
  irbt : List (Nat × Nat) → Irbt (Nat × Nat)

/-- `CRB3Client::_NCHGet`. -/
def ConnectConfig.nchGet (config : ConnectConfig) (srvId : Nat) : Int :=
  if 0 < config.initNodes ∧ srvId < CRB3_MAX_HASH_NODES then config.nchTable srvId else -1

/-- The entries of the table that are hashes differ. -/
def ConnectConfig.Distinct (config : ConnectConfig) : Prop :=
  ∀ first < CRB3_MAX_HASH_NODES, ∀ second < CRB3_MAX_HASH_NODES, 0 ≤ config.nchTable first →
    config.nchTable first = config.nchTable second → first = second

/-- `AddConnect` goes on after the check of its parameters and the `malloc`. -/
def ConnectConfig.accepts (config : ConnectConfig) (protocol : SockType) (memoryLeft : Bool) : Bool :=
  !(protocol = .stream && config.dioEnable) && memoryLeft

/-- The connections, with what the callers did to them. -/
structure Connects (α : Type) where
  memory : Nat → Option (CRB3_CONNECTION α)
  /-- The next address of `malloc`. -/
  next : Nat
  lists : ConnectStatus → List Nat
  /-- The nodes of the tree with their keys. -/
  nchTree : List (Nat × Nat)
  /-- The static counter of `AddConnect`. -/
  sequence : Nat
  /-- The connections that callers hold. -/
  held : List Nat
  /-- The connections that `DelConnect` was called for. -/
  deleted : List Nat
  /-- The connections that were freed. -/
  freed : List Nat
  /-- An `lstDelete` was made on a list without the node. -/
  misplaced : Bool

/-- A node with a new key enters the tree. -/
def irbtInsert (tree : List (Nat × Nat)) (node : Nat × Nat) : List (Nat × Nat) :=
  if node.1 ∈ tree.map Prod.fst then tree else node :: tree

namespace Connects

variable {α : Type}

def new : Connects α :=
  { memory := fun _ => none, next := 0, lists := fun _ => [], nchTree := [], sequence := 0,
    held := [], deleted := [], freed := [], misplaced := false }

/-! ## Lists and memory -/

/-- Write to the connections. -/
def rewrite (client : Connects α) (write : Nat → CRB3_CONNECTION α → CRB3_CONNECTION α) :
    Connects α :=
  { client with memory := fun cnode => (client.memory cnode).map (write cnode) }

/-- Write to one connection. -/
def update (client : Connects α) (cnode : Nat) (write : CRB3_CONNECTION α → CRB3_CONNECTION α) :
    Connects α :=
  client.rewrite fun other conn => if other = cnode then write conn else conn

def setList (client : Connects α) (list : ConnectStatus) (cnodes : List Nat) : Connects α :=
  { client with lists := Function.update client.lists list cnodes }

/-- `lstAdd`, at the end. -/
def lstAdd (client : Connects α) (list : ConnectStatus) (cnode : Nat) : Connects α :=
  client.setList list (client.lists list ++ [cnode])

/-- `lstInsert` without a node before it. -/
def lstInsert (client : Connects α) (list : ConnectStatus) (cnode : Nat) : Connects α :=
  client.setList list (cnode :: client.lists list)

def lstDelete (client : Connects α) (list : ConnectStatus) (cnode : Nat) : Connects α :=
  if cnode ∈ client.lists list then client.setList list ((client.lists list).erase cnode)
  else { client with misplaced := true }

def free (client : Connects α) (cnode : Nat) : Connects α :=
  { client with memory := Function.update client.memory cnode none,
                freed := cnode :: client.freed }

/-! ## The operations -/

variable [DecidableEq α]

/-- `CRB3Client::_FindConnect2`, with the list on which the connection was found. -/
def findConnect (client : Connects α) (addr : α) : Option (Nat × ConnectStatus) :=
  [ConnectStatus.working, .backup, .exception].findSome? fun list =>
    ((client.lists list).find? fun cnode =>
      (client.memory cnode).any (·.serverAddr = addr)).map (·, list)

/-- `CRB3Client::AddConnect`. -/
def addConnect (config : ConnectConfig) (client : Connects α) (addr : α) (protocol : SockType)
    (memoryLeft : Bool) : Connects α :=
  if config.accepts protocol memoryLeft then
    let hash := config.nchGet client.sequence
    let cnode := client.next
    let client :=
      { client with
        next := cnode + 1, sequence := client.sequence + 1,
        nchTree := if 0 ≤ hash then irbtInsert client.nchTree (hash.toNat, cnode)
          else client.nchTree }
    match client.findConnect addr with
    -- the new node is freed
    | some _ => client
    | none =>
        let added : CRB3_CONNECTION α :=
          { serverAddr := addr, status := .exception, flag := .clear, protocol, pending := 0,
            pendMax := config.maxConcurrent, reference := 0, toDelete := false, hash,
            refList := none }
        { client with memory := Function.update client.memory cnode (some added) }.lstInsert
          .exception cnode
  else client

/-- `CRB3Client::DelConnect`. -/
def delConnect (client : Connects α) (addr : α) : Connects α :=
  match client.findConnect addr with
  | none => client
  | some (cnode, fromList) =>
      let called := { client with deleted := cnode :: client.deleted }
      if (client.memory cnode).any (·.reference = 0) then (called.lstDelete fromList cnode).free cnode
      else called.update cnode fun conn => { conn with toDelete := true }

/-- What `_NCHAlgCalc` returns for a request with this hash. -/
def nchAlgCalc (config : ConnectConfig) (client : Connects α) (hash : Nat) : Option Nat :=
  let status := fun node : Nat × Nat =>
    ((client.memory node.2).map (·.status.code)).getD CRB3_STATUS_NULL
  ((nchSearch (config.irbt client.nchTree) status hash (2 * client.nchTree.length + 1)).join).map
    Prod.snd

def addPending (client : Connects α) (cnode : Nat) : Connects α :=
  client.update cnode fun conn => { conn with pending := conn.pending + 1 }

/-- The connection that `_GetConnect` chooses for a request with this hash, if there is one. -/
def chooseConnect (config : ConnectConfig) (client : Connects α) (hash : Nat) :
    Option (Nat × Connects α) :=
  if config.serviceMode = 2 then
    (nchAlgCalc config client hash).map fun cnode => (cnode, client.addPending cnode)
  else if config.serviceMode = 1 then
    -- the first one with room; it goes to the end of the list
    ((client.lists .working).find? fun cnode =>
      (client.memory cnode).any fun conn => conn.pending + 1 ≤ conn.pendMax).map fun cnode =>
        (cnode, ((client.addPending cnode).lstDelete .working cnode).lstAdd .working cnode)
  else (client.lists .working).head?.map (·, client)

/-- `CRB3Client::_GetConnect`. -/
def getConnect (config : ConnectConfig) (client : Connects α) (hash : Nat) : Connects α :=
  match chooseConnect config client hash with
  | none => client
  | some (cnode, client) =>
      { client.update cnode fun conn =>
          { conn with reference := conn.reference + 1, refList := some .working } with
        held := cnode :: client.held }

/-- `CRB3Client::_PutConnect`, by a caller that holds the connection. -/
def putConnect (client : Connects α) (cnode : Nat) : Option (Connects α) :=
  if cnode ∈ client.held then
    (client.memory cnode).map fun conn =>
      let put := { client with held := client.held.erase cnode }
      if conn.reference - 1 = 0 ∧ conn.toDelete then
        (match conn.refList with
          | some list => put.lstDelete list cnode
          | none => { put with misplaced := true }).free cnode
      else put.update cnode fun conn =>
        { conn with pending := conn.pending - 1, reference := conn.reference - 1 }
  else none

/-- A status response flags the connection in `_CheckLoop`. -/
def notify (client : Connects α) (addr : α) (status : Int) : Connects α :=
  match client.findConnect addr with
  | none => client
  | some (cnode, _) =>
      client.update cnode fun conn =>
        if conn.status.code = status then conn
        else if status = CRB3_STATUS_WORKING then
          { conn with flag := { conn.flag with goWorking := true } }
        else if status = CRB3_STATUS_BACKUP then
          { conn with flag := { conn.flag with goBackup := true } }
        else { conn with flag := { conn.flag with goException := true } }

/-- The periodic check of `_CheckLoop`: connections that were not heard of for too long are flagged,
and the others that work get new bounds for their requests. -/
def check (client : Connects α) (late : Nat → Bool) (pendMax : Nat → Int) : Connects α :=
  client.rewrite fun cnode conn =>
    let conn :=
      if late cnode ∧ (cnode ∈ client.lists .working ∨ cnode ∈ client.lists .backup) then
        { conn with flag := { conn.flag with goException := true } }
      else conn
    if cnode ∈ client.lists .working ∧ ¬ conn.flag.goException then
      { conn with pendMax := pendMax cnode }
    else conn

/-- One turn of the loop of `_GoAction`. -/
def goActionNode (config : ConnectConfig) (fromList : ConnectStatus) (client : Connects α)
    (cnode : Nat) : Connects α :=
  match (client.memory cnode).bind (·.flag.target) with
  | none => client.update cnode fun conn => { conn with flag := .clear }
  | some status =>
      let client := client.lstDelete fromList cnode
      let client :=
        if status = .working ∧ config.trustServer then client.lstInsert status cnode
        else client.lstAdd status cnode
      client.update cnode fun conn => { conn with status, flag := .clear }

/-- `CRB3Client::_GoAction`.  The loop meets a connection that it moved to the end of its own list
once more, without flags. -/
def goActionList (config : ConnectConfig) (client : Connects α) (fromList : ConnectStatus) :
    Connects α :=
  (client.lists fromList).foldl (goActionNode config fromList) client

/-- The calls of `_GoAction` in `_CheckLoop`. -/
def goAction (config : ConnectConfig) (client : Connects α) : Connects α :=
  [ConnectStatus.working, .backup, .exception].foldl (goActionList config) client

/-! ## Runs -/

inductive Op (α : Type)
  | addConnect (addr : α) (protocol : SockType) (memoryLeft : Bool)
  /-- `AddConnect` of another client takes a number. -/
  | addElsewhere
  | delConnect (addr : α)
  | getConnect (hash : Nat)
  | putConnect (cnode : Nat)
  | notify (addr : α) (status : Int)
  | check (late : Nat → Bool) (pendMax : Nat → Int)
  | goAction

/-- One step under `ConnectLocker`. -/
def step (config : ConnectConfig) (client : Connects α) : Op α → Option (Connects α)
  | .addConnect addr protocol memoryLeft => some (client.addConnect config addr protocol memoryLeft)
  | .addElsewhere => some { client with sequence := client.sequence + 1 }
  | .delConnect addr => some (client.delConnect addr)
  | .getConnect hash => some (client.getConnect config hash)
  | .putConnect cnode => client.putConnect cnode
  | .notify addr status => some (client.notify addr status)
  | .check late pendMax => some (client.check late pendMax)
  | .goAction => some (client.goAction config)

/-- Each connection is on the list of its status, `lstDelete` found every node where it looked for
it, connections are freed once, when they are deleted and nobody holds them, and the tree has the
connections with a hash. -/
structure Kept (client : Connects α) : Prop where
  nodup : ∀ list, (client.lists list).Nodup
  listed : ∀ list cnode, cnode ∈ client.lists list ↔
    ∃ conn, client.memory cnode = some conn ∧ conn.status = list
  placed : client.misplaced = false
  once : client.freed.Nodup
  freed : ∀ cnode ∈ client.freed, client.memory cnode = none ∧ cnode ∈ client.deleted ∧
    cnode ∉ client.held
  deleted : ∀ cnode ∈ client.deleted, cnode ∉ client.held → cnode ∈ client.freed
  indexed : ∀ key cnode, (key, cnode) ∈ client.nchTree ↔
    ∃ conn, client.memory cnode = some conn ∧ conn.hash = key

/-- No step leaves a freed node in the tree, and a connection that is freed by `_PutConnect` works:
what is freed has no hash. -/
def Safe (config : ConnectConfig) (client : Connects α) : Op α → Prop
  | .addConnect addr protocol memoryLeft =>
      config.accepts protocol memoryLeft → (client.findConnect addr).isSome →
        config.nchGet client.sequence < 0
  | .delConnect addr =>
      ∀ found ∈ client.findConnect addr, ∀ conn ∈ client.memory found.1, conn.reference = 0 →
        conn.hash < 0
  | .putConnect cnode =>
      ∀ conn ∈ client.memory cnode, conn.reference = 1 → conn.toDelete →
        conn.hash < 0 ∧ cnode ∈ client.lists .working
  | _ => True

/-! ## Lists -/

omit [DecidableEq α]

section Lists

variable {client : Connects α} {cnode other : Nat} {list name : ConnectStatus}

theorem mem_lstAdd : other ∈ (client.lstAdd list cnode).lists name ↔
    other ∈ client.lists name ∨ name = list ∧ other = cnode := by
  by_cases same : name = list
  · simp [lstAdd, setList, same]
  · simp [lstAdd, setList, same]

theorem mem_lstInsert : other ∈ (client.lstInsert list cnode).lists name ↔
    other ∈ client.lists name ∨ name = list ∧ other = cnode := by
  by_cases same : name = list
  · simp [lstInsert, setList, same, or_comm]
  · simp [lstInsert, setList, same]

theorem nodup_lstAdd (nodup : ∀ name, (client.lists name).Nodup)
    (absent : cnode ∉ client.lists list) (name : ConnectStatus) :
    ((client.lstAdd list cnode).lists name).Nodup := by
  by_cases same : name = list
  · simpa [lstAdd, setList, same, List.nodup_append, nodup list] using
      fun member inside => ne_of_mem_of_not_mem inside absent
  · simpa [lstAdd, setList, same] using nodup name

theorem nodup_lstInsert (nodup : ∀ name, (client.lists name).Nodup)
    (absent : cnode ∉ client.lists list) (name : ConnectStatus) :
    ((client.lstInsert list cnode).lists name).Nodup := by
  by_cases same : name = list
  · simp [lstInsert, setList, same, nodup list, absent]
  · simpa [lstInsert, setList, same] using nodup name

theorem mem_lstDelete (nodup : (client.lists list).Nodup) (member : cnode ∈ client.lists list) :
    other ∈ (client.lstDelete list cnode).lists name ↔
      other ∈ client.lists name ∧ (name = list → other ≠ cnode) := by
  rw [lstDelete, if_pos member]
  by_cases same : name = list
  · simp [setList, same, nodup.mem_erase_iff, and_comm]
  · simp [setList, same]

theorem nodup_lstDelete (nodup : ∀ name, (client.lists name).Nodup) (name : ConnectStatus) :
    ((client.lstDelete list cnode).lists name).Nodup := by
  unfold lstDelete
  split
  · by_cases same : name = list
    · simpa [setList, same] using (nodup list).erase cnode
    · simpa [setList, same] using nodup name
  · exact nodup name

theorem lstDelete_placed (member : cnode ∈ client.lists list) :
    (client.lstDelete list cnode).misplaced = client.misplaced := by
  rw [lstDelete, if_pos member]
  rfl

end Lists

/-- Each connection is on the list of its status and nowhere else. -/
structure Listed (client : Connects α) : Prop where
  nodup : ∀ list, (client.lists list).Nodup
  listed : ∀ list cnode, cnode ∈ client.lists list ↔
    ∃ conn, client.memory cnode = some conn ∧ conn.status = list
  placed : client.misplaced = false

namespace Listed

variable {client : Connects α} {cnode : Nat} {conn : CRB3_CONNECTION α}

theorem mem (listed : Listed client) (found : client.memory cnode = some conn) :
    cnode ∈ client.lists conn.status :=
  (listed.listed _ _).mpr ⟨conn, found, rfl⟩

theorem rewrite (listed : Listed client) {write : Nat → CRB3_CONNECTION α → CRB3_CONNECTION α}
    (status : ∀ cnode conn, (write cnode conn).status = conn.status) :
    Listed (client.rewrite write) := by
  refine ⟨listed.nodup, fun list cnode => (listed.listed list cnode).trans ?_, listed.placed⟩
  simp [Connects.rewrite, status]

/-- A connection without a list goes to the one of its new status. -/
theorem attach {attached : Connects α} {into : ConnectStatus}
    {write : CRB3_CONNECTION α → CRB3_CONNECTION α} (listed : Listed client)
    (found : client.memory cnode = some conn) (memory : attached.memory = client.memory)
    (placed : attached.misplaced = false) (nodup : ∀ name, (attached.lists name).Nodup)
    (mem : ∀ name other, other ∈ attached.lists name ↔
      other ∈ client.lists name ∧ (name = conn.status → other ≠ cnode) ∨ name = into ∧ other = cnode)
    (status : ∀ conn, (write conn).status = into) : Listed (attached.update cnode write) := by
  refine ⟨nodup, fun list other => (mem list other).trans ?_, placed⟩
  rw [listed.listed]
  by_cases same : other = cnode
  · subst same
    simp [update, Connects.rewrite, memory, found, status, eq_comm]
  · simp [update, Connects.rewrite, memory, same]

theorem remove (listed : Listed client) (found : client.memory cnode = some conn) :
    Listed ((client.lstDelete conn.status cnode).free cnode) := by
  have member := listed.mem found
  refine ⟨nodup_lstDelete listed.nodup, fun list other => ?_, ?_⟩
  · refine (mem_lstDelete (listed.nodup _) member).trans ?_
    rw [listed.listed]
    by_cases same : other = cnode
    · subst same
      simp [free, found, eq_comm]
    · simp [free, lstDelete, member, setList, same]
  · exact (lstDelete_placed member).trans listed.placed

end Listed

/-! ## Callers -/

/-- Only the lists differ. -/
def Relisted (client client' : Connects α) : Prop :=
  { client with lists := client'.lists, misplaced := client'.misplaced } = client'

section Relisted

variable {client client' client'' : Connects α}

theorem Relisted.trans (first : Relisted client client') (second : Relisted client' client'') :
    Relisted client client'' := by
  unfold Relisted at *
  rw [← second, ← first]

theorem lstAdd_relisted (client : Connects α) (list : ConnectStatus) (cnode : Nat) :
    Relisted client (client.lstAdd list cnode) := rfl

theorem lstInsert_relisted (client : Connects α) (list : ConnectStatus) (cnode : Nat) :
    Relisted client (client.lstInsert list cnode) := rfl

theorem lstDelete_relisted (client : Connects α) (list : ConnectStatus) (cnode : Nat) :
    Relisted client (client.lstDelete list cnode) := by
  unfold lstDelete
  split <;> rfl

theorem Relisted.free (same : Relisted client client') (cnode : Nat) :
    Relisted (client.free cnode) (client'.free cnode) := by
  rw [← same]
  rfl

theorem Relisted.memory_eq (same : Relisted client client') : client'.memory = client.memory := by
  rw [← same]

end Relisted

/-- The counters of a connection agree with its callers, and what is deleted is freed as soon as
nobody holds it. -/
structure Counted (client : Connects α) : Prop where
  fresh : ∀ cnode, client.next ≤ cnode → client.memory cnode = none
  reference : ∀ cnode conn, client.memory cnode = some conn →
    conn.reference = client.held.count cnode
  toDelete : ∀ cnode conn, client.memory cnode = some conn →
    (conn.toDelete = true ↔ cnode ∈ client.deleted)
  live : ∀ cnode ∈ client.held, ∃ conn, client.memory cnode = some conn ∧
    conn.refList = some .working
  once : client.freed.Nodup
  freed : ∀ cnode ∈ client.freed, client.memory cnode = none ∧ cnode ∈ client.deleted ∧
    cnode < client.next
  deleted : ∀ cnode ∈ client.deleted, cnode ∈ client.held ∨ cnode ∈ client.freed

namespace Counted

variable {client client' : Connects α} {cnode : Nat} {conn : CRB3_CONNECTION α}

theorem relisted (counted : Counted client) (same : Relisted client client') :
    Counted client' := by
  rw [← same]
  exact ⟨counted.fresh, counted.reference, counted.toDelete, counted.live, counted.once,
    counted.freed, counted.deleted⟩

theorem lt_next (counted : Counted client) (found : client.memory cnode = some conn) :
    cnode < client.next := by
  refine Nat.lt_of_not_le fun unused => ?_
  rw [counted.fresh cnode unused] at found
  cases found

theorem rewrite (counted : Counted client)
    {write : Nat → CRB3_CONNECTION α → CRB3_CONNECTION α}
    (same : ∀ cnode conn, (write cnode conn).reference = conn.reference ∧
      (write cnode conn).toDelete = conn.toDelete ∧ (write cnode conn).refList = conn.refList) :
    Counted (client.rewrite write) := by
  refine ⟨fun cnode unused => ?_, fun cnode conn found => ?_, fun cnode conn found => ?_,
    fun cnode member => ?_, counted.once, fun cnode member => ?_, counted.deleted⟩
  · simp [Connects.rewrite, counted.fresh cnode unused]
  · obtain ⟨old, old_found, rfl⟩ := Option.map_eq_some_iff.mp found
    rw [(same cnode old).1]
    exact counted.reference cnode old old_found
  · obtain ⟨old, old_found, rfl⟩ := Option.map_eq_some_iff.mp found
    rw [(same cnode old).2.1]
    exact counted.toDelete cnode old old_found
  · obtain ⟨old, old_found, refList⟩ := counted.live cnode member
    exact ⟨write cnode old, by simp [Connects.rewrite, old_found],
      (same cnode old).2.2.trans refList⟩
  · obtain ⟨gone, known⟩ := counted.freed cnode member
    exact ⟨by simp [Connects.rewrite, gone], known⟩

/-- One connection is written or freed. -/
theorem touch (counted : Counted client) (found : client.memory cnode = some conn)
    {write : Option (CRB3_CONNECTION α)} {held deleted freed : List Nat}
    (others : ∀ other, other ≠ cnode → held.count other = client.held.count other ∧
      (other ∈ deleted ↔ other ∈ client.deleted) ∧ (other ∈ freed ↔ other ∈ client.freed))
    (written : ∀ conn, write = some conn → conn.reference = held.count cnode ∧
      (conn.toDelete = true ↔ cnode ∈ deleted))
    (live : cnode ∈ held → ∃ conn, write = some conn ∧ conn.refList = some .working)
    (once : freed.Nodup) (gone : cnode ∈ freed → write = none ∧ cnode ∈ deleted)
    (known : cnode ∈ deleted → cnode ∈ held ∨ cnode ∈ freed) :
    Counted
      { client with memory := Function.update client.memory cnode write, held, deleted, freed } := by
  have mem_held : ∀ other, other ≠ cnode → (other ∈ held ↔ other ∈ client.held) := by
    intro other differ
    rw [← List.count_pos_iff, ← List.count_pos_iff, (others other differ).1]
  have lower := counted.lt_next found
  refine ⟨fun other unused => ?_, fun other new new_found => ?_, fun other new new_found => ?_,
    fun other member => ?_, once, fun other member => ?_, fun other member => ?_⟩
  · have differ : other ≠ cnode := by
      rintro rfl
      exact absurd lower (Nat.not_lt.mpr unused)
    exact (Function.update_of_ne differ ..).trans (counted.fresh other unused)
  · by_cases same : other = cnode
    · have new_found : Function.update client.memory cnode write other = some new := new_found
      rw [same, Function.update_self] at new_found
      rw [same]
      exact (written new new_found).1
    · rw [(others other same).1]
      exact counted.reference other new ((Function.update_of_ne same ..).symm.trans new_found)
  · by_cases same : other = cnode
    · have new_found : Function.update client.memory cnode write other = some new := new_found
      rw [same, Function.update_self] at new_found
      rw [same]
      exact (written new new_found).2
    · rw [(others other same).2.1]
      exact counted.toDelete other new ((Function.update_of_ne same ..).symm.trans new_found)
  · by_cases same : other = cnode
    · subst same
      obtain ⟨new, rfl, listed⟩ := live member
      exact ⟨new, Function.update_self .., listed⟩
    · obtain ⟨old, old_found, listed⟩ := counted.live other ((mem_held other same).mp member)
      exact ⟨old, (Function.update_of_ne same ..).trans old_found, listed⟩
  · by_cases same : other = cnode
    · subst same
      obtain ⟨rfl, called⟩ := gone member
      exact ⟨Function.update_self .., called, lower⟩
    · obtain ⟨old_gone, old_deleted, lower⟩ :=
        counted.freed other ((others other same).2.2.mp member)
      exact ⟨(Function.update_of_ne same ..).trans old_gone,
        (others other same).2.1.mpr old_deleted, lower⟩
  · by_cases same : other = cnode
    · subst same
      exact known member
    · rw [mem_held other same, (others other same).2.2]
      exact counted.deleted other ((others other same).2.1.mp member)

theorem not_freed (counted : Counted client) (found : client.memory cnode = some conn) :
    cnode ∉ client.freed := by
  intro member
  rw [(counted.freed cnode member).1] at found
  cases found

/-- A caller takes, gives back or deletes a connection that goes on. -/
theorem update (counted : Counted client) (found : client.memory cnode = some conn)
    {write : CRB3_CONNECTION α → CRB3_CONNECTION α} {held deleted : List Nat}
    (others : ∀ other, other ≠ cnode → held.count other = client.held.count other ∧
      (other ∈ deleted ↔ other ∈ client.deleted))
    (reference : (write conn).reference = held.count cnode)
    (toDelete : (write conn).toDelete = true ↔ cnode ∈ deleted)
    (refList : cnode ∈ held → (write conn).refList = some .working)
    (stays : cnode ∈ deleted → cnode ∈ held) :
    Counted { client.update cnode write with held, deleted } := by
  have update_eq : client.update cnode write =
      { client with memory := Function.update client.memory cnode (some (write conn)) } := by
    have memory_eq : (fun other => (client.memory other).map fun conn =>
        if other = cnode then write conn else conn) =
        Function.update client.memory cnode (some (write conn)) := by
      funext other
      by_cases same : other = cnode
      · simp [same, found]
      · simp [same]
    rw [Connects.update, Connects.rewrite, memory_eq]
  rw [update_eq]
  refine counted.touch found (fun other differ => ?_) ?_ (fun member => ⟨_, rfl, refList member⟩)
    counted.once (fun member => absurd member (counted.not_freed found))
    fun member => .inl (stays member)
  · exact ⟨(others other differ).1, (others other differ).2, Iff.rfl⟩
  · intro new written
    obtain rfl := Option.some.inj written
    exact ⟨reference, toDelete⟩

/-- A deleted connection is freed when nobody holds it any more. -/
theorem free (counted : Counted client) (found : client.memory cnode = some conn)
    {held deleted : List Nat}
    (others : ∀ other, other ≠ cnode → held.count other = client.held.count other ∧
      (other ∈ deleted ↔ other ∈ client.deleted))
    (unheld : cnode ∉ held) (called : cnode ∈ deleted) :
    Counted ({ client with held, deleted }.free cnode) := by
  refine counted.touch found (fun other differ => ?_) (fun new none => by cases none)
    (fun member => absurd member unheld) (List.nodup_cons.mpr ⟨counted.not_freed found, counted.once⟩)
    (fun _ => ⟨rfl, called⟩) (fun _ => .inr List.mem_cons_self)
  exact ⟨(others other differ).1, (others other differ).2, by simp [differ]⟩

/-- A new connection is at an address without one. -/
theorem add (counted : Counted client) {added : CRB3_CONNECTION α} (unused : added.reference = 0)
    (kept : added.toDelete = false) {nchTree : List (Nat × Nat)} {sequence : Nat} :
    Counted { client with memory := Function.update client.memory client.next (some added),
                          next := client.next + 1, nchTree, sequence } := by
  have fresh := counted.fresh client.next le_rfl
  have unheld : client.next ∉ client.held := by
    intro member
    obtain ⟨conn, found, -⟩ := counted.live _ member
    rw [fresh] at found
    cases found
  have unfreed : client.next ∉ client.freed :=
    fun member => absurd (counted.freed _ member).2.2 (Nat.lt_irrefl _)
  have undeleted : client.next ∉ client.deleted :=
    fun member => (counted.deleted _ member).elim unheld unfreed
  refine ⟨fun other outside => ?_, fun other new new_found => ?_, fun other new new_found => ?_,
    fun other member => ?_, counted.once, fun other member => ?_, counted.deleted⟩
  · have outside : client.next + 1 ≤ other := outside
    exact (Function.update_of_ne (by omega) ..).trans (counted.fresh other (by omega))
  · by_cases same : other = client.next
    · have new_found : Function.update client.memory client.next (some added) other = some new :=
        new_found
      rw [same, Function.update_self] at new_found
      obtain rfl := Option.some.inj new_found
      rw [same, unused, List.count_eq_zero.mpr unheld]
      rfl
    · exact counted.reference other new ((Function.update_of_ne same ..).symm.trans new_found)
  · by_cases same : other = client.next
    · have new_found : Function.update client.memory client.next (some added) other = some new :=
        new_found
      rw [same, Function.update_self] at new_found
      obtain rfl := Option.some.inj new_found
      simp [same, kept, undeleted]
    · exact counted.toDelete other new ((Function.update_of_ne same ..).symm.trans new_found)
  · have differ : other ≠ client.next := ne_of_mem_of_not_mem member unheld
    obtain ⟨conn, found, listed⟩ := counted.live other member
    exact ⟨conn, (Function.update_of_ne differ ..).trans found, listed⟩
  · have differ : other ≠ client.next := ne_of_mem_of_not_mem member unfreed
    obtain ⟨gone, called, lower⟩ := counted.freed other member
    exact ⟨(Function.update_of_ne differ ..).trans gone, called, Nat.lt_succ_of_lt lower⟩

end Counted

/-! ## The tree -/

theorem nchGet_inj {config : ConnectConfig} (distinct : config.Distinct) {first second : Nat}
    (hash : 0 ≤ config.nchGet first) (same : config.nchGet first = config.nchGet second) :
    first = second := by
  have inside : ∀ {srvId}, 0 ≤ config.nchGet srvId →
      srvId < CRB3_MAX_HASH_NODES ∧ config.nchGet srvId = config.nchTable srvId := by
    intro srvId hash
    unfold ConnectConfig.nchGet at hash ⊢
    split at hash
    · next inside => exact ⟨inside.2, if_pos inside⟩
    · omega
  obtain ⟨first_lt, first_eq⟩ := inside hash
  obtain ⟨second_lt, second_eq⟩ := inside (same ▸ hash)
  rw [first_eq] at hash
  exact distinct first first_lt second second_lt hash (by rw [← first_eq, same, second_eq])

/-- The tree has the connections with a hash, under hashes that were handed out. -/
structure Indexed (config : ConnectConfig) (client : Connects α) : Prop where
  indexed : ∀ key cnode, (key, cnode) ∈ client.nchTree ↔
    ∃ conn, client.memory cnode = some conn ∧ conn.hash = key
  keys : (client.nchTree.map Prod.fst).Nodup
  known : ∀ node ∈ client.nchTree, ∃ srvId < client.sequence, config.nchGet srvId = node.1

namespace Indexed

variable {config : ConnectConfig} {client client' : Connects α} {cnode : Nat}
  {conn : CRB3_CONNECTION α}

theorem relisted (indexed : Indexed config client) (same : Relisted client client') :
    Indexed config client' := by
  rw [← same]
  exact ⟨indexed.indexed, indexed.keys, indexed.known⟩

theorem rewrite (indexed : Indexed config client)
    {write : Nat → CRB3_CONNECTION α → CRB3_CONNECTION α}
    (same : ∀ cnode conn, (write cnode conn).hash = conn.hash) :
    Indexed config (client.rewrite write) := by
  refine ⟨fun key cnode => (indexed.indexed key cnode).trans ?_, indexed.keys, indexed.known⟩
  simp [Connects.rewrite, same]

/-- A connection without a hash can be freed. -/
theorem free (indexed : Indexed config client) (found : client.memory cnode = some conn)
    (none : conn.hash < 0) : Indexed config (client.free cnode) := by
  refine ⟨fun key other => (indexed.indexed key other).trans ?_, indexed.keys, indexed.known⟩
  by_cases same : other = cnode
  · subst same
    simp only [Connects.free, found, Function.update_self, Option.some.injEq, exists_eq_left',
      reduceCtorEq, false_and, exists_false, iff_false]
    omega
  · simp [Connects.free, same]

theorem known_later (indexed : Indexed config client) :
    ∀ node ∈ client.nchTree, ∃ srvId < client.sequence + 1, config.nchGet srvId = node.1 := by
  intro node member
  obtain ⟨srvId, earlier, hash⟩ := indexed.known node member
  exact ⟨srvId, Nat.lt_succ_of_lt earlier, hash⟩

theorem later (indexed : Indexed config client) {next : Nat} :
    Indexed config { client with next, sequence := client.sequence + 1 } :=
  ⟨indexed.indexed, indexed.keys, indexed.known_later⟩

/-- The tree that `AddConnect` leaves. -/
def insertNew (config : ConnectConfig) (client : Connects α) : List (Nat × Nat) :=
  if 0 ≤ config.nchGet client.sequence then
    irbtInsert client.nchTree ((config.nchGet client.sequence).toNat, client.next)
  else client.nchTree

theorem insertNew_eq (indexed : Indexed config client) (distinct : config.Distinct)
    (hash : 0 ≤ config.nchGet client.sequence) :
    insertNew config client =
      ((config.nchGet client.sequence).toNat, client.next) :: client.nchTree := by
  rw [insertNew, if_pos hash, irbtInsert, if_neg]
  intro taken
  obtain ⟨node, member, key⟩ := List.mem_map.mp taken
  obtain ⟨srvId, earlier, same⟩ := indexed.known node member
  have same : config.nchGet client.sequence = config.nchGet srvId := by omega
  have := nchGet_inj distinct hash same
  omega

theorem add (indexed : Indexed config client) (distinct : config.Distinct)
    (fresh : client.memory client.next = none) {added : CRB3_CONNECTION α}
    (hash : added.hash = config.nchGet client.sequence) :
    Indexed config
      { client with
        memory := Function.update client.memory client.next (some added), next := client.next + 1,
        sequence := client.sequence + 1, nchTree := insertNew config client } := by
  have unlisted : ∀ key, (key, client.next) ∉ client.nchTree := by
    intro key member
    obtain ⟨conn, found, -⟩ := (indexed.indexed key _).mp member
    rw [fresh] at found
    cases found
  by_cases some_hash : 0 ≤ config.nchGet client.sequence
  · rw [indexed.insertNew_eq distinct some_hash]
    refine ⟨fun key other => ?_, ?_, ?_⟩
    · by_cases same : other = client.next
      · subst same
        simp [unlisted, hash]
        omega
      · simp [same, indexed.indexed]
    · refine List.nodup_cons.mpr ⟨fun taken => ?_, indexed.keys⟩
      obtain ⟨node, member, key⟩ := List.mem_map.mp taken
      obtain ⟨srvId, earlier, key'⟩ := indexed.known node member
      have same : config.nchGet client.sequence = config.nchGet srvId := by omega
      have := nchGet_inj distinct some_hash same
      omega
    · refine List.forall_mem_cons.mpr ⟨⟨client.sequence, Nat.lt_succ_self _, ?_⟩, ?_⟩
      · simp [some_hash]
      · exact indexed.known_later
  · rw [insertNew, if_neg some_hash]
    refine ⟨fun key other => ?_, indexed.keys, indexed.known_later⟩
    by_cases same : other = client.next
    · subst same
      simp [unlisted, hash]
      omega
    · simp [same, indexed.indexed]

end Indexed

end Connects

end CommonLib
