import CommonLib.Hlib.Conservation

/-!
# Connections that stay open

`WriteSocket` closes a connection when `send` returns an error or nothing.  Without errors this
only happens to an empty buffer, and an empty payload is queued as one.
-/

namespace CommonLib.THEpollServer

open Execution

/-! ## The law -/

/-- What `send` may return for the first buffer of a block if there is no error but `EAGAIN`: an
empty buffer is sent as 0 bytes, another one not. -/
def Unfailing (server : THEpollServer) (block : Nat) : SendResult → Prop
  | .sent count => ∀ b ∈ (server.cache.buf block).data,
      count ≤ (server.bufferMgr.buffers b).size ∧
        (count = 0 → (server.bufferMgr.buffers b).size = 0)
  | .again => ∀ b ∈ (server.cache.buf block).data, 0 < (server.bufferMgr.buffers b).size
  | .failed => False

/-- No call asks for a close after sending, and `send` does not fail. -/
def Peaceful (server : THEpollServer) : Op → Prop
  | .sendDataAndPostClose _ _ => False
  | .writeSocket block result => server.Unfailing block result
  | _ => True

/-- `WriteSocket` does not kill a context. -/
def SparesContexts (server : THEpollServer) : Op → Prop
  | .writeSocket block result => ∀ outcome ∈ server.writeSocket block result,
      ∀ c < server.contextMgr.size, (server.contextMgr.contexts c).killed = false →
        (outcome.2.contextMgr.contexts c).killed = false
  | _ => True

/-- The buffer which `WriteSocket` offers to a socket is not empty. -/
def OffersBytes (server : THEpollServer) : Op → Prop
  | .writeSocket block _ => ∀ b ∈ (server.cache.buf block).data,
      (server.connectionOf (server.bufferMgr.buffers b)).isSome = true →
        0 < (server.bufferMgr.buffers b).size
  | _ => True

/-- `SendData` is given at least one byte. -/
def CarriesBytes : Op → Prop
  | .sendData _ data => 0 < data.length
  | _ => True

instance (server : THEpollServer) (block : Nat) :
    (result : SendResult) → Decidable (server.Unfailing block result)
  | .sent _ => inferInstanceAs (Decidable (∀ b ∈ (server.cache.buf block).data, _ ∧ (_ → _)))
  | .again => inferInstanceAs (Decidable (∀ b ∈ (server.cache.buf block).data, _))
  | .failed => inferInstanceAs (Decidable False)

instance (server : THEpollServer) : (op : Op) → Decidable (server.Peaceful op)
  | .connect _ _ => inferInstanceAs (Decidable True)
  | .sendData _ _ => inferInstanceAs (Decidable True)
  | .sendDataAndPostClose _ _ => inferInstanceAs (Decidable False)
  | .writeSocket block result => inferInstanceAs (Decidable (server.Unfailing block result))
  | .killSocket _ => inferInstanceAs (Decidable True)
  | .closeSocket _ => inferInstanceAs (Decidable True)

instance (server : THEpollServer) : (op : Op) → Decidable (server.OffersBytes op)
  | .connect _ _ => inferInstanceAs (Decidable True)
  | .sendData _ _ => inferInstanceAs (Decidable True)
  | .sendDataAndPostClose _ _ => inferInstanceAs (Decidable True)
  | .writeSocket block _ =>
      inferInstanceAs (Decidable (∀ b ∈ (server.cache.buf block).data, (_ = true → _)))
  | .killSocket _ => inferInstanceAs (Decidable True)
  | .closeSocket _ => inferInstanceAs (Decidable True)

/-! ## Queued buffers -/

/-- A queued buffer holds at least `least` bytes, serves one of `connections` contexts and is not to
close it. -/
structure Ready (least connections : Nat) (buf : THBuffer) : Prop where
  enough : least ≤ buf.size
  postClose : buf.postClose = false
  context : ∀ c ∈ buf.context, c < connections

variable {least connections : Nat}

theorem Ready.link {buf : THBuffer} (ready : Ready least connections buf) (next : Option Nat) :
    Ready least connections { buf with next } :=
  ⟨ready.enough, ready.postClose, ready.context⟩

theorem load_ready (buf : THBuffer) {c : Nat} (context : THContext) {data : List Byte}
    (inside : c < connections) (enough : least ≤ data.length) :
    Ready least connections (load buf c context false data) where
  enough := by
    change least ≤ 0 + data.length
    omega
  postClose := rfl
  context := by
    intro c' same
    exact Option.some.inj same ▸ inside

theorem fill_nexts {bufLen lastLen c : Nat} {context : THContext} {postClose : Bool}
    {rounds b last : Nat} {buffers buffers' : Nat → THBuffer} {data : List Byte}
    (filled : fill bufLen lastLen c context postClose rounds buffers b data =
      some (buffers', last)) (buf : Nat) : (buffers' buf).next = (buffers buf).next := by
  induction rounds generalizing buffers b data with
  | zero =>
      obtain ⟨rfl, rfl⟩ := Prod.mk.inj (Option.some.inj filled)
      rcases eq_or_ne buf b with rfl | different
      · rw [Function.update_self, load_next]
      · rw [Function.update_of_ne different]
  | succ rounds induction =>
      simp only [fill] at filled
      split at filled
      · cases filled
      · rw [induction filled]
        rcases eq_or_ne buf b with rfl | different
        · rw [Function.update_self, load_next]
        · rw [Function.update_of_ne different]

/-- The buffers of a chain are ready once they are filled. -/
theorem fill_ready {bufLen lastLen c : Nat} {context : THContext} {b last : Nat}
    {front : List Nat} {buffers buffers' : Nat → THBuffer} {data : List Byte}
    (inside : c < connections) (whole : least ≤ bufLen) (enough : least ≤ lastLen)
    (chain : Chain (fun buf => (buffers buf).next) (some b) (front ++ [last]) none)
    (nodup : (front ++ [last]).Nodup) (length_eq : data.length = front.length * bufLen + lastLen)
    (filled : fill bufLen lastLen c context false front.length buffers b data =
      some (buffers', last)) :
    ∀ buf ∈ front ++ [last], Ready least connections (buffers' buf) := by
  induction front generalizing buffers b data with
  | nil =>
      obtain ⟨rfl, rfl⟩ := Prod.mk.inj (Option.some.inj filled)
      intro buf member
      obtain rfl := List.mem_singleton.mp member
      rw [Function.update_self]
      apply load_ready _ _ inside
      rw [List.length_nil, Nat.zero_mul, Nat.zero_add] at length_eq
      rw [List.length_take, length_eq, Nat.min_self]
      exact enough
  | cons cell front induction =>
      obtain ⟨same, tail⟩ := chain
      obtain rfl := Option.some.inj same
      obtain ⟨notMem, nodup⟩ := List.nodup_cons.mp nodup
      let buffers₁ := Function.update buffers b
        (load (buffers b) c context false (data.take bufLen))
      have next_eq (buf : Nat) : (buffers₁ buf).next = (buffers buf).next := by
        rcases eq_or_ne buf b with rfl | different
        · simp only [buffers₁, Function.update_self, load_next]
        · simp only [buffers₁, Function.update_of_ne different]
      obtain ⟨b', link⟩ : ∃ b', (buffers b).next = some b' := by
        cases front with
        | nil => exact ⟨_, tail.1⟩
        | cons other front => exact ⟨_, tail.1⟩
      have tail' : Chain (fun buf => (buffers₁ buf).next) (some b') (front ++ [last]) none := by
        rw [← link]
        exact tail.congr fun buf _ => next_eq buf
      rw [List.length_cons, Nat.succ_mul] at length_eq
      have rest_length : (data.drop bufLen).length = front.length * bufLen + lastLen := by
        rw [List.length_drop, length_eq]
        omega
      have rest_filled : fill bufLen lastLen c context false front.length buffers₁ b'
          (data.drop bufLen) = some (buffers', last) := by
        have link' : (buffers₁ b).next = some b' := (next_eq b).trans link
        simp only [List.length_cons, fill] at filled
        rw [show Function.update buffers b
          (load (buffers b) c context false (data.take bufLen)) = buffers₁ from rfl, link'] at filled
        exact filled
      -- the rest of the loop leaves the first buffer alone
      obtain ⟨buffers'', filled'', -, others, -⟩ :=
        fill_spec c context false tail' nodup rest_length
      obtain ⟨rfl, -⟩ := Prod.mk.inj (Option.some.inj (rest_filled.symm.trans filled''))
      intro buf member
      rcases List.mem_cons.mp member with rfl | later
      · rw [others buf notMem]
        dsimp only [buffers₁]
        rw [Function.update_self]
        apply load_ready _ _ inside
        rw [List.length_take]
        omega
      · exact induction tail' nodup rest_length rest_filled buf later

/-- Every queued buffer is ready. -/
def ChainsReady (least : Nat) (server : THEpollServer) (lists : Place → List Nat) : Prop :=
  ∀ block, ∀ buf ∈ lists (.chain block),
    Ready least server.contextMgr.size (server.bufferMgr.buffers buf)

/-- A connected context is not killed. -/
def Alive (server : THEpollServer) : Prop :=
  ∀ c < server.contextMgr.size, (server.contextMgr.contexts c).connected = true →
    (server.contextMgr.contexts c).killed = false

variable {server next : THEpollServer} {lists : Place → List Nat}

theorem ChainsReady.first (ready : ChainsReady least server lists)
    (conserved : server.Conserved lists) {block b : Nat} (used : server.cache.Used block)
    (data_eq : (server.cache.buf block).data = some b) :
    Ready least server.contextMgr.size (server.bufferMgr.buffers b) := by
  obtain ⟨first, rest, chain_eq, same⟩ := conserved.first used
  obtain rfl := Option.some.inj (data_eq.symm.trans same)
  apply ready block
  rw [chain_eq]
  exact List.mem_cons_self

theorem ChainsReady.of_sameBuffers (ready : ChainsReady least server lists)
    (same : SameBuffers server next) : ChainsReady least next lists := by
  intro block buf member
  rw [same.bufferMgr, same.size]
  exact ready block buf member

theorem mem_chain_of_transfer {block other count buf : Nat}
    (member : buf ∈ transfer lists (.chain block) .free count (.chain other)) :
    buf ∈ lists (.chain other) := by
  rcases (mem_transfer (by simp)).mp member with ⟨same, -⟩ | ⟨same, rest⟩ | ⟨-, here⟩
  · cases same
  · exact same ▸ List.mem_of_mem_drop rest
  · exact here

theorem lastLen_ge {bufLen len : Nat} (small : least ≤ 1)
    (enough : least ≤ len) : least ≤ (((len : Int) - 1).tmod bufLen + 1).toNat := by
  cases len with
  | zero => omega
  | succ len =>
      have pred : ((len + 1 : Nat) : Int) - 1 = (len : Int) := by omega
      rw [pred, ← Int.ofNat_tmod]
      omega

/-- A payload of at least `least` bytes is queued in ready buffers. -/
theorem ChainsReady.sendData (ready : ChainsReady least server lists)
    (conserved : server.Conserved lists) (small : least ≤ 1) {c : Nat}
    (inside : c < server.contextMgr.size) {data : List Byte} (enough : least ≤ data.length) :
    ∃ added next lists', server.sendData c data = some (added, next) ∧ next.Conserved lists' ∧
      ChainsReady least next lists' ∧ next.contextMgr = server.contextMgr := by
  obtain ⟨added, next, returned, outcome⟩ := conserved.sendChain_fill false c data
  refine ⟨added, next, ?_⟩
  have untouched {block buf : Nat} (member : buf ∈ lists (.chain block))
      (others : ∀ buf, buf ∉ lists .free →
        next.bufferMgr.buffers buf = server.bufferMgr.buffers buf) :
      next.bufferMgr.buffers buf = server.bufferMgr.buffers buf := by
    apply others buf
    intro isFree
    cases conserved.partition.single member isFree
  cases added with
  | false =>
      have refused : Refused server next lists := outcome
      refine ⟨lists, returned, refused.conserved, fun block buf member => ?_, refused.contextMgr⟩
      rw [untouched member refused.others, refused.contextMgr]
      exact ready block buf member
  | true =>
      obtain ⟨block, b, buffers, last, front, queued, count_eq, take_eq, filled, chain⟩ := outcome
      refine ⟨_, returned, queued.conserved, fun other buf member => ?_, queued.contextMgr⟩
      rw [queued.contextMgr]
      have filled_ready := by
        refine fill_ready inside (Nat.le_of_lt (Nat.lt_of_le_of_lt small server.one_lt))
          (lastLen_ge small enough) ?_ ?_ ?_ filled
        · exact chain.congr fun buf _ => (fill_nexts filled buf).symm
        · rw [← take_eq]
          exact (conserved.partition.nodup .free).sublist (List.take_sublist _ _)
        · have length_eq := lastLen_eq server.one_lt data.length
          rwa [count_eq, Nat.add_sub_cancel] at length_eq
      rcases (mem_transfer (by simp)).mp member with ⟨-, new⟩ | ⟨same, -⟩ | ⟨-, old⟩
      · exact filled_ready buf (take_eq ▸ new)
      · cases same
      · rw [untouched old queued.others]
        exact ready other buf old

/-! ## Writing -/

theorem killSocket_killed (server : THEpollServer) (c : Nat) :
    ((server.killSocket c).contextMgr.contexts c).killed = true := by
  unfold killSocket
  dsimp only
  split
  · assumption
  · simp [THContextMgr.putContext, THContextMgr.set]

theorem Alive.killSocket (alive : server.Alive) (c : Nat) : (server.killSocket c).Alive := by
  unfold THEpollServer.killSocket
  dsimp only
  split
  · exact alive
  · intro other inside connected
    rcases eq_or_ne other c with rfl | different
    · simp [THContextMgr.putContext, THContextMgr.set] at connected
    · simp only [THContextMgr.putContext, THContextMgr.set, ne_eq, different, not_false_eq_true,
        Function.update_of_ne] at connected ⊢
      exact alive other inside connected

theorem Alive.closeSocket (alive : server.Alive) (c : Nat) : (server.closeSocket c).Alive := by
  unfold THEpollServer.closeSocket
  dsimp only
  split
  · exact alive
  · apply Alive.killSocket
    intro other inside connected
    rcases eq_or_ne other c with rfl | different
    · simp only [THContextMgr.set, Function.update_self] at connected ⊢
      exact alive other inside connected
    · simp only [THContextMgr.set, ne_eq, different, not_false_eq_true,
        Function.update_of_ne] at connected ⊢
      exact alive other inside connected

theorem Alive.connect (alive : server.Alive) (socket uid : Int) :
    (server.connect socket uid).2.Alive := by
  unfold THEpollServer.connect THContextMgr.getContext
  cases server.contextMgr.current with
  | none => exact alive
  | some ret =>
      intro other inside connected
      rcases eq_or_ne other ret with rfl | different
      · simp [setSocket, THContextMgr.set]
      · simp only [setSocket, THContextMgr.set, ne_eq, different, not_false_eq_true,
          Function.update_of_ne] at connected ⊢
        exact alive other inside connected

theorem ChainsReady.giveFirst (ready : ChainsReady least server lists) {block b : Nat} :
    ChainsReady least (server.giveFirst block b) (transfer lists (.chain block) .free 1) := by
  intro other buf member
  have kept := ready other buf (mem_chain_of_transfer member)
  obtain ⟨link, buffer_eq⟩ :=
    (server.bufferMgr.sameData_setNext b server.bufferMgr.current).2 buf
  change Ready _ _ ((server.bufferMgr.setNext b server.bufferMgr.current).buffers buf)
  rw [buffer_eq]
  exact kept.link link

theorem ChainsReady.sentPart (ready : ChainsReady least server lists) (small : least ≤ 1)
    {b count : Nat} (part : count < (server.bufferMgr.buffers b).size) :
    ChainsReady least (server.sentPart b count) lists := by
  intro other buf member
  have kept := ready other buf member
  rcases eq_or_ne buf b with rfl | different
  · simp only [THEpollServer.sentPart, Function.update_self]
    exact ⟨Nat.le_trans small (Nat.sub_pos_of_lt part), kept.postClose, kept.context⟩
  · simpa only [THEpollServer.sentPart, ne_eq, different, not_false_eq_true,
      Function.update_of_ne] using kept

/-- What `WriteSocket` does without errors: it keeps the contexts, unless the buffer it offers is
empty. -/
theorem ChainsReady.writeSocket (ready : ChainsReady least server lists)
    (conserved : server.Conserved lists) (small : least ≤ 1) {block : Nat}
    (used : server.cache.Used block) {result : SendResult}
    (unfailing : server.Unfailing block result) :
    ∃ i next lists', server.writeSocket block result = some (i, next) ∧ next.Conserved lists' ∧
      ChainsReady least next lists' ∧
      (next.contextMgr = server.contextMgr ∨
        ∃ b c, (server.cache.buf block).data = some b ∧
          server.connectionOf (server.bufferMgr.buffers b) = some c ∧ c < server.contextMgr.size ∧
          (server.bufferMgr.buffers b).size = 0 ∧
          next.contextMgr = (server.killSocket c).contextMgr) := by
  obtain ⟨b, rest, chain_eq, data_eq⟩ := conserved.first used
  have head := ready.first conserved used data_eq
  simp only [THEpollServer.writeSocket, data_eq]
  cases connection : server.connectionOf (server.bufferMgr.buffers b) with
  | none =>
      obtain ⟨bufferMgr, result, given, same⟩ := conserved.discard used data_eq
      refine ⟨_, _, _, result, given, fun other buf member => ?_, .inl rfl⟩
      obtain ⟨link, buffer_eq⟩ := same.2 buf
      change Ready _ _ (bufferMgr.buffers buf)
      rw [buffer_eq]
      exact (ready other buf (mem_chain_of_transfer member)).link link
  | some c =>
      cases result with
      | again => exact ⟨_, _, _, rfl, conserved, ready, .inl rfl⟩
      | failed => exact unfailing.elim
      | sent count =>
          have sent := unfailing b data_eq
          cases count with
          | zero =>
              have same := server.sameBuffers_killSocket c
              have belongs : (server.bufferMgr.buffers b).context = some c := by
                unfold connectionOf at connection
                exact (Option.filter_eq_some_iff.mp connection).1
              exact ⟨_, _, _, rfl, same.conserved conserved, ready.of_sameBuffers same,
                .inr ⟨b, c, rfl, connection, head.context c belongs, sent.2 rfl, rfl⟩⟩
          | succ count =>
              have inside : count + 1 ≤ (server.bufferMgr.buffers b).size := sent.1
              let outgoing := server.outgoing ++
                [{ context := c, socket := (server.bufferMgr.buffers b).socket,
                   bytes := (server.bufferMgr.buffers b).pending.take (count + 1) }]
              let sending : THEpollServer := { server with outgoing }
              have logged : sending.Conserved lists :=
                conserved.congr rfl rfl rfl (fun _ => rfl) rfl rfl fun _ => rfl
              have stays : ChainsReady least sending lists := ready
              dsimp only
              split
              · have whole : sending.sentWhole block b c = sending.giveFirst block b := by
                  unfold sentWhole
                  rw [if_neg]
                  rw [show (sending.bufferMgr.buffers b).postClose = false from head.postClose]
                  exact Bool.false_ne_true
                refine ⟨_, _, _, rfl, logged.sentWhole used chain_eq c, ?_, .inl ?_⟩
                · change ChainsReady least (sending.sentWhole block b c) _
                  rw [whole]
                  exact stays.giveFirst
                · change (sending.sentWhole block b c).contextMgr = _
                  rw [whole]
                  rfl
              · next part =>
                  exact ⟨_, _, _, rfl, logged.sentPart b (count + 1),
                    stays.sentPart small (Nat.lt_of_le_of_ne inside part), .inl rfl⟩

/-- An empty buffer that is offered costs the connection. -/
theorem writeSocket_empty {block b c : Nat} {result : SendResult}
    (data_eq : (server.cache.buf block).data = some b)
    (connection : server.connectionOf (server.bufferMgr.buffers b) = some c)
    (empty : (server.bufferMgr.buffers b).size = 0)
    (unfailing : server.Unfailing block result) :
    server.writeSocket block result = some (0, server.killSocket c) := by
  simp only [THEpollServer.writeSocket, data_eq, connection]
  cases result with
  | again => exact absurd empty (Nat.ne_of_gt (unfailing b data_eq))
  | failed => exact unfailing.elim
  | sent count =>
      have inside := (unfailing b data_eq).1
      cases count with
      | zero => rfl
      | succ count => omega

/-! ## Runs -/

/-- What holds along peaceful runs: queued buffers are ready and connected contexts not killed. -/
structure Open (least : Nat) (server : THEpollServer) : Prop where
  chains : ∃ lists, server.Conserved lists ∧ ChainsReady least server lists
  alive : server.Alive

namespace Open

theorem of_sameBuffers (isOpen : Open least server) (same : SameBuffers server next)
    (alive : next.Alive) : Open least next := by
  obtain ⟨lists, conserved, ready⟩ := isOpen.chains
  exact ⟨⟨lists, same.conserved conserved, ready.of_sameBuffers same⟩, alive⟩

theorem alive_of_contextMgr (isOpen : Open least server)
    (same : next.contextMgr = server.contextMgr) : next.Alive := by
  unfold Alive
  rw [same]
  exact isOpen.alive

theorem step (isOpen : Open least server) (small : least ≤ 1) {op : Op}
    (peaceful : server.Peaceful op)
    (enough : ∀ c data, op = .sendData c data → least ≤ data.length)
    (made : server.step op = some next) : Open least next := by
  obtain ⟨lists, conserved, ready⟩ := isOpen.chains
  cases op with
  | connect socket uid =>
      obtain rfl := Option.some.inj made
      exact isOpen.of_sameBuffers (server.sameBuffers_connect socket uid)
        (isOpen.alive.connect socket uid)
  | sendData c data =>
      obtain ⟨inside, sent⟩ := Option.ite_none_right_eq_some.mp made
      obtain ⟨added, next', lists', returned, conserved', ready', same⟩ :=
        ready.sendData conserved small inside (enough c data rfl)
      rw [returned] at sent
      obtain rfl := Option.some.inj sent
      exact ⟨⟨lists', conserved', ready'⟩, isOpen.alive_of_contextMgr same⟩
  | sendDataAndPostClose c data => exact peaceful.elim
  | writeSocket block result =>
      obtain ⟨⟨used, -⟩, written⟩ := Option.ite_none_right_eq_some.mp made
      obtain ⟨i, next', lists', returned, conserved', ready', contexts⟩ :=
        ready.writeSocket conserved small used peaceful
      rw [returned] at written
      obtain rfl := Option.some.inj written
      refine ⟨⟨lists', conserved', ready'⟩, ?_⟩
      rcases contexts with same | ⟨b, c, -, -, -, -, killed⟩
      · exact isOpen.alive_of_contextMgr same
      · unfold Alive
        dsimp only
        rw [killed]
        exact isOpen.alive.killSocket c
  | killSocket c =>
      obtain ⟨-, killed⟩ := Option.ite_none_right_eq_some.mp made
      obtain rfl := Option.some.inj killed
      exact isOpen.of_sameBuffers (server.sameBuffers_killSocket c) (isOpen.alive.killSocket c)
  | closeSocket c =>
      obtain ⟨-, closed⟩ := Option.ite_none_right_eq_some.mp made
      obtain rfl := Option.some.inj closed
      exact isOpen.of_sameBuffers (server.sameBuffers_closeSocket c) (isOpen.alive.closeSocket c)

/-- Without errors `WriteSocket` kills a context exactly when it offers an empty buffer. -/
theorem sparesContexts_iff (isOpen : Open least server) (small : least ≤ 1) {op : Op}
    (peaceful : server.Peaceful op) (made : server.step op = some next) :
    server.SparesContexts op ↔ server.OffersBytes op := by
  obtain ⟨lists, conserved, ready⟩ := isOpen.chains
  cases op with
  | writeSocket block result =>
      obtain ⟨⟨used, -⟩, -⟩ := Option.ite_none_right_eq_some.mp made
      obtain ⟨i, next', lists', returned, -, -, contexts⟩ :=
        ready.writeSocket conserved small used peaceful
      constructor
      · intro spares b data_eq served
        obtain ⟨c, connection⟩ := Option.isSome_iff_exists.mp served
        apply Nat.pos_of_ne_zero
        intro empty
        have killed := writeSocket_empty data_eq connection empty peaceful
        obtain ⟨belongs, connected⟩ := Option.filter_eq_some_iff.mp connection
        have inside := (ready.first conserved used data_eq).context c belongs
        have before := isOpen.alive c inside (Bool.and_eq_true_iff.mp connected).1
        have after := spares _ killed c inside before
        rw [killSocket_killed] at after
        exact Bool.false_ne_true after.symm
      · intro offers outcome result_eq c inside before
        obtain rfl : (i, next') = outcome := Option.some.inj (returned.symm.trans result_eq)
        rcases contexts with same | ⟨b, c', data_eq, connection, -, empty, -⟩
        · rw [same]
          exact before
        · exact absurd empty (Nat.ne_of_gt (offers b data_eq (by rw [connection]; rfl)))
  | _ => exact Iff.rfl

theorem offersBytes (isOpen : Open 1 server) {op : Op} (made : server.step op = some next) :
    server.OffersBytes op := by
  obtain ⟨lists, conserved, ready⟩ := isOpen.chains
  cases op with
  | writeSocket block result =>
      obtain ⟨⟨used, -⟩, -⟩ := Option.ite_none_right_eq_some.mp made
      intro b data_eq _
      exact (ready.first conserved used data_eq).enough
  | _ => trivial

end Open

theorem create_killed {memory : Nat → THContext} {bufferMgr bufferMgr' : THBufferMgr}
    {count : Nat} {mgr : THContextMgr}
    (created : THContextMgr.create memory bufferMgr count = some (mgr, bufferMgr')) :
    mgr.size = count ∧ ∀ c < count, (mgr.contexts c).killed = false := by
  induction count generalizing mgr bufferMgr' with
  | zero =>
      obtain ⟨rfl, rfl⟩ := Prod.mk.inj (Option.some.inj created)
      exact ⟨rfl, fun c none => absurd none (Nat.not_lt_zero c)⟩
  | succ count induction =>
      simp only [THContextMgr.create] at created
      split at created
      · cases created
      · next before =>
          obtain ⟨size_eq, killed⟩ := induction before
          split at created
          · cases created
          · obtain ⟨rfl, rfl⟩ := Prod.mk.inj (Option.some.inj created)
            refine ⟨congrArg (· + 1) size_eq, fun c inside => ?_⟩
            rcases eq_or_ne c count with rfl | different
            · simp [THContextMgr.set]
            · simp only [THContextMgr.set, ne_eq, different, not_false_eq_true,
                Function.update_of_ne]
              exact killed c (by omega)

theorem startServer_open {bufLen connection buffer sendCache : Nat} {one_lt : 1 < bufLen}
    {blocks : Nat → THCacheBlock Nat} {buffers : Nat → THBuffer} {contexts : Nat → THContext}
    (started : startServer bufLen one_lt connection buffer sendCache blocks buffers contexts =
      some server) (least : Nat) : Open least server := by
  obtain ⟨lists, conserved⟩ := startServer_conserved started
  simp only [startServer] at started
  split at started
  · cases started
  · next created =>
      obtain rfl := Option.some.inj started
      obtain ⟨size_eq, killed⟩ := create_killed created
      refine ⟨⟨lists, conserved, fun block buf member => ?_⟩, fun c inside _ => ?_⟩
      · rw [conserved.unused (THQCache.new_not_used sendCache blocks block)] at member
        cases member
      · exact killed c (size_eq ▸ inside)

theorem sparesContexts_iff_offersBytes {bufLen connection buffer sendCache : Nat}
    {one_lt : 1 < bufLen} {blocks : Nat → THCacheBlock Nat} {buffers : Nat → THBuffer}
    {contexts : Nat → THContext}
    (started : startServer bufLen one_lt connection buffer sendCache blocks buffers contexts =
      some server) {ops : List Op} (peaceful : Admissible step Peaceful server ops) :
    AllSteps step SparesContexts server ops ↔ AllSteps step OffersBytes server ops := by
  apply peaceful.allSteps_congr (Open 0)
  · exact fun isOpen legal made => isOpen.sparesContexts_iff (Nat.zero_le _) legal made
  · exact fun isOpen legal made => isOpen.step (Nat.zero_le _) legal (fun _ _ _ => Nat.zero_le _)
      made
  · exact startServer_open started 0

/-- In a run without errors of `send` no `WriteSocket` kills a context exactly if none offers an
empty buffer to its socket; and none does if every `SendData` is given at least one byte. -/
theorem writeSocket_spares_contexts {bufLen connection buffer sendCache : Nat}
    {one_lt : 1 < bufLen} {blocks : Nat → THCacheBlock Nat} {buffers : Nat → THBuffer}
    {contexts : Nat → THContext}
    (started : startServer bufLen one_lt connection buffer sendCache blocks buffers contexts =
      some server) {ops : List Op} (peaceful : Admissible step Peaceful server ops) :
    (AllSteps step SparesContexts server ops ↔ AllSteps step OffersBytes server ops) ∧
      ((∀ op ∈ ops, CarriesBytes op) → AllSteps step SparesContexts server ops) := by
  have agree := sparesContexts_iff_offersBytes started peaceful
  refine ⟨agree, fun carries => agree.mpr ?_⟩
  have legal : Admissible step (fun server op => server.Peaceful op ∧ CarriesBytes op) server ops :=
    peaceful.imp fun _ op member here => ⟨here, carries op member⟩
  have all : AllSteps step OffersBytes server ops ↔ AllSteps step (fun _ _ => True) server ops := by
    apply legal.allSteps_congr (Open 1)
    · exact fun isOpen _ made => iff_of_true (isOpen.offersBytes made) trivial
    · intro state next op isOpen legal made
      apply isOpen.step (Nat.le_refl _) legal.1 _ made
      rintro c data rfl
      exact legal.2
    · exact startServer_open started 1
  apply all.mpr
  exact allSteps_of_invariant (fun _ => True) (fun _ _ => trivial) (fun _ _ => trivial) trivial ops

/-- One byte is queued and sent after a pass that found the socket busy. -/
def busyOps : List Op :=
  [.connect 5 77, .sendData 0 [7], .writeSocket 1 .again, .writeSocket 1 (.sent 1)]

theorem busyOps_spares_contexts : ∃ server, smallServer = some server ∧
    Admissible step Peaceful server busyOps ∧
    (AllSteps step SparesContexts server busyOps ↔ AllSteps step OffersBytes server busyOps) ∧
      ((∀ op ∈ busyOps, CarriesBytes op) → AllSteps step SparesContexts server busyOps) := by
  have facts : smallServer.any (fun server =>
      decide (Admissible step Peaceful server busyOps)) = true := by
    decide +kernel
  obtain ⟨server, started, legal⟩ := (Option.any_eq_true _ _).mp facts
  have peaceful := of_decide_eq_true legal
  exact ⟨server, started, peaceful, writeSocket_spares_contexts started peaceful⟩

/-- An empty payload is queued and sent as 0 bytes. -/
def emptyOps : List Op := [.connect 5 77, .sendData 0 [], .writeSocket 1 (.sent 0)]

/-- Sending an empty payload closes the connection. -/
theorem emptyOps_kill : ¬ ∀ (server : THEpollServer), smallServer = some server →
    ∀ ops, Admissible step Peaceful server ops → AllSteps step SparesContexts server ops := by
  intro spares
  have facts : smallServer.any (fun server =>
      decide (Admissible step Peaceful server emptyOps ∧
        ¬ AllSteps step OffersBytes server emptyOps)) = true := by
    decide +kernel
  obtain ⟨server, started, legal⟩ := (Option.any_eq_true _ _).mp facts
  obtain ⟨peaceful, empty⟩ := of_decide_eq_true legal
  apply empty
  apply (sparesContexts_iff_offersBytes started peaceful).mp
  exact spares server started emptyOps peaceful

end CommonLib.THEpollServer
