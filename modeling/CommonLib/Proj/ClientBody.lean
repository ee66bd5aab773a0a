import CommonLib.Proj.Client
import CommonLib.Proj.Lifecycle

/-!
# The body buffer of `client.cpp`

Three constants of three files meet in the parser: `OnCheckPacketHead` accepts up to
`H_PROTO_MAX_LEN` announced bytes, the array for the body has `body_max` bytes, and the ring has
`H_BUFFER_LEN` bytes for head and body together.
-/

namespace CommonLib.Client

open MsgHead1 Execution

variable (client : Client)

/-- `body_max`: in `client.cpp` `H_BUFFER_LEN` is the macro of `head_type.hpp`. -/
def bodyMax : Nat := 4069

/-! ## Rounds of the parser -/

/-- A session with the sizes of the copies which its parser made to `Request->Body`. -/
structure BodyCopies where
  session : Session
  copied : List Nat

/-- What the next round of `RecvCompletedEvent` copies to `Request->Body`. -/
def bodyCopy (session : Session) : List Nat :=
  let req := session.context.request
  match session.status with
  | .ssWaitForm =>
      if req.packetLength ≤ req.buffer.validCount ∧ 1 ≤ req.formLength then
        ((req.buffer.getBufferData req.formLength H_HEAD_LEN1).map List.length).toList
      else []
  | _ => []

/-- `RecvCompletedEvent` writes a chunk to the ring and then makes rounds until one is idle. -/
inductive ParserEvent
  | receive (chunk : List Byte)
  | round

namespace BodyCopies

def start (session : Session) : BodyCopies where
  session := session
  copied := []

/-- A chunk comes from a receive buffer, which has the size of the ring. -/
def step (parser : BodyCopies) : ParserEvent → Option BodyCopies
  | .receive chunk =>
      if chunk.length ≤ H_BUFFER_LEN then
        some { parser with session := THSockServer.recvWrite parser.session chunk }
      else none
  | .round =>
      (client.toTHSockServer.recvStep parser.session).map fun session =>
        { session, copied := parser.copied ++ bodyCopy parser.session }

/-- No copy exceeds the array, and the parser does not wait for a packet longer than the ring. -/
structure Safe (parser : BodyCopies) : Prop where
  copied : ∀ size ∈ parser.copied, size ≤ bodyMax
  waits : parser.session.status = .ssWaitForm →
    parser.session.context.request.packetLength ≤ parser.session.ring.bufSize

end BodyCopies

/-! ## Conditions -/

/-- The length which the first bytes of the ring announce. -/
def announced (session : Session) : Nat :=
  htonl (len (client.toTHSockServer.loadHead session).head)

/-- A head that is accepted fits the ring with its body, and a body that is complete its array. -/
def Fits (parser : BodyCopies) : ParserEvent → Prop
  | .receive _ => True
  | .round =>
      let session := parser.session
      match session.status with
      | .ssWaitHead => H_HEAD_LEN1 ≤ session.ring.validCount →
          client.announced session ≤ H_PROTO_MAX_LEN →
            client.announced session + H_HEAD_LEN1 ≤ H_BUFFER_LEN
      | .ssWaitForm =>
          session.context.request.packetLength ≤ session.ring.validCount →
            session.context.request.formLength ≤ bodyMax
      | _ => True

/-- A head that is accepted announces no more than the array for the body holds. -/
def AnnouncesBody (parser : BodyCopies) : ParserEvent → Prop
  | .receive _ => True
  | .round => parser.session.status = .ssWaitHead →
      H_HEAD_LEN1 ≤ parser.session.ring.validCount →
        client.announced parser.session ≤ H_PROTO_MAX_LEN →
          client.announced parser.session ≤ bodyMax

/-! ## What a round does -/

/-- The ring holds bytes, and a noted head determines the length of its packet. -/
structure Noted (session : Session) : Prop where
  holds : ∃ queue, session.ring.Holds queue
  size_eq : session.ring.bufSize = H_BUFFER_LEN
  status : session.status = .ssWaitHead ∨ session.status = .ssWaitForm ∧
    session.context.request.packetLength = session.context.request.formLength + H_HEAD_LEN1

/-- The rounds by their outcomes. -/
inductive Round (session next : Session) : Prop
  | skipped (waiting : session.status = .ssWaitHead)
      (long : H_PROTO_MAX_LEN < client.announced session) (status : next.status = .ssWaitHead)
  | accepted (waiting : session.status = .ssWaitHead)
      (enough : H_HEAD_LEN1 ≤ session.ring.validCount)
      (short : client.announced session ≤ H_PROTO_MAX_LEN) (status : next.status = .ssWaitForm)
      (form : next.context.request.formLength = client.announced session)
  | completed (waiting : session.status = .ssWaitForm)
      (enough : session.context.request.packetLength ≤ session.ring.validCount)
      (status : next.status = .ssWaitHead)

theorem onCheckPacketBody_passes (req : THRequest) : ∃ checked,
    onCheckPacketBody req = (true, checked) ∧ checked.buffer = req.buffer ∧
      checked.packetLength = req.packetLength := by
  unfold onCheckPacketBody
  split
  · exact ⟨_, rfl, rfl, rfl⟩
  · exact ⟨_, rfl, rfl, rfl⟩

theorem loadBody_keeps (req : THRequest) (headLen : Nat) :
    (req.loadBody headLen).buffer = req.buffer ∧
      (req.loadBody headLen).packetLength = req.packetLength := by
  unfold THRequest.loadBody
  split
  · exact ⟨rfl, rfl⟩
  · exact ⟨rfl, rfl⟩

variable {client} {session next : Session}

theorem Noted.write (noted : Noted session) (chunk : List Byte) :
    Noted (THSockServer.recvWrite session chunk) := by
  obtain ⟨⟨queue, holds⟩, size_eq, status⟩ := noted
  refine ⟨?_, (THCB.writeCirBuffer_bufSize _ _).trans size_eq, status⟩
  rcases Nat.lt_or_ge session.ring.bufSize (queue.length + chunk.length) with full | fits
  · refine ⟨queue, ?_⟩
    change (session.ring.writeCirBuffer chunk).2.Holds queue
    rw [holds.writeCirBuffer_refused chunk full]
    exact holds
  · exact ⟨queue ++ chunk, (holds.writeCirBuffer fits).2⟩

/-- `HeadSafePosInc` leaves a ring that holds bytes. -/
theorem holds_skip {ring : THCB} {queue : List Byte} (holds : ring.Holds queue) (step : Nat) :
    ∃ rest, (ring.headSafePosInc step).2.Holds rest := by
  rcases Nat.lt_or_ge queue.length step with outside | inside
  · refine ⟨queue, ?_⟩
    rw [holds.headSafePosInc_refused (.inl (Int.ofNat_lt.mpr outside))]
    exact holds
  · exact ⟨queue.drop step, (holds.headSafePosInc inside).2⟩

theorem Noted.round (noted : Noted session)
    (steps : client.toTHSockServer.recvStep session = some next) :
    Noted next ∧ client.Round session next := by
  obtain ⟨⟨queue, holds⟩, size_eq, status⟩ := noted
  rcases status with waiting | ⟨waiting, packet_eq⟩
  · rcases Nat.lt_or_ge session.ring.validCount H_HEAD_LEN1 with short | enough
    · rw [THSockServer.recvStep_head_short waiting short] at steps
      cases steps
    · rcases Nat.lt_or_ge H_PROTO_MAX_LEN (client.announced session) with long | short
      · have refused : client.toTHSockServer.onCheckPacketHead
            (client.toTHSockServer.loadHead session) =
              (false, client.toTHSockServer.loadHead session) := by
          change onCheckPacketHead _ = _
          unfold announced at long
          simp only [onCheckPacketHead, if_neg (Nat.not_le.mpr long)]
        rw [THSockServer.recvStep_head_refused waiting enough refused] at steps
        obtain rfl := Option.some.inj steps
        refine ⟨⟨holds_skip holds 1, ?_, .inl rfl⟩, .skipped waiting long rfl⟩
        exact (THCB.headSafePosInc_bufSize _ _).trans size_eq
      · have accepted : client.toTHSockServer.onCheckPacketHead
            (client.toTHSockServer.loadHead session) =
              (true, { client.toTHSockServer.loadHead session with
                formLength := client.announced session
                packetLength := client.announced session + H_HEAD_LEN1 }) := by
          change onCheckPacketHead _ = _
          unfold announced at short ⊢
          simp only [onCheckPacketHead, if_pos short]
        obtain ⟨hl, hl_eq⟩ : ∃ hl, client.announced session = hl := ⟨_, rfl⟩
        rw [hl_eq] at accepted
        rw [THSockServer.recvStep_head_accepted waiting enough accepted] at steps
        obtain rfl := Option.some.inj steps
        exact ⟨⟨⟨queue, holds⟩, size_eq, .inr ⟨rfl, rfl⟩⟩,
          .accepted waiting enough short rfl hl_eq.symm⟩
  · rcases Nat.lt_or_ge session.ring.validCount session.context.request.packetLength with
      short | enough
    · rw [THSockServer.recvStep_form_short waiting short] at steps
      cases steps
    · obtain ⟨checked, passed, buffer_eq, length_eq⟩ :=
        onCheckPacketBody_passes (session.context.request.loadBody H_HEAD_LEN1)
      rw [THSockServer.recvStep_form_passed waiting enough passed] at steps
      obtain rfl := Option.some.inj steps
      let taken := (session.withRequest (checked.skip checked.packetLength)).withStatus
        .ssProcessing
      have ring_eq : (client.processRequest taken).ring =
          (session.ring.headSafePosInc checked.packetLength).2 := by
        rw [(client.processRequest_spec taken).1]
        change (checked.buffer.headSafePosInc checked.packetLength).2 = _
        rw [buffer_eq, (loadBody_keeps _ _).1]
      refine ⟨⟨?_, ?_, .inl rfl⟩, .completed waiting enough rfl⟩
      · change ∃ rest, (client.processRequest taken).ring.Holds rest
        rw [ring_eq]
        exact holds_skip holds checked.packetLength
      · change (client.processRequest taken).ring.bufSize = _
        rw [ring_eq, THCB.headSafePosInc_bufSize]
        exact size_eq

/-- A complete body is copied as announced. -/
theorem Noted.bodyCopy_eq (noted : Noted session) (waiting : session.status = .ssWaitForm)
    (enough : session.context.request.packetLength ≤ session.ring.validCount) :
    bodyCopy session =
      if 1 ≤ session.context.request.formLength then [session.context.request.formLength]
      else [] := by
  obtain ⟨⟨queue, holds⟩, size_eq, status⟩ := noted
  have packet_eq : session.context.request.packetLength =
      session.context.request.formLength + H_HEAD_LEN1 := by
    rcases status with other | ⟨-, found⟩
    · rw [waiting] at other
      cases other
    · exact found
  simp only [bodyCopy, waiting]
  split
  · next here =>
      obtain ⟨-, positive⟩ := here
      have long : H_HEAD_LEN1 + session.context.request.formLength ≤ queue.length := by
        rw [← holds.valid, Nat.add_comm, ← packet_eq]
        exact enough
      rw [holds.getBufferData _ _ positive long, if_pos positive]
      simp only [Option.map_some, Option.toList_some, List.length_take, List.length_drop]
      congr 1
      omega
  · next other => rw [if_neg fun positive => other ⟨enough, positive⟩]

theorem bodyCopy_of_waitHead (waiting : session.status = .ssWaitHead) : bodyCopy session = [] := by
  simp only [bodyCopy, waiting]

/-! ## Runs -/

namespace BodyCopies

variable {parser following : BodyCopies}

theorem Safe.write (safe : Safe parser) (chunk : List Byte) :
    Safe { parser with session := THSockServer.recvWrite parser.session chunk } where
  copied := safe.copied
  waits waiting := by
    change _ ≤ (parser.session.ring.writeCirBuffer chunk).2.bufSize
    rw [THCB.writeCirBuffer_bufSize]
    exact safe.waits waiting

theorem Safe.round (safe : Safe parser) (noted : Noted parser.session)
    (steps : client.toTHSockServer.recvStep parser.session = some next)
    (fits : client.Fits parser .round) :
    Safe { session := next, copied := parser.copied ++ bodyCopy parser.session } := by
  obtain ⟨noted', round⟩ := noted.round steps
  cases round with
  | skipped waiting long status =>
      rw [bodyCopy_of_waitHead waiting, List.append_nil]
      refine ⟨safe.copied, fun other => ?_⟩
      rw [status] at other
      cases other
  | accepted waiting enough short status form =>
      simp only [Fits, waiting] at fits
      rw [bodyCopy_of_waitHead waiting, List.append_nil]
      refine ⟨safe.copied, fun other => ?_⟩
      rcases noted'.status with head | ⟨-, packet_eq⟩
      · rw [status] at head
        cases head
      · rw [packet_eq, form, noted'.size_eq]
        exact fits enough short
  | completed waiting enough status =>
      simp only [Fits, waiting] at fits
      rw [noted.bodyCopy_eq waiting enough]
      constructor
      · intro size member
        rcases List.mem_append.mp member with before | now
        · exact safe.copied size before
        · split at now
          · rw [List.mem_singleton.mp now]
            exact fits enough
          · cases now
      · intro other
        rw [status] at other
        cases other

/-- A head that does not fit the ring leaves the parser waiting, a body that does not fit its array
is copied. -/
theorem not_safe_round (noted : Noted parser.session)
    (steps : client.toTHSockServer.recvStep parser.session = some next)
    (misfit : ¬ client.Fits parser .round) :
    ¬ Safe { session := next, copied := parser.copied ++ bodyCopy parser.session } := by
  intro safe
  apply misfit
  obtain ⟨noted', round⟩ := noted.round steps
  cases round with
  | skipped waiting long status =>
      simp only [Fits, waiting]
      exact fun _ short => absurd short (Nat.not_le.mpr long)
  | accepted waiting enough short status form =>
      simp only [Fits, waiting]
      intro _ _
      rcases noted'.status with head | ⟨-, packet_eq⟩
      · rw [status] at head
        cases head
      · have waits := safe.waits status
        rw [packet_eq, form, noted'.size_eq] at waits
        exact waits
  | completed waiting enough status =>
      simp only [Fits, waiting]
      intro _
      have copied := safe.copied
      rw [noted.bodyCopy_eq waiting enough] at copied
      rcases Nat.eq_zero_or_pos parser.session.context.request.formLength with empty | positive
      · rw [empty]
        exact Nat.zero_le _
      · rw [if_pos (Nat.succ_le_of_lt positive)] at copied
        exact copied _ (List.mem_append_right _ List.mem_cons_self)

/-- A noted head announces no more than the array for the body holds. -/
def NotedBody (parser : BodyCopies) : Prop :=
  parser.session.status = .ssWaitForm → parser.session.context.request.formLength ≤ bodyMax

theorem fits_of_announcesBody (notedBody : NotedBody parser) {event : ParserEvent}
    (announces : client.AnnouncesBody parser event) : client.Fits parser event := by
  cases event with
  | receive chunk => trivial
  | round =>
      simp only [Fits]
      split
      · next waiting =>
          intro enough short
          have small := announces waiting enough short
          simp only [bodyMax, H_HEAD_LEN1, H_BUFFER_LEN] at small ⊢
          omega
      · next waiting => exact fun _ => notedBody waiting
      · trivial

theorem NotedBody.step (notedBody : NotedBody parser) (noted : Noted parser.session)
    {event : ParserEvent} (announces : client.AnnouncesBody parser event)
    (made : BodyCopies.step client parser event = some following) : NotedBody following := by
  cases event with
  | receive chunk =>
      obtain ⟨-, written⟩ := Option.ite_none_right_eq_some.mp made
      obtain rfl := Option.some.inj written
      exact notedBody
  | round =>
      obtain ⟨next, steps, rfl⟩ := Option.map_eq_some_iff.mp made
      intro waits
      obtain ⟨-, round⟩ := noted.round steps
      cases round with
      | skipped waiting long status =>
          rw [status] at waits
          cases waits
      | accepted waiting enough short status form =>
          rw [form]
          exact announces waiting enough short
      | completed waiting enough status =>
          rw [status] at waits
          cases waits

theorem noted_step (noted : Noted parser.session) {event : ParserEvent}
    (made : step client parser event = some following) : Noted following.session := by
  cases event with
  | receive chunk =>
      obtain ⟨-, written⟩ := Option.ite_none_right_eq_some.mp made
      obtain rfl := Option.some.inj written
      exact noted.write chunk
  | round =>
      obtain ⟨next, steps, rfl⟩ := Option.map_eq_some_iff.mp made
      exact (noted.round steps).1

theorem Safe.step (safe : Safe parser) (noted : Noted parser.session) {event : ParserEvent}
    (fits : client.Fits parser event)
    (made : BodyCopies.step client parser event = some following) : Safe following := by
  cases event with
  | receive chunk =>
      obtain ⟨-, written⟩ := Option.ite_none_right_eq_some.mp made
      obtain rfl := Option.some.inj written
      exact safe.write chunk
  | round =>
      obtain ⟨next, steps, rfl⟩ := Option.map_eq_some_iff.mp made
      exact safe.round noted steps fits

theorem not_safe_step (noted : Noted parser.session) {event : ParserEvent}
    (misfit : ¬ client.Fits parser event)
    (made : step client parser event = some following) : ¬ Safe following := by
  cases event with
  | receive chunk => exact absurd trivial misfit
  | round =>
      obtain ⟨next, steps, rfl⟩ := Option.map_eq_some_iff.mp made
      exact not_safe_round noted steps misfit

theorem start_noted {session : Session} {queue : List Byte} (holds : session.ring.Holds queue)
    (size_eq : session.ring.bufSize = H_BUFFER_LEN) (waiting : session.status = .ssWaitHead) :
    Noted (start session).session ∧ Safe (start session) := by
  refine ⟨⟨⟨queue, holds⟩, size_eq, .inl waiting⟩, ⟨fun _ member => (nomatch member), ?_⟩⟩
  intro other
  rw [show session.status = .ssWaitForm from other] at waiting
  cases waiting

/-- The parser is safe throughout exactly if every head it accepts fits the ring with its body and
every body it completes fits the array; and it is if every head it accepts announces at most
`bodyMax` bytes. -/
theorem client_body_safe_iff (client : Client) {session : Session} {queue : List Byte}
    (holds : session.ring.Holds queue) (size_eq : session.ring.bufSize = H_BUFFER_LEN)
    (waiting : session.status = .ssWaitHead) (events : List ParserEvent) :
    (AllStates (step client) Safe (start session) events ↔
        AllSteps (step client) client.Fits (start session) events) ∧
      (AllSteps (step client) client.AnnouncesBody (start session) events →
        AllStates (step client) Safe (start session) events) := by
  have ready := start_noted holds size_eq waiting
  constructor
  · apply allStates_iff_allSteps fun parser => Noted parser.session ∧ Safe parser
    · exact And.right
    · exact fun ⟨noted, safe⟩ fits made => ⟨noted_step noted made, safe.step noted fits made⟩
    · exact fun ⟨noted, _⟩ misfit made => not_safe_step noted misfit made
    · exact ready
  · apply allStates_of_allSteps fun parser =>
      Noted parser.session ∧ Safe parser ∧ NotedBody parser
    · exact fun state => state.2.1
    · intro parser following event ⟨noted, safe, notedBody⟩ announces made
      exact ⟨noted_step noted made,
        safe.step noted (fits_of_announcesBody notedBody announces) made,
        notedBody.step noted announces made⟩
    · refine ⟨ready.1, ready.2, fun other => ?_⟩
      rw [show session.status = .ssWaitForm from other] at waiting
      cases waiting

end BodyCopies

/-- A context of a new `Client`, on cleared memory. -/
def clearedSession : Session :=
  TeWiFiClient.newSession (fun _ => 0) (fun _ => 0) (fun _ => 0) fun _ => 0

/-- A `Client` without responders. -/
def bareClient : Client where
  responders _ := none
  serverCount := 1
  gzCompress data := (data, false)

/-- A head that announces one byte, its body, and the rounds of the parser. -/
def byteEvents : List ParserEvent :=
  [.receive [0, 0, 0, 1, 0, 0, 0, 1, 0, 0, 0, 0, 65], .round, .round]

theorem client_body_safe_byte :
    clearedSession.ring.Holds [] ∧ clearedSession.ring.bufSize = H_BUFFER_LEN ∧
      clearedSession.status = .ssWaitHead ∧
      (AllStates (BodyCopies.step bareClient) BodyCopies.Safe (.start clearedSession) byteEvents ↔
        AllSteps (BodyCopies.step bareClient) bareClient.Fits (.start clearedSession) byteEvents) ∧
      (AllSteps (BodyCopies.step bareClient) bareClient.AnnouncesBody (.start clearedSession)
          byteEvents →
        AllStates (BodyCopies.step bareClient) BodyCopies.Safe (.start clearedSession)
          byteEvents) :=
  have holds : clearedSession.ring.Holds [] := THCB.new_holds (by decide) fun _ => 0
  ⟨holds, rfl, rfl, BodyCopies.client_body_safe_iff bareClient holds rfl rfl byteEvents⟩

/-- A head that announces 4096 bytes. -/
def longHead : List ParserEvent := [.receive [0, 0, 0, 1, 0, 0, 16, 0, 0, 0, 0, 0], .round]

/-- The parser waits for a packet of 4108 bytes in a ring of 4096. -/
theorem longHead_waits : ¬ ∀ events : List ParserEvent,
    AllStates (BodyCopies.step bareClient) BodyCopies.Safe (.start clearedSession) events := by
  intro safe
  have facts : (run (BodyCopies.step bareClient) (.start clearedSession) longHead).any (fun parser =>
      decide (parser.session.status = .ssWaitForm ∧
        parser.session.ring.bufSize < parser.session.context.request.packetLength)) = true := by
    decide +kernel
  obtain ⟨parser, execution, here⟩ := (Option.any_eq_true _ _).mp facts
  obtain ⟨waiting, long⟩ := of_decide_eq_true here
  have waits := ((safe longHead).of_run execution).waits waiting
  exact Nat.not_lt.mpr waits long

end CommonLib.Client
