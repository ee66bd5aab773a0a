import CommonLib.Proj.Chunking

/-!
# Reusing a context for a new connection

`OnClose` clears a context for reuse: it resets the parser status and the response, but leaves the
ring as it is.  The next connection is served like the first one of a new context exactly when the
old connection left no byte behind.
-/

namespace CommonLib.TeWiFiClient

open Execution

variable (client : TeWiFiClient)

/-- The requests dispatched while the connection receives `chunks`. -/
def dispatches (session : Session) (chunks : List (List Byte)) : Option (List Packet) :=
  (run (fun state chunk => client.step state (.recv chunk)) session chunks).map (·.dispatched)

theorem step_recv {session : Session} (connected : session.context.connected = true)
    {chunk : List Byte} (nonempty : 0 < chunk.length) (short : chunk.length ≤ H_BUFFER_LEN) :
    client.step session (.recv chunk) =
      client.toTHSockServer.recvCompletedEvent session chunk := by
  rw [step, if_pos ⟨connected, nonempty, short⟩]

theorem step_recv_refused {session : Session} {chunk : List Byte}
    (refused : ¬ (session.context.connected = true ∧ 0 < chunk.length ∧
      chunk.length ≤ H_BUFFER_LEN)) : client.step session (.recv chunk) = none := by
  rw [step, if_neg refused]

/-- What is dispatched depends on the context only through the bytes in its ring. -/
theorem dispatches_congr {session session' : Session} {queue : List Byte}
    (parsing : Parsing session queue) (parsing' : Parsing session' queue)
    (log_eq : session.dispatched = session'.dispatched)
    (connected_eq : session.context.connected = session'.context.connected)
    (chunks : List (List Byte)) :
    client.dispatches session chunks = client.dispatches session' chunks := by
  induction chunks generalizing session session' queue with
  | nil => simp [dispatches, log_eq]
  | cons chunk chunks induction =>
      by_cases received : session.context.connected = true ∧ 0 < chunk.length ∧
          chunk.length ≤ H_BUFFER_LEN
      · obtain ⟨connected, nonempty, short⟩ := received
        obtain ⟨next, result, delivers⟩ := client.recvCompletedEvent_spec parsing chunk
        obtain ⟨next', result', delivers'⟩ := client.recvCompletedEvent_spec parsing' chunk
        have later := induction delivers.parsing delivers'.parsing
          (by rw [delivers.dispatched, delivers'.dispatched, log_eq])
          (by rw [delivers.connected, delivers'.connected, log_eq, connected_eq])
        simp only [dispatches, run, client.step_recv connected nonempty short, result,
          client.step_recv (connected_eq ▸ connected) nonempty short, result', Option.bind_some]
        exact later
      · have received' : ¬ (session'.context.connected = true ∧ 0 < chunk.length ∧
            chunk.length ≤ H_BUFFER_LEN) := connected_eq ▸ received
        simp only [dispatches, run, client.step_recv_refused received,
          client.step_recv_refused received', Option.bind_none]

/-- The dispatches of a single chunk on a new connection. -/
theorem dispatches_single {session : Session} {queue : List Byte} (parsing : Parsing session queue)
    (tag : Int) {chunk : List Byte} (nonempty : 0 < chunk.length)
    (short : chunk.length ≤ H_BUFFER_LEN) :
    client.dispatches (client.connect session tag) [chunk] =
      some (client.framing.receive H_BUFFER_LEN queue chunk).1 := by
  obtain ⟨parsing', log_eq, connected⟩ := client.connect_spec parsing tag
  obtain ⟨next, result, delivers⟩ := client.recvCompletedEvent_spec parsing' chunk
  simp only [dispatches, run, client.step_recv connected nonempty short, result, Option.bind_some,
    Option.map_some, delivers.dispatched, log_eq, List.nil_append]

theorem largeChunk_receive :
    ∃ later, (client.framing.receive H_BUFFER_LEN [] largeChunk).1 = emptyPacket :: later := by
  have fits : ([] : List Byte).length + largeChunk.length ≤ H_BUFFER_LEN := by
    exact Nat.le_of_eq (by rw [largeChunk_length, List.length_nil, Nat.zero_add])
  rw [client.framing.receive_of_fits fits, List.nil_append, largeChunk,
    client.framing.parse_append, client.emptyFrame_parse]
  exact ⟨_, List.singleton_append⟩

/-- A ring that is not empty refuses the large chunk, so that nothing new is dispatched. -/
theorem largeChunk_refused {queue : List Byte} (stuck : client.framing.advance queue = none)
    (nonempty : 0 < queue.length) :
    (client.framing.receive H_BUFFER_LEN queue largeChunk).1 = [] := by
  have full : ¬ queue.length + largeChunk.length ≤ H_BUFFER_LEN := by
    rw [largeChunk_length]
    omega
  rw [Framing.receive, if_neg full, Framing.parse_of_stuck stuck]

/-- After any history, a context taken for a new connection dispatches what a new context would
exactly when its ring was empty. -/
theorem isolated_iff_empty {head body content ring : Nat → Byte} {session reused : Session}
    (reach : Reachable client.step (newSession head body content ring) session) {tag : Int}
    (taken : client.step session (.connect tag) = some reused) :
    (∀ chunks, client.dispatches reused chunks =
        client.dispatches (client.connect (newSession head body content ring) tag) chunks) ↔
      session.ring.validCount = 0 := by
  obtain ⟨queue, parsing, stuck⟩ := client.resting_of_reachable reach
  have new := (client.newSession_resting head body content ring).parsing
  simp only [step, Option.ite_none_left_eq_some, Option.some.injEq] at taken
  obtain ⟨_, rfl⟩ := taken
  rw [parsing.holds.valid]
  constructor
  · intro isolated
    by_contra left
    have large : 0 < largeChunk.length := by
      rw [largeChunk_length]
      decide
    have short := Nat.le_of_eq largeChunk_length
    have same := isolated [largeChunk]
    obtain ⟨later, dispatched⟩ := client.largeChunk_receive
    rw [client.dispatches_single parsing tag large short,
      client.dispatches_single new tag large short,
      client.largeChunk_refused stuck (Nat.pos_of_ne_zero left), dispatched] at same
    simp at same
  · intro empty chunks
    obtain rfl : queue = [] := List.eq_nil_of_length_eq_zero empty
    obtain ⟨parsing', log_eq, connected⟩ := client.connect_spec parsing tag
    obtain ⟨new', new_log_eq, new_connected⟩ := client.connect_spec new tag
    exact client.dispatches_congr parsing' new' (log_eq.trans new_log_eq.symm)
      (connected.trans new_connected.symm) chunks

/-- A connection which receives one chunk and is then killed. -/
def served (old : List Byte) : List Event := [.connect 0, .recv old, .kill]

theorem served_spec (old : List Byte) (nonempty : 0 < old.length)
    (short : old.length ≤ H_BUFFER_LEN)
    (remains : client.survives [] (client.framing.parse old).1 = true)
    (head body content ring : Nat → Byte) :
    ∃ session, run client.step (newSession head body content ring) (served old) = some session ∧
      session.context.connected = false ∧
      client.Resting session (client.framing.parse old).2 := by
  have new := (client.newSession_resting head body content ring).parsing
  obtain ⟨parsing, log_eq, connected⟩ := client.connect_spec new 0
  obtain ⟨middle, received, delivers⟩ := client.recvCompletedEvent_spec parsing old
  rw [client.framing.receive_of_fits (by simpa using short), List.nil_append] at delivers
  have connected' : middle.context.connected = true := by
    rw [delivers.connected, connected, log_eq, remains]
    rfl
  obtain ⟨closed, waiting, same⟩ := client.killSocket_spec delivers.parsing.live connected'
  refine ⟨_, run_cons_eq_some.mpr ⟨_, rfl, run_cons_eq_some.mpr ⟨middle, ?_,
    run_cons_eq_some.mpr ⟨_, if_pos connected', rfl⟩⟩⟩, closed,
    closed_spec delivers.parsing closed waiting same, client.framing.parse_stuck old⟩
  rw [client.step_recv connected nonempty short, received]

/-- A connection of one complete frame leaves nothing to the next. -/
theorem served_isolated :
    ∃ session reused, run echoClient.step zeroContext (served emptyFrame) = some session ∧
      echoClient.step session (.connect 0) = some reused ∧
      ∀ chunks, echoClient.dispatches reused chunks =
        echoClient.dispatches (echoClient.connect zeroContext 0) chunks := by
  obtain ⟨session, execution, closed, resting⟩ := echoClient.served_spec emptyFrame
    (by decide) (by decide) (by rw [echoClient.emptyFrame_parse]; rfl) (fun _ => 0) (fun _ => 0)
    (fun _ => 0) (fun _ => 0)
  have taken : echoClient.step session (.connect 0) = some (echoClient.connect session 0) := by
    rw [step, closed]
    rfl
  refine ⟨session, _, execution, taken,
    (echoClient.isolated_iff_empty ⟨_, execution⟩ taken).mpr ?_⟩
  rw [resting.parsing.holds.valid, echoClient.emptyFrame_parse]
  rfl

/-- One stray byte of the old connection changes what the new one dispatches. -/
theorem served_not_isolated :
    ¬ ∀ (old old' : List Byte) (session session' : Session) (chunks : List (List Byte)),
      run echoClient.step zeroContext (served old) = some session →
      run echoClient.step zeroContext (served old') = some session' →
      echoClient.dispatches (echoClient.connect session 0) chunks =
        echoClient.dispatches (echoClient.connect session' 0) chunks := by
  intro isolated
  have stuck : echoClient.framing.advance [0x73] = none := by
    rw [echoClient.advance_eq]
    rfl
  have parse_eq := Framing.parse_of_stuck stuck
  obtain ⟨session, execution, _, resting⟩ := echoClient.served_spec [0x73]
    (by decide) (by decide) (by rw [parse_eq]; rfl) (fun _ => 0) (fun _ => 0) (fun _ => 0)
    (fun _ => 0)
  obtain ⟨session', execution', _, resting'⟩ := echoClient.served_spec emptyFrame
    (by decide) (by decide) (by rw [echoClient.emptyFrame_parse]; rfl) (fun _ => 0) (fun _ => 0)
    (fun _ => 0) (fun _ => 0)
  rw [parse_eq] at resting
  rw [echoClient.emptyFrame_parse] at resting'
  have large : 0 < largeChunk.length := by
    rw [largeChunk_length]
    decide
  have short := Nat.le_of_eq largeChunk_length
  have same := isolated _ _ _ _ [largeChunk] execution execution'
  obtain ⟨later, dispatched⟩ := echoClient.largeChunk_receive
  rw [echoClient.dispatches_single resting.parsing 0 large short,
    echoClient.dispatches_single resting'.parsing 0 large short,
    echoClient.largeChunk_refused resting.stuck (by decide), dispatched] at same
  simp at same

end CommonLib.TeWiFiClient
