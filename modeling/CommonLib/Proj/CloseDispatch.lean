import CommonLib.Proj.Reuse

/-!
# Closing a connection from a request handler

`CloseContext` sets the status to `ssWaitClose`, but `OnClose`, `BuildResponse` and the running
`RecvCompletedEvent` set it back to `ssWaitHead`.  The loop therefore goes on with the frames which
are left in the ring of the closed connection.
-/

namespace CommonLib.TeWiFiClient

open Execution

variable (client : TeWiFiClient)

/-- The session after `count` rounds of a running `RecvCompletedEvent`. -/
def rounds : Nat → Session → Option Session
  | 0, session => some session
  | count + 1, session => (client.toTHSockServer.recvStep session).bind (rounds count)

/-- Once the connection is closed, the rounds that follow dispatch nothing. -/
def QuietAfterClose (session : Session) : Prop :=
  ∀ before after closed last, client.rounds before session = some closed →
    closed.context.connected = false → client.rounds after closed = some last →
      last.dispatched = closed.dispatched

/-- No request follows one whose handler closes the connection. -/
def ClosesLast (log packets : List Packet) : Prop :=
  ∀ front back, packets = front ++ back → client.survives log front = false → back = []

variable {client} {session middle last : Session} {queue : List Byte}

/-- Rounds deliver the first messages of the ring and keep the rest. -/
theorem rounds_delivers (parsing : Parsing session queue) {count : Nat}
    (made : client.rounds count session = some middle) :
    ∃ packets rest, client.Delivers session middle packets rest ∧
      (client.framing.parse queue).1 = packets ++ (client.framing.parse rest).1 := by
  induction count generalizing session queue with
  | zero =>
      obtain rfl := Option.some.inj made
      exact ⟨[], queue, ⟨parsing, (List.append_nil _).symm, (Bool.and_true _).symm⟩, rfl⟩
  | succ count induction =>
      rcases client.recvStep_delivers parsing with ⟨stops, -⟩ |
        ⟨next, packets, rest, steps, delivers, parsed, -, -⟩
      · rw [rounds, stops] at made
        cases made
      · rw [rounds, steps] at made
        obtain ⟨packets', rest', delivers', parsed'⟩ := induction delivers.parsing made
        refine ⟨packets ++ packets', rest', delivers.trans delivers', ?_⟩
        rw [parsed, parsed', List.append_assoc]

/-- Every first part of the messages is delivered at some time. -/
theorem exists_rounds (parsing : Parsing session queue) {front back : List Packet}
    (split : (client.framing.parse queue).1 = front ++ back) :
    ∃ count middle rest, client.rounds count session = some middle ∧
      client.Delivers session middle front rest ∧ (client.framing.parse rest).1 = back := by
  induction left : roundsLeft session queue using Nat.strongRecOn
    generalizing session queue front with
  | ind left' induction =>
      cases front with
      | nil =>
          exact ⟨0, session, queue, rfl,
            ⟨parsing, (List.append_nil _).symm, (Bool.and_true _).symm⟩, split⟩
      | cons packet front =>
          rcases client.recvStep_delivers parsing with ⟨-, parsed⟩ |
            ⟨next, packets, rest, steps, delivers, parsed, few, fewer⟩
          · rw [parsed] at split
            cases split
          · rw [parsed] at split
            cases packets with
            | nil =>
                obtain ⟨count, middle, rest', made, delivers', parsed'⟩ :=
                  induction _ (left ▸ fewer) delivers.parsing split rfl
                refine ⟨count + 1, middle, rest', ?_, delivers.trans delivers', parsed'⟩
                rw [rounds, steps]
                exact made
            | cons first packets =>
                obtain rfl : packets = [] := by simpa using few
                obtain ⟨rfl, split'⟩ := List.cons.inj split
                obtain ⟨count, middle, rest', made, delivers', parsed'⟩ :=
                  induction _ (left ▸ fewer) delivers.parsing split' rfl
                refine ⟨count + 1, middle, rest', ?_, delivers.trans delivers', parsed'⟩
                rw [rounds, steps]
                exact made

/-- The loop dispatches nothing after a close exactly if no complete frame follows one whose handler
closes the connection. -/
theorem quietAfterClose_iff (parsing : Parsing session queue)
    (connected : session.context.connected = true) :
    client.QuietAfterClose session ↔
      client.ClosesLast session.dispatched (client.framing.parse queue).1 := by
  constructor
  · intro quiet front back split closes
    obtain ⟨before, closed, rest, made, delivers, parsed⟩ := exists_rounds parsing split
    obtain ⟨after, last, rest', made', delivers', -⟩ :=
      exists_rounds delivers.parsing (parsed.trans (List.append_nil back).symm)
    have isClosed : closed.context.connected = false := by
      rw [delivers.connected, connected, closes]
      rfl
    have same := quiet before after closed last made isClosed made'
    rw [delivers'.dispatched] at same
    exact List.append_right_eq_self.mp same
  · intro closesLast before after closed last made isClosed made'
    obtain ⟨packets, rest, delivers, parsed⟩ := rounds_delivers parsing made
    obtain ⟨packets', rest', delivers', parsed'⟩ := rounds_delivers delivers.parsing made'
    have closes : client.survives session.dispatched packets = false := by
      have connection := delivers.connected
      rwa [isClosed, connected, Bool.true_and, eq_comm] at connection
    have nothing := closesLast _ _ parsed closes
    rw [parsed', List.append_eq_nil_iff] at nothing
    rw [delivers'.dispatched, nothing.1, List.append_nil]

/-- In every reachable state of a connection and for every chunk that arrives, the running
`RecvCompletedEvent` dispatches nothing after a close exactly if, among the frames in the ring, none
follows one whose handler closes the connection. -/
theorem no_dispatch_after_close_iff {head body content ring : Nat → Byte}
    (reach : Reachable client.step (newSession head body content ring) session)
    (connected : session.context.connected = true) (chunk : List Byte) :
    ∃ queue, session.ring.Holds queue ∧
      (client.QuietAfterClose (THSockServer.recvWrite session chunk) ↔
        client.ClosesLast session.dispatched
          (client.framing.receive H_BUFFER_LEN queue chunk).1) := by
  obtain ⟨queue, resting⟩ := client.resting_of_reachable reach
  exact ⟨queue, resting.parsing.holds,
    quietAfterClose_iff (recvWrite_parsing resting.parsing chunk) connected⟩

/-- A server whose handlers answer every command by closing the connection. -/
def closingClient : TeWiFiClient where
  responders _ := some fun _ =>
    { response := { responseCode := 0, responseStream := [], abortGZIP := false,
                    autoAcknowledge := false }
      logined := false
      closes := true
      throws := false }
  serverCount := 1
  gzDecompress data := (data, false)
  gzCompress data := (data, false)

theorem closing_reachable :
    Reachable closingClient.step zeroContext (closingClient.connect zeroContext 0) :=
  ⟨[.connect 0], rfl⟩

/-- One frame, after which the ring is empty. -/
theorem no_dispatch_after_close_single :
    Reachable closingClient.step zeroContext (closingClient.connect zeroContext 0) ∧
      (closingClient.connect zeroContext 0).context.connected = true ∧
      ∃ queue, (closingClient.connect zeroContext 0).ring.Holds queue ∧
        (closingClient.QuietAfterClose
            (THSockServer.recvWrite (closingClient.connect zeroContext 0) emptyFrame) ↔
          closingClient.ClosesLast (closingClient.connect zeroContext 0).dispatched
            (closingClient.framing.receive H_BUFFER_LEN queue emptyFrame).1) :=
  ⟨closing_reachable, rfl, no_dispatch_after_close_iff closing_reachable rfl emptyFrame⟩

/-- Two frames in one chunk: the second is dispatched after the first has closed the connection. -/
theorem second_frame_dispatched :
    ¬ ∀ session, Reachable closingClient.step zeroContext session →
      session.context.connected = true →
        ∀ chunk, closingClient.QuietAfterClose (THSockServer.recvWrite session chunk) := by
  intro quiet
  have new := (closingClient.newSession_resting (fun _ => 0) (fun _ => 0) (fun _ => 0)
    fun _ => 0).parsing
  obtain ⟨parsing, log_eq, connected⟩ := closingClient.connect_spec new 0
  have written := recvWrite_parsing parsing (emptyFrame ++ emptyFrame)
  rw [if_pos (by decide), List.nil_append] at written
  have closesLast := (quietAfterClose_iff written connected).mp
    (quiet _ closing_reachable connected (emptyFrame ++ emptyFrame))
  have parsed : (closingClient.framing.parse (emptyFrame ++ emptyFrame)).1 =
      [emptyPacket] ++ [emptyPacket] := by
    rw [Framing.parse_append, closingClient.emptyFrame_parse, List.nil_append,
      closingClient.emptyFrame_parse]
  rw [parsed] at closesLast
  have nothing := closesLast [emptyPacket] [emptyPacket] rfl rfl
  cases nothing

end CommonLib.TeWiFiClient
