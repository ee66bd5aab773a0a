import CommonLib.Library.Execution
import CommonLib.Proj.Refinement

/-!
# The life of a context

Whatever happens to a context, the parser state stays in agreement with the ring, and between two
events the ring holds no packet that could be dispatched.
-/

namespace CommonLib.TeWiFiClient

open MsgHead2 Execution

variable (client : TeWiFiClient)

/-- A context as `THSockContext` constructs it, on arbitrary contents of its arrays. -/
def newSession (head body content ring : Nat → Byte) : Session where
  context := newContext head body content ring
  dispatched := []
  sent := []

/-- Between two events the parser is stuck on the bytes in the ring. -/
structure Resting (session : Session) (queue : List Byte) : Prop where
  parsing : Parsing session queue
  stuck : client.framing.advance queue = none

theorem advance_nil : client.framing.advance [] = none := by
  rw [client.advance_eq]
  rfl

theorem newSession_resting (head body content ring : Nat → Byte) :
    client.Resting (newSession head body content ring) [] where
  parsing :=
    { holds := THCB.new_holds (by decide) ring
      size_eq := rfl
      live := live_of_not_connected rfl
      status := Or.inl rfl }
  stuck := client.advance_nil

/-- Taking a context for a new connection leaves its ring as it is. -/
theorem connect_spec {session : Session} {queue : List Byte} (parsing : Parsing session queue)
    (tag : Int) :
    Parsing (client.connect session tag) queue ∧ (client.connect session tag).dispatched = [] ∧
      (client.connect session tag).context.connected = true := by
  obtain ⟨holds, size_eq, _, status⟩ := parsing
  unfold connect buildResponse
  simp only [Bool.false_eq_true, if_false, if_true]
  split
  · exact ⟨⟨holds, size_eq, fun _ => ⟨rfl, rfl⟩, status⟩, rfl, rfl⟩
  · exact ⟨⟨holds, size_eq, fun _ => ⟨rfl, rfl⟩, Or.inl rfl⟩, rfl, rfl⟩

/-- A connection that is killed or closed by the server leaves its bytes in the ring. -/
theorem closed_spec {session : Session} {queue : List Byte} (parsing : Parsing session queue)
    {context : THSockContext} (closed : context.connected = false)
    (waiting : context.sessionStatus = .ssWaitHead)
    (same : context.request = session.context.request) :
    Parsing { session with context } queue := by
  obtain ⟨holds, size_eq, _, _⟩ := parsing
  refine ⟨?_, ?_, live_of_not_connected closed, Or.inl waiting⟩
  · rw [Session.ring, same]
    exact holds
  · rw [Session.ring, same]
    exact size_eq

theorem killSocket_spec {context : THSockContext} (live : Live context)
    (connected : context.connected = true) :
    (client.killSocket context).connected = false ∧
      (client.killSocket context).sessionStatus = .ssWaitHead ∧
      (client.killSocket context).request = context.request := by
  obtain ⟨alive, _⟩ := live connected
  simp [killSocket, alive, onClose]

theorem closeContext_of_connected {context : THSockContext} (live : Live context)
    (connected : context.connected = true) :
    (client.closeContext context).connected = false ∧
      (client.closeContext context).sessionStatus = .ssWaitHead ∧
      (client.closeContext context).request = context.request := by
  obtain ⟨alive, opened⟩ := live connected
  simp [closeContext, closeSocket, killSocket, alive, opened, onClose]

/-- One event keeps a resting context at rest. -/
theorem Resting.step {session next : Session} {queue : List Byte}
    (resting : client.Resting session queue) {event : Event}
    (result : client.step session event = some next) :
    ∃ queue', client.Resting next queue' := by
  obtain ⟨parsing, stuck⟩ := resting
  cases event with
  | connect tag =>
      simp only [TeWiFiClient.step, Option.ite_none_left_eq_some, Option.some.injEq] at result
      obtain ⟨_, rfl⟩ := result
      exact ⟨queue, (client.connect_spec parsing tag).1, stuck⟩
  | recv chunk =>
      simp only [TeWiFiClient.step, Option.ite_none_right_eq_some] at result
      obtain ⟨_, received⟩ := result
      obtain ⟨next', received', delivers⟩ := client.recvCompletedEvent_spec parsing chunk
      obtain rfl : next' = next := Option.some.inj (received'.symm.trans received)
      exact ⟨_, delivers.parsing, Framing.parse_stuck _ _⟩
  | kill =>
      simp only [TeWiFiClient.step, Option.ite_none_right_eq_some, Option.some.injEq] at result
      obtain ⟨connected, rfl⟩ := result
      obtain ⟨closed, waiting, same⟩ := client.killSocket_spec parsing.live connected
      exact ⟨queue, closed_spec parsing closed waiting same, stuck⟩
  | close =>
      simp only [TeWiFiClient.step, Option.ite_none_right_eq_some, Option.some.injEq] at result
      obtain ⟨connected, rfl⟩ := result
      obtain ⟨closed, waiting, same⟩ := client.closeContext_of_connected parsing.live connected
      exact ⟨queue, closed_spec parsing closed waiting same, stuck⟩

/-- Every reachable context is at rest. -/
theorem resting_of_reachable {head body content ring : Nat → Byte} {session : Session}
    (reach : Reachable client.step (newSession head body content ring) session) :
    ∃ queue, client.Resting session queue :=
  reach.invariant (fun session => ∃ queue, client.Resting session queue)
    ⟨[], client.newSession_resting head body content ring⟩
    fun ⟨_, resting⟩ result => resting.step client result

end CommonLib.TeWiFiClient
