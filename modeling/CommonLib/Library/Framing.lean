import Mathlib.Data.List.Basic

/-!
# Resynchronising frame parsers

A frame starts with a head of fixed length, which announces the length of the whole packet or is
not acceptable.  A parser that meets an unacceptable head, or a complete packet that it cannot
deliver, drops a single cell and tries again.  Every move depends only on a prefix of the input, so
the messages of a stream do not depend on how it was cut into chunks.
-/

namespace CommonLib

/-- A framing of cells `β` into messages `γ`. -/
structure Framing (β γ : Type*) where
  headLen : Nat
  headLen_pos : 0 < headLen
  /-- The packet length announced by an acceptable head. -/
  accept : List β → Option Nat
  headLen_le : ∀ {head : List β} {len : Nat}, accept head = some len → headLen ≤ len
  /-- The message in a complete packet. -/
  deliver : List β → Option γ

namespace Framing

variable {β γ : Type*} (framing : Framing β γ)

/-- One move on the buffered cells: the messages delivered and the cells left, or `none` when more
input is needed. -/
def advance (queue : List β) : Option (List γ × List β) :=
  if queue.length < framing.headLen then none
  else match framing.accept (queue.take framing.headLen) with
    | none => some ([], queue.drop 1)
    | some len =>
        if queue.length < len then none
        else match framing.deliver (queue.take len) with
          | none => some ([], queue.drop 1)
          | some message => some ([message], queue.drop len)

variable {framing}

theorem advance_shorter {queue rest : List β} {messages : List γ}
    (moves : framing.advance queue = some (messages, rest)) : rest.length < queue.length := by
  have positive := framing.headLen_pos
  unfold advance at moves
  split at moves
  · simp at moves
  · split at moves
    · simp only [Option.some.injEq, Prod.mk.injEq] at moves
      rw [← moves.2, List.length_drop]
      omega
    · next len accepted =>
        have := framing.headLen_le accepted
        split at moves
        · simp at moves
        · split at moves <;> simp only [Option.some.injEq, Prod.mk.injEq] at moves <;>
            rw [← moves.2, List.length_drop] <;> omega

/-- A move delivers at most one message. -/
theorem advance_length_le {queue rest : List β} {messages : List γ}
    (moves : framing.advance queue = some (messages, rest)) : messages.length ≤ 1 := by
  unfold advance at moves
  split at moves
  · cases moves
  · split at moves
    · obtain ⟨rfl, -⟩ := Prod.mk.inj (Option.some.inj moves)
      exact Nat.zero_le _
    · split at moves
      · cases moves
      · split at moves
        · obtain ⟨rfl, -⟩ := Prod.mk.inj (Option.some.inj moves)
          exact Nat.zero_le _
        · obtain ⟨rfl, -⟩ := Prod.mk.inj (Option.some.inj moves)
          exact Nat.le_refl _

/-- A move is made on a prefix of the input and leaves what follows untouched. -/
theorem advance_append {queue rest : List β} {messages : List γ}
    (moves : framing.advance queue = some (messages, rest)) (more : List β) :
    framing.advance (queue ++ more) = some (messages, rest ++ more) := by
  have positive := framing.headLen_pos
  unfold advance at moves ⊢
  split at moves
  · simp at moves
  · next long =>
      have head_eq : (queue ++ more).take framing.headLen = queue.take framing.headLen :=
        List.take_append_of_le_length (by omega)
      rw [if_neg (by rw [List.length_append]; omega), head_eq]
      split at moves
      · next refused =>
          simp only [Option.some.injEq, Prod.mk.injEq] at moves
          rw [List.drop_append_of_le_length (by omega), moves.1, moves.2]
      · next len accepted =>
          have := framing.headLen_le accepted
          split at moves
          · simp at moves
          · next complete =>
              have packet_eq : (queue ++ more).take len = queue.take len :=
                List.take_append_of_le_length (by omega)
              rw [if_neg (by rw [List.length_append]; omega), packet_eq]
              split at moves
              · next bad =>
                  simp only [Option.some.injEq, Prod.mk.injEq] at moves
                  rw [List.drop_append_of_le_length (by omega), moves.1, moves.2]
              · next message good =>
                  simp only [Option.some.injEq, Prod.mk.injEq] at moves
                  rw [List.drop_append_of_le_length (by omega), moves.1, moves.2]

variable (framing)

/-- Move until more input is needed: all messages delivered and the cells left. -/
def parse (queue : List β) : List γ × List β :=
  match _moves : framing.advance queue with
  | none => ([], queue)
  | some (messages, rest) => (messages ++ (parse rest).1, (parse rest).2)
termination_by queue.length
decreasing_by exact advance_shorter _moves

variable {framing}

theorem parse_of_stuck {queue : List β} (stuck : framing.advance queue = none) :
    framing.parse queue = ([], queue) := by
  rw [parse]
  split
  · rfl
  · next moves => simp [stuck] at moves

theorem parse_of_move {queue rest : List β} {messages : List γ}
    (moves : framing.advance queue = some (messages, rest)) :
    framing.parse queue = (messages ++ (framing.parse rest).1, (framing.parse rest).2) := by
  rw [parse]
  split
  · next stuck => simp [stuck] at moves
  · next moves' =>
      obtain ⟨rfl, rfl⟩ := Prod.mk.inj (Option.some.inj (moves.symm.trans moves'))
      rfl

variable (framing)

/-- Induction along the moves of the parser. -/
theorem parse_induction {motive : List β → Prop}
    (stuck : ∀ queue, framing.advance queue = none → motive queue)
    (moves : ∀ queue messages rest, framing.advance queue = some (messages, rest) →
      motive rest → motive queue) (queue : List β) : motive queue := by
  induction queue using (measure List.length).wf.induction with
  | _ queue induction =>
      cases result : framing.advance queue with
      | none => exact stuck queue result
      | some pair =>
          exact moves queue pair.1 pair.2 result (induction pair.2 (advance_shorter result))

/-- What the parser leaves cannot move. -/
theorem parse_stuck (queue : List β) : framing.advance (framing.parse queue).2 = none := by
  induction queue using framing.parse_induction with
  | stuck queue stuck => rwa [parse_of_stuck stuck]
  | moves queue messages rest moves induction => rwa [parse_of_move moves]

theorem parse_length_le (queue : List β) : (framing.parse queue).2.length ≤ queue.length := by
  induction queue using framing.parse_induction with
  | stuck queue stuck => simp [parse_of_stuck stuck]
  | moves queue messages rest moves induction =>
      rw [parse_of_move moves]
      exact Nat.le_trans induction (Nat.le_of_lt (advance_shorter moves))

/-- A complete packet alone is delivered and leaves nothing. -/
theorem parse_packet {packet : List β} {message : γ}
    (accepted : framing.accept (packet.take framing.headLen) = some packet.length)
    (delivered : framing.deliver packet = some message)
    (stuck : framing.advance [] = none) : framing.parse packet = ([message], []) := by
  have long : ¬ packet.length < framing.headLen := Nat.not_lt.mpr (framing.headLen_le accepted)
  have complete : ¬ packet.length < packet.length := Nat.lt_irrefl _
  have moves : framing.advance packet = some ([message], []) := by
    simp only [advance, if_neg long, accepted, if_neg complete, List.take_length, delivered,
      List.drop_length]
  rw [parse_of_move moves, parse_of_stuck stuck, List.append_nil]

variable {framing} in
/-- A message that is delivered was a complete packet of the input. -/
theorem advance_message {queue rest : List β} {messages : List γ}
    (moves : framing.advance queue = some (messages, rest)) {message : γ}
    (mem : message ∈ messages) :
    ∃ packet, packet.length ≤ queue.length ∧
      framing.accept (packet.take framing.headLen) = some packet.length ∧
      framing.deliver packet = some message := by
  unfold advance at moves
  split at moves
  · simp at moves
  · split at moves
    · simp only [Option.some.injEq, Prod.mk.injEq] at moves
      simp [← moves.1] at mem
    · next len accepted =>
        split at moves
        · simp at moves
        · next complete =>
            have length_eq : (queue.take len).length = len := by
              rw [List.length_take]
              omega
            split at moves
            · simp only [Option.some.injEq, Prod.mk.injEq] at moves
              simp [← moves.1] at mem
            · next found delivered =>
                simp only [Option.some.injEq, Prod.mk.injEq] at moves
                rw [← moves.1, List.mem_singleton] at mem
                refine ⟨queue.take len, List.length_take_le' .., ?_, mem ▸ delivered⟩
                rw [List.take_take, Nat.min_eq_left (framing.headLen_le accepted), length_eq]
                exact accepted

theorem parse_message (queue : List β) {message : γ} (mem : message ∈ (framing.parse queue).1) :
    ∃ packet, packet.length ≤ queue.length ∧
      framing.accept (packet.take framing.headLen) = some packet.length ∧
      framing.deliver packet = some message := by
  induction queue using framing.parse_induction with
  | stuck queue stuck => simp [parse_of_stuck stuck] at mem
  | moves queue messages rest moves induction =>
      rw [parse_of_move moves, List.mem_append] at mem
      rcases mem with now | later
      · exact advance_message moves now
      · obtain ⟨packet, length_le, accepted, delivered⟩ := induction later
        exact ⟨packet, Nat.le_trans length_le (Nat.le_of_lt (advance_shorter moves)), accepted,
          delivered⟩

/-- Parsing may be interrupted anywhere and resumed with the cells left. -/
theorem parse_append (queue more : List β) :
    framing.parse (queue ++ more) =
      ((framing.parse queue).1 ++ (framing.parse ((framing.parse queue).2 ++ more)).1,
        (framing.parse ((framing.parse queue).2 ++ more)).2) := by
  induction queue using framing.parse_induction with
  | stuck queue stuck => simp [parse_of_stuck stuck]
  | moves queue messages rest moves induction =>
      rw [parse_of_move (advance_append moves more), parse_of_move moves, induction,
        List.append_assoc]

/-! ## Bounded buffers -/

/-- Receive one chunk into a buffer of `capacity` cells: a chunk that does not fit is lost. -/
def receive (capacity : Nat) (queue chunk : List β) : List γ × List β :=
  framing.parse (if queue.length + chunk.length ≤ capacity then queue ++ chunk else queue)

/-- Receive chunks in order: all messages delivered and the cells left. -/
def receiveAll (capacity : Nat) (queue : List β) : List (List β) → List γ × List β
  | [] => ([], queue)
  | chunk :: chunks =>
      let received := framing.receive capacity queue chunk
      let later := receiveAll capacity received.2 chunks
      (received.1 ++ later.1, later.2)

/-- Every chunk finds enough room when it arrives. -/
def Fits (capacity : Nat) (queue : List β) : List (List β) → Prop
  | [] => True
  | chunk :: chunks =>
      queue.length + chunk.length ≤ capacity ∧
        Fits capacity (framing.receive capacity queue chunk).2 chunks

theorem receive_of_fits {capacity : Nat} {queue chunk : List β}
    (fits : queue.length + chunk.length ≤ capacity) :
    framing.receive capacity queue chunk = framing.parse (queue ++ chunk) := by
  rw [receive, if_pos fits]

variable {framing}

/-- Chunks that fit are parsed like their concatenation. -/
theorem receiveAll_of_fits {capacity : Nat} {queue : List β} {chunks : List (List β)}
    (waiting : framing.advance queue = none) (fits : framing.Fits capacity queue chunks) :
    framing.receiveAll capacity queue chunks = framing.parse (queue ++ chunks.flatten) := by
  induction chunks generalizing queue with
  | nil => simp [receiveAll, parse_of_stuck waiting]
  | cons chunk chunks induction =>
      obtain ⟨here, later⟩ := fits
      have waiting' : framing.advance (framing.receive capacity queue chunk).2 = none := by
        rw [framing.receive_of_fits here]
        exact framing.parse_stuck _
      rw [receiveAll, induction waiting' later, framing.receive_of_fits here, List.flatten_cons,
        ← List.append_assoc, framing.parse_append (queue ++ chunk)]

/-- Chunks that fit all together fit one by one. -/
theorem fits_of_total {capacity : Nat} {queue : List β} {chunks : List (List β)}
    (total : queue.length + chunks.flatten.length ≤ capacity) :
    framing.Fits capacity queue chunks := by
  induction chunks generalizing queue with
  | nil => trivial
  | cons chunk chunks induction =>
      rw [List.flatten_cons, List.length_append] at total
      have here : queue.length + chunk.length ≤ capacity := by omega
      have shorter := framing.parse_length_le (queue ++ chunk)
      rw [List.length_append] at shorter
      refine ⟨here, induction ?_⟩
      rw [framing.receive_of_fits here]
      omega

/-- No message is larger than the buffer. -/
theorem receiveAll_message {capacity : Nat} {queue : List β} (small : queue.length ≤ capacity)
    (chunks : List (List β)) {message : γ}
    (mem : message ∈ (framing.receiveAll capacity queue chunks).1) :
    ∃ packet, packet.length ≤ capacity ∧
      framing.accept (packet.take framing.headLen) = some packet.length ∧
      framing.deliver packet = some message := by
  induction chunks generalizing queue with
  | nil => simp [receiveAll] at mem
  | cons chunk chunks induction =>
      let held := if queue.length + chunk.length ≤ capacity then queue ++ chunk else queue
      have held_le : held.length ≤ capacity := by
        simp only [held]
        split
        · rwa [List.length_append]
        · exact small
      rw [receiveAll, List.mem_append] at mem
      rcases mem with now | later
      · obtain ⟨packet, length_le, delivered⟩ := framing.parse_message held now
        exact ⟨packet, Nat.le_trans length_le held_le, delivered⟩
      · exact induction (Nat.le_trans (framing.parse_length_le held) held_le) later

theorem flatten_singletons (bytes : List β) : (bytes.map ([·])).flatten = bytes := by
  induction bytes with
  | nil => rfl
  | cons byte bytes induction => simp [induction]

/-- A stretch that fits as a whole fits cell by cell. -/
theorem fits_bytes {capacity : Nat} {queue : List β} {bytes : List β}
    (waiting : framing.advance queue = none) (fits : queue.length + bytes.length ≤ capacity) :
    framing.Fits capacity queue (bytes.map ([·])) ∧
      (framing.receiveAll capacity queue (bytes.map ([·]))).2.length ≤
        queue.length + bytes.length := by
  induction bytes generalizing queue with
  | nil => simp [Fits, receiveAll]
  | cons byte bytes induction =>
      rw [List.length_cons] at fits
      have here : queue.length + [byte].length ≤ capacity := by
        rw [List.length_singleton]
        omega
      have received := framing.receive_of_fits here
      have shorter := framing.parse_length_le (queue ++ [byte])
      rw [List.length_append, List.length_singleton] at shorter
      have waiting' : framing.advance (framing.receive capacity queue [byte]).2 = none := by
        rw [received]
        exact framing.parse_stuck _
      obtain ⟨rest, bound⟩ := induction waiting' (by rw [received]; omega)
      refine ⟨⟨here, rest⟩, ?_⟩
      rw [received] at bound
      simp only [List.map_cons, receiveAll, received, List.length_cons]
      omega

theorem fits_append {capacity : Nat} {queue : List β} {first second : List (List β)} :
    framing.Fits capacity queue (first ++ second) ↔
      framing.Fits capacity queue first ∧
        framing.Fits capacity (framing.receiveAll capacity queue first).2 second := by
  induction first generalizing queue with
  | nil => simp [Fits, receiveAll]
  | cons chunk chunks induction => simp [Fits, receiveAll, induction, and_assoc]

/-- Chunks that fit still fit when they are delivered cell by cell. -/
theorem fits_flatten {capacity : Nat} {queue : List β} {chunks : List (List β)}
    (waiting : framing.advance queue = none) (fits : framing.Fits capacity queue chunks) :
    framing.Fits capacity queue (chunks.flatten.map ([·])) := by
  induction chunks generalizing queue with
  | nil => trivial
  | cons chunk chunks induction =>
      obtain ⟨here, later⟩ := fits
      have bytewise := (fits_bytes waiting here).1
      have same : (framing.receiveAll capacity queue (chunk.map ([·]))).2 =
          (framing.receive capacity queue chunk).2 := by
        rw [receiveAll_of_fits waiting bytewise, flatten_singletons, framing.receive_of_fits here]
      rw [List.flatten_cons, List.map_append, fits_append, same]
      refine ⟨bytewise, induction ?_ later⟩
      rw [framing.receive_of_fits here]
      exact framing.parse_stuck _

/-- Chunks that fit deliver the messages which the same cells deliver one at a time. -/
theorem receiveAll_eq_bytewise {capacity : Nat} {queue : List β} {chunks : List (List β)}
    (waiting : framing.advance queue = none) (fits : framing.Fits capacity queue chunks) :
    framing.receiveAll capacity queue chunks =
      framing.receiveAll capacity queue (chunks.flatten.map ([·])) := by
  rw [receiveAll_of_fits waiting fits,
    receiveAll_of_fits waiting (fits_flatten waiting fits), flatten_singletons]

end Framing
end CommonLib
