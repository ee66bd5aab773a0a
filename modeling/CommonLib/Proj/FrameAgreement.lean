import CommonLib.Proj.Chunking

/-!
# The frames of `TeWiFiClient`

`BuildResponse` and `SendMsg` build the same kind of frame, from the stream or from its compressed
form.  A receiver at rest dispatches such a frame if the frame fits in its ring.  Nothing on the
sending side sees to that: the head check admits bodies of `H_PROTO_MAX_LEN` bytes, but the ring has
to hold the head as well, and a length of more than 16 bits is cut.
-/

namespace CommonLib

namespace MsgHead2

theorem setWord_apply (head : Nat → Byte) (offset value index : Nat) :
    setWord head offset value index =
      if index = offset then UInt8.ofNat (value / 256)
      else if index = offset + 1 then UInt8.ofNat value else head index := by
  have upper : setWord head offset value (offset + 0) = UInt8.ofNat (value / 256) :=
    move_inside head offset (Nat.zero_lt_two)
  have lower : setWord head offset value (offset + 1) = UInt8.ofNat value :=
    move_inside head offset (Nat.one_lt_two)
  split
  · next first => rw [first, ← upper, Nat.add_zero]
  · next notFirst =>
      split
      · next second => rw [second, lower]
      · next notSecond =>
          apply move_outside
          simp only [List.length_cons, List.length_nil]
          omega

/-- What was stored is read. -/
theorem word_setWord (head : Nat → Byte) (offset : Nat) {value : Nat} (small : value < 65536) :
    word (setWord head offset value) offset = value := by
  rw [word, setWord_apply, setWord_apply, if_pos rfl, if_neg (by omega), if_pos rfl]
  simp only [UInt8.toNat_ofNat']
  omega

/-- A store leaves the other fields alone. -/
theorem word_setWord_of_ne (head : Nat → Byte) {offset other : Nat} (value : Nat)
    (apart : offset + 2 ≤ other ∨ other + 2 ≤ offset) :
    word (setWord head offset value) other = word head other := by
  rw [word, word, setWord_apply, setWord_apply, if_neg (by omega), if_neg (by omega),
    if_neg (by omega), if_neg (by omega)]

theorem word_update (head : Nat → Byte) {index other : Nat} (byte : Byte)
    (apart : other ≠ index ∧ other + 1 ≠ index) :
    word (Function.update head index byte) other = word head other := by
  rw [word, word, Function.update_of_ne apart.1, Function.update_of_ne apart.2]

end MsgHead2

namespace TeWiFiClient

open MsgHead2 Execution

variable (client : TeWiFiClient)

/-! ## The head of a frame -/

/-- The head of a frame with body `data`. -/
def frameHead (ver : Nat) (seq : UInt32) (cmd : Nat) (zipped : Bool) (data : List Byte) :
    Nat → Byte :=
  let head := setWord (fun _ => 0) 0 H_PROTO_LOGO
  let head := Function.update head 2 (UInt8.ofNat ver)
  let head := Function.update head 3 mhf_NONE
  let head := setLong head 12 seq
  let head := setWord head 4 cmd
  let head := if zipped then Function.update head 3 (mhf_NONE ||| mhf_GZIP) else head
  let head := setWord head 6 data.length
  setLong head 8 (crc32c 0 data)

section

variable (seq : UInt32) (command : Nat) (zipped : Bool) (data : List Byte)

theorem frameHead_logo (version : Nat) :
    logo (frameHead version seq command zipped data) = H_PROTO_LOGO := by
  cases zipped <;>
    simp [logo, frameHead, setLong, word_setWord_of_ne, word_update, word_setWord, H_PROTO_LOGO]

theorem frameHead_ver {version : Nat} (small : version < 256) :
    ver (frameHead version seq command zipped data) = version := by
  cases zipped <;>
    simp [ver, frameHead, setLong, setWord_apply, Nat.mod_eq_of_lt small]

theorem frameHead_flag (version : Nat) :
    flag (frameHead version seq command zipped data) = if zipped then mhf_GZIP else mhf_NONE := by
  cases zipped <;>
    simp [flag, frameHead, setLong, setWord_apply, mhf_GZIP, mhf_NONE]

theorem frameHead_cmd (version : Nat) {command : Nat} (small : command < 65536) :
    cmd (frameHead version seq command zipped data) = command := by
  cases zipped <;>
    simp [cmd, frameHead, setLong, word_setWord_of_ne, word_update, word_setWord, small]

theorem frameHead_len (version : Nat) {data : List Byte} (small : data.length < 65536) :
    len (frameHead version seq command zipped data) = data.length := by
  simp [len, frameHead, setLong, word_setWord_of_ne, word_setWord, small]

theorem frameHead_crc (version : Nat) :
    crc (frameHead version seq command zipped data) = crc32c 0 data := by
  have bound := (crc32c 0 data).toNat_lt
  have upper : (crc32c 0 data).toNat / 65536 < 65536 := by omega
  have lower : (crc32c 0 data).toNat % 65536 < 65536 := Nat.mod_lt _ (by decide)
  have whole : (crc32c 0 data).toNat / 65536 * 65536 + (crc32c 0 data).toNat % 65536 =
      (crc32c 0 data).toNat := by
    omega
  simp only [crc, frameHead, setLong]
  rw [word_setWord_of_ne _ _ (Or.inr (by decide)), word_setWord _ _ upper, word_setWord _ _ lower,
    whole, UInt32.ofNat_toNat]

end

/-- The bytes of the head. -/
def headBytes (ver : Nat) (seq : UInt32) (cmd : Nat) (zipped : Bool) (data : List Byte) :
    List Byte :=
  cells (frameHead ver seq cmd zipped data) 0 H_HEAD_LEN2

/-- What the receiver takes for the content of a body. -/
def expand (zipped : Bool) (data : List Byte) : List Byte :=
  if data = [] then []
  else if zipped = true ∧ (client.gzDecompress data).2 = true then (client.gzDecompress data).1
  else data

/-! ## Receiving one frame -/

section

variable {version : Nat} (seq : UInt32) {command : Nat} (zipped : Bool) {data : List Byte}

theorem field_of_memory {head : Nat → Byte} {offset : Nat} (inside : offset + 1 < H_HEAD_LEN2) :
    MsgHead2.word (memory (cells head 0 H_HEAD_LEN2)) offset = MsgHead2.word head offset :=
  word_congr (fun _ before => memory_cells before) inside

theorem frame_take :
    (headBytes version seq command zipped data ++ data).take H_HEAD_LEN2 =
      headBytes version seq command zipped data :=
  List.take_left' (cells_length _ _ _)

theorem frame_drop :
    (headBytes version seq command zipped data ++ data).drop H_HEAD_LEN2 = data :=
  List.drop_left' (cells_length _ _ _)

variable (version command) in
theorem headBytes_len (small : data.length < 65536) :
    len (memory (headBytes version seq command zipped data)) = data.length := by
  rw [len, headBytes, field_of_memory (by decide)]
  exact frameHead_len seq command zipped version small

theorem headBytes_cmd (small : command < 65536) :
    cmd (memory (headBytes version seq command zipped data)) = command := by
  rw [cmd, headBytes, field_of_memory (by decide)]
  exact frameHead_cmd seq zipped data version small

/-- The head check accepts a body of at most `H_PROTO_MAX_LEN` bytes. -/
theorem headBytes_accepted (old : version ≤ H_PROTO_NEO_VER)
    (data_le : data.length ≤ H_PROTO_MAX_LEN) :
    acceptHead (memory (headBytes version seq command zipped data)) =
      some (data.length + H_HEAD_LEN2) := by
  have logo_eq : logo (memory (headBytes version seq command zipped data)) = H_PROTO_LOGO := by
    rw [logo, headBytes, field_of_memory (by decide)]
    exact frameHead_logo seq command zipped data version
  have ver_eq : ver (memory (headBytes version seq command zipped data)) = version := by
    rw [ver, headBytes, memory_cells (by decide)]
    exact frameHead_ver seq command zipped data (Nat.lt_of_le_of_lt old (by decide))
  have len_eq := headBytes_len version seq command zipped
    (Nat.lt_of_le_of_lt data_le (by decide))
  rw [acceptHead, logo_eq, ver_eq, len_eq, if_pos ⟨rfl, old, data_le⟩]

/-- The frame passes the body check and is expanded. -/
theorem frame_delivered (data_le : data.length ≤ H_PROTO_MAX_LEN) :
    client.deliver (headBytes version seq command zipped data ++ data) =
      some
        { head := headBytes version seq command zipped data
          body := data
          content := client.expand zipped data } := by
  have len_eq := headBytes_len version seq command zipped
    (Nat.lt_of_le_of_lt data_le (by decide))
  have crc_eq : crc (memory (headBytes version seq command zipped data)) = crc32c 0 data := by
    rw [crc, headBytes, field_of_memory (by decide), field_of_memory (by decide)]
    exact frameHead_crc seq command zipped data version
  have flag_eq : flag (memory (headBytes version seq command zipped data)) =
      if zipped then mhf_GZIP else mhf_NONE := by
    rw [flag, headBytes, memory_cells (by decide)]
    exact frameHead_flag seq command zipped data version
  simp only [deliver, frame_take, frame_drop, len_eq, crc_eq, flag_eq]
  by_cases empty : data = []
  · subst empty
    simp [expand]
  · have nonzero : data.length ≠ 0 := by simpa using empty
    rw [if_neg nonzero, if_neg (by simp), expand, if_neg empty]
    cases zipped <;> simp [mhf_GZIP, mhf_NONE]

theorem frame_length :
    (headBytes version seq command zipped data ++ data).length = data.length + H_HEAD_LEN2 := by
  rw [List.length_append, headBytes, cells_length, Nat.add_comm]

/-- However a frame is cut into chunks, a receiver at rest dispatches it if it fits in the ring. -/
theorem recv_frame {receiver : Session} (fresh : Fresh receiver) (old : version ≤ H_PROTO_NEO_VER)
    (fits : data.length + H_HEAD_LEN2 ≤ H_BUFFER_LEN) {chunks : List (List Byte)}
    (split : chunks.flatten = headBytes version seq command zipped data ++ data) :
    ∃ next, run client.toTHSockServer.recvCompletedEvent receiver chunks = some next ∧
      next.dispatched = receiver.dispatched ++
        [{ head := headBytes version seq command zipped data
           body := data
           content := client.expand zipped data }] ∧
      next.ring.validCount = 0 := by
  have data_le : data.length ≤ H_PROTO_MAX_LEN := Nat.le_of_add_right_le fits
  have total : ([] : List Byte).length + chunks.flatten.length ≤ H_BUFFER_LEN := by
    rw [split, frame_length, List.length_nil, Nat.zero_add]
    exact fits
  have accepted : client.framing.accept
      ((headBytes version seq command zipped data ++ data).take client.framing.headLen) =
        some (headBytes version seq command zipped data ++ data).length := by
    rw [frame_length]
    exact (congrArg (fun head => acceptHead (memory head)) (frame_take seq zipped)).trans
      (headBytes_accepted seq zipped old data_le)
  have parsed := client.framing.parse_packet accepted
    (client.frame_delivered seq zipped data_le) client.advance_nil
  obtain ⟨next, execution, delivers⟩ := client.recv_chunks fresh.parsing chunks
  rw [Framing.receiveAll_of_fits client.advance_nil (Framing.fits_of_total total), List.nil_append,
    split, parsed] at delivers
  exact ⟨next, execution, delivers.dispatched, delivers.parsing.holds.valid⟩

/-- A request that is dispatched was as large as the ring at most. -/
theorem len_of_dispatched {receiver next : Session} (fresh : Fresh receiver)
    {chunks : List (List Byte)}
    (execution : run client.toTHSockServer.recvCompletedEvent receiver chunks = some next)
    {packet : Packet} (log_eq : next.dispatched = receiver.dispatched ++ [packet]) :
    len (memory packet.head) + H_HEAD_LEN2 ≤ H_BUFFER_LEN := by
  obtain ⟨found, execution', delivers⟩ := client.recv_chunks fresh.parsing chunks
  obtain rfl : found = next := Option.some.inj (execution'.symm.trans execution)
  have packets_eq := delivers.dispatched
  rw [log_eq, List.append_cancel_left_eq] at packets_eq
  have mem : packet ∈ (client.framing.receiveAll H_BUFFER_LEN [] chunks).1 := by
    rw [← packets_eq]
    exact List.mem_singleton_self packet
  obtain ⟨frame, length_le, accepted, delivered⟩ :=
    Framing.receiveAll_message (Nat.zero_le H_BUFFER_LEN) chunks mem
  have head_eq : packet.head = frame.take H_HEAD_LEN2 := by
    simp only [framing, deliver] at delivered
    split at delivered
    · exact (congrArg Packet.head (Option.some.inj delivered)).symm
    · split at delivered
      · exact absurd delivered (by simp)
      · exact (congrArg Packet.head (Option.some.inj delivered)).symm
  change acceptHead (memory (frame.take H_HEAD_LEN2)) = some frame.length at accepted
  rw [acceptHead, Option.ite_none_right_eq_some, Option.some.injEq] at accepted
  rw [head_eq, accepted.2]
  exact length_le

end

/-! ## The two encoders -/

/-- A call of one of the two encoders. -/
inductive Encoder
  /-- `BuildResponse(safe = true)` on the response of the sender. -/
  | buildResponse
  /-- `SendMsg`. -/
  | sendMsg (cmd : Byte) (buf : List Byte) (compress : Bool)

namespace Encoder

variable (sender : Session)

def send : Encoder → Session
  | buildResponse => client.buildResponse sender true
  | sendMsg cmd buf compress => client.sendMsg sender cmd buf compress

/-- The head and the body, the last two payloads which the call passes to `SendData`. -/
def frame (encoder : Encoder) : List (List Byte) :=
  (encoder.send client sender).sent.drop ((encoder.send client sender).sent.length - 2)

def version : Encoder → Nat
  | buildResponse => H_PROTO_NEO_VER
  | sendMsg _ _ _ => H_PROTO_VER

def command : Encoder → Nat
  | buildResponse => sender.context.response.responseCode
  | sendMsg cmd _ _ => cmd.toNat

def stream : Encoder → List Byte
  | buildResponse => sender.context.response.responseStream
  | sendMsg _ buf _ => buf

/-- Whether the call tries to compress the stream. -/
def compresses : Encoder → Bool
  | buildResponse =>
      !sender.context.response.abortGZIP &&
        decide (sender.context.response.responseStream.length > 1000)
  | sendMsg _ buf compress => compress && decide (buf.length > 0)

/-- What the compressor wrote and whether it was asked and succeeded. -/
def packed (encoder : Encoder) : List Byte × Bool :=
  if encoder.compresses sender then client.gzCompress (encoder.stream sender) else ([], false)

/-- The form which is transmitted: the compressed one if there is one. -/
def form (encoder : Encoder) : List Byte :=
  if (encoder.packed client sender).2 then (encoder.packed client sender).1
  else encoder.stream sender

/-- The body of the frame; its length has 16 bits. -/
def data (encoder : Encoder) : List Byte :=
  (encoder.form client sender).take ((encoder.form client sender).length % 65536)

/-- The values of the call: a command of 16 bits, which is not `msg_cmd_unknown` in a response. -/
structure InRange (encoder : Encoder) : Prop where
  known : encoder = buildResponse → encoder.command sender ≠ msg_cmd_unknown
  command_lt : encoder.command sender < 65536

/-- The transmitted form fits in the receiver's ring next to the head, its length fits in 16 bits or
what is left of it still expands to the stream, and a compressed form is not empty. -/
def Carried (encoder : Encoder) : Prop :=
  (encoder.form client sender).length % 65536 + H_HEAD_LEN2 ≤ H_BUFFER_LEN ∧
    if (encoder.packed client sender).2 then
      0 < (encoder.form client sender).length % 65536 ∧
        ((encoder.form client sender).length < 65536 ∨
          client.expand true (encoder.data client sender) = encoder.stream sender)
    else (encoder.form client sender).length < 65536

end Encoder

/-- However the frame is cut into chunks, a receiver dispatches exactly one request: this frame, with
this command and this content; and nothing is left in its ring. -/
def Delivered (receiver : Session) (frame : List (List Byte)) (command : Nat)
    (content : List Byte) : Prop :=
  ∀ chunks : List (List Byte), (∀ chunk ∈ chunks, chunk.length ≤ H_BUFFER_LEN) →
    chunks.flatten = frame.flatten →
      ∃ next packet, run client.toTHSockServer.recvCompletedEvent receiver chunks = some next ∧
        next.dispatched = receiver.dispatched ++ [packet] ∧ [packet.head, packet.body] = frame ∧
        cmd (memory packet.head) = command ∧ packet.content = content ∧ next.ring.validCount = 0

section

variable (sender : Session) (encoder : Encoder)

/-- The head of the frame which the call builds. -/
def encodedHead : List Byte :=
  headBytes encoder.version sender.context.localSeq (encoder.command sender)
    (encoder.packed client sender).2 (encoder.data client sender)

theorem drop_last_two {α : Type*} (before : List α) (first second : α) :
    (before ++ [first] ++ [second]).drop ((before ++ [first] ++ [second]).length - 2) =
      [first, second] := by
  have length_eq : (before ++ [first] ++ [second]).length - 2 = before.length := by simp
  rw [length_eq, List.append_assoc, List.drop_left]
  rfl

/-- Both encoders hand over a head and a body of the same form. -/
theorem frame_eq {encoder : Encoder} (inRange : encoder.InRange sender) :
    encoder.frame client sender =
      [client.encodedHead sender encoder, encoder.data client sender] := by
  cases encoder with
  | buildResponse =>
      have known : sender.context.response.responseCode ≠ msg_cmd_unknown := inRange.known rfl
      have send_eq : ∃ before, (client.buildResponse sender true).sent =
          before ++ [client.encodedHead sender .buildResponse] ++
            [Encoder.data client sender .buildResponse] := by
        simp only [buildResponse, if_neg known]
        split <;> exact ⟨_, rfl⟩
      obtain ⟨before, sent_eq⟩ := send_eq
      rw [Encoder.frame, Encoder.send, sent_eq, drop_last_two]
  | sendMsg cmd buf compress =>
      have sent_eq : (client.sendMsg sender cmd buf compress).sent =
          sender.sent ++ [client.encodedHead sender (.sendMsg cmd buf compress)] ++
            [Encoder.data client sender (.sendMsg cmd buf compress)] := rfl
      rw [Encoder.frame, Encoder.send, sent_eq, drop_last_two]

theorem version_le : encoder.version ≤ H_PROTO_NEO_VER := by
  cases encoder with
  | buildResponse => exact Nat.le_refl _
  | sendMsg cmd buf compress => exact Nat.le_succ _

theorem data_length :
    (encoder.data client sender).length = (encoder.form client sender).length % 65536 := by
  rw [Encoder.data, List.length_take]
  exact Nat.min_eq_left (Nat.mod_le _ _)

theorem data_length_lt : (encoder.data client sender).length < 65536 := by
  rw [data_length]
  exact Nat.mod_lt _ (by decide)

theorem data_eq_form (short : (encoder.form client sender).length < 65536) :
    encoder.data client sender = encoder.form client sender := by
  rw [Encoder.data, Nat.mod_eq_of_lt short, List.take_length]

/-- An empty stream is not compressed. -/
theorem stream_ne_nil_of_packed (packed : (encoder.packed client sender).2 = true) :
    encoder.stream sender ≠ [] := by
  intro empty
  have idle : encoder.compresses sender = false := by
    cases encoder <;>
      simp_all [Encoder.compresses, Encoder.stream]
  simp [Encoder.packed, idle] at packed

/-- What the receiver reads is the stream exactly when `Carried` says so about the form. -/
theorem expand_iff
    (inverts : ∀ output, client.gzCompress (encoder.stream sender) = (output, true) →
      client.gzDecompress output = (encoder.stream sender, true)) :
    client.expand (encoder.packed client sender).2 (encoder.data client sender) =
        encoder.stream sender ↔
      if (encoder.packed client sender).2 then
        0 < (encoder.form client sender).length % 65536 ∧
          ((encoder.form client sender).length < 65536 ∨
            client.expand true (encoder.data client sender) = encoder.stream sender)
      else (encoder.form client sender).length < 65536 := by
  cases packed : (encoder.packed client sender).2 with
  | false =>
      have form_eq : encoder.form client sender = encoder.stream sender := by
        rw [Encoder.form, packed]
        rfl
      have expand_eq (data : List Byte) : client.expand false data = data := by
        simp only [expand, Bool.false_eq_true, false_and, if_false, ite_eq_right_iff]
        exact fun empty => empty.symm
      rw [expand_eq, if_neg (by simp), form_eq]
      constructor
      · intro same
        have length_lt := client.data_length_lt sender encoder
        rwa [same] at length_lt
      · intro short
        rw [client.data_eq_form sender encoder (form_eq ▸ short), form_eq]
  | true =>
      rw [if_pos rfl, ← data_length]
      have form_eq : encoder.form client sender = (encoder.packed client sender).1 := by
        rw [Encoder.form, packed]
        rfl
      constructor
      · intro same
        refine ⟨List.length_pos_iff.mpr fun empty => ?_, Or.inr same⟩
        rw [empty] at same
        exact client.stream_ne_nil_of_packed sender encoder packed same.symm
      · rintro ⟨nonempty, short | same⟩
        · have compressed : client.gzCompress (encoder.stream sender) =
              (encoder.form client sender, true) := by
            rw [form_eq, ← packed]
            rw [Encoder.packed] at packed ⊢
            split at packed
            · next asked => rw [if_pos asked]
            · exact absurd packed (by simp)
          rw [client.data_eq_form sender encoder short] at nonempty ⊢
          rw [expand, if_neg (List.length_pos_iff.mp nonempty), inverts _ compressed]
          rfl
        · exact same

end

/-- The bytes of the frame, one at a time, are chunks which `recv` can return. -/
theorem bytewise_chunks (bytes : List Byte) :
    ∀ chunk ∈ bytes.map ([·]), chunk.length ≤ H_BUFFER_LEN := by
  intro chunk mem
  obtain ⟨byte, _, rfl⟩ := List.mem_map.mp mem
  rw [List.length_singleton]
  decide

theorem frame_flatten (head data : List Byte) : [head, data].flatten = head ++ data := by
  rw [List.flatten_cons, List.flatten_singleton]

/-- A frame which is delivered fits in the ring of the receiver. -/
theorem fits_of_delivered {receiver : Session} (fresh : Fresh receiver) {sender : Session}
    {encoder : Encoder} (inRange : encoder.InRange sender) {command : Nat} {content : List Byte}
    (delivered : client.Delivered receiver (encoder.frame client sender) command content) :
    (encoder.data client sender).length + H_HEAD_LEN2 ≤ H_BUFFER_LEN := by
  rw [client.frame_eq sender inRange] at delivered
  obtain ⟨next, packet, execution, log_eq, frame_eq, _⟩ :=
    delivered _ (bytewise_chunks _) (Framing.flatten_singletons _)
  have head_eq : packet.head = client.encodedHead sender encoder := (List.cons.inj frame_eq).1
  have fits := client.len_of_dispatched fresh execution log_eq
  rw [head_eq, encodedHead, headBytes_len _ _ _ _ (client.data_length_lt sender encoder)] at fits
  exact fits

/-- What is delivered is what the receiver expands. -/
theorem expands_of_delivered {receiver : Session} (fresh : Fresh receiver) {sender : Session}
    {encoder : Encoder} (inRange : encoder.InRange sender) {command : Nat} {content : List Byte}
    (delivered : client.Delivered receiver (encoder.frame client sender) command content) :
    client.expand (encoder.packed client sender).2 (encoder.data client sender) = content := by
  have fits := client.fits_of_delivered fresh inRange delivered
  rw [client.frame_eq sender inRange] at delivered
  have bytewise := Framing.flatten_singletons
    [client.encodedHead sender encoder, encoder.data client sender].flatten
  obtain ⟨next, packet, execution, log_eq, _, _, content_eq, _⟩ :=
    delivered _ (bytewise_chunks _) bytewise
  obtain ⟨next', execution', log_eq', _⟩ := client.recv_frame sender.context.localSeq
    (encoder.packed client sender).2 fresh (version_le encoder) fits
    (bytewise.trans (frame_flatten _ _))
  obtain rfl : next' = next := Option.some.inj (execution'.symm.trans execution)
  rw [log_eq, List.append_cancel_left_eq] at log_eq'
  rw [← content_eq, (List.cons.inj log_eq').1]

/-- A frame is delivered exactly when its transmitted form is `Carried`. -/
theorem frame_delivered_iff {receiver : Session} (fresh : Fresh receiver) (sender : Session)
    {encoder : Encoder} (inRange : encoder.InRange sender)
    (inverts : ∀ output, client.gzCompress (encoder.stream sender) = (output, true) →
      client.gzDecompress output = (encoder.stream sender, true)) :
    client.Delivered receiver (encoder.frame client sender) (encoder.command sender)
        (encoder.stream sender) ↔
      encoder.Carried client sender := by
  rw [Encoder.Carried, ← client.expand_iff sender encoder inverts, ← data_length]
  constructor
  · intro delivered
    exact ⟨client.fits_of_delivered fresh inRange delivered,
      client.expands_of_delivered fresh inRange delivered⟩
  · rintro ⟨fits, expands⟩
    rw [client.frame_eq sender inRange]
    intro chunks _ split
    obtain ⟨next, execution, log_eq, empty⟩ := client.recv_frame sender.context.localSeq
      (encoder.packed client sender).2 fresh (version_le encoder) fits
        (split.trans (frame_flatten _ _))
    exact ⟨next, _, execution, log_eq, rfl, headBytes_cmd _ _ inRange.command_lt, expands, empty⟩

/-! ## A compressed message and a large response -/

/-- `GZCompress` of the single byte `a`. -/
def gzLetter : List Byte :=
  [0x1f, 0x8b, 8, 0, 0, 0, 0, 0, 0, 3, 0x4b, 4, 0, 0x43, 0xbe, 0xb7, 0xe8, 1, 0, 0, 0]

/-- A client which compresses nothing but that byte. -/
def letterClient : TeWiFiClient :=
  { echoClient with
    gzCompress := fun bytes => if bytes = [0x61] then (gzLetter, true) else ([], false)
    gzDecompress := fun bytes => if bytes = gzLetter then ([0x61], true) else ([], false) }

theorem frame_delivered_iff_letter :
    letterClient.Delivered zeroSession
        (Encoder.frame letterClient zeroSession (.sendMsg 11 [0x61] true)) 11 [0x61] ↔
      Encoder.Carried letterClient zeroSession (.sendMsg 11 [0x61] true) := by
  apply letterClient.frame_delivered_iff zeroSession_fresh zeroSession
  · exact ⟨by simp, by decide⟩
  · intro output compressed
    change (if [0x61] = [(0x61 : Byte)] then (gzLetter, true) else ([], false)) =
      (output, true) at compressed
    rw [if_pos rfl, Prod.mk.injEq] at compressed
    rw [← compressed.1]
    show (if gzLetter = gzLetter then ([(0x61 : Byte)], true) else ([], false)) = ([0x61], true)
    exact if_pos rfl

/-- A context which is about to answer command 1 with 4081 bytes. -/
def largeResponse : Session :=
  { zeroSession with
    context := { zeroSession.context with
      response :=
        { responseCode := 1, responseStream := List.replicate 4081 0, abortGZIP := true,
          autoAcknowledge := false } } }

/-- The receiver's head check admits 4081 bytes, but they are never dispatched. -/
theorem largeResponse_lost :
    Encoder.InRange largeResponse .buildResponse ∧ Fresh zeroSession ∧
      4081 ≤ H_PROTO_MAX_LEN ∧
      ¬ echoClient.Delivered zeroSession (Encoder.frame echoClient largeResponse .buildResponse) 1
        (List.replicate 4081 0) := by
  have inRange : Encoder.InRange largeResponse .buildResponse :=
    ⟨fun _ => by decide, by decide⟩
  refine ⟨inRange, zeroSession_fresh, by decide, fun delivered => ?_⟩
  have fits := echoClient.fits_of_delivered zeroSession_fresh inRange delivered
  have length_eq : (Encoder.form echoClient largeResponse .buildResponse).length = 4081 :=
    List.length_replicate
  rw [data_length, length_eq] at fits
  exact absurd fits (by decide)

end TeWiFiClient
end CommonLib
