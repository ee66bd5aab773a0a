import CommonLib.Library.Fetch

/-!
# Receiving datagrams

The `EPOLLIN` part of `udp_peer_onevent`.  The datagrams are packed into `in_buffer.data`, each
behind its length and its sender, and then handed to the message callback from there.
-/

namespace CommonLib

/-- `sizeof(peer->in_buffer.data)`. -/
def inBufferSize : Nat := (65535 + 2 + 18) * 8

/-- `sizeof(*chunk_size) + sizeof(*addr_buffer)`. -/
def chunkHead : Nat := 2 + 18

/-- The largest datagram. -/
def maxDatagram : Nat := 65507

/-- `struct sockaddr_in`: the four bytes of the address and the port in network order. -/
structure SockaddrIn where
  sinAddr : UInt8 × UInt8 × UInt8 × UInt8
  sinPort : UInt16
  deriving DecidableEq

/-- `inetaddr_t`. -/
structure InetAddr where
  ip : List UInt8
  ip_length : ip.length = 16
  port : UInt16
  deriving DecidableEq

/-- A datagram that waits in the socket. -/
structure Datagram where
  payload : List UInt8
  sender : SockaddrIn
  payload_pos : 1 ≤ payload.length
  payload_le : payload.length ≤ maxDatagram

/-- The decimal digits of a byte. -/
def decimal (byte : UInt8) : List UInt8 :=
  (Nat.toDigits 10 byte.toNat).map fun digit => digit.toNat.toUInt8

/-- `inet_ntoa`: the dotted text of an address, without its end. -/
def inetNtoa (address : UInt8 × UInt8 × UInt8 × UInt8) : List UInt8 :=
  let (first, second, third, fourth) := address
  decimal first ++ [46] ++ decimal second ++ [46] ++ decimal third ++ [46] ++ decimal fourth

/-- `ntohs` on a little-endian machine. -/
def ntohs (value : UInt16) : UInt16 :=
  (value <<< 8) ||| (value >>> 8)

/-- `inetaddr_init`: at most 15 characters into 16 zero bytes. -/
def inetaddrInit (addr : SockaddrIn) : InetAddr where
  ip := (inetNtoa addr.sinAddr).take 15 ++
    List.replicate (16 - ((inetNtoa addr.sinAddr).take 15).length) 0
  ip_length := by
    have short := List.length_take_le 15 (inetNtoa addr.sinAddr)
    rw [List.length_append, List.length_replicate]
    omega
  port := ntohs addr.sinPort

/-- The bytes of an `inetaddr_t`. -/
def InetAddr.bytes (addr : InetAddr) : List UInt8 :=
  addr.ip ++ littleEndian 2 addr.port.toNat

/-- The `inetaddr_t` at an offset. -/
def inetaddrAt (data : Nat → UInt8) (offset : Nat) : InetAddr where
  ip := cells data offset 16
  ip_length := cells_length data offset 16
  port := UInt16.ofNat (ofLittleEndian (cells data (offset + 16) 2))

/-! ## The receive loop -/

/-- `in_buffer`, `chunk_offset`, and the regions offered to `recvfrom` so far. -/
structure InBuffer where
  data : Nat → UInt8
  chunkCount : Nat
  chunkOffset : Nat
  regions : List (Nat × Nat)

namespace InBuffer

variable (buffer : InBuffer)

/-- `max_chunk_size`, an unsigned number of 32 bits. -/
def maxChunkSize : Nat :=
  (inBufferSize + 2 ^ 32 - (buffer.chunkOffset + chunkHead) % 2 ^ 32) % 2 ^ 32

/-- The call of `recvfrom` with `chunk_buffer` and `max_chunk_size`. -/
def offer : InBuffer :=
  { buffer with
    regions := buffer.regions ++ [(buffer.chunkOffset + chunkHead, buffer.maxChunkSize)] }

/-- A turn of the loop with a datagram: `recvfrom` cuts it and writes it, then its length and its
sender are written. -/
def store (datagram : Datagram) : InBuffer :=
  let received := datagram.payload.take buffer.maxChunkSize
  let written := move received buffer.data (buffer.chunkOffset + chunkHead)
  let sized := move (littleEndian 2 received.length) written buffer.chunkOffset
  { buffer.offer with
    data := move (inetaddrInit datagram.sender).bytes sized (buffer.chunkOffset + 2)
    chunkCount := buffer.chunkCount + 1
    chunkOffset := (buffer.chunkOffset + chunkHead + received.length) % 2 ^ 32 }

/-- The receive loop; `recvfrom` fails with `EAGAIN` when no datagram waits. -/
def receive (buffer : InBuffer) : List Datagram → InBuffer
  | [] => if buffer.maxChunkSize < maxDatagram then buffer else buffer.offer
  | datagram :: pending =>
      if buffer.maxChunkSize < maxDatagram then buffer
      else receive (buffer.store datagram) pending

end InBuffer

/-- The receive loop of `udp_peer_onevent` over a buffer with any content. -/
def udpPeerReceive (data : Nat → UInt8) (pending : List Datagram) : InBuffer :=
  InBuffer.receive { data, chunkCount := 0, chunkOffset := 0, regions := [] } pending

/-! ## The message loop -/

/-- A call of the message callback: `chunk_buffer` with `*chunk_size` bytes, and `addr_buffer`. -/
structure Delivery where
  message : List UInt8
  size : Nat
  sender : InetAddr
  deriving DecidableEq

/-- The message loop while the callback leaves the peer alone. -/
def udpPeerDispatch (data : Nat → UInt8) : Nat → Nat → List Delivery
  | 0, _ => []
  | count + 1, chunkOffset =>
      let chunkSize := ofLittleEndian (cells data chunkOffset 2)
      { message := cells data (chunkOffset + chunkHead) chunkSize
        size := chunkSize
        sender := inetaddrAt data (chunkOffset + 2) } ::
      udpPeerDispatch data count ((chunkOffset + chunkHead + chunkSize) % 2 ^ 32)

/-- The call that a datagram should lead to. -/
def Datagram.delivery (datagram : Datagram) : Delivery where
  message := datagram.payload
  size := datagram.payload.length
  sender := inetaddrInit datagram.sender

/-- What a datagram takes in the buffer. -/
def Datagram.space (datagram : Datagram) : Nat :=
  chunkHead + datagram.payload.length

/-- Behind every datagram that is received there is room for the head of another one. -/
def LeavesHead (pending : List Datagram) : Prop :=
  ∀ before datagram after, pending = before ++ datagram :: after →
    (before.map Datagram.space).sum + chunkHead + maxDatagram ≤ inBufferSize →
    (before.map Datagram.space).sum + datagram.space + chunkHead ≤ inBufferSize

/-! ## The records in the buffer -/

/-- The bytes of a record. -/
def Datagram.record (datagram : Datagram) : List UInt8 :=
  littleEndian 2 datagram.payload.length ++ (inetaddrInit datagram.sender).bytes ++ datagram.payload

@[simp] theorem InetAddr.bytes_length (addr : InetAddr) : addr.bytes.length = 18 := by
  simp [InetAddr.bytes, addr.ip_length]

@[simp] theorem Datagram.record_length (datagram : Datagram) :
    datagram.record.length = datagram.space := by
  simp [Datagram.record, Datagram.space, chunkHead]
  omega

theorem Datagram.space_le (datagram : Datagram) : datagram.space ≤ chunkHead + maxDatagram :=
  Nat.add_le_add_left datagram.payload_le chunkHead

/-- An `inetaddr_t` is read back from its bytes. -/
theorem inetaddrAt_of_cells {data : Nat → UInt8} {offset : Nat} {addr : InetAddr}
    (here : cells data offset 18 = addr.bytes) : inetaddrAt data offset = addr := by
  have split := cells_add data offset 16 2
  rw [here] at split
  obtain ⟨ip_eq, port_eq⟩ := List.append_inj split (by simp [addr.ip_length])
  obtain ⟨ip, ip_length, port⟩ := addr
  simp only [inetaddrAt, InetAddr.mk.injEq]
  refine ⟨ip_eq.symm, ?_⟩
  have port_lt : port.toNat < 256 ^ 2 := port.toNat_lt
  rw [← port_eq, ofLittleEndian_littleEndian, Nat.mod_eq_of_lt port_lt, UInt16.ofNat_toNat]

/-- The message loop delivers the records that lie one behind the other. -/
theorem udpPeerDispatch_records {data : Nat → UInt8} {datagrams : List Datagram} {offset : Nat}
    (laid : cells data offset (datagrams.map Datagram.space).sum =
      datagrams.flatMap Datagram.record)
    (small : offset + (datagrams.map Datagram.space).sum < 2 ^ 32) :
    udpPeerDispatch data datagrams.length offset = datagrams.map Datagram.delivery := by
  induction datagrams generalizing offset with
  | nil => rfl
  | cons datagram rest induction =>
      rw [List.map_cons, List.sum_cons] at laid small
      rw [List.flatMap_cons, cells_add] at laid
      obtain ⟨first, rest_laid⟩ := List.append_inj laid (by simp)
      have sizes : chunkHead + datagram.payload.length = 2 + 18 + datagram.payload.length := rfl
      rw [Datagram.space, sizes, Datagram.record, cells_add, cells_add] at first
      obtain ⟨head, payload⟩ := List.append_inj first (by simp)
      obtain ⟨size, sender⟩ := List.append_inj head (by simp)
      have size_eq : ofLittleEndian (cells data offset 2) = datagram.payload.length := by
        have payload_le := datagram.payload_le
        rw [size, ofLittleEndian_littleEndian, Nat.mod_eq_of_lt]
        exact Nat.lt_of_le_of_lt payload_le (by decide)
      have next_eq : (offset + chunkHead + datagram.payload.length) % 2 ^ 32 =
          offset + datagram.space := by
        rw [Nat.add_assoc]
        exact Nat.mod_eq_of_lt (by rw [← Datagram.space]; omega)
      rw [List.length_cons, udpPeerDispatch, size_eq, next_eq,
        induction rest_laid (by omega), List.map_cons]
      have message_eq : cells data (offset + chunkHead) datagram.payload.length =
          datagram.payload := payload
      rw [Datagram.delivery, message_eq, inetaddrAt_of_cells sender]

namespace InBuffer

/-- A record is written as a whole. -/
theorem store_data {buffer : InBuffer} (datagram : Datagram)
    (uncut : maxDatagram ≤ buffer.maxChunkSize) :
    (buffer.store datagram).data = move datagram.record buffer.data buffer.chunkOffset := by
  have received : datagram.payload.take buffer.maxChunkSize = datagram.payload :=
    List.take_of_length_le (Nat.le_trans datagram.payload_le uncut)
  have size_first : buffer.chunkOffset + (littleEndian 2 datagram.payload.length).length ≤
      buffer.chunkOffset + chunkHead := by
    simp [chunkHead]
  have sender_first : buffer.chunkOffset + 2 + (inetaddrInit datagram.sender).bytes.length ≤
      buffer.chunkOffset + chunkHead := by
    simp [chunkHead]
  have joined : buffer.chunkOffset + 2 =
      buffer.chunkOffset + (littleEndian 2 datagram.payload.length).length := by simp
  have behind : buffer.chunkOffset + chunkHead = buffer.chunkOffset +
      (littleEndian 2 datagram.payload.length ++ (inetaddrInit datagram.sender).bytes).length := by
    simp [chunkHead]
  unfold store
  dsimp only
  rw [received, move_comm _ size_first, move_comm _ sender_first, joined, move_append, behind,
    move_append, Datagram.record]

/-- The loop has written `received` and has room for the head of another record. -/
structure Holds (buffer : InBuffer) (received : List Datagram) : Prop where
  count : buffer.chunkCount = received.length
  offset : buffer.chunkOffset = (received.map Datagram.space).sum
  room : buffer.chunkOffset + chunkHead ≤ inBufferSize
  laid : cells buffer.data 0 buffer.chunkOffset = received.flatMap Datagram.record
  inside : ∀ region ∈ buffer.regions, region.1 + region.2 ≤ inBufferSize

namespace Holds

variable {buffer : InBuffer} {received : List Datagram}

theorem maxChunkSize_eq (holds : buffer.Holds received) :
    buffer.maxChunkSize = inBufferSize - (buffer.chunkOffset + chunkHead) := by
  have room := holds.room
  have size : inBufferSize < 2 ^ 32 := by decide
  unfold maxChunkSize
  rw [Nat.mod_eq_of_lt (a := buffer.chunkOffset + chunkHead) (by omega)]
  rw [show inBufferSize + 2 ^ 32 - (buffer.chunkOffset + chunkHead) =
    inBufferSize - (buffer.chunkOffset + chunkHead) + 2 ^ 32 by omega]
  rw [Nat.add_mod_right, Nat.mod_eq_of_lt (by omega)]

theorem offer (holds : buffer.Holds received) : buffer.offer.Holds received where
  count := holds.count
  offset := holds.offset
  room := holds.room
  laid := holds.laid
  inside region member := by
    have room := holds.room
    rcases List.mem_append.mp member with old | new
    · exact holds.inside region old
    · rw [List.mem_singleton.mp new, holds.maxChunkSize_eq]
      omega

/-- The offset moves on by the record. -/
theorem store_chunkOffset (holds : buffer.Holds received) (datagram : Datagram)
    (space : maxDatagram ≤ buffer.maxChunkSize) :
    (buffer.store datagram).chunkOffset = buffer.chunkOffset + datagram.space := by
  have uncut : datagram.payload.take buffer.maxChunkSize = datagram.payload :=
    List.take_of_length_le (Nat.le_trans datagram.payload_le space)
  have step : (buffer.store datagram).chunkOffset = (buffer.chunkOffset + chunkHead +
      (datagram.payload.take buffer.maxChunkSize).length) % 2 ^ 32 := rfl
  have room := holds.room
  have space_le := datagram.space_le
  have size : inBufferSize + maxDatagram < 2 ^ 32 := by decide
  rw [step, uncut, Nat.add_assoc, ← Datagram.space, Nat.mod_eq_of_lt (by omega)]

theorem store (holds : buffer.Holds received) (datagram : Datagram)
    (space : maxDatagram ≤ buffer.maxChunkSize)
    (head : buffer.chunkOffset + datagram.space + chunkHead ≤ inBufferSize) :
    (buffer.store datagram).Holds (received ++ [datagram]) := by
  have data := store_data datagram space
  have offset := holds.store_chunkOffset datagram space
  constructor
  · rw [List.length_append, List.length_singleton, ← holds.count]
    rfl
  · rw [offset, holds.offset]
    simp
  · rw [offset]
    exact head
  · rw [offset, data, cells_add, Nat.zero_add]
    have before : cells (move datagram.record buffer.data buffer.chunkOffset) 0
        buffer.chunkOffset = cells buffer.data 0 buffer.chunkOffset :=
      cells_congr.mpr fun address below => move_outside (.inl (by omega))
    have record := cells_move datagram.record buffer.data buffer.chunkOffset
    rw [Datagram.record_length] at record
    rw [before, holds.laid, record]
    simp
  · exact holds.offer.inside

/-- The rest of the loop, when every record leaves room for the head of another. -/
theorem receive (holds : buffer.Holds received) {pending : List Datagram}
    (leaves : ∀ before datagram after, pending = before ++ datagram :: after →
      buffer.chunkOffset + (before.map Datagram.space).sum + chunkHead + maxDatagram ≤
        inBufferSize →
      buffer.chunkOffset + (before.map Datagram.space).sum + datagram.space + chunkHead ≤
        inBufferSize) :
    ∃ more, more <+: pending ∧ (buffer.receive pending).Holds (received ++ more) := by
  induction pending generalizing buffer received with
  | nil =>
      refine ⟨[], List.prefix_refl [], ?_⟩
      rw [InBuffer.receive, List.append_nil]
      split_ifs
      · exact holds
      · exact holds.offer
  | cons datagram pending induction =>
      rw [InBuffer.receive]
      split_ifs with full
      · exact ⟨[], List.nil_prefix, by simpa using holds⟩
      · have space := Nat.not_lt.mp full
        have room := holds.room
        have fits := holds.maxChunkSize_eq
        have head := leaves [] datagram pending rfl (by simp; omega)
        rw [List.map_nil, List.sum_nil, Nat.add_zero] at head
        have stored := holds.store datagram space head
        have offset := holds.store_chunkOffset datagram space
        obtain ⟨more, initial, final⟩ := induction stored fun before next after split here => by
          have later := leaves (datagram :: before) next after (by rw [split, List.cons_append])
          rw [List.map_cons, List.sum_cons, ← Nat.add_assoc, ← offset] at later
          exact later here
        refine ⟨datagram :: more, List.cons_prefix_cons.mpr ⟨rfl, initial⟩, ?_⟩
        rw [List.append_assoc, List.singleton_append] at final
        exact final

end Holds

theorem receive_regions {buffer : InBuffer} (pending : List Datagram) {region : Nat × Nat}
    (member : region ∈ buffer.regions) : region ∈ (buffer.receive pending).regions := by
  induction pending generalizing buffer with
  | nil =>
      rw [receive]
      split_ifs
      · exact member
      · exact List.mem_append_left _ member
  | cons datagram pending induction =>
      rw [receive]
      split_ifs
      · exact member
      · exact induction (List.mem_append_left _ member)

/-- Once a head no longer fits, the subtraction passes zero and the next region lies outside. -/
theorem receive_outside {buffer : InBuffer} (pending : List Datagram)
    (past : inBufferSize < buffer.chunkOffset + chunkHead)
    (near : buffer.chunkOffset ≤ inBufferSize) :
    ∃ region ∈ (buffer.receive pending).regions, inBufferSize < region.1 + region.2 := by
  have wrapped : maxDatagram ≤ buffer.maxChunkSize := by
    simp only [maxChunkSize, maxDatagram, inBufferSize, chunkHead] at past near ⊢
    omega
  have offered : (buffer.chunkOffset + chunkHead, buffer.maxChunkSize) ∈ buffer.offer.regions :=
    List.mem_append_right _ (List.mem_singleton_self _)
  refine ⟨(buffer.chunkOffset + chunkHead, buffer.maxChunkSize), ?_,
    Nat.lt_of_lt_of_le past (Nat.le_add_right _ _)⟩
  cases pending with
  | nil =>
      rw [receive, if_neg (Nat.not_lt.mpr wrapped)]
      exact offered
  | cons datagram pending =>
      rw [receive, if_neg (Nat.not_lt.mpr wrapped)]
      exact receive_regions pending offered

/-- A datagram behind which no head fits is reached and leads outside. -/
theorem Holds.receive_outside {buffer : InBuffer} {received before : List Datagram}
    {datagram : Datagram} (holds : buffer.Holds received) (after : List Datagram)
    (reached : buffer.chunkOffset + (before.map Datagram.space).sum + chunkHead + maxDatagram ≤
      inBufferSize)
    (past : inBufferSize < buffer.chunkOffset + (before.map Datagram.space).sum + datagram.space +
      chunkHead) :
    ∃ region ∈ (buffer.receive (before ++ datagram :: after)).regions,
      inBufferSize < region.1 + region.2 := by
  have fits := holds.maxChunkSize_eq
  induction before generalizing buffer received with
  | nil =>
      rw [List.map_nil, List.sum_nil, Nat.add_zero] at reached past
      have space : maxDatagram ≤ buffer.maxChunkSize := by omega
      have space_le := datagram.space_le
      have offset := holds.store_chunkOffset datagram space
      rw [List.nil_append, InBuffer.receive, if_neg (Nat.not_lt.mpr space)]
      exact InBuffer.receive_outside after (by omega) (by omega)
  | cons first before induction =>
      rw [List.map_cons, List.sum_cons, ← Nat.add_assoc] at reached past
      have space : maxDatagram ≤ buffer.maxChunkSize := by omega
      have stored := holds.store first space (by omega)
      have offset := holds.store_chunkOffset first space
      rw [List.cons_append, InBuffer.receive, if_neg (Nat.not_lt.mpr space)]
      exact induction stored (by omega) (by omega) stored.maxChunkSize_eq

theorem holds_nil (data : Nat → UInt8) :
    Holds { data, chunkCount := 0, chunkOffset := 0, regions := [] } [] where
  count := rfl
  offset := rfl
  room := show 0 + chunkHead ≤ inBufferSize by decide
  laid := rfl
  inside := nofun

end InBuffer

/-! ## Receiving and delivering a batch -/

/-- The datagrams which lie in the buffer are delivered as they were received. -/
theorem InBuffer.Holds.dispatch {buffer : InBuffer} {received : List Datagram}
    (holds : buffer.Holds received) :
    udpPeerDispatch buffer.data buffer.chunkCount 0 = received.map Datagram.delivery := by
  have room := holds.room
  have laid := holds.laid
  have size : inBufferSize < 2 ^ 32 := by decide
  rw [holds.offset] at laid room
  rw [holds.count]
  exact udpPeerDispatch_records laid (by omega)

/-- Every offered region lies inside the buffer and the datagrams that were received are delivered
in order exactly when each of them leaves room for the head of another. -/
theorem udpPeerReceive_iff (data : Nat → UInt8) (pending : List Datagram) :
    ((∀ region ∈ (udpPeerReceive data pending).regions, region.1 + region.2 ≤ inBufferSize) ∧
      udpPeerDispatch (udpPeerReceive data pending).data
          (udpPeerReceive data pending).chunkCount 0 =
        (pending.take (udpPeerReceive data pending).chunkCount).map Datagram.delivery) ↔
      LeavesHead pending := by
  have start := InBuffer.holds_nil data
  constructor
  · rintro ⟨inside, -⟩ before datagram after rfl reached
    by_contra past
    obtain ⟨region, offered, outside⟩ := start.receive_outside after
      (by simpa using reached) (by simpa using Nat.not_le.mp past)
    exact absurd (inside region offered) (Nat.not_le.mpr outside)
  · intro leaves
    obtain ⟨received, initial, final⟩ := start.receive fun before datagram after split reached => by
      have head := leaves before datagram after split (by simpa using reached)
      simpa using head
    rw [List.nil_append] at final
    refine ⟨final.inside, ?_⟩
    have count : (udpPeerReceive data pending).chunkCount = received.length := final.count
    rw [count, ← List.prefix_iff_eq_take.mp initial, ← count]
    exact final.dispatch

/-- A datagram of zeros from the loopback address. -/
def Datagram.zeros (size : Nat) (positive : 1 ≤ size) (small : size ≤ maxDatagram) : Datagram where
  payload := List.replicate size 0
  sender := { sinAddr := (127, 0, 0, 1), sinPort := 0 }
  payload_pos := by rwa [List.length_replicate]
  payload_le := by rwa [List.length_replicate]

theorem Datagram.zeros_space {size : Nat} (positive : 1 ≤ size) (small : size ≤ maxDatagram) :
    (Datagram.zeros size positive small).space = chunkHead + size := by
  rw [Datagram.space, Datagram.zeros, List.length_replicate]

/-- Seven datagrams of the largest size and one of 204 bytes leave room for another record of the
largest size, but not for the head behind it. -/
theorem udpPeerReceive_offers_outside :
    ¬ ∀ (data : Nat → UInt8) (pending : List Datagram),
      (∀ region ∈ (udpPeerReceive data pending).regions, region.1 + region.2 ≤ inBufferSize) ∧
        udpPeerDispatch (udpPeerReceive data pending).data
            (udpPeerReceive data pending).chunkCount 0 =
          (pending.take (udpPeerReceive data pending).chunkCount).map Datagram.delivery := by
  intro safe
  let largest := Datagram.zeros 65507 (by decide) (by decide)
  let filler := Datagram.zeros 204 (by decide) (by decide)
  have start := InBuffer.holds_nil fun _ => 0
  have total : ((List.replicate 7 largest ++ [filler]).map Datagram.space).sum = 458913 := by
    rw [List.map_append, List.map_replicate, List.map_singleton, Datagram.zeros_space,
      Datagram.zeros_space]
    decide
  have last : largest.space = 65527 := Datagram.zeros_space _ _
  obtain ⟨region, offered, outside⟩ := start.receive_outside []
    (by rw [total]; decide) (by rw [total, last]; decide)
  exact absurd ((safe (fun _ => 0) _).1 region offered) (Nat.not_le.mpr outside)

end CommonLib
