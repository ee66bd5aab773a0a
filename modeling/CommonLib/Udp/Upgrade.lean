import CommonLib.Library.ByteOrder
import CommonLib.Library.Conversion
import CommonLib.Library.Execution

/-!
# The firmware transfer of the UDP server

The server announces its file, the client answers with the size of its own copy, and the server
sends block after block, one for each answer.  The client appends every block that arrives: neither
the offset in a block nor the size in an answer to a block is looked at.  So its copy stays a prefix
of the server's file as long as each block arrives while the copy ends where the block was read.
-/

namespace CommonLib

/-! ## Datagrams -/

/-- `SEDPAC` in a datagram of action 0x08.  `reqmsg.len` lies over the field `digest`. -/
structure SendPacket where
  reqmsgLen : Nat
  offset : Int
  len : Nat
  packet : List UInt8
  /-- Where in the server's file the block was read; no part of the datagram. -/
  position : Nat
  deriving DecidableEq

/-- `RSPMSG` with the parameter of its datagram. -/
structure ResponseMsg where
  para : Nat
  recvLen : Int
  maxLen : Nat
  deriving DecidableEq

/-- The datagrams `UDP` of a transfer; the action numbers are 0x09, 0x08 and 0x0A in both directions. -/
inductive DmsUpdate
  /-- The request of `send_upgrade`. -/
  | reqmsg (len : Nat)
  /-- A block from the server's `trans_data`. -/
  | senpac (block : SendPacket)
  /-- The server's `end_response`. -/
  | endmsg (size : Int)
  /-- The answer of the client's `start_response`. -/
  | started (answer : ResponseMsg)
  /-- The answer of the client's `trans_data`. -/
  | received (answer : ResponseMsg)
  /-- The answer of the client's `end_res`. -/
  | ended
  deriving DecidableEq

/-- The entry `UPDEV_INFO` of the client in the server's map. -/
structure UpdevInfo where
  state : Nat
  len : Nat
  offset : Nat
  deriving DecidableEq

/-- Both parties and the datagrams sent so far.  Any of them may still arrive, once or more often or
never. -/
structure UpgradeState where
  peer : Option UpdevInfo
  /-- The client's `a.tar.gz`. -/
  file : List UInt8
  sent : List DmsUpdate
  deriving DecidableEq

/-- What the server finds: whether the device is known to `sn_ret`, `fopen` succeeds and the map
stores a new entry. -/
structure ServerFinds where
  known : Bool
  opens : Bool
  stores : Bool

/-- What the client finds: whether `fopen` succeeds and how many bytes `fwrite` writes at most. -/
structure ClientFinds where
  opens : Bool
  writes : Nat

namespace UpgradeState

/-- `sendto`. -/
def send (state : UpgradeState) (datagram : DmsUpdate) : UpgradeState :=
  { state with sent := state.sent ++ [datagram] }

/-! ## The server -/

variable (serverFile : List UInt8)

/-- `send_upgrade`. -/
def sendUpgrade (finds : ServerFinds) (state : UpgradeState) : UpgradeState :=
  if finds.known then state.send (.reqmsg (htonl serverFile.length)) else state

/-- `fseek` to an offset, as a `long`; a failure leaves the file at its start. -/
def seek (offset : Nat) : Nat := if offset < 9223372036854775808 then offset else 0

/-- `trans_data` of the server. -/
def transData (finds : ServerFinds) (state : UpgradeState) : UpgradeState :=
  match state.peer with
  | none => state
  | some ptr =>
      if finds.known = false ∨ finds.opens = false then state
      else
        let packet := (serverFile.drop (seek ptr.offset)).take 1000
        let len := packet.length
        if len > 0 then
          let block : SendPacket :=
            { reqmsgLen := len
              offset := toInt ptr.offset
              len := htonl ptr.len
              packet
              position := seek ptr.offset }
          { state.send (.senpac block) with
            peer := some { ptr with offset := (ptr.offset + len) % 18446744073709551616 } }
        else
          { state.send (.endmsg (toInt serverFile.length)) with peer := some { ptr with state := 4 } }

/-- `start_response` of the server. -/
def startResponse (finds : ServerFinds) (answer : ResponseMsg) (state : UpgradeState) :
    UpgradeState :=
  let entry : UpdevInfo :=
    { state := 1, len := answer.maxLen, offset := toUnsignedLong answer.recvLen }
  if state.peer = none ∧ finds.stores = false then state
  else if answer.para = 0x0C then { state with peer := some { entry with state := 3 } }
  else if answer.para = 0x0D then { state with peer := some { entry with state := 5 } }
  else transData serverFile finds { state with peer := some entry }

/-- `end_res` of the server. -/
def endRes (state : UpgradeState) : UpgradeState :=
  { state with peer := state.peer.map fun ptr => { ptr with state := 4 } }

/-! ## The client -/

/-- `start_response` of the client. -/
def clientStartResponse (state : UpgradeState) : UpgradeState :=
  state.send (.started { para := 0, recvLen := toInt state.file.length, maxLen := 1000 })

/-- `trans_data` of the client.  The size in the answer is taken before the block is flushed. -/
def clientTransData (finds : ClientFinds) (block : SendPacket) (state : UpgradeState) :
    UpgradeState :=
  if finds.opens then
    { state.send (.received { para := 0, recvLen := toInt state.file.length, maxLen := 1024 }) with
      file := state.file ++ (block.packet.take block.reqmsgLen).take finds.writes }
  else state

/-! ## Runs -/

/-- What happens: calls of `send_upgrade`, its retransmissions and arrivals of datagrams. -/
inductive Event
  | sendUpgrade (finds : ServerFinds)
  /-- The timer sends a request once more. -/
  | retrans (index : Nat)
  | arrive (index : Nat) (server : ServerFinds) (client : ClientFinds)

/-- A datagram arrives at the party that it was sent to. -/
def arrive (server : ServerFinds) (client : ClientFinds) (state : UpgradeState) :
    DmsUpdate → UpgradeState
  | .reqmsg _ => state.clientStartResponse
  | .senpac block => state.clientTransData client block
  | .endmsg _ => state.send .ended
  | .started answer => startResponse serverFile server answer state
  | .received _ => transData serverFile server state
  | .ended => state.endRes

/-- One event; any datagram sent so far may arrive. -/
def step (state : UpgradeState) : Event → Option UpgradeState
  | .sendUpgrade finds => some (sendUpgrade serverFile finds state)
  | .retrans index =>
      match state.sent[index]? with
      | some (.reqmsg len) => some (state.send (.reqmsg len))
      | _ => none
  | .arrive index server client =>
      state.sent[index]?.map (arrive serverFile server client state)

/-! ## The copy and the blocks under way -/

open Execution

/-- The client's file is a prefix of the server's. -/
def CopyIsPrefix (state : UpgradeState) : Prop := state.file <+: serverFile

/-- A block carries the bytes of the server's file from its position on. -/
def IsSlice (block : SendPacket) : Prop := block.packet <+: serverFile.drop block.position

/-- The copy is a prefix, and every block sent so far is a slice of the server's file. -/
structure Sound (state : UpgradeState) : Prop where
  copy : CopyIsPrefix serverFile state
  slices : ∀ block, .senpac block ∈ state.sent → IsSlice serverFile block

/-- A block that the client can store arrives while the copy ends where the block was read. -/
def InPlace (state : UpgradeState) : Event → Prop
  | .arrive index _ client =>
      ∀ block, state.sent[index]? = some (.senpac block) → client.opens = true →
        block.position = state.file.length
  | _ => True

instance (state : UpgradeState) : (event : Event) → Decidable (InPlace state event)
  | .arrive index _ client =>
      match found : state.sent[index]? with
      | some (.senpac block) =>
          decidable_of_iff (client.opens = true → block.position = state.file.length)
            ⟨fun here _ same =>
              DmsUpdate.senpac.inj (Option.some.inj (found.symm.trans same)) ▸ here,
              fun here => here block found⟩
      | some (.reqmsg _) | some (.endmsg _) | some (.started _) | some (.received _)
      | some .ended | none => isTrue fun _ same => by simp [found] at same
  | .sendUpgrade _ => isTrue trivial
  | .retrans _ => isTrue trivial

variable {serverFile} {state : UpgradeState}

/-- Sending changes nothing unless the datagram is a block, which has to be a slice. -/
theorem Sound.send (sound : Sound serverFile state) {datagram : DmsUpdate}
    (slice : ∀ block, datagram = .senpac block → IsSlice serverFile block) :
    Sound serverFile (state.send datagram) where
  copy := sound.copy
  slices := by
    intro block mem
    rcases List.mem_append.mp mem with earlier | now
    · exact sound.slices block earlier
    · exact slice block (List.mem_singleton.mp now).symm

/-- The server's entry plays no part. -/
theorem Sound.withPeer (sound : Sound serverFile state) (peer : Option UpdevInfo) :
    Sound serverFile { state with peer } where
  copy := sound.copy
  slices := sound.slices

theorem Sound.sendUpgrade (sound : Sound serverFile state) (finds : ServerFinds) :
    Sound serverFile (sendUpgrade serverFile finds state) := by
  rw [UpgradeState.sendUpgrade]
  split
  · exact sound.send (by simp)
  · exact sound

/-- The block which the server's `trans_data` sends is a slice. -/
theorem Sound.transData (sound : Sound serverFile state) (finds : ServerFinds) :
    Sound serverFile (transData serverFile finds state) := by
  cases found : state.peer with
  | none =>
      simp only [UpgradeState.transData, found]
      exact sound
  | some ptr =>
      simp only [UpgradeState.transData, found]
      split
      · exact sound
      · split
        · apply Sound.withPeer
          apply sound.send
          intro block same
          obtain rfl := DmsUpdate.senpac.inj same
          exact List.take_prefix _ _
        · apply Sound.withPeer
          exact sound.send (by simp)

theorem Sound.startResponse (sound : Sound serverFile state) (finds : ServerFinds)
    (answer : ResponseMsg) : Sound serverFile (startResponse serverFile finds answer state) := by
  rw [UpgradeState.startResponse]
  split
  · exact sound
  · split
    · exact sound.withPeer _
    · split
      · exact sound.withPeer _
      · exact (sound.withPeer _).transData finds

/-- A part of a slice which is appended where the slice begins extends the prefix. -/
theorem prefix_append_slice {file packet part : List UInt8} (copy : file <+: serverFile)
    (slice : packet <+: serverFile.drop file.length) (part_of : part <+: packet) :
    file ++ part <+: serverFile := by
  obtain ⟨rest, rfl⟩ := copy
  rw [List.drop_left] at slice
  exact (List.prefix_append_right_inj file).mpr (part_of.trans slice)

theorem Sound.clientTransData (sound : Sound serverFile state) (finds : ClientFinds)
    {block : SendPacket} (slice : IsSlice serverFile block)
    (inPlace : finds.opens = true → block.position = state.file.length) :
    Sound serverFile (state.clientTransData finds block) := by
  rw [UpgradeState.clientTransData]
  split
  · next opens =>
      have sent : Sound serverFile (state.send
          (.received { para := 0, recvLen := toInt state.file.length, maxLen := 1024 })) :=
        sound.send (by simp)
      refine ⟨?_, sent.slices⟩
      rw [IsSlice, inPlace opens] at slice
      exact prefix_append_slice sound.copy slice
        ((List.take_prefix _ _).trans (List.take_prefix _ _))
  · exact sound

/-- Each datagram that arrives in place keeps the copy a prefix. -/
theorem Sound.arrive (sound : Sound serverFile state) (server : ServerFinds)
    (client : ClientFinds) {datagram : DmsUpdate} (sent : datagram ∈ state.sent)
    (inPlace : ∀ block, datagram = .senpac block → client.opens = true →
      block.position = state.file.length) :
    Sound serverFile (arrive serverFile server client state datagram) := by
  cases datagram with
  | reqmsg len => exact sound.send (by simp)
  | senpac block =>
      exact sound.clientTransData client (sound.slices block sent) (inPlace block rfl)
  | endmsg size => exact sound.send (by simp)
  | started answer => exact sound.startResponse server answer
  | received answer => exact sound.transData server
  | ended => exact sound.withPeer _

/-- One event in place keeps the copy a prefix. -/
theorem Sound.step (sound : Sound serverFile state) {event : Event}
    (inPlace : InPlace state event) {next : UpgradeState}
    (result : step serverFile state event = some next) : Sound serverFile next := by
  cases event with
  | sendUpgrade finds =>
      obtain rfl := Option.some.inj result
      exact sound.sendUpgrade finds
  | retrans index =>
      simp only [UpgradeState.step] at result
      split at result
      · obtain rfl := Option.some.inj result
        exact sound.send (by simp)
      · exact absurd result (by simp)
  | arrive index server client =>
      obtain ⟨datagram, found, rfl⟩ := Option.map_eq_some_iff.mp result
      apply sound.arrive server client (List.mem_of_getElem? found)
      rintro block rfl opens
      exact inPlace block found opens

/-- In a run whose blocks arrive in place, the client's file is a prefix of the server's file in
every state. -/
theorem copy_prefix_of_inPlace {peer : Option UpdevInfo} {file : List UInt8}
    (copy : file <+: serverFile) {events : List Event}
    (inPlace : AllSteps (step serverFile) InPlace { peer, file, sent := [] } events) :
    AllStates (step serverFile) (CopyIsPrefix serverFile) { peer, file, sent := [] } events := by
  apply allStates_of_allSteps (Sound serverFile)
  · exact fun sound => sound.copy
  · exact fun sound here result => sound.step here result
  · exact ⟨copy, by simp⟩
  · exact inPlace

/-- Everything is found and the client writes what it gets. -/
def arrives (index : Nat) : Event :=
  .arrive index { known := true, opens := true, stores := true } { opens := true, writes := 1000 }

/-- A transfer of two bytes: the request, the answer, the block, the answer to it. -/
def wholeEvents : List Event :=
  [.sendUpgrade { known := true, opens := true, stores := true }, arrives 0, arrives 1, arrives 2,
    arrives 3]

theorem copy_prefix_of_inPlace_whole :
    AllStates (step [1, 2]) (CopyIsPrefix [1, 2]) { peer := none, file := [], sent := [] }
      wholeEvents := by
  apply copy_prefix_of_inPlace List.nil_prefix
  decide

/-- The block arrives twice, and the client appends it twice. -/
theorem copy_not_prefix :
    ∃ state, run (step [1, 2]) { peer := none, file := [], sent := [] }
        (wholeEvents.take 4 ++ [arrives 2]) = some state ∧ state.file = [1, 2, 1, 2] ∧
      ¬ CopyIsPrefix [1, 2] state := by
  have copied : (run (step [1, 2]) { peer := none, file := [], sent := [] }
      (wholeEvents.take 4 ++ [arrives 2])).any (fun state => state.file = [1, 2, 1, 2]) = true := by
    decide
  obtain ⟨state, execution, twice⟩ := (Option.any_eq_true _ _).mp copied
  have twice : state.file = [1, 2, 1, 2] := of_decide_eq_true twice
  refine ⟨state, execution, twice, fun copy => ?_⟩
  rw [CopyIsPrefix, twice] at copy
  exact absurd copy.length_le (by decide)

end UpgradeState
end CommonLib
