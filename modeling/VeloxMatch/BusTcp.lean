import VeloxMatch.BusShm

namespace VeloxMatch

def omBusTcpFrameMagic : Nat := 0x4F4D5446
def omBusTcpFrameHeaderSize : Nat := 16
def omBusTcpWalTypeSlowWarning : UInt8 := 0xFE
def omTcpDefaultSendBufSize : Nat := 256 * 1024
def omTcpDefaultRecvBufSize : Nat := 256 * 1024

structure OmBusTcpFrameHeader where
  magic : Nat
  walType : UInt8
  payloadLen : Nat
  walSeq : UInt64
  deriving DecidableEq, Repr

/-- A header in memory; the reserved flags are 0. The host is little-endian. -/
def OmBusTcpFrameHeader.toBytes (hdr : OmBusTcpFrameHeader) : List UInt8 :=
  leBytes 4 hdr.magic ++ [hdr.walType, 0] ++ leBytes 2 hdr.payloadLen ++
    leBytes 8 hdr.walSeq.toNat

def OmBusTcpFrameHeader.ofBytes (bytes : List UInt8) : OmBusTcpFrameHeader where
  magic := leNat (bytes.take 4)
  walType := bytes.getD 4 0
  payloadLen := leNat ((bytes.drop 6).take 2)
  walSeq := UInt64.ofNat (leNat ((bytes.drop 8).take 8))

def frameBytes (rec : OmBusRecord) : List UInt8 :=
  OmBusTcpFrameHeader.toBytes ⟨omBusTcpFrameMagic, rec.walType, rec.payload.length, rec.walSeq⟩ ++
    rec.payload

/-- The warning a slow client gets: how much is pending, and the size of the buffer. -/
def warningRecord (pending size : Nat) : OmBusRecord :=
  ⟨0, omBusTcpWalTypeSlowWarning, leBytes 4 pending ++ leBytes 4 size⟩

/-- The server's side of a connection. The sizes are 32-bit. -/
structure OmBusTcpClientSlot where
  send : ByteWindow
  disconnectPending : Bool
  deriving DecidableEq, Repr

namespace OmBusTcpClientSlot

def fresh (sendBufSize : Nat) : OmBusTcpClientSlot :=
  ⟨⟨List.replicate sendBufSize 0, 0, 0⟩, false⟩

variable (slot : OmBusTcpClientSlot)

def size : Nat := slot.send.bytes.length

def full (n : Nat) : Bool :=
  decide (slot.size < (slot.send.used + n) % 2 ^ 32)

def put (frame : List UInt8) : OmBusTcpClientSlot :=
  { slot with send :=
    { slot.send with
      bytes := writeAt slot.send.bytes slot.send.used frame
      used := (slot.send.used + frame.length) % 2 ^ 32 } }

def appendFrame (rec : OmBusRecord) : OmBusTcpClientSlot :=
  let frameSize := omBusTcpFrameHeaderSize + rec.payload.length
  let slot := if slot.full frameSize then { slot with send := slot.send.compact } else slot
  if slot.full frameSize then
    let warning := warningRecord (slot.send.used - slot.send.offset) slot.size
    let slot :=
      if slot.full (omBusTcpFrameHeaderSize + 8) then slot else slot.put (frameBytes warning)
    { slot with disconnectPending := true }
  else slot.put (frameBytes rec)

end OmBusTcpClientSlot

structure OmBusTcpClient where
  recv : ByteWindow
  flags : OmBusFlags
  expectedWalSeq : UInt64
  lastWalSeq : UInt64
  deriving DecidableEq, Repr

/-- `om_bus_tcp_client_connect` once the connection is made. -/
def omBusTcpClientConnect (recvBufSize : Nat) (flags : OmBusFlags) : OmBusTcpClient :=
  let size := if recvBufSize = 0 then omTcpDefaultRecvBufSize else recvBufSize
  ⟨⟨List.replicate size 0, 0, 0⟩, flags, 0, 0⟩

inductive OmBusTcpPollResult where
  | empty
  | record (result : OmBusPollResult)
  | init
  | slowWarning
  | protocol
  | disconnected
  deriving DecidableEq, Repr

/-- What `recv` returns: some bytes, nothing yet, the end of the stream, or an error. -/
inductive RecvResult where
  | data (bytes : List UInt8)
  | again
  | closed
  | error
  deriving DecidableEq, Repr

namespace OmBusTcpClient

variable (client : OmBusTcpClient)

def size : Nat := client.recv.bytes.length

def makeRoom : OmBusTcpClient :=
  if 0 < client.recv.offset ∧
      (client.size / 2 < client.recv.offset ∨ client.recv.used = client.size) then
    { client with recv := client.recv.compact }
  else client

def room : Nat := client.makeRoom.size - client.makeRoom.recv.used

def receive (recv : RecvResult) : OmBusTcpClient × Bool :=
  let client := client.makeRoom
  if client.recv.used < client.size then
    match recv with
    | .data bytes => ({ client with recv := client.recv.append bytes }, false)
    | .again => (client, false)
    | .closed | .error => (client, true)
  else (client, false)

/-- The rest of `om_bus_tcp_client_poll`: at most one frame is taken from the buffer. -/
def parse (peerClosed : Bool) : OmBusTcpPollResult × Option OmBusRecord × OmBusTcpClient :=
  let avail := client.recv.content
  let incomplete := if peerClosed then OmBusTcpPollResult.disconnected else .empty
  if avail.length < omBusTcpFrameHeaderSize then (incomplete, none, client)
  else
    let hdr := OmBusTcpFrameHeader.ofBytes (avail.take omBusTcpFrameHeaderSize)
    if hdr.magic ≠ omBusTcpFrameMagic then (.protocol, none, client)
    else
      let frameSize := omBusTcpFrameHeaderSize + hdr.payloadLen
      if avail.length < frameSize then (incomplete, none, client)
      else
        let payload := (avail.drop omBusTcpFrameHeaderSize).take hdr.payloadLen
        let client := { client with recv := client.recv.take frameSize }
        if hdr.walType = omBusTcpWalTypeSlowWarning then (.slowWarning, none, client)
        else
          (.record (omBusGapResult client.flags client.expectedWalSeq hdr.walSeq),
            some ⟨hdr.walSeq, hdr.walType, payload⟩,
            { client with expectedWalSeq := hdr.walSeq + 1, lastWalSeq := hdr.walSeq })

def poll (recv : RecvResult) : OmBusTcpPollResult × Option OmBusRecord × OmBusTcpClient :=
  (client.receive recv).1.parse (client.receive recv).2

end OmBusTcpClient

/-- A connection: the server's slot while it has one, the bytes under way, whether the server has
closed its end, and the client. `offered` are the records broadcast since the server accepted it,
`delivered` those the client got, `result` what its last poll returned. -/
structure TcpLink where
  slot : Option OmBusTcpClientSlot
  wire : List UInt8
  shut : Bool
  client : OmBusTcpClient
  accepted : Bool
  offered : List OmBusRecord
  delivered : List OmBusRecord
  result : OmBusTcpPollResult
  deriving DecidableEq, Repr

inductive SendResult where
  | sent (n : Nat)
  | again
  | error
  deriving DecidableEq, Repr

/-- What a call of `om_bus_tcp_server_poll_io` meets on one connection: that it waits to be
accepted and whether there is a slot for it; that the peer hung up; what `send` returns. -/
structure LinkEvent where
  accept : Option Bool
  hangup : Bool
  send : SendResult
  deriving DecidableEq, Repr

namespace TcpLink

def connect (recvBufSize : Nat) (flags : OmBusFlags) : TcpLink where
  slot := none
  wire := []
  shut := false
  client := omBusTcpClientConnect recvBufSize flags
  accepted := false
  offered := []
  delivered := []
  result := .empty

variable (link : TcpLink)

def broadcast (rec : OmBusRecord) : TcpLink :=
  { link with
    slot := link.slot.map fun slot =>
      if slot.disconnectPending then slot else slot.appendFrame rec
    offered := if link.accepted then link.offered ++ [rec] else link.offered }

def flush (slot : OmBusTcpClientSlot) (result : SendResult) : TcpLink × OmBusTcpClientSlot :=
  if slot.send.content = [] then (link, slot)
  else
    match result with
    | .sent n =>
      let send := slot.send.take (min n slot.send.content.length)
      let send := if send.offset = send.used then { send with used := 0, offset := 0 } else send
      ({ link with wire := link.wire ++ slot.send.content.take n }, { slot with send := send })
    | .again => (link, slot)
    | .error => (link, { slot with disconnectPending := true })

/-- `_server_close_client` for a slot marked for it; what is pending in it is dropped. -/
def cleanup (slot : OmBusTcpClientSlot) : TcpLink :=
  if slot.disconnectPending then { link with slot := none, shut := true }
  else { link with slot := some slot }

/-- What `om_bus_tcp_server_poll_io` does to one connection. -/
def pollIo (sendBufSize : Nat) (event : LinkEvent) : TcpLink :=
  match link.slot with
  | none =>
    if link.accepted || link.shut then link
    else
      match event.accept with
      | none => link
      | some true =>
        { link with slot := some (OmBusTcpClientSlot.fresh sendBufSize), accepted := true }
      | some false => { link with shut := true }
  | some slot =>
    let slot := { slot with disconnectPending := slot.disconnectPending || event.hangup }
    let flushed := link.flush slot event.send
    flushed.1.cleanup flushed.2

/-- The stream hands out what is under way, and its end when there is no more. -/
def mayReceive : RecvResult → Bool
  | .data bytes => !bytes.isEmpty && bytes.isPrefixOf link.wire &&
      decide (bytes.length ≤ link.client.room)
  | .closed => link.shut && link.wire.isEmpty
  | .again | .error => true

def poll (recv : RecvResult) : TcpLink :=
  let out := link.client.poll recv
  { link with
    wire :=
      match recv with
      | .data bytes => link.wire.drop bytes.length
      | _ => link.wire
    client := out.2.2
    delivered := link.delivered ++ out.2.1.toList
    result := out.1 }

end TcpLink

/-- A server and its connections. The loops over the table of slots touch each slot by itself,
so which of the slots a connection has does not matter. -/
structure TcpState where
  sendBufSize : Nat
  links : Nat → Option TcpLink

inductive TcpAction where
  | connect (c recvBufSize : Nat) (flags : OmBusFlags)
  | broadcast (rec : OmBusRecord)
  | broadcastBatch (recs : List OmBusRecord)
  | pollIo (events : Nat → LinkEvent)
  | poll (c : Nat) (recv : RecvResult)

namespace TcpState

/-- `om_bus_tcp_server_create`, listening. -/
def start (sendBufSize : Nat) : TcpState where
  sendBufSize := if sendBufSize = 0 then omTcpDefaultSendBufSize else sendBufSize
  links := fun _ => none

def step (s : TcpState) : TcpAction → Option TcpState
  | .connect c recvBufSize flags =>
    match s.links c with
    | none =>
      some { s with links := Function.update s.links c (some (.connect recvBufSize flags)) }
    | some _ => none
  | .broadcast rec => some { s with links := fun c => (s.links c).map (·.broadcast rec) }
  | .broadcastBatch recs =>
    some { s with links := fun c => (s.links c).map (recs.foldl TcpLink.broadcast) }
  | .pollIo events =>
    some { s with links := fun c => (s.links c).map (·.pollIo s.sendBufSize (events c)) }
  | .poll c recv =>
    match s.links c with
    | none => none
    | some link =>
      if link.mayReceive recv then
        some { s with links := Function.update s.links c (some (link.poll recv)) }
      else none

end TcpState

open OmBusTcpFrameHeader OmBusTcpClient List

variable (rec : OmBusRecord)

def OmBusRecord.Fits : Prop := rec.payload.length < 2 ^ 16

instance : Decidable rec.Fits := inferInstanceAs (Decidable (_ < _))

def OmBusRecord.isRecord : Bool :=
  decide (rec.walType ≠ omBusTcpWalTypeSlowWarning)

def OmBusTcpFrameHeader.of : OmBusTcpFrameHeader :=
  ⟨omBusTcpFrameMagic, rec.walType, rec.payload.length, rec.walSeq⟩

@[simp] theorem toBytes_length (hdr : OmBusTcpFrameHeader) : hdr.toBytes.length = 16 := by
  simp [toBytes]

@[simp] theorem frameBytes_length :
    (frameBytes rec).length = omBusTcpFrameHeaderSize + rec.payload.length := by
  simp [frameBytes, omBusTcpFrameHeaderSize]

theorem ofBytes_toBytes {hdr : OmBusTcpFrameHeader} (hmagic : hdr.magic < 256 ^ 4)
    (hlen : hdr.payloadLen < 256 ^ 2) : ofBytes hdr.toBytes = hdr := by
  have hfour : hdr.toBytes.take 4 = leBytes 4 hdr.magic := by
    simp [toBytes]
  have htype : hdr.toBytes.getD 4 0 = hdr.walType := by
    simp [toBytes, leBytes]
  have htwo : (hdr.toBytes.drop 6).take 2 = leBytes 2 hdr.payloadLen := by
    simp [toBytes, drop_append, take_append]
  have height : (hdr.toBytes.drop 8).take 8 = leBytes 8 hdr.walSeq.toNat := by
    rw [toBytes, drop_left' (by simp)]
    exact take_of_length_le (by simp)
  have hseq : hdr.walSeq.toNat < 256 ^ 8 := hdr.walSeq.toNat_lt
  simp only [ofBytes, hfour, htype, htwo, height, leNat_leBytes_of_lt hmagic,
    leNat_leBytes_of_lt hlen, leNat_leBytes_of_lt hseq, UInt64.ofNat_toNat]

section Parse

variable {client : OmBusTcpClient} {f : OmBusRecord} {more : List UInt8} {closed : Bool}

theorem header_of_cut (hf : f.Fits) (h : client.recv.content <+: frameBytes f ++ more)
    (hlen : omBusTcpFrameHeaderSize ≤ client.recv.content.length) :
    ofBytes (client.recv.content.take omBusTcpFrameHeaderSize) =
      of f := by
  obtain ⟨rest, hrest⟩ := h
  have htake := congrArg (take omBusTcpFrameHeaderSize) hrest
  rw [take_append_of_le_length hlen, frameBytes, append_assoc,
    take_left' (by simp [omBusTcpFrameHeaderSize])] at htake
  have hmagic : (of f).magic < 256 ^ 4 := by
    simp [of, omBusTcpFrameMagic]
  rw [htake]
  exact ofBytes_toBytes hmagic hf

theorem parse_partial (hf : f.Fits) (h : client.recv.content <+: frameBytes f ++ more)
    (hlt : client.recv.content.length < (frameBytes f).length) :
    client.parse closed =
      (if closed then OmBusTcpPollResult.disconnected else .empty, none, client) := by
  simp only [parse]
  split
  · rfl
  · next hlen =>
    have hhdr := header_of_cut hf h (Nat.not_lt.mp hlen)
    have hsize : client.recv.content.length < omBusTcpFrameHeaderSize + f.payload.length := by
      simpa using hlt
    simp only [hhdr, of, ne_eq, not_true_eq_false, if_false, if_pos hsize]

theorem parse_frame (hf : f.Fits) (h : frameBytes f <+: client.recv.content) :
    client.parse closed =
      if f.isRecord then
        (.record (omBusGapResult client.flags client.expectedWalSeq f.walSeq), some f,
          { client with
            recv := client.recv.take (frameBytes f).length
            expectedWalSeq := f.walSeq + 1
            lastWalSeq := f.walSeq })
      else
        (.slowWarning, none, { client with recv := client.recv.take (frameBytes f).length }) := by
  have hlen : omBusTcpFrameHeaderSize + f.payload.length ≤ client.recv.content.length := by
    simpa using h.length_le
  obtain ⟨more, hmore⟩ := h
  have hfirst : client.recv.content <+: frameBytes f ++ more :=
    ⟨[], by rw [hmore, append_nil]⟩
  have hhdr := header_of_cut hf hfirst (by omega)
  have hpayload : (client.recv.content.drop omBusTcpFrameHeaderSize).take f.payload.length =
      f.payload := by
    rw [← hmore, frameBytes, append_assoc, drop_append_of_le_length
      (by simp [omBusTcpFrameHeaderSize]), drop_eq_nil_of_le
      (by simp [omBusTcpFrameHeaderSize]), nil_append, take_left]
  simp only [parse, hhdr, of, hpayload, ne_eq,
    not_true_eq_false, if_false, if_neg (Nat.not_lt.mpr hlen), frameBytes_length,
    if_neg (show ¬ client.recv.content.length < omBusTcpFrameHeaderSize by omega),
    OmBusRecord.isRecord, decide_not, Bool.not_eq_true', decide_eq_false_iff_not]
  split <;> rfl

end Parse

theorem parse_disconnected {client : OmBusTcpClient} {closed : Bool}
    (h : (client.parse closed).1 = .disconnected) {f : OmBusRecord} (hf : f.Fits) :
    ¬ frameBytes f <+: (client.parse closed).2.2.recv.content := by
  have hsame : (client.parse closed).2.2 = client := by
    revert h
    simp only [parse]
    split
    · exact fun _ => rfl
    split
    · exact fun _ => rfl
    split
    · exact fun _ => rfl
    split <;> exact nofun
  rw [hsame]
  intro hframe
  rw [parse_frame hf hframe] at h
  split at h <;> cases h

def RecvResult.bytes : RecvResult → List UInt8
  | .data bytes => bytes
  | _ => []

section Receive

variable {client : OmBusTcpClient} {recv : RecvResult}

theorem makeRoom_content (h : client.recv.Valid) :
    client.makeRoom.recv.content = client.recv.content := by
  unfold makeRoom
  split
  · exact ByteWindow.content_compact h
  · rfl

theorem makeRoom_valid (h : client.recv.Valid) : client.makeRoom.recv.Valid := by
  unfold makeRoom
  split
  · exact h.compact
  · exact h

theorem receive_spec (h : client.recv.Valid) (hroom : recv.bytes.length ≤ client.room) :
    (client.receive recv).1.recv.Valid ∧
      (client.receive recv).1.recv.content = client.recv.content ++ recv.bytes := by
  have hvalid := makeRoom_valid h
  have hcontent := makeRoom_content h
  have hle := hvalid.used_le
  unfold room size at hroom
  unfold receive size
  cases recv with
  | data bytes =>
    simp only [RecvResult.bytes] at hroom ⊢
    have hfits : client.makeRoom.recv.used + bytes.length ≤ client.makeRoom.recv.bytes.length := by
      omega
    split
    · exact ⟨hvalid.append hfits, by rw [ByteWindow.content_append hvalid hfits, hcontent]⟩
    · have hnil : bytes = [] := length_eq_zero_iff.mp (by omega)
      exact ⟨hvalid, by rw [hnil, append_nil]; exact hcontent⟩
  | again | closed | error =>
    simp only [RecvResult.bytes, append_nil]
    split <;> exact ⟨hvalid, hcontent⟩

end Receive

end VeloxMatch
