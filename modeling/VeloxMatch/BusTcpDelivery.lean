import VeloxMatch.BusTcpStep

namespace VeloxMatch

open OmBusTcpClientSlot TcpState TcpLink List

variable {size : Nat} {link : TcpLink}

theorem Runs.tcpInv {s : TcpState} (h : Runs TcpState.step tcpOk (TcpState.start size) s)
    (hsize : RoomForSum (TcpState.start size).sendBufSize) : TcpInv s :=
  h.invariant (P := TcpInv) ⟨hsize, fun _ _ hlink => absurd hlink.symm (Option.some_ne_none _)⟩
    fun _ _ _ hinv hok hs => hinv.step hok hs

section Link

variable {size : Nat} {link : TcpLink}

theorem LinkInv.delivered_of_offered (h : LinkInv size link) : link.delivered <+: link.offered := by
  obtain ⟨todo, htodo⟩ := h.frames
  exact (prefix_append ..).trans htodo.order

theorem LinkInv.poll_delivers (h : LinkInv size link) {recv : RecvResult}
    (hrecv : link.mayReceive recv = true) {f : OmBusRecord} (hf : f.Fits) (hkind : f.isRecord)
    (hfront : frameBytes f <+: link.client.recv.content ++ recv.bytes) :
    (link.poll recv).delivered = link.delivered ++ [f] := by
  rw [← h.receive_content hrecv] at hfront
  rw [poll_eq, (parse_of_front hf hfront).1]
  simp [hkind, TcpLink.receive]

/-- While a client is not to be dropped, what it has not got yet is on its way. -/
theorem LinkInv.nothing_skipped (h : LinkInv size link) {slot : OmBusTcpClientSlot}
    (hs : link.slot = some slot) (hlive : slot.disconnectPending = false) :
    link.delivered.flatMap frameBytes ++ link.client.recv.content ++ link.wire ++
      slot.send.content = link.offered.flatMap frameBytes := by
  obtain ⟨todo, htodo⟩ := h.frames
  have hwhole := htodo.whole (by simp [hs])
  simp only [inFlight, hs, Option.map_some, Option.getD_some] at hwhole
  rw [← htodo.live slot hs hlive, flatMap_append, ← hwhole]
  simp only [append_assoc]

end Link

/-- However sends and receives split the bytes, a client gets the first of the records broadcast
since it was accepted, each as soon as its frame is there, and none is left out. -/
theorem tcp_delivers_in_order {size : Nat} (hsize : RoomForSum (start size).sendBufSize)
    {s : TcpState} (hrun : Runs step tcpOk (start size) s) {c : Nat} {link : TcpLink}
    (hlink : s.links c = some link) :
    link.delivered <+: link.offered ∧
      link.result ≠ .protocol ∧
      (link.result = .disconnected →
        ∀ f : OmBusRecord, f.Fits → ¬ frameBytes f <+: link.client.recv.content) ∧
      (∀ recv f, link.mayReceive recv = true → f.Fits → f.isRecord →
        frameBytes f <+: link.client.recv.content ++ recv.bytes →
        (link.poll recv).delivered = link.delivered ++ [f]) ∧
      (∀ slot, link.slot = some slot → slot.disconnectPending = false →
        link.delivered.flatMap frameBytes ++ link.client.recv.content ++ link.wire ++
          slot.send.content = link.offered.flatMap frameBytes) := by
  have h := (hrun.tcpInv hsize).2 c link hlink
  exact ⟨h.delivered_of_offered, h.result, h.drained,
    fun _ _ hrecv hf hkind hfront => h.poll_delivers hrecv hf hkind hfront,
    fun _ hs hlive => h.nothing_skipped hs hlive⟩

def noFlags : OmBusFlags := ⟨false, false, false⟩

def acceptEvent : LinkEvent := ⟨some true, false, .again⟩

def sendEvent (n : Nat) : LinkEvent := ⟨none, false, .sent n⟩

def shortRecord : OmBusRecord := ⟨7, 1, [10, 11]⟩

def longRecord : OmBusRecord := ⟨8, 2, replicate 20 5⟩

/-- Two frames are cut in three pieces, the first of them inside a header; the third frame finds
the buffer full also after it was compacted. -/
def splitActions : List TcpAction :=
  [.connect 0 40 noFlags, .pollIo fun _ => acceptEvent,
    .broadcast shortRecord, .pollIo fun _ => sendEvent 10,
    .poll 0 (.data ((frameBytes shortRecord).take 10)),
    .broadcastBatch [longRecord, longRecord], .pollIo fun _ => sendEvent 30,
    .poll 0 (.data ((frameBytes shortRecord).drop 10)),
    .poll 0 (.data ((frameBytes longRecord).take 22)),
    .poll 0 .closed]

theorem tcp_delivers_in_order_split :
    RoomForSum (start 56).sendBufSize ∧
    ∃ s link, Runs step tcpOk (start 56) s ∧ s.links 0 = some link ∧
      link.delivered = [shortRecord] ∧ link.offered = [shortRecord, longRecord, longRecord] ∧
      link.result = .disconnected ∧
      ∀ f : OmBusRecord, f.Fits → ¬ frameBytes f <+: link.client.recv.content := by
  have hsize : RoomForSum (start 56).sendBufSize := by decide
  obtain ⟨s, hrun, link, hlink, hdel, hoffered, hres⟩ := exists_runs step tcpOk
    (start 56) splitActions
    (fun s => ∃ link ∈ s.links 0, link.delivered = [shortRecord] ∧
      link.offered = [shortRecord, longRecord, longRecord] ∧ link.result = .disconnected)
    (by decide +kernel) (by decide +kernel)
  exact ⟨hsize, s, link, hrun, hlink, hdel, hoffered, hres,
    (tcp_delivers_in_order hsize hrun hlink).2.2.1 hres⟩

section Wrap

variable {slot : OmBusTcpClientSlot} {link : TcpLink} {rec : OmBusRecord} {size used : Nat}
  {offered : List OmBusRecord}

theorem appendFrame_of_room (hsize : slot.size < 2 ^ 32)
    (hroom : slot.send.used + (frameBytes rec).length ≤ slot.size) :
    slot.appendFrame rec = { slot with send := slot.send.append (frameBytes rec) } := by
  have hmod : (slot.send.used + (frameBytes rec).length) % 2 ^ 32 =
      slot.send.used + (frameBytes rec).length := Nat.mod_eq_of_lt (by omega)
  have hfull : slot.full (frameBytes rec).length = false := by
    rw [full, hmod]
    exact decide_eq_false (Nat.not_lt.mpr hroom)
  simp only [appendFrame, ← frameBytes_length, hfull, Bool.false_eq_true,
    if_false, put, hmod]
  rfl

theorem appendFrame_of_wrap (hwrap : slot.send.used + (frameBytes rec).length = 2 ^ 32) :
    slot.appendFrame rec =
      { slot with send := { slot.send with
          bytes := writeAt slot.send.bytes slot.send.used (frameBytes rec), used := 0 } } := by
  have hmod : (slot.send.used + (frameBytes rec).length) % 2 ^ 32 = 0 := by
    rw [hwrap, Nat.mod_self]
  have hfull : slot.full (frameBytes rec).length = false := by
    rw [full, hmod]
    exact decide_eq_false (Nat.not_lt_zero _)
  simp only [appendFrame, ← frameBytes_length, hfull, Bool.false_eq_true,
    if_false, put, hmod]

structure Filled (size used : Nat) (slot : OmBusTcpClientSlot) : Prop where
  size : slot.size = size
  used : slot.send.used = used
  offset : slot.send.offset = 0
  live : slot.disconnectPending = false

theorem Filled.fresh (size : Nat) : Filled size 0 (.fresh size) :=
  ⟨by simp [OmBusTcpClientSlot.size, OmBusTcpClientSlot.fresh], rfl, rfl, rfl⟩

theorem Filled.append (h : Filled size used slot) (hsize : size < 2 ^ 32)
    (hroom : used + (frameBytes rec).length ≤ size) :
    Filled size (used + (frameBytes rec).length) (slot.appendFrame rec) := by
  rw [← h.size, ← h.used] at hroom
  rw [appendFrame_of_room (h.size ▸ hsize) hroom]
  refine ⟨?_, congrArg (· + _) h.used, h.offset, h.live⟩
  rw [← h.size]
  simp [OmBusTcpClientSlot.size, ByteWindow.append]

theorem Filled.wrap (h : Filled size used slot) (hwrap : used + (frameBytes rec).length = 2 ^ 32) :
    Filled size 0 (slot.appendFrame rec) := by
  rw [← h.used] at hwrap
  rw [appendFrame_of_wrap hwrap]
  refine ⟨?_, rfl, h.offset, h.live⟩
  rw [← h.size]
  simp [OmBusTcpClientSlot.size]

structure Waiting (size used : Nat) (offered : List OmBusRecord) (link : TcpLink) : Prop where
  slot : ∃ slot, link.slot = some slot ∧ Filled size used slot
  wire : link.wire = []
  client : link.client = omBusTcpClientConnect 0 noFlags
  accepted : link.accepted = true
  offered : link.offered = offered
  delivered : link.delivered = []

theorem Waiting.broadcast {used' : Nat} (h : Waiting size used offered link)
    (hslot : ∀ slot, Filled size used slot → Filled size used' (slot.appendFrame rec)) :
    Waiting size used' (offered ++ [rec]) (link.broadcast rec) := by
  obtain ⟨slot, hs, hfilled⟩ := h.slot
  refine ⟨⟨slot.appendFrame rec, ?_, hslot slot hfilled⟩, h.wire, h.client, h.accepted, ?_,
    h.delivered⟩
  · simp [TcpLink.broadcast, hs, hfilled.live]
  · simp [TcpLink.broadcast, h.accepted, h.offered]

theorem Waiting.broadcasts (k : Nat) (h : Waiting size used offered link) (hsize : size < 2 ^ 32)
    (hroom : used + k * (frameBytes rec).length ≤ size) :
    Waiting size (used + k * (frameBytes rec).length) (offered ++ replicate k rec)
      ((replicate k rec).foldl TcpLink.broadcast link) := by
  induction k generalizing link used offered with
  | zero => simpa using h
  | succ k ih =>
    rw [Nat.succ_mul] at hroom
    have hone : Waiting size (used + (frameBytes rec).length) (offered ++ [rec])
        (link.broadcast rec) := h.broadcast fun slot hf => hf.append hsize (by omega)
    have hrest := ih hone (by omega)
    rw [append_assoc, singleton_append, ← replicate_succ] at hrest
    rw [Nat.succ_mul, Nat.add_comm (k * _), ← Nat.add_assoc]
    exact hrest

theorem Waiting.content (h : Waiting size 0 offered link) (hsize : size < 2 ^ 32)
    (hroom : (frameBytes rec).length ≤ size) :
    ∃ slot, (link.broadcast rec).slot = some slot ∧ slot.send.content = frameBytes rec := by
  obtain ⟨slot, hs, hfilled⟩ := h.slot
  refine ⟨slot.appendFrame rec, by simp [TcpLink.broadcast, hs, hfilled.live], ?_⟩
  have hvalid : slot.send.Valid := by
    constructor <;> simp [hfilled.used, hfilled.offset]
  have hempty : slot.send.content = [] :=
    ByteWindow.content_of_offset_eq_used (hfilled.offset.trans hfilled.used.symm)
  have hfits : slot.send.used + (frameBytes rec).length ≤ slot.size := by
    rw [hfilled.used, hfilled.size, Nat.zero_add]
    exact hroom
  rw [appendFrame_of_room (hfilled.size ▸ hsize) hfits]
  exact (ByteWindow.content_append hvalid hfits).trans (by rw [hempty, nil_append])

theorem frameBytes_ne_nil (rec : OmBusRecord) : frameBytes rec ≠ [] := by
  intro hnil
  have hlen := congrArg length hnil
  simp [omBusTcpFrameHeaderSize] at hlen

theorem cleanup_eq (link : TcpLink) (slot : OmBusTcpClientSlot) :
    ∃ slot' shut, link.cleanup slot = { link with slot := slot', shut := shut } := by
  unfold cleanup
  split
  · exact ⟨_, _, rfl⟩
  · exact ⟨_, _, rfl⟩

theorem pollIo_send (hs : link.slot = some slot) (hcontent : slot.send.content = frameBytes rec)
    (size : Nat) :
    ∃ slot' shut, link.pollIo size (sendEvent (frameBytes rec).length) =
      { link with wire := link.wire ++ frameBytes rec, slot := slot', shut := shut } := by
  have hne := frameBytes_ne_nil rec
  simp only [pollIo, hs, sendEvent, flush, hcontent, hne, if_false, take_length]
  obtain ⟨slot', shut, heq⟩ := cleanup_eq { link with wire := link.wire ++ frameBytes rec } _
  exact ⟨slot', shut, heq⟩

theorem poll_fresh (hclient : link.client = omBusTcpClientConnect 0 noFlags)
    (hwire : link.wire = frameBytes rec) (hrec : rec.Fits) (hkind : rec.isRecord) :
    link.mayReceive (.data (frameBytes rec)) = true ∧
      (link.poll (.data (frameBytes rec))).delivered = link.delivered ++ [rec] := by
  have hroom : link.client.room = omTcpDefaultRecvBufSize := by
    simp [hclient, OmBusTcpClient.room, OmBusTcpClient.makeRoom, omBusTcpClientConnect,
      OmBusTcpClient.size]
  have hlen : (RecvResult.data (frameBytes rec)).bytes.length ≤ link.client.room := by
    rw [hroom]
    exact (frameBytes_le_maxFrameSize hrec).trans (by decide)
  have hvalid : link.client.recv.Valid := by
    rw [hclient]
    exact ⟨Nat.le_refl _, Nat.zero_le _⟩
  have hempty : link.client.recv.content = [] := by
    rw [hclient]
    exact ByteWindow.empty_content _
  have hcontent := (receive_spec hvalid hlen).2
  rw [hempty, nil_append] at hcontent
  have hfront : frameBytes rec <+: (link.receive (.data (frameBytes rec))).client.recv.content :=
    ⟨[], (append_nil _).trans hcontent.symm⟩
  constructor
  · simp only [mayReceive, hwire, Bool.and_eq_true, decide_eq_true_eq]
    exact ⟨⟨by simp [frameBytes_ne_nil], by simp⟩, hlen⟩
  · rw [poll_eq, (parse_of_front hrec hfront).1]
    simp [hkind, receive]

end Wrap

def Reaches (size : Nat) (link : TcpLink) : Prop :=
  ∃ s, Runs step tcpOk (start size) s ∧ s.sendBufSize = size ∧
    s.links 0 = some link

section Reaches

variable {size : Nat} {link : TcpLink}

theorem Reaches.connect (hsize : size ≠ 0) (recvBufSize : Nat) (flags : OmBusFlags) :
    Reaches size (.connect recvBufSize flags) :=
  ⟨_, Runs.start.step (.connect 0 recvBufSize flags) trivial rfl, by simp [start, hsize],
    by simp⟩

theorem Reaches.pollIo (h : Reaches size link) (event : LinkEvent) :
    Reaches size (link.pollIo size event) := by
  obtain ⟨s, hrun, hsize, hlink⟩ := h
  exact ⟨_, hrun.step (.pollIo fun _ => event) trivial rfl, hsize, by simp [hlink, hsize]⟩

theorem Reaches.broadcastBatch (h : Reaches size link) {recs : List OmBusRecord}
    (hrecs : ∀ rec ∈ recs, rec.Fits ∧ rec.isRecord) : Reaches size (recs.foldl broadcast link) := by
  obtain ⟨s, hrun, hsize, hlink⟩ := h
  exact ⟨_, hrun.step (.broadcastBatch recs) hrecs rfl, hsize, by simp [hlink]⟩

theorem Reaches.poll (h : Reaches size link) {recv : RecvResult}
    (hrecv : link.mayReceive recv = true) : Reaches size (link.poll recv) := by
  obtain ⟨s, hrun, hsize, hlink⟩ := h
  have hs : s.step (.poll 0 recv) =
      some { s with links := Function.update s.links 0 (some (link.poll recv)) } := by
    simp [step, hlink, hrecv]
  exact ⟨_, hrun.step (.poll 0 recv) trivial hs, hsize, by simp⟩

end Reaches

def fullRecord : OmBusRecord := ⟨1, 1, replicate 65535 0⟩

/-- A record whose frame fills what 65521 of the longest leave of 4 GiB. -/
def lastRecord : OmBusRecord := ⟨2, 1, replicate 209 0⟩

theorem fullRecord_length : fullRecord.payload.length = 65535 := length_replicate

theorem lastRecord_length : lastRecord.payload.length = 209 := length_replicate

theorem fullRecord_frame : (frameBytes fullRecord).length = 65551 := by
  rw [frameBytes_length, fullRecord_length]
  rfl

theorem lastRecord_frame : (frameBytes lastRecord).length = 225 := by
  rw [frameBytes_length, lastRecord_length]
  rfl

theorem fullRecord_ok : fullRecord.Fits ∧ fullRecord.isRecord := by
  refine ⟨?_, rfl⟩
  rw [OmBusRecord.Fits, fullRecord_length]
  decide

theorem lastRecord_ok : lastRecord.Fits ∧ lastRecord.isRecord := by
  refine ⟨?_, rfl⟩
  rw [OmBusRecord.Fits, lastRecord_length]
  decide

theorem Waiting.accept (size : Nat) :
    Waiting size 0 [] ((connect 0 noFlags).pollIo size acceptEvent) :=
  ⟨⟨_, rfl, .fresh size⟩, rfl, rfl, rfl, rfl, rfl⟩

theorem Waiting.wrap (hsize : size = 2 ^ 32 - 1) (h : Waiting size 0 [] link) :
    Waiting size 0 (replicate 65521 fullRecord ++ [lastRecord])
      ((replicate 65521 fullRecord ++ [lastRecord]).foldl TcpLink.broadcast link) := by
  have hlen := fullRecord_frame
  have hlast := lastRecord_frame
  have hroom : 0 + 65521 * (frameBytes fullRecord).length ≤ size := by omega
  have hfull := h.broadcasts 65521 (by omega) hroom
  rw [foldl_append]
  refine hfull.broadcast fun slot hslot => hslot.wrap ?_
  omega

theorem Waiting.delivers {offered : List OmBusRecord} (h : Waiting size 0 offered link)
    (hreach : Reaches size link) (hsize : size < 2 ^ 32) {rec : OmBusRecord}
    (hroom : (frameBytes rec).length ≤ size) (hrec : rec.Fits) (hkind : rec.isRecord) :
    ∃ link', Reaches size link' ∧ link'.offered = offered ++ [rec] ∧ link'.delivered = [rec] := by
  have hone : ∀ r ∈ [rec], r.Fits ∧ r.isRecord := by simp [hrec, hkind]
  obtain ⟨slot, hslot, hcontent⟩ := h.content hsize hroom
  obtain ⟨slot', shut, hsend⟩ := pollIo_send hslot hcontent size
  have hsent := (hreach.broadcastBatch hone).pollIo (sendEvent (frameBytes rec).length)
  rw [foldl_cons, foldl_nil, hsend] at hsent
  have hwire : (link.broadcast rec).wire ++ frameBytes rec = frameBytes rec := by
    simp [TcpLink.broadcast, h.wire]
  have hclient : (link.broadcast rec).client = omBusTcpClientConnect 0 noFlags := h.client
  obtain ⟨hrecv, hdel⟩ := @poll_fresh { link.broadcast rec with
    wire := (link.broadcast rec).wire ++ frameBytes rec, slot := slot', shut := shut } rec
    hclient hwire hrec hkind
  refine ⟨_, hsent.poll hrecv, ?_, hdel.trans ?_⟩
  · simp [TcpLink.poll, TcpLink.broadcast, h.accepted, h.offered]
  · simp [TcpLink.broadcast, h.delivered]

theorem shortRecord_not_first (k : Nat) (rest : List OmBusRecord) :
    ¬ [shortRecord] <+: replicate (k + 1) fullRecord ++ [lastRecord] ++ rest := by
  rw [replicate_succ, cons_append, cons_append, cons_prefix_cons]
  rintro ⟨hhead, -⟩
  have hseq := congrArg OmBusRecord.walSeq hhead
  exact absurd hseq (by decide)

/-- In a buffer of almost 4 GiB the fill level wraps, and all that was in it is lost. -/
theorem tcp_wrap_loses_records :
    ∃ s link, Runs step tcpOk (start (2 ^ 32 - 1)) s ∧ s.links 0 = some link ∧
      link.offered = replicate 65521 fullRecord ++ [lastRecord] ++ [shortRecord] ∧
      link.delivered = [shortRecord] ∧ ¬ link.delivered <+: link.offered := by
  obtain ⟨size, hsize⟩ : ∃ size, size = 2 ^ 32 - 1 := ⟨_, rfl⟩
  rw [← hsize]
  have hrecs : ∀ rec ∈ replicate 65521 fullRecord ++ [lastRecord],
      rec.Fits ∧ rec.isRecord := by
    intro rec hrec
    rcases mem_append.mp hrec with hrec | hrec
    · rw [eq_of_mem_replicate hrec]
      exact fullRecord_ok
    · rw [mem_singleton.mp hrec]
      exact lastRecord_ok
  have hconnect : Reaches size (.connect 0 noFlags) := .connect (by omega) 0 noFlags
  have hshort : (frameBytes shortRecord).length ≤ size := by
    rw [hsize]
    decide
  obtain ⟨link, ⟨s, hrun, -, hlink⟩, hoffered, hdel⟩ := ((Waiting.accept size).wrap hsize).delivers
    ((hconnect.pollIo acceptEvent).broadcastBatch hrecs) (by omega) hshort (by decide) (by decide)
  refine ⟨s, link, hrun, hlink, hoffered, hdel, ?_⟩
  rw [hoffered, hdel]
  exact shortRecord_not_first 65520 _

end VeloxMatch
