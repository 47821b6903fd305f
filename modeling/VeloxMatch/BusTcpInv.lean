import VeloxMatch.BusTcp

namespace VeloxMatch

open OmBusTcpClientSlot ByteWindow OmBusRecord List

def maxFrameSize : Nat := omBusTcpFrameHeaderSize + (2 ^ 16 - 1)

def RoomForSum (size : Nat) : Prop := size + maxFrameSize < 2 ^ 32

instance (size : Nat) : Decidable (RoomForSum size) := inferInstanceAs (Decidable (_ < _))

theorem frameBytes_le_maxFrameSize {rec : OmBusRecord} (h : rec.Fits) :
    (frameBytes rec).length ≤ maxFrameSize := by
  have hlen := frameBytes_length rec
  unfold OmBusRecord.Fits at h
  unfold maxFrameSize
  omega

theorem warningRecord_fits (pending size : Nat) : (warningRecord pending size).Fits := by
  simp [warningRecord, OmBusRecord.Fits]

theorem warningRecord_isRecord (pending size : Nat) :
    (warningRecord pending size).isRecord = false := by
  simp [warningRecord, isRecord]

section Slot

variable {slot : OmBusTcpClientSlot} {rec : OmBusRecord}

theorem fits_of_not_full (hvalid : slot.send.Valid) (hsize : RoomForSum slot.size) {n : Nat}
    (hn : n ≤ maxFrameSize) (h : slot.full n = false) : slot.send.used + n ≤ slot.size := by
  have hused : slot.send.used ≤ slot.size := hvalid.used_le
  have hsum : slot.send.used + n < 2 ^ 32 := by
    unfold RoomForSum at hsize
    omega
  rw [full, Nat.mod_eq_of_lt hsum] at h
  exact Nat.not_lt.mp (of_decide_eq_false h)

theorem put_eq_append (hsize : RoomForSum slot.size) {frame : List UInt8}
    (hfits : slot.send.used + frame.length ≤ slot.size) :
    slot.put frame = { slot with send := slot.send.append frame } := by
  have hsum : slot.send.used + frame.length < 2 ^ 32 := by
    unfold RoomForSum at hsize
    omega
  simp only [put, append, Nat.mod_eq_of_lt hsum]

/-- What lies in a slot after a frame was to be appended: the frame behind the rest, or, when the
client is to be dropped, perhaps a warning. -/
structure FrameAppended (slot : OmBusTcpClientSlot) (rec : OmBusRecord)
    (slot' : OmBusTcpClientSlot) : Prop where
  valid : slot'.send.Valid
  size : slot'.size = slot.size
  content : ∃ f : List OmBusRecord, slot'.send.content =
      slot.send.content ++ f.flatMap frameBytes ∧
    (f = [rec] ∧ slot'.disconnectPending = slot.disconnectPending ∨
      (∀ w ∈ f, w.Fits ∧ w.isRecord = false) ∧ slot'.disconnectPending = true)

theorem put_appended (hvalid : slot.send.Valid) (hsize : RoomForSum slot.size) (hrec : rec.Fits)
    (hfull : slot.full (frameBytes rec).length = false) :
    (slot.put (frameBytes rec)).send.Valid ∧ (slot.put (frameBytes rec)).size = slot.size ∧
      (slot.put (frameBytes rec)).send.content = slot.send.content ++ frameBytes rec := by
  have hfits := fits_of_not_full hvalid hsize (frameBytes_le_maxFrameSize hrec) hfull
  rw [put_eq_append hsize hfits]
  exact ⟨hvalid.append hfits, by simp [size, append],
    content_append hvalid hfits⟩

theorem appendFrame_spec (hvalid : slot.send.Valid) (hsize : RoomForSum slot.size)
    (hrec : rec.Fits) : FrameAppended slot rec (slot.appendFrame rec) := by
  -- compaction changes neither the content nor the size
  obtain ⟨mid, hmid, hmvalid, hmsize, hmcontent, hmpending⟩ : ∃ mid : OmBusTcpClientSlot,
      mid = (if slot.full (omBusTcpFrameHeaderSize + rec.payload.length) then
        { slot with send := slot.send.compact } else slot) ∧ mid.send.Valid ∧
      mid.size = slot.size ∧ mid.send.content = slot.send.content ∧
      mid.disconnectPending = slot.disconnectPending := by
    refine ⟨_, rfl, ?_⟩
    split
    · exact ⟨hvalid.compact, compact_length, content_compact hvalid, rfl⟩
    · exact ⟨hvalid, rfl, rfl, rfl⟩
  have hsize' : RoomForSum mid.size := hmsize ▸ hsize
  simp only [appendFrame, ← hmid]
  rw [← frameBytes_length]
  split
  · next hfull =>
    split
    · exact ⟨hmvalid, hmsize, [], by simpa using hmcontent, .inr ⟨by simp, rfl⟩⟩
    · next hwarn =>
      have hw := warningRecord_fits (mid.send.used - mid.send.offset) mid.size
      obtain ⟨hv, hs, hc⟩ := put_appended hmvalid hsize' hw (by simpa [warningRecord] using hwarn)
      refine ⟨hv, hs.trans hmsize,
        [warningRecord (mid.send.used - mid.send.offset) mid.size], ?_, .inr ⟨?_, rfl⟩⟩
      · rw [hc, hmcontent]
        simp
      · simpa using ⟨hw, warningRecord_isRecord _ _⟩
  · next hfull =>
    obtain ⟨hv, hs, hc⟩ := put_appended hmvalid hsize' hrec (by simpa using hfull)
    refine ⟨hv, hs.trans hmsize, [rec], ?_, .inl ⟨rfl, hmpending⟩⟩
    rw [hc, hmcontent]
    simp

end Slot

def TcpLink.inFlight (link : TcpLink) : List UInt8 :=
  link.client.recv.content ++ link.wire ++ (link.slot.map (·.send.content)).getD []

/-- The frames in flight are `todo`; the last of them may be cut short once the slot is closed. -/
structure Carries (link : TcpLink) (todo : List OmBusRecord) : Prop where
  fits : ∀ f ∈ todo, f.Fits
  order : link.delivered ++ todo.filter isRecord <+: link.offered
  bytes : link.inFlight <+: todo.flatMap frameBytes
  whole : link.slot.isSome → link.inFlight = todo.flatMap frameBytes
  live : ∀ slot ∈ link.slot, slot.disconnectPending = false → link.delivered ++ todo = link.offered

structure LinkInv (size : Nat) (link : TcpLink) : Prop where
  recv : link.client.recv.Valid
  slot : ∀ slot ∈ link.slot, slot.send.Valid ∧ slot.size = size
  offered : ∀ rec ∈ link.offered, rec.Fits ∧ rec.isRecord
  unaccepted : link.accepted = false → link.slot = none ∧ link.offered = [] ∧ link.inFlight = []
  frames : ∃ todo, Carries link todo
  result : link.result ≠ .protocol
  drained : link.result = .disconnected →
    ∀ f : OmBusRecord, f.Fits → ¬ frameBytes f <+: link.client.recv.content

theorem fresh_valid (size : Nat) : (fresh size).send.Valid :=
  ⟨Nat.le_refl _, Nat.zero_le _⟩

theorem connect_inFlight (recvBufSize : Nat) (flags : OmBusFlags) :
    (TcpLink.connect recvBufSize flags).inFlight = [] := by
  simp [TcpLink.inFlight, TcpLink.connect, omBusTcpClientConnect, empty_content]

theorem LinkInv.connect (size recvBufSize : Nat) (flags : OmBusFlags) :
    LinkInv size (.connect recvBufSize flags) where
  recv := ⟨Nat.le_refl _, Nat.zero_le _⟩
  slot := nofun
  offered := nofun
  unaccepted _ := ⟨rfl, rfl, connect_inFlight ..⟩
  frames := ⟨[], nofun, prefix_rfl, prefix_nil.mpr (connect_inFlight ..), nofun, nofun⟩
  result := nofun
  drained := nofun

section Server

variable {size : Nat} {link : TcpLink} {slot : OmBusTcpClientSlot} {rec : OmBusRecord}

theorem LinkInv.accepted_of_slot (h : LinkInv size link)
    (hslot : link.slot = some slot) : link.accepted = true := by
  by_contra hacc
  have hnone := (h.unaccepted (Bool.eq_false_of_not_eq_true hacc)).1
  rw [hslot] at hnone
  cases hnone

theorem LinkInv.offered_broadcast (h : LinkInv size link) (hrec : rec.Fits)
    (hkind : rec.isRecord) : ∀ r ∈ (link.broadcast rec).offered, r.Fits ∧ r.isRecord := by
  intro r hr
  simp only [TcpLink.broadcast] at hr
  split at hr
  · rcases mem_append.mp hr with hr | hr
    · exact h.offered r hr
    · cases mem_singleton.mp hr
      exact ⟨hrec, hkind⟩
  · exact h.offered r hr

theorem LinkInv.broadcast_skipped (h : LinkInv size link) (hrec : rec.Fits)
    (hkind : rec.isRecord) (hskip : ∀ slot ∈ link.slot, slot.disconnectPending = true) :
    LinkInv size (link.broadcast rec) := by
  obtain ⟨todo, htodo⟩ := h.frames
  have hslot : (link.broadcast rec).slot = link.slot := by
    cases hs : link.slot with
    | none => simp [TcpLink.broadcast, hs]
    | some slot => simp [TcpLink.broadcast, hs, hskip slot hs]
  have hflight : (link.broadcast rec).inFlight = link.inFlight := by
    rw [TcpLink.inFlight, hslot]
    rfl
  have hoffered : link.offered <+: (link.broadcast rec).offered := by
    simp only [TcpLink.broadcast]
    split
    · exact prefix_append ..
    · exact prefix_rfl
  refine ⟨h.recv, hslot ▸ h.slot, h.offered_broadcast hrec hkind, fun hacc => ?_,
    ⟨todo, htodo.fits, htodo.order.trans hoffered, hflight ▸ htodo.bytes, ?_, ?_⟩,
    h.result, h.drained⟩
  · have hacc : link.accepted = false := hacc
    obtain ⟨hnone, hnil, hidle⟩ := h.unaccepted hacc
    exact ⟨hslot.trans hnone, by simpa [TcpLink.broadcast, hacc] using hnil, hflight.trans hidle⟩
  · rw [hslot, hflight]
    exact htodo.whole
  · rw [hslot]
    intro slot hs hlive
    rw [hskip slot hs] at hlive
    cases hlive

theorem LinkInv.broadcast (hsize : RoomForSum size) (h : LinkInv size link)
    (hrec : rec.Fits) (hkind : rec.isRecord) : LinkInv size (link.broadcast rec) := by
  by_cases hskip : ∀ slot ∈ link.slot, slot.disconnectPending = true
  · exact h.broadcast_skipped hrec hkind hskip
  obtain ⟨slot, hs, hlive⟩ : ∃ slot, link.slot = some slot ∧ slot.disconnectPending = false := by
    simpa using hskip
  obtain ⟨todo, htodo⟩ := h.frames
  obtain ⟨hvalid, hss⟩ := h.slot slot hs
  have happ := appendFrame_spec hvalid (hss ▸ hsize) hrec
  obtain ⟨new, hcontent, hnew⟩ := happ.content
  have hacc := h.accepted_of_slot hs
  have hslot : (link.broadcast rec).slot = some (slot.appendFrame rec) := by
    simp [TcpLink.broadcast, hs, hlive]
  have hoffered : (link.broadcast rec).offered = link.offered ++ [rec] := by
    simp [TcpLink.broadcast, hacc]
  have hflight : (link.broadcast rec).inFlight = (todo ++ new).flatMap frameBytes := by
    have hwhole := htodo.whole (by simp [hs])
    simp only [TcpLink.inFlight, hs, Option.map_some, Option.getD_some] at hwhole
    rw [TcpLink.inFlight, hslot, Option.map_some, Option.getD_some, hcontent, flatMap_append,
      ← hwhole]
    simp [TcpLink.broadcast]
  have horder := htodo.live slot hs hlive
  have hfilter : todo.filter isRecord = todo :=
    filter_eq_self.mpr fun f hf =>
      (h.offered f (horder ▸ mem_append_right _ hf)).2
  refine ⟨h.recv, ?_, h.offered_broadcast hrec hkind, fun hno => ?_,
    ⟨todo ++ new, ?_, ?_, hflight ▸ prefix_rfl, fun _ => hflight, ?_⟩, h.result, h.drained⟩
  · rw [hslot]
    intro slot' hs'
    cases hs'
    exact ⟨happ.valid, happ.size.trans hss⟩
  · have hno : link.accepted = false := hno
    rw [hacc] at hno
    cases hno
  · intro f hf
    rcases mem_append.mp hf with hf | hf
    · exact htodo.fits f hf
    · rcases hnew with ⟨rfl, -⟩ | ⟨hwarn, -⟩
      · cases mem_singleton.mp hf
        exact hrec
      · exact (hwarn f hf).1
  · rw [hoffered, filter_append, hfilter, ← append_assoc]
    change link.delivered ++ todo ++ _ <+: _
    rw [horder]
    rcases hnew with ⟨rfl, -⟩ | ⟨hwarn, -⟩
    · simp [hkind]
    · have hnone : new.filter isRecord = [] := by
        rw [filter_eq_nil_iff]
        intro w hw
        simp [(hwarn w hw).2]
      rw [hnone, append_nil]
      exact prefix_append ..
  · rw [hslot, hoffered, ← horder]
    intro slot' hs' hlive'
    cases hs'
    rcases hnew with ⟨rfl, -⟩ | ⟨-, hpending⟩
    · exact (append_assoc ..).symm
    · rw [hpending] at hlive'
      cases hlive'

theorem LinkInv.broadcastBatch (hsize : RoomForSum size) {recs : List OmBusRecord}
    (hrecs : ∀ rec ∈ recs, rec.Fits ∧ rec.isRecord) (h : LinkInv size link) :
    LinkInv size (recs.foldl TcpLink.broadcast link) := by
  induction recs generalizing link with
  | nil => exact h
  | cons rec recs ih =>
    obtain ⟨hrec, hkind⟩ := hrecs rec mem_cons_self
    exact ih (fun r hr => hrecs r (mem_cons_of_mem _ hr)) (h.broadcast hsize hrec hkind)

theorem LinkInv.cleanup (h : LinkInv size link) {slot' : OmBusTcpClientSlot}
    {wire : List UInt8} (hs : link.slot = some slot) (hvalid : slot'.send.Valid)
    (hss : slot'.size = size) (hbytes : wire ++ slot'.send.content = link.wire ++ slot.send.content)
    (hlive : slot'.disconnectPending = false → slot.disconnectPending = false) :
    LinkInv size ({ link with wire := wire }.cleanup slot') := by
  obtain ⟨todo, htodo⟩ := h.frames
  have hacc := h.accepted_of_slot hs
  have hwhole : link.client.recv.content ++ wire ++ slot'.send.content =
      todo.flatMap frameBytes := by
    have hwhole := htodo.whole (by simp [hs])
    simpa [TcpLink.inFlight, hs, hbytes] using hwhole
  have hno {P : Prop} (hno : link.accepted = false) : P := by
    rw [hacc] at hno
    cases hno
  unfold TcpLink.cleanup
  split
  · refine ⟨h.recv, nofun, h.offered, fun hf => hno hf,
      ⟨todo, htodo.fits, htodo.order, ?_, nofun, nofun⟩, h.result, h.drained⟩
    rw [← hwhole]
    simp [TcpLink.inFlight]
  · next hopen =>
    have hflight : link.client.recv.content ++ wire ++ slot'.send.content <+:
        todo.flatMap frameBytes := hwhole ▸ prefix_rfl
    refine ⟨h.recv, ?_, h.offered, fun hf => hno hf,
      ⟨todo, htodo.fits, htodo.order, hflight, fun _ => hwhole, ?_⟩, h.result, h.drained⟩
    · intro _ hs'
      cases hs'
      exact ⟨hvalid, hss⟩
    · intro _ hs' hf
      cases hs'
      exact htodo.live slot hs (hlive hf)

theorem flush_spec (hvalid : slot.send.Valid) (result : SendResult) :
    (link.flush slot result).2.send.Valid ∧ (link.flush slot result).2.size = slot.size ∧
      (link.flush slot result).1 = { link with wire := (link.flush slot result).1.wire } ∧
      (link.flush slot result).1.wire ++ (link.flush slot result).2.send.content =
        link.wire ++ slot.send.content ∧
      ((link.flush slot result).2.disconnectPending = false → slot.disconnectPending = false) := by
  unfold TcpLink.flush
  split
  · exact ⟨hvalid, rfl, rfl, rfl, id⟩
  cases result with
  | sent n =>
    have htake := hvalid.take (Nat.min_le_right n slot.send.content.length)
    have hcontent : slot.send.content.take n ++
        (slot.send.take (min n slot.send.content.length)).content = slot.send.content := by
      rw [content_take, ← drop_eq_drop_min]
      exact take_append_drop ..
    dsimp only
    split
    · next hempty =>
      refine ⟨⟨Nat.le_refl _, Nat.zero_le _⟩, rfl, rfl, ?_, id⟩
      rw [content_of_offset_eq_used hempty, append_nil] at hcontent
      rw [empty_content, append_nil, hcontent]
    · refine ⟨htake, rfl, rfl, ?_, id⟩
      rw [append_assoc, hcontent]
  | again => exact ⟨hvalid, rfl, rfl, rfl, id⟩
  | error => exact ⟨hvalid, rfl, rfl, rfl, nofun⟩

theorem LinkInv.accept (h : LinkInv size link) (hacc : link.accepted = false) :
    LinkInv size
      { link with slot := some (fresh size), accepted := true } := by
  obtain ⟨hs, hnil, hidle⟩ := h.unaccepted hacc
  obtain ⟨todo, htodo⟩ := h.frames
  have hdel : link.delivered = [] := by
    have horder := htodo.order
    rw [hnil] at horder
    exact (append_eq_nil_iff.mp (prefix_nil.mp horder)).1
  have hflight : link.client.recv.content ++ link.wire ++
      (fresh size).send.content = [] := by
    rw [fresh, empty_content, append_nil]
    simpa [TcpLink.inFlight, hs] using hidle
  refine ⟨h.recv, ?_, h.offered, nofun, ⟨[], nofun, by simp [hdel], ?_, fun _ => hflight,
    by simp [hdel, hnil]⟩, h.result, h.drained⟩
  · intro _ hs'
    cases hs'
    exact ⟨fresh_valid size, by simp [OmBusTcpClientSlot.size, OmBusTcpClientSlot.fresh]⟩
  · exact prefix_nil.mpr hflight

theorem LinkInv.refuse (h : LinkInv size link) : LinkInv size { link with shut := true } := by
  obtain ⟨todo, htodo⟩ := h.frames
  exact ⟨h.recv, h.slot, h.offered, h.unaccepted,
    ⟨todo, htodo.fits, htodo.order, htodo.bytes, htodo.whole, htodo.live⟩, h.result, h.drained⟩

theorem LinkInv.pollIo (h : LinkInv size link) (event : LinkEvent) :
    LinkInv size (link.pollIo size event) := by
  unfold TcpLink.pollIo
  split
  · next hs =>
    split
    · exact h
    next hnew =>
    split
    · exact h
    · exact h.accept (by simp at hnew; exact hnew.1)
    · exact h.refuse
  · next slot hs =>
    obtain ⟨hvalid, hss⟩ := h.slot slot hs
    have hvalid' : ({ slot with
        disconnectPending := slot.disconnectPending || event.hangup }).send.Valid := hvalid
    obtain ⟨hv, hsize', hwire, hbytes, hlive⟩ := flush_spec hvalid' event.send
    dsimp only
    rw [hwire]
    exact h.cleanup hs hv (hsize'.trans hss) hbytes
      fun hf => (Bool.or_eq_false_iff.mp (hlive hf)).1

end Server

end VeloxMatch
