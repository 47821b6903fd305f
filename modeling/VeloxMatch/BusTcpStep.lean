import VeloxMatch.BusTcpInv

namespace VeloxMatch

open TcpLink List

theorem prefix_append_cases {α : Type} {l a b : List α} (h : l <+: a ++ b) :
    l.length < a.length ∨ a <+: l := by
  rcases Nat.lt_or_ge l.length a.length with hlt | hge
  · exact .inl hlt
  · exact .inr (prefix_of_prefix_length_le (prefix_append a b) h hge)

def TcpLink.receive (link : TcpLink) (recv : RecvResult) : TcpLink :=
  { link with
    wire := link.wire.drop recv.bytes.length
    client := (link.client.receive recv).1
    result := .empty }

def TcpLink.parse (link : TcpLink) (closed : Bool) : TcpLink :=
  { link with
    client := (link.client.parse closed).2.2
    delivered := link.delivered ++ (link.client.parse closed).2.1.toList
    result := (link.client.parse closed).1 }

section Client

variable {size : Nat} {link : TcpLink} {recv : RecvResult} {closed : Bool} {f : OmBusRecord}

theorem poll_eq (link : TcpLink) (recv : RecvResult) :
    link.poll recv = (link.receive recv).parse (link.client.receive recv).2 := by
  cases recv <;> rfl

theorem bytes_of_mayReceive (h : link.mayReceive recv = true) :
    recv.bytes <+: link.wire ∧ recv.bytes.length ≤ link.client.room := by
  cases recv with
  | data bytes =>
    simp only [mayReceive, Bool.and_eq_true, isPrefixOf_iff_prefix,
      decide_eq_true_eq] at h
    exact ⟨h.1.2, h.2⟩
  | again | closed | error => exact ⟨ nil_prefix, Nat.zero_le _⟩

theorem LinkInv.receive_content (h : LinkInv size link) (hrecv : link.mayReceive recv = true) :
    (link.receive recv).client.recv.content = link.client.recv.content ++ recv.bytes :=
  (receive_spec h.recv (bytes_of_mayReceive hrecv).2).2

theorem LinkInv.receive (h : LinkInv size link) (hrecv : link.mayReceive recv = true) :
    LinkInv size (link.receive recv) := by
  obtain ⟨⟨rest, hrest⟩, hroom⟩ := bytes_of_mayReceive hrecv
  have hflight : (link.receive recv).inFlight = link.inFlight := by
    simp only [TcpLink.inFlight, h.receive_content hrecv]
    simp only [TcpLink.receive, ← hrest, drop_left, append_assoc]
  obtain ⟨todo, htodo⟩ := h.frames
  refine ⟨(receive_spec h.recv hroom).1, h.slot, h.offered, fun hacc => ?_,
    ⟨todo, htodo.fits, htodo.order, hflight ▸ htodo.bytes, hflight ▸ htodo.whole, htodo.live⟩,
    ?_, ?_⟩
  · obtain ⟨hnone, hnil, hidle⟩ := h.unaccepted hacc
    exact ⟨hnone, hnil, hflight.trans hidle⟩
  -- a receive reports nothing yet
  all_goals rintro ⟨⟩

theorem LinkInv.parse_partial (h : LinkInv size link)
    (hparse : link.client.parse closed =
      (if closed then OmBusTcpPollResult.disconnected else .empty, none, link.client)) :
    LinkInv size (link.parse closed) := by
  obtain ⟨todo, htodo⟩ := h.frames
  have heq : link.parse closed =
      { link with result := if closed then .disconnected else .empty } := by
    simp [parse, hparse]
  have hdrained := @parse_disconnected link.client closed
  rw [hparse] at hdrained
  rw [heq]
  refine ⟨h.recv, h.slot, h.offered, h.unaccepted,
    ⟨todo, htodo.fits, htodo.order, htodo.bytes, htodo.whole, htodo.live⟩, ?_,
    fun hres f hf => hdrained hres hf⟩
  dsimp only
  split <;> exact nofun

theorem parse_of_front (hf : f.Fits) (hfront : frameBytes f <+: link.client.recv.content) :
    (link.parse closed).delivered = link.delivered ++ [f].filter OmBusRecord.isRecord ∧
      (link.parse closed).client.recv = link.client.recv.take (frameBytes f).length ∧
      (link.parse closed).result ≠ .protocol ∧ (link.parse closed).result ≠ .disconnected := by
  simp only [parse, parse_frame hf hfront]
  split
  · next hrec => exact ⟨by simp [hrec], rfl, nofun, nofun⟩
  · next hwarn => exact ⟨by simp [hwarn], rfl, nofun, nofun⟩

theorem LinkInv.parse_front (h : LinkInv size link) {todo : List OmBusRecord}
    (htodo : Carries link (f :: todo)) (hfront : frameBytes f <+: link.client.recv.content) :
    LinkInv size (link.parse closed) := by
  have hf := htodo.fits f mem_cons_self
  obtain ⟨hdel, hrecv, hproto, hdisc⟩ := @parse_of_front link closed f hf hfront
  have hflight : frameBytes f ++ (link.parse closed).inFlight = link.inFlight := by
    obtain ⟨rest, hrest⟩ := hfront
    rw [inFlight, hrecv, ByteWindow.content_take, inFlight, ← hrest,
      drop_left]
    simp [parse]
  have hwhole : (link.parse closed).slot.isSome →
      (link.parse closed).inFlight = todo.flatMap frameBytes := by
    intro hsome
    have hwhole := htodo.whole hsome
    rw [← hflight, flatMap_cons] at hwhole
    exact append_cancel_left hwhole
  refine ⟨?_, h.slot, h.offered, fun hacc => ?_, ⟨todo, ?_, ?_, ?_, hwhole, ?_⟩, hproto,
    fun hres => absurd hres hdisc⟩
  · rw [hrecv]
    exact h.recv.take hfront.length_le
  · obtain ⟨hnone, hnil, hidle⟩ := h.unaccepted hacc
    rw [hidle] at hflight
    exact ⟨hnone, hnil, (append_eq_nil_iff.mp hflight).2⟩
  · exact fun g hg => htodo.fits g (mem_cons_of_mem _ hg)
  · rw [hdel, append_assoc, ← filter_append]
    exact htodo.order
  · have hbytes := htodo.bytes
    rw [← hflight, flatMap_cons] at hbytes
    exact (prefix_append_right_inj _).mp hbytes
  · intro slot hs hlive
    have horder := htodo.live slot hs hlive
    have hkind : f.isRecord := (h.offered f (horder ▸ by simp)).2
    have hone : [f].filter OmBusRecord.isRecord = [f] := by simp [hkind]
    rw [hdel, hone, append_assoc]
    exact horder

theorem LinkInv.parse (h : LinkInv size link) (closed : Bool) :
    LinkInv size (link.parse closed) := by
  obtain ⟨todo, htodo⟩ := h.frames
  have hprefix : link.client.recv.content <+: todo.flatMap frameBytes := by
    refine List.IsPrefix.trans ?_ htodo.bytes
    simp [inFlight]
  cases todo with
  | nil =>
    -- nothing is in flight, so that the content is cut from any frame
    have hnil : link.client.recv.content = [] := prefix_nil.mp hprefix
    have hfits : OmBusRecord.Fits ⟨0, 0, []⟩ := by decide
    have hcut : link.client.recv.content <+: frameBytes ⟨0, 0, []⟩ ++ [] :=
      hnil ▸ nil_prefix
    exact h.parse_partial
      (VeloxMatch.parse_partial hfits hcut (by simp [hnil, omBusTcpFrameHeaderSize]))
  | cons f todo =>
    rcases prefix_append_cases hprefix with hlt | hfront
    · exact h.parse_partial
        (VeloxMatch.parse_partial (htodo.fits f mem_cons_self) hprefix hlt)
    · exact h.parse_front htodo hfront

theorem LinkInv.poll (h : LinkInv size link) (hrecv : link.mayReceive recv = true) :
    LinkInv size (link.poll recv) := by
  rw [poll_eq]
  exact (h.receive hrecv).parse _

end Client

/-- Only records that fit into a frame and are no warnings are broadcast. -/
def tcpOk (_ : TcpState) : TcpAction → Prop
  | .broadcast r => r.Fits ∧ r.isRecord
  | .broadcastBatch recs => ∀ r ∈ recs, r.Fits ∧ r.isRecord
  | _ => True

instance (s : TcpState) : (a : TcpAction) → Decidable (tcpOk s a)
  | .broadcast _ => inferInstanceAs (Decidable (_ ∧ _))
  | .broadcastBatch _ => inferInstanceAs (Decidable (∀ r ∈ _, _))
  | .connect .. | .pollIo _ | .poll .. => instDecidableTrue

def TcpInv (s : TcpState) : Prop :=
  RoomForSum s.sendBufSize ∧ ∀ c link, s.links c = some link → LinkInv s.sendBufSize link

theorem TcpInv.step {s s' : TcpState} {a : TcpAction} (h : TcpInv s) (hok : tcpOk s a)
    (hs : s.step a = some s') : TcpInv s' := by
  obtain ⟨hsize, hlinks⟩ := h
  cases a with
  | connect c recvBufSize flags =>
    simp only [TcpState.step] at hs
    split at hs
    · cases hs
      refine ⟨hsize, fun d link hd => ?_⟩
      rcases eq_or_ne d c with rfl | hne
      · simp only [Function.update_self, Option.some.injEq] at hd
        cases hd
        exact LinkInv.connect ..
      · exact hlinks d link (by simpa [hne] using hd)
    · cases hs
  | broadcast rec =>
    cases hs
    refine ⟨hsize, fun d link hd => ?_⟩
    obtain ⟨old, hold, rfl⟩ := Option.map_eq_some_iff.mp hd
    exact (hlinks d old hold).broadcast hsize hok.1 hok.2
  | broadcastBatch recs =>
    cases hs
    refine ⟨hsize, fun d link hd => ?_⟩
    obtain ⟨old, hold, rfl⟩ := Option.map_eq_some_iff.mp hd
    exact (hlinks d old hold).broadcastBatch hsize hok
  | pollIo events =>
    cases hs
    refine ⟨hsize, fun d link hd => ?_⟩
    obtain ⟨old, hold, rfl⟩ := Option.map_eq_some_iff.mp hd
    exact (hlinks d old hold).pollIo (events d)
  | poll c recv =>
    simp only [TcpState.step] at hs
    split at hs
    · cases hs
    next link hlink =>
    split at hs
    · next hrecv =>
      cases hs
      refine ⟨hsize, fun d link' hd => ?_⟩
      rcases eq_or_ne d c with rfl | hne
      · simp only [Function.update_self, Option.some.injEq] at hd
        cases hd
        exact (hlinks d link hlink).poll hrecv
      · exact hlinks d link' (by simpa [hne] using hd)
    · cases hs

end VeloxMatch
