import VeloxMatch.BusBroadcast

namespace VeloxMatch

open BroadcastState Function List

theorem ReadPcOk.mono {count count' tail : Nat} {slot slot' : OmBusSlot} {pc : ReadPc}
    (h : ReadPcOk count tail slot pc) (hcount : count ≤ count')
    (hslot : tail < count → slot'.seq = tail + 1 → slot' = slot) :
    ReadPcOk count' tail slot' pc := by
  cases pc with
  | idle | loadSeq call => trivial
  | header call => exact Nat.lt_of_lt_of_le h hcount
  | copy call header =>
    refine ⟨Nat.lt_of_lt_of_le h.1 hcount, fun hseq => ?_⟩
    have he := hslot h.1 hseq
    rw [he] at hseq ⊢
    exact h.2 hseq
  | reload call header bytes =>
    refine ⟨Nat.lt_of_lt_of_le h.1 hcount, fun hseq => ?_⟩
    have he := hslot h.1 hseq
    rw [he] at hseq ⊢
    exact h.2 hseq

namespace BroadcastInv

variable {s s' : BroadcastState} {slot : OmBusSlot} {pc : WritePc} {rec : OmBusRecord}
  {rest : List OmBusRecord} {ep : OmBusEndpoint} {call : BroadcastCall} {i : Nat}

theorem setSlot_slot_of_seq (hslot : slot.seq = 0 ∨ slot.seq = s.published.length + 1) {t : Nat}
    (ht : t < s.published.length)
    (hseq : ((s.setSlot s.published.length slot).slot t).seq = t + 1) :
    (s.setSlot s.published.length slot).slot t = s.slot t := by
  by_cases hidx : t &&& s.mask = s.published.length &&& s.mask
  · simp only [BroadcastState.slot, setSlot, hidx, update_self] at hseq
    omega
  · simp only [BroadcastState.slot, setSlot, update_of_ne hidx]

variable (h : BroadcastInv s)
include h

theorem setSlot_slots (slot : OmBusSlot) :
    (s.setSlot s.published.length slot).slots =
      update s.slots (s.published.length % s.capacity) slot := by
  simp only [setSlot, h.mask, land_mask h.pow]

theorem write (hzero : slot.seq = 0) (hlen : slot.buffer.length = s.maxPayload)
    (hbusy : pc.busy = true)
    (hpc : WritePcOk s.flags s.maxPayload s.headPos s.published.length slot pc) :
    BroadcastInv { s.setSlot s.published.length slot with publisher := pc } := by
  have hslots := h.setSlot_slots slot
  refine { h with slots := ?_, buffers := ?_, publisher := ?_, endpoints := ?_ }
  · obtain ⟨cells, hstamped, hview, -⟩ := h.slots
    refine ⟨cells, hstamped, fun j hj => ?_, fun _ => ?_⟩
    · have hne : j ≠ s.published.length % s.capacity := fun he => hj ⟨hbusy, he⟩
      simp only [hslots, update_of_ne hne]
      exact hview j fun hj' => hne hj'.2
    · simp only [hslots]
      exact (congrArg OmBusSlot.seq (update_self ..)).trans hzero
  · intro j
    simp only [hslots, update_apply]
    split
    · exact hlen
    · exact h.buffers j
  · simpa [BroadcastState.slot, setSlot] using hpc
  · intro i ep hep
    have hold := h.endpoints i ep hep
    exact
      { hold with
        pc := hold.pc.mono (Nat.le_refl _) fun ht hseq =>
          setSlot_slot_of_seq (Or.inl hzero) ht hseq }

theorem stamp (hpc : s.publisher = .stamp s.published.length rec rest) (hidle : pc.busy = false)
    (hok : ∀ slot, WritePcOk s.flags s.maxPayload s.headPos (s.published.length + 1) slot pc) :
    BroadcastInv { s.setSlot s.published.length
        { s.slot s.published.length with seq := s.published.length + 1 } with
      publisher := pc, published := s.published ++ [rec] } := by
  have hslots := h.setSlot_slots { s.slot s.published.length with seq := s.published.length + 1 }
  have hwrite := h.publisher
  rw [hpc] at hwrite
  obtain ⟨-, -, hsizes, hbytes, hheader⟩ := hwrite
  refine
    { h with
      slots := ?_, buffers := ?_, sizes := ?_, publisher := ?_, endpoints := ?_
      reports := fun i r hr => (h.reports i r hr).grow rec }
  · obtain ⟨cells, hstamped, hview, -⟩ := h.slots
    have hpush := hstamped.push (slotImage s.flags rec)
    rw [length_map, ← map_singleton, ← map_append] at hpush
    refine ⟨_, hpush, fun j _ => ?_, fun hbusy => by simp [hidle] at hbusy⟩
    by_cases hj : j = s.published.length % s.capacity
    · subst hj
      have himage : OmBusSlot.view { s.slot s.published.length with
          seq := s.published.length + 1 } = ⟨s.published.length + 1, slotImage s.flags rec⟩ := by
        simp only [OmBusSlot.view, hheader, slotImage, Cell.mk.injEq, Prod.mk.injEq, true_and]
        exact hbytes
      simp only [hslots, update_self]
      exact himage
    · simp only [hslots, update_of_ne hj]
      exact hview j fun hj' => hj hj'.2
  · intro j
    simp only [hslots, update_apply]
    split
    · rw [h.slot_eq]
      exact h.buffers _
    · exact h.buffers j
  · intro r hr
    rcases mem_append.mp hr with hr | hr
    · exact h.sizes r hr
    · rw [mem_singleton.mp hr]
      exact hsizes rec (mem_cons_self ..)
  · simp only [length_append, length_singleton]
    exact hok _
  · intro i ep hep
    have hold := h.endpoints i ep hep
    refine ⟨?_, hold.known.grow rec, ?_⟩
    · simp only [length_append, length_singleton]
      exact hold.pc.mono (Nat.le_succ _) fun ht hseq =>
        setSlot_slot_of_seq (Or.inr rfl) ht hseq
    · rw [expectedAfter_grow hold.known]
      exact hold.expected

theorem publisher_step (hs : s.publisherStep = some s') : BroadcastInv s' := by
  have hok := h.publisher
  unfold publisherStep at hs
  have hlen : ∀ pos, (s.slot pos).buffer.length = s.maxPayload := fun pos => by
    rw [h.slot_eq]
    exact h.buffers _
  have hzero : s.publisher.busy = true → (s.slot s.published.length).seq = 0 := by
    obtain ⟨-, -, -, hzero⟩ := h.slots
    rw [h.slot_eq]
    exact hzero
  cases hpc : s.publisher with
  | idle => simp [hpc] at hs
  | clear pos rec rest =>
    rw [hpc] at hok
    obtain ⟨rfl, hhead, hsizes⟩ := hok
    simp only [hpc, Option.some.injEq] at hs
    subst hs
    exact h.write rfl (hlen _) rfl ⟨rfl, hhead, hsizes⟩
  | payload pos rec rest =>
    rw [hpc] at hok
    obtain ⟨rfl, hhead, hsizes⟩ := hok
    simp only [hpc, Option.some.injEq] at hs
    subst hs
    have hfits : rec.payload.length ≤ (s.slot s.published.length).buffer.length := by
      rw [hlen]
      exact hsizes rec (mem_cons_self ..)
    exact h.write (hzero (by rw [hpc]; rfl)) ((overwrite_length _ _).trans (hlen _)) rfl
      ⟨rfl, hhead, hsizes, take_overwrite hfits⟩
  | header pos rec rest =>
    rw [hpc] at hok
    obtain ⟨rfl, hhead, hsizes, hbytes⟩ := hok
    simp only [hpc, Option.some.injEq] at hs
    subst hs
    exact h.write (hzero (by rw [hpc]; rfl)) (hlen _) rfl ⟨rfl, hhead, hsizes, hbytes, rfl⟩
  | stamp pos rec rest =>
    rw [hpc] at hok
    obtain ⟨rfl, hhead, hsizes, -⟩ := hok
    simp only [hpc, Option.some.injEq] at hs
    subst hs
    cases rest with
    | nil => exact h.stamp hpc rfl fun _ => ⟨rfl, Nat.le_succ_of_le hhead⟩
    | cons next rest =>
      exact h.stamp hpc rfl fun _ => ⟨rfl, Nat.le_succ_of_le hhead,
        fun r hr => hsizes r (mem_cons_of_mem _ hr)⟩
  | head pos =>
    rw [hpc] at hok
    simp only [hpc, Option.some.injEq] at hs
    subst hs
    refine { h with slots := ?_, publisher := hok.1 }
    obtain ⟨cells, hstamped, hview, -⟩ := h.slots
    exact ⟨cells, hstamped, fun j _ => hview j (by simp [hpc, WritePc.busy]),
      fun hbusy => by cases hbusy⟩

theorem begin (hidle : s.publisher = .idle)
    (hsizes : ∀ r ∈ rec :: rest, r.payload.length ≤ s.maxPayload) :
    BroadcastInv { s with publisher := .clear s.headPos rec rest } := by
  have hok := h.publisher
  rw [hidle] at hok
  refine { h with slots := ?_, publisher := ⟨hok, Nat.le_of_eq hok, hsizes⟩ }
  obtain ⟨cells, hstamped, hview, -⟩ := h.slots
  exact ⟨cells, hstamped, fun j _ => hview j (by simp [hidle, WritePc.busy]),
    fun hbusy => by cases hbusy⟩

theorem setEndpoint (i : Nat)
    (hep : EndpointOk s.published (s.slot ep.tail) ep) : BroadcastInv (s.setEndpoint i ep) :=
  { h with
    endpoints := fun j ep' hj => by
      simp only [BroadcastState.setEndpoint, update_apply] at hj
      split at hj
      · cases hj
        exact hep
      · exact h.endpoints j ep' hj }

theorem reload_record (hep : EndpointOk s.published (s.slot ep.tail) ep) {header : OmBusSlotHeader}
    {bytes : List UInt8} (hpc : ep.pc = .reload call header bytes)
    (hseq : (s.slot ep.tail).seq = ep.tail + 1) :
    s.published[ep.tail]? = some ⟨header.walSeq, header.walType, bytes⟩ ∧
      header = headerOf s.flags ⟨header.walSeq, header.walType, bytes⟩ := by
  have hread := hep.pc
  rw [hpc] at hread
  obtain ⟨hheader, hbytes⟩ := hread.2 hseq
  obtain ⟨rec, hget, -, himage, hpayload⟩ := h.view_of_seq hseq
  have hrec : rec = ⟨header.walSeq, header.walType, bytes⟩ := by
    rw [hbytes, hheader, himage]
    simp only [headerOf, hpayload]
  rw [← hrec]
  exact ⟨hget, hheader.trans himage⟩

theorem deliver (hep : EndpointOk s.published (s.slot ep.tail) ep)
    (hrec : s.published[ep.tail]? = some rec) : BroadcastInv (s.deliver i ep call rec) := by
  have hlt := (List.getElem?_eq_some_iff.mp hrec).1
  have hknown : Known s.published (some ep.tail) := fun p hp => by
    cases hp
    exact hlt
  have hset := h.setEndpoint i
    (⟨trivial, hknown, by simp [expectedAfter, hrec]⟩ : EndpointOk _ _ ⟨ep.tail + 1, rec.walSeq + 1,
      .idle, callResult s.flags call ep.expectedWalSeq rec.walSeq, some ep.tail⟩)
  refine { hset with reports := ?_ }
  intro j r hr
  simp only [BroadcastState.deliver, update_apply] at hr
  split at hr
  · rcases mem_append.mp hr with hr | hr
    · exact h.reports i r hr
    · rw [mem_singleton.mp hr]
      exact ⟨hrec, hep.known,
        congrArg (callResult s.flags call · rec.walSeq) hep.expected⟩
  · exact h.reports j r hr

theorem reader_step (hs : s.readerStep i = some s') : BroadcastInv s' := by
  unfold readerStep at hs
  cases he : s.endpoints i with
  | none => simp [he] at hs
  | some ep =>
    have hep := h.endpoints i ep he
    have hfail : ∀ result, BroadcastInv (s.fail i ep result) := fun result =>
      h.setEndpoint i { hep with pc := trivial }
    have hread := hep.pc
    simp only [he] at hs
    cases hpc : ep.pc with
    | idle => simp [hpc] at hs
    | loadSeq call =>
      simp only [hpc] at hs
      split at hs
      · cases hs
        exact hfail _
      · split at hs
        · cases hs
          exact hfail _
        · next hlow hhigh =>
          cases hs
          have hseq : (s.slot ep.tail).seq = ep.tail + 1 := by omega
          obtain ⟨rec, hget, -⟩ := h.view_of_seq hseq
          exact h.setEndpoint i { hep with pc := (List.getElem?_eq_some_iff.mp hget).1 }
    | header call =>
      rw [hpc] at hread
      simp only [hpc] at hs
      split at hs
      · cases hs
        exact hfail _
      · cases hs
        exact h.setEndpoint i { hep with pc := ⟨hread, fun _ => rfl⟩ }
    | copy call header =>
      rw [hpc] at hread
      simp only [hpc, Option.some.injEq] at hs
      subst hs
      refine h.setEndpoint i { hep with pc := ⟨hread.1, fun hseq => ⟨hread.2 hseq, ?_⟩⟩ }
      rw [hread.2 hseq]
    | reload call header bytes =>
      simp only [hpc] at hs
      split at hs
      · cases hs
        exact hfail _
      · next hseq =>
        split at hs
        · cases hs
          exact hfail _
        · cases hs
          exact h.deliver hep (h.reload_record hep hpc (not_not.mp hseq)).1

theorem withIdle {f : OmBusEndpoint → OmBusEndpoint} (hs : s.withIdle i f = some s')
    (hf : ∀ ep, ep.pc = .idle → EndpointOk s.published (s.slot ep.tail) ep →
      EndpointOk s.published (s.slot (f ep).tail) (f ep)) : BroadcastInv s' := by
  unfold BroadcastState.withIdle at hs
  split at hs
  · cases hs
  · next ep he =>
    split at hs
    · next hidle =>
      cases hs
      exact h.setEndpoint i (hf ep hidle (h.endpoints i ep he))
    · cases hs

theorem step {a : BroadcastAction} (hs : s.step a = some s') : BroadcastInv s' := by
  have hpublish : ∀ recs, s.startPublish recs = some s' → BroadcastInv s' := by
    intro recs hs
    unfold startPublish at hs
    split at hs
    · next hidle =>
      split at hs
      · cases hs
        exact h
      · next hsizes =>
        split at hs
        · cases hs
          exact h
        · next rec rest =>
          cases hs
          refine h.begin hidle fun r hr => Nat.le_of_not_lt fun hlt => hsizes ?_
          exact any_eq_true.mpr ⟨r, hr, by simpa using hlt⟩
    · cases hs
  cases a with
  | publish rec => exact hpublish _ hs
  | publishBatch recs => exact hpublish _ hs
  | publisher => exact h.publisher_step hs
  | «open» i =>
    simp only [BroadcastState.step, openEndpoint] at hs
    split at hs
    · cases hs
      have hset := h.setEndpoint i
        (⟨trivial, fun p hp => (by cases hp), rfl⟩ :
          EndpointOk _ _ ⟨s.headPos, 0, .idle, .empty, none⟩)
      refine { hset with reports := ?_ }
      intro j r hr
      simp only [update_apply] at hr
      split at hr
      · simp at hr
      · exact h.reports j r hr
    · cases hs
  | poll i => exact h.withIdle hs fun ep _ hep => { hep with pc := trivial }
  | pollBatch i maxCount =>
    refine h.withIdle hs fun ep _ hep => ?_
    split
    · exact hep
    · exact { hep with pc := trivial }
  | reader i => exact h.reader_step hs
  | seekHead i =>
    refine h.withIdle hs fun ep hidle hep => { hep with pc := ?_ }
    rw [hidle]
    trivial
  | rewindRetained i =>
    refine h.withIdle hs fun ep hidle hep => ⟨?_, fun p hp => (by cases hp), rfl⟩
    rw [hidle]
    trivial

end BroadcastInv

theorem broadcastInv_of_runs {config : OmBusStreamConfig} {shm : OmBusShm} {s : BroadcastState}
    (hcreate : omBusStreamCreate config = .ok shm)
    (hrun : Runs step anyAction (.start shm) s) : BroadcastInv s :=
  hrun.invariant (P := BroadcastInv) (BroadcastInv.start hcreate) fun _ _ _ h _ hs => h.step hs

end VeloxMatch
