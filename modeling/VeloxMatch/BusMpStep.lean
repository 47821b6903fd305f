import VeloxMatch.BusMpInv

namespace VeloxMatch

open MpState Function OmBusMp OmBusMpSlot List

section Slots

variable {ring : OmBusMp} {p q : Nat} {slot : OmBusMpSlot}

theorem setSlot_slot_congr {α : Type} (f : OmBusMpSlot → α) (hf : f slot = f (ring.slot q)) :
    f ((ring.setSlot q slot).slot p) = f (ring.slot p) := by
  by_cases hidx : p &&& ring.mask = q &&& ring.mask
  · simp only [OmBusMp.setSlot, OmBusMp.slot, hidx, update_self]
    exact hf
  · simp only [OmBusMp.setSlot, OmBusMp.slot, update_of_ne hidx]

end Slots

theorem ClaimPcOk.mono {ring ring' : OmBusMp} {released released' : Nat}
    {commits commits' : Nat → Option Bool} {claims claims' : List OmBusMpClaim} {pc : ClaimPc}
    (h : ClaimPcOk ring released commits claims pc) (hmax : ring'.maxPayload = ring.maxPayload)
    (hcap : ring'.capacity = ring.capacity) (henq : ring.enqueuePos ≤ ring'.enqueuePos)
    (hrel : released ≤ released')
    (hfill : ∀ pid len pos, pc = .fill pid len pos →
      released' ≤ pos ∧ commits' pos = none ∧ ∀ c ∈ claims', c.sequence ≠ pos) :
    ClaimPcOk ring' released' commits' claims' pc := by
  cases pc with
  | idle => trivial
  | loadPos pid len => exact Nat.le_trans h (Nat.le_of_eq hmax.symm)
  | loadSeq pid len pos => exact ⟨hmax ▸ h.1, Nat.le_trans h.2 henq⟩
  | exchange pid len pos =>
    have hpos := h.2.2
    exact ⟨hmax ▸ h.1, Nat.le_trans h.2.1 henq, by omega⟩
  | fill pid len pos =>
    obtain ⟨hle, hcommit, hclaims⟩ := hfill pid len pos rfl
    exact ⟨hmax ▸ h.1, hle, Nat.lt_of_lt_of_le h.2.2.1 henq, hcommit, hclaims⟩

namespace MpInv

variable {s : MpState} (h : MpInv s)
include h

variable {p t pid len pos : Nat} {call : PollCall} {record : OmBusMpRecord} {c : OmBusMpClaim}

theorem returned_lt (hp : s.Returned p) : p < s.ring.enqueuePos := by
  rcases hp with hp | ⟨c, hc, rfl⟩
  · by_contra hle
    rw [h.future p (Nat.le_of_not_lt hle)] at hp
    cases hp
  · exact (h.claims c hc).2.2

theorem not_fill_of_returned (hp : s.Returned p) : s.threads t ≠ .fill pid len p := by
  intro ht
  have hok := h.threads t
  rw [ht] at hok
  obtain ⟨-, -, -, hnone, hclaims⟩ := hok
  rcases hp with hp | ⟨c, hc, hseq⟩
  · rw [hnone] at hp
    cases hp
  · exact hclaims c hc hseq

theorem reading_ne (hpc : s.poll = .release call record)
    (hnone : s.commits p = none) : s.ring.dequeuePos ≠ p := by
  have hpoll := h.poll
  rw [hpc] at hpoll
  rintro rfl
  cases hnone.symm.trans hpoll.1

theorem claim_unique {c' : OmBusMpClaim} (hc : c ∈ s.claims) (hc' : c' ∈ s.claims)
    (hseq : c.sequence = c'.sequence) : c = c' := by
  rw [← (h.claims c hc).1, hseq, (h.claims c' hc').1]

theorem claim_stamp_iff (hc : c ∈ s.claims) :
    (s.ring.slot c.sequence).seq = c.sequence ↔ s.released ≤ c.sequence := by
  obtain ⟨-, hnone, hlt⟩ := h.claims c hc
  have hhigh := h.high
  have htwo := h.two_le
  constructor
  · intro hseq
    by_contra hlate
    -- the slot now belongs to a later position of the window, whose stamp is larger
    have hpos : 0 < s.ring.capacity := by omega
    have hmod := Nat.mod_lt c.sequence hpos
    obtain ⟨q, hq, hq', hqr⟩ := exists_last_position hmod
      (show c.sequence % s.ring.capacity < s.released + s.ring.capacity by omega)
    have hslot : s.ring.slot q = s.ring.slot c.sequence := by
      simp only [slot, h.mask, land_mask h.pow, hqr]
    have hstamp := h.stamps q (by omega) hq
    have hge := le_stampOf s.commits q
    rw [hslot, hseq] at hstamp
    omega
  · intro hle
    rw [h.stamps c.sequence hle (by omega)]
    exact stampOf_eq_self.mpr (by simp [hnone])

theorem exchange (ht : s.threads t = .exchange pid len pos) (hpos : s.ring.enqueuePos = pos) :
    MpInv { s.setThread t (.fill pid len pos) with
      ring := { s.ring with enqueuePos := pos + 1 } } := by
  subst hpos
  have hok := h.threads t
  rw [ht] at hok
  obtain ⟨hlen, -, hroom⟩ := hok
  have hlow := h.low
  -- a position that another thread is filling was claimed before
  have hother : ∀ u pid' len', s.threads u ≠ .fill pid' len' s.ring.enqueuePos := by
    intro u pid' len' hu
    have hfill := h.threads u
    rw [hu] at hfill
    exact Nat.lt_irrefl _ hfill.2.2.1
  refine
    { h with
      low := Nat.le_succ_of_le hlow
      high := hroom
      future := fun p hp => h.future p (Nat.le_of_succ_le hp)
      threads := ?_, fills := ?_
      claims := fun c hc => ?_ }
  · intro u
    by_cases hu : u = t
    · subst hu
      simp only [MpState.setThread, update_self]
      exact ⟨hlen, hlow, Nat.lt_succ_self _, h.future _ (Nat.le_refl _),
        fun c hc => Nat.ne_of_lt (h.claims c hc).2.2⟩
    · simp only [MpState.setThread, update_of_ne hu]
      refine (h.threads u).mono rfl rfl (Nat.le_succ _) (Nat.le_refl _) ?_
      intro pid' len' p hp
      have hfill := h.threads u
      rw [hp] at hfill
      exact ⟨hfill.2.1, hfill.2.2.2⟩
  · intro u v pid₁ len₁ pid₂ len₂ p hu hv
    simp only [MpState.setThread, update_apply] at hu hv
    split at hu <;> split at hv
    · next h₁ h₂ => rw [h₁, h₂]
    · cases hu
      exact absurd hv (hother v _ _)
    · cases hv
      exact absurd hu (hother u _ _)
    · exact h.fills u v _ _ _ _ p hu hv
  · obtain ⟨hc₁, hc₂, hc₃⟩ := h.claims c hc
    exact ⟨hc₁, hc₂, Nat.lt_succ_of_lt hc₃⟩

theorem fill (ht : s.threads t = .fill pid len pos) :
    MpInv ((s.fillClaim pid len pos).setThread t .idle) := by
  have hok := h.threads t
  rw [ht] at hok
  obtain ⟨hlen, hrel, hlt, hnone, hfree⟩ := hok
  have hhigh := h.high
  have hret : ∀ p, ((s.fillClaim pid len pos).setThread t .idle).Returned p → p ≠ pos →
      s.Returned p := by
    rintro p (hp | ⟨c, hc, rfl⟩) hne
    · exact Or.inl hp
    · rcases mem_cons.mp hc with rfl | hc
      · exact absurd rfl hne
      · exact Or.inr ⟨c, hc, rfl⟩
  refine
    { h with
      stamps := ?_, threads := ?_, fills := ?_, nodup := ?_, claims := ?_, claimed := ?_
      slots := ?_, reports := ?_, poll := ?_ }
  · intro p hp hp'
    refine Eq.trans ?_ (h.stamps p hp hp')
    exact setSlot_slot_congr seq rfl
  · intro u
    by_cases hu : u = t
    · subst hu
      simp only [MpState.setThread, update_self]
      trivial
    · simp only [MpState.setThread, fillClaim, update_of_ne hu]
      refine (h.threads u).mono rfl rfl (Nat.le_refl _) (Nat.le_refl _) ?_
      intro pid' len' p hp
      have hfill := h.threads u
      rw [hp] at hfill
      refine ⟨hfill.2.1, hfill.2.2.2.1, fun c hc => ?_⟩
      rcases mem_cons.mp hc with rfl | hc
      · rintro rfl
        exact hu (h.fills u t _ _ _ _ _ hp ht)
      · exact hfill.2.2.2.2 c hc
  · intro u v pid₁ len₁ pid₂ len₂ p hu hv
    simp only [MpState.setThread, fillClaim, update_apply] at hu hv
    split at hu
    · cases hu
    · split at hv
      · cases hv
      · exact h.fills u v _ _ _ _ p hu hv
  · exact nodup_cons.mpr ⟨fun hc => hfree _ hc rfl, h.nodup⟩
  · intro c hc
    rcases mem_cons.mp hc with rfl | hc
    · exact ⟨update_self .., hnone, hlt⟩
    · obtain ⟨hc₁, hc₂, hc₃⟩ := h.claims c hc
      exact ⟨(update_of_ne (hfree c hc) ..).trans hc₁, hc₂, hc₃⟩
  · intro p hp
    by_cases hpos : p = pos
    · subst hpos
      simp only [MpState.setThread, fillClaim, update_self]
      exact ⟨trivial, hlen⟩
    · simp only [MpState.setThread, fillClaim, update_of_ne hpos]
      exact h.claimed p (hret p hp hpos)
  · intro p hp hpr
    by_cases hpos : p = pos
    · subst hpos
      simp [MpState.setThread, fillClaim, header]
    · have hpold := hret p hpr hpos
      have hplt := h.returned_lt hpold
      have hp : s.released ≤ p := hp
      simp only [MpState.setThread, fillClaim, update_of_ne hpos]
      rw [setSlot_slot_ne h.pow h.mask hpos (by omega) (by omega)]
      exact h.slots p hp hpold
  · intro p r hr
    have hp : p < s.released := (List.getElem?_eq_some_iff.mp hr).1
    have hne : p ≠ pos := by omega
    have hclaimed : update s.claimed pos ⟨pos, pid, len⟩ p = s.claimed p :=
      update_of_ne hne ..
    have hold := h.reports p r hr
    exact ⟨fun hrec => ⟨(hold.record hrec).1, (hold.record hrec).2.trans hclaimed.symm⟩,
      hold.skipped⟩
  · have hold := h.poll
    simp only [fillClaim]
    cases hpc : s.poll with
    | release call record =>
      rw [hpc] at hold
      have hne := h.reading_ne hpc hnone
      exact ⟨hold.1, hold.2.trans (update_of_ne hne ..).symm⟩
    | take call =>
      rw [hpc] at hold
      exact hold
    | idle | check call | enqueued | skip | advance call => trivial

theorem write (p : Nat) (payload : List UInt8) (contents : Nat → List UInt8) :
    MpInv { s with
      ring := s.ring.setSlot p { s.ring.slot p with payload := payload }
      contents := contents } :=
  { h with
    stamps := fun q hq hq' => by
      refine Eq.trans ?_ (h.stamps q hq hq')
      exact setSlot_slot_congr seq rfl
    slots := fun q hq hret => by
      refine Eq.trans ?_ (h.slots q hq hret)
      exact setSlot_slot_congr header rfl }

theorem commit (hc : c ∈ s.claims) {b : Bool} {slot : OmBusMpSlot}
    (hheader : slot.header = (s.ring.slot c.sequence).header)
    (hstamps : ∀ p, s.released ≤ p → p < s.released + s.ring.capacity →
      ((s.ring.setSlot c.sequence slot).slot p).seq =
        stampOf (update s.commits c.sequence (some b)) p)
    (hb : if b then s.released ≤ c.sequence else c.sequence < s.released) :
    MpInv { s with
      ring := s.ring.setSlot c.sequence slot
      claims := s.claims.erase c
      commits := update s.commits c.sequence (some b) } := by
  obtain ⟨hclaim, hnone, hlt⟩ := h.claims c hc
  have hkeep : ∀ p, p ≠ c.sequence →
      update s.commits c.sequence (some b) p = s.commits p :=
    fun p hp => update_of_ne hp ..
  have hsettled : ∀ p, s.commits p = some true → p ≠ c.sequence := by
    rintro p hp rfl
    rw [hnone] at hp
    cases hp
  have hret : ∀ p, (update s.commits c.sequence (some b) p = some true ∨
      ∃ d ∈ s.claims.erase c, d.sequence = p) → s.Returned p := by
    rintro p (hp | ⟨d, hd, rfl⟩)
    · by_cases hpc : p = c.sequence
      · exact Or.inr ⟨c, hc, hpc.symm⟩
      · exact Or.inl ((hkeep p hpc).symm.trans hp)
    · exact Or.inr ⟨d, mem_of_mem_erase hd, rfl⟩
  refine
    { h with
      stamps := hstamps, future := ?_, poisoned := ?_, threads := ?_
      nodup := h.nodup.erase c, claims := ?_
      claimed := fun p hp => h.claimed p (hret p hp)
      slots := fun p hp hpr =>
        (setSlot_slot_congr header hheader).trans (h.slots p hp (hret p hpr))
      reports := ?_, poll := ?_ }
  · intro p hp
    have hp : s.ring.enqueuePos ≤ p := hp
    exact (hkeep p (by omega)).trans (h.future p hp)
  · intro p hp
    by_cases hpc : p = c.sequence
    · subst hpc
      simp only [update_self, Option.some.injEq] at hp
      subst hp
      exact hb
    · exact h.poisoned p ((hkeep p hpc).symm.trans hp)
  · intro u
    refine (h.threads u).mono rfl rfl (Nat.le_refl _) (Nat.le_refl _) ?_
    intro pid len p hp
    have hfill := h.threads u
    rw [hp] at hfill
    obtain ⟨-, hrel, -, hpnone, hpfree⟩ := hfill
    exact ⟨hrel, (hkeep p (hpfree c hc).symm).trans hpnone,
      fun d hd => hpfree d (mem_of_mem_erase hd)⟩
  · intro d hd
    obtain ⟨hdc, hdmem⟩ := (h.nodup.mem_erase_iff).mp hd
    obtain ⟨hd₁, hd₂, hd₃⟩ := h.claims d hdmem
    exact ⟨hd₁, (hkeep _ fun he => hdc (h.claim_unique hdmem hc he)).trans hd₂, hd₃⟩
  · intro p r hr
    have hp : p < s.released := (List.getElem?_eq_some_iff.mp hr).1
    have hold := h.reports p r hr
    refine ⟨fun hrec => ?_, fun hskip => ⟨?_, (hold.skipped hskip).2⟩⟩
    · obtain ⟨htrue, hhead⟩ := hold.record hrec
      exact ⟨(hkeep p (hsettled p htrue)).trans htrue, hhead⟩
    · by_cases hpc : p = c.sequence
      · subst hpc
        cases b with
        | false => simp
        | true => exact absurd hp (Nat.not_lt.mpr (by simpa using hb))
      · simp only [hkeep p hpc]
        exact (hold.skipped hskip).1
  · have hold := h.poll
    cases hpc : s.poll with
    | take call =>
      rw [hpc] at hold
      exact (hkeep _ (hsettled _ hold)).trans hold
    | release call record =>
      rw [hpc] at hold
      exact ⟨(hkeep _ (hsettled _ hold.1)).trans hold.1, hold.2⟩
    | idle | check call | enqueued | skip | advance call => trivial

theorem release (hlag : s.poll.lag = 0) (hret : s.Returned s.ring.dequeuePos)
    {result : OmBusMpPollResult}
    (hreport : ReportOk s.commits s.claimed s.ring.dequeuePos ⟨result, call, record⟩) :
    MpInv (s.releaseSlot call result record) := by
  have hcur : s.ring.dequeuePos = s.released := by
    have := h.cursor
    omega
  have hlt := h.returned_lt hret
  have hlen : (s.releaseSlot call result record).released = s.released + 1 := by
    simp [released, releaseSlot]
  have hhigh := h.high
  refine
    { h with
      cursor := ?_, low := ?_, high := ?_, stamps := ?_, poisoned := ?_, threads := ?_
      slots := ?_, reports := ?_, poll := trivial }
  · rw [hlen]
    simp only [releaseSlot, setSlot, PollPc.lag, hcur]
  · rw [hlen]
    simp only [releaseSlot, setSlot]
    omega
  · rw [hlen]
    simp only [releaseSlot, setSlot]
    omega
  · intro p hp hp'
    rw [hlen] at hp hp'
    simp only [releaseSlot, setSlot] at hp'
    by_cases hlap : p = s.ring.dequeuePos + s.ring.capacity
    · -- the slot comes round again and is free for the next lap
      subst hlap
      have hnone := h.future (s.ring.dequeuePos + s.ring.capacity) (by omega)
      have hslot : ∀ slot, (s.ring.setSlot s.ring.dequeuePos slot).slot
          (s.ring.dequeuePos + s.ring.capacity) = slot := by
        intro slot
        have hlap : (s.ring.setSlot s.ring.dequeuePos slot).slot
            (s.ring.dequeuePos + s.ring.capacity) = _ := slot_add_capacity h.pow h.mask
        exact hlap.trans setSlot_slot_self
      simp only [releaseSlot, hslot]
      exact (stampOf_eq_self.mpr (by simp [hnone])).symm
    · simp only [releaseSlot]
      rw [setSlot_slot_ne h.pow h.mask (by omega) (by omega) (by omega)]
      exact h.stamps p (by omega) (by omega)
  · intro p hp
    rw [hlen]
    exact Nat.lt_succ_of_lt (h.poisoned p hp)
  · intro u
    refine (h.threads u).mono rfl rfl (Nat.le_refl _) (by rw [hlen]; omega) ?_
    intro pid len p hp
    have hfill := h.threads u
    rw [hp] at hfill
    have hne : p ≠ s.ring.dequeuePos := by
      rintro rfl
      exact h.not_fill_of_returned hret hp
    exact ⟨by rw [hlen]; have := hfill.2.1; omega, hfill.2.2.2⟩
  · intro p hp hpr
    rw [hlen] at hp
    refine Eq.trans ?_ (h.slots p (by omega) hpr)
    exact setSlot_slot_congr header rfl
  · intro p r hr
    simp only [releaseSlot] at hr
    rcases Nat.lt_or_ge p s.reports.length with hp | hp
    · rw [getElem?_append_left hp] at hr
      exact h.reports p r hr
    · rw [getElem?_append_right hp, getElem?_singleton] at hr
      split at hr
      · next hz =>
        cases hr
        have he : p = s.ring.dequeuePos := by
          rw [hcur]
          unfold released
          omega
        rw [he]
        exact hreport
      · cases hr

theorem advance (hpoll : s.poll = .advance call) (pc : PollPc) (hlag : pc.lag = 0)
    (hpc : ∀ pos, PollPcOk s.commits s.claimed pos pc) (b : Option Nat) (since : UInt64) :
    MpInv { s with
      ring := { s.ring with dequeuePos := s.ring.dequeuePos + 1 }
      poll := pc, blockedSequence := b, blockedSinceNs := since } :=
  { h with
    cursor := by
      have hcur := h.cursor
      rw [hpoll] at hcur
      simp only [hlag]
      exact hcur
    threads := fun u => (h.threads u).mono rfl rfl (Nat.le_refl _) (Nat.le_refl _)
      fun pid len p hp => by
        have hfill := h.threads u
        rw [hp] at hfill
        exact ⟨hfill.2.1, hfill.2.2.2⟩
    poll := hpc _ }

end MpInv

end VeloxMatch
