import VeloxMatch.BusMpStep

namespace VeloxMatch

open MpState MpReport Function List

namespace MpInv

variable {s s' : MpState}

theorem freeSlot (h : MpInv s) {t pid len pos : Nat} (ht : s.threads t = .loadSeq pid len pos)
    (hseq : (s.ring.slot pos).seq = pos) : MpInv (s.setThread t (.exchange pid len pos)) := by
  have hok := h.threads t
  rw [ht] at hok
  refine h.setThread t ⟨hok.1, hok.2, ?_⟩ (by simp)
  -- a full ring would show the stamp of the oldest position, a lap behind
  by_contra hfull
  have hhigh := h.high
  have htwo := h.two_le
  have hpos := hok.2
  have hpos' : pos = s.released + s.ring.capacity := by omega
  have hstamp := h.stamps s.released (Nat.le_refl _) (by omega)
  have hle := stampOf_le s.commits s.released
  rw [← slot_add_capacity h.pow h.mask, ← hpos', hseq] at hstamp
  omega

variable {c : OmBusMpClaim}

theorem committed (h : MpInv s) (hc : c ∈ s.claims)
    (hseq : (s.ring.slot c.sequence).seq = c.sequence) :
    MpInv { s with
      ring := s.ring.setSlot c.sequence { s.ring.slot c.sequence with seq := c.sequence + 1 }
      claims := s.claims.erase c
      commits := update s.commits c.sequence (some true) } := by
  have hrel := (h.claim_stamp_iff hc).mp hseq
  have hlt := (h.claims c hc).2.2
  have hhigh := h.high
  refine h.commit hc rfl (fun p hp hp' => ?_) (by simpa using hrel)
  by_cases hpc : p = c.sequence
  · subst hpc
    simp [stampOf]
  · rw [setSlot_slot_ne h.pow h.mask hpc (by omega) (by omega), h.stamps p hp hp']
    simp [stampOf, update_of_ne hpc]

theorem late (h : MpInv s) (hc : c ∈ s.claims) (hseq : (s.ring.slot c.sequence).seq ≠ c.sequence) :
    MpInv { s with
      claims := s.claims.erase c
      commits := update s.commits c.sequence (some false) } := by
  have hlate : c.sequence < s.released :=
    Nat.lt_of_not_le fun hle => hseq ((h.claim_stamp_iff hc).mpr hle)
  have hsame : s.ring.setSlot c.sequence (s.ring.slot c.sequence) = s.ring := by
    simp [OmBusMp.setSlot, OmBusMp.slot]
  have hinv := h.commit hc (b := false) rfl (fun p hp hp' => by
    have hne : p ≠ c.sequence := by omega
    rw [hsame, h.stamps p hp hp']
    simp [stampOf, update_of_ne hne]) (by simpa using hlate)
  rwa [hsame] at hinv

theorem cursor_stamp (h : MpInv s) (hlag : s.poll.lag = 0) :
    (s.ring.slot s.ring.dequeuePos).seq = stampOf s.commits s.ring.dequeuePos := by
  have hcur := h.cursor
  have htwo := h.two_le
  exact h.stamps _ (by omega) (by omega)

theorem step (h : MpInv s) {a : MpAction} (hok : skipsReturned s a) (hs : s.step a = some s') :
    MpInv s' := by
  have hpoll := h.poll
  cases step_moves hs with
  | same => exact h
  | claim hlen => exact h.setThread _ hlen (by simp)
  | @loadPos _ t pid len ht =>
    have hlen := h.threads t
    rw [ht] at hlen
    exact h.setThread t ⟨hlen, Nat.le_refl _⟩ (by simp)
  | free ht hseq => exact h.freeSlot ht hseq
  | full => exact h.setThread _ trivial (by simp)
  | @again _ t pid len pos ht =>
    have hlen := h.threads t
    refine h.setThread t ?_ (by simp)
    rcases ht with ht | ht <;> exact (ht ▸ hlen).1
  | exchange ht hpos => exact h.exchange ht hpos
  | fill ht => exact h.fill ht
  | write _ => exact h.write _ _ _
  | committed hc hseq => exact h.committed hc hseq
  | late hc hseq => exact h.late hc hseq
  | look hlag hpc => exact h.setPoll _ _ (hpc.lag.trans hlag.symm) hpc.pollPcOk
  | take hpc hseq =>
    have hlag : s.poll.lag = 0 := by rw [hpc]; rfl
    exact h.setPoll _ _ hlag.symm (stampOf_eq_succ.mp ((h.cursor_stamp hlag).symm.trans hseq))
  | read hpc =>
    have hlag : s.poll.lag = 0 := by rw [hpc]; rfl
    have hcur := h.cursor
    rw [hpc] at hpoll
    exact h.setPoll _ _ hlag.symm ⟨hpoll, h.slots _ (by omega) (Or.inl hpoll)⟩
  | release hpc =>
    rw [hpc] at hpoll
    exact h.release (by rw [hpc]; rfl) (Or.inl hpoll.1) ⟨fun _ => hpoll, fun hskip => by cases hskip⟩
  | skip hpc hseq =>
    have hlag : s.poll.lag = 0 := by rw [hpc]; rfl
    have huncommitted : s.commits s.ring.dequeuePos ≠ some true :=
      stampOf_eq_self.mp ((h.cursor_stamp hlag).symm.trans hseq)
    exact h.release hlag (Or.inr (hok hpc hseq))
      ⟨fun hrec => (by cases hrec), fun _ => ⟨huncommitted, rfl⟩⟩
  | advance hpc hlooks => exact h.advance hpc _ hlooks.lag (fun _ => hlooks.pollPcOk) _ _

end MpInv

variable {s : MpState}

theorem mpInv_of_runs {config : OmBusMpConfig} {ring : OmBusMp}
    (hinit : ombusMpInit config = .ok ring) (hcap : 2 ≤ config.capacity)
    (hrun : Runs step skipsReturned (.start ring) s) : MpInv s :=
  hrun.invariant (P := MpInv) (MpInv.start hinit hcap) fun _ _ _ h hok hs => h.step hok hs

def MpReport.position (r : MpReport) : Nat := r.record.sequence

def MpState.Skipped (s : MpState) (p : Nat) : Prop :=
  ∃ r, s.reports[p]? = some r ∧ r.result = .skipped

theorem MpInv.positions (h : MpInv s) : s.reports.map position = range s.reports.length := by
  apply ext_getElem (by simp)
  intro p hp hp'
  have hlt : p < s.reports.length := by simpa using hp
  have hreport := h.reports p s.reports[p] (getElem?_eq_getElem hlt)
  rw [getElem_map, getElem_range]
  cases hres : (s.reports[p]).result with
  | record =>
    obtain ⟨htrue, hhead⟩ := hreport.record hres
    exact (congrArg OmBusMpClaim.sequence hhead).trans (h.claimed p (Or.inl htrue)).1
  | skipped => exact (hreport.skipped hres).2

theorem MpInv.commit_false_iff (h : MpInv s) {p : Nat} {b : Bool}
    (hb : s.commits p = some b) : b = false ↔ s.Skipped p := by
  constructor
  · rintro rfl
    have hlt := h.poisoned p hb
    refine ⟨s.reports[p], getElem?_eq_getElem hlt, ?_⟩
    cases hres : (s.reports[p]).result with
    | skipped => rfl
    | record =>
      have htrue := ((h.reports p _ (getElem?_eq_getElem hlt)).record hres).1
      rw [hb] at htrue
      cases htrue
  · rintro ⟨r, hr, hres⟩
    have hne := ((h.reports p r hr).skipped hres).1
    cases b with
    | false => rfl
    | true => exact absurd hb hne

/-- With two slots or more, and no claim given up before it returns, every position is settled
once and in order, as its commit says, and the producers stay within a lap of the consumer. -/
theorem mp_resolved_once {config : OmBusMpConfig} {ring : OmBusMp} {s : MpState}
    (hinit : ombusMpInit config = .ok ring) (hcap : 2 ≤ config.capacity)
    (hrun : Runs step skipsReturned (.start ring) s) :
    s.reports.map position = range s.reports.length ∧
    (∀ p r, s.reports[p]? = some r → r.result = .record → s.commits p = some true) ∧
    (∀ p b, s.commits p = some b → (b = false ↔ s.Skipped p)) ∧
    s.ring.dequeuePos + s.poll.lag = s.reports.length ∧
    s.ring.enqueuePos ≤ s.ring.dequeuePos + s.poll.lag + s.ring.capacity := by
  have h := mpInv_of_runs hinit hcap hrun
  refine ⟨h.positions, fun p r hr hres => ((h.reports p r hr).record hres).1,
    fun p b hb => h.commit_false_iff hb, h.cursor, ?_⟩
  rw [h.cursor]
  exact h.high

def smallBusMp (capacity : Nat) : OmBusMp where
  capacity := capacity
  mask := capacity - 1
  maxPayload := 40
  skipTimeoutNs := 1
  slots := fun i => ⟨i, 0, 0, 0, replicate 40 0⟩
  enqueuePos := 0
  dequeuePos := 0

def claimCall (t producerId payloadLen : Nat) : List MpAction :=
  .claim t producerId payloadLen :: replicate 4 (.thread t false)

def pollCall : List MpAction := .poll :: replicate 4 (.consumer 0)

def skipCalls : List MpAction :=
  [.poll, .consumer 0, .consumer 0, .poll, .consumer 0, .consumer 9, .consumer 0, .consumer 0]

/-- Position 0 is skipped before its commit, position 1 is delivered. -/
theorem mp_resolved_once_small :
    ombusMpInit ⟨2, 64, 4, 1⟩ = .ok (smallBusMp 2) ∧ (2 : Nat) ≤ 2 ∧
    ∃ s, Runs step skipsReturned (.start (smallBusMp 2)) s ∧
      s.reports.map result = [.skipped, .record] ∧ s.commits 0 = some false ∧
      s.reports.map position = range s.reports.length ∧ s.Skipped 0 := by
  have hinit : ombusMpInit ⟨2, 64, 4, 1⟩ = .ok (smallBusMp 2) := rfl
  obtain ⟨s, hrun, hresults, hcommit⟩ := exists_runs step skipsReturned
    (.start (smallBusMp 2))
    (claimCall 0 0 1 ++ skipCalls ++ [.commit ⟨0, 0, 1⟩] ++ claimCall 1 1 2 ++
      [.commit ⟨1, 1, 2⟩] ++ pollCall)
    (fun s => s.reports.map result = [.skipped, .record] ∧ s.commits 0 = some false)
    (by decide +kernel) (by decide +kernel)
  obtain ⟨hpos, -, hskip, -⟩ := mp_resolved_once hinit (by decide) hrun
  exact ⟨hinit, by decide, s, hrun, hresults, hcommit, hpos, (hskip 0 false hcommit).mp rfl⟩

/-- With one slot a committed record looks like a free slot of the next lap: a second claim takes
it before the first record is read, and that is reported under the second position. -/
theorem mp_one_slot_reclaimed :
    ombusMpInit ⟨1, 64, 4, 1⟩ = .ok (smallBusMp 1) ∧
    (∃ s, Runs step skipsReturned (.start (smallBusMp 1)) s ∧ s.poll = .idle ∧
      s.ring.dequeuePos + s.ring.capacity < s.ring.enqueuePos) ∧
    ∃ s, Runs step skipsReturned (.start (smallBusMp 1)) s ∧
      s.reports.map position = [1] := by
  refine ⟨rfl, ?_, ?_⟩
  · exact exists_runs step skipsReturned (.start (smallBusMp 1))
      (claimCall 0 0 1 ++ [.commit ⟨0, 0, 1⟩] ++ claimCall 1 1 2)
      (fun s => s.poll = .idle ∧ s.ring.dequeuePos + s.ring.capacity < s.ring.enqueuePos)
      (by decide +kernel) (by decide +kernel)
  · exact exists_runs step skipsReturned (.start (smallBusMp 1))
      (claimCall 0 0 1 ++ [.commit ⟨0, 0, 1⟩] ++ claimCall 1 1 2 ++ pollCall)
      (fun s => s.reports.map position = [1]) (by decide +kernel) (by decide +kernel)

end VeloxMatch
