import VeloxMatch.BusMpResolved

namespace VeloxMatch

open MpState Function OmBusMpSlot

/-- The payload a poll hands out for position `p` if its buffer holds `contents`. -/
def deliveredPayload (ring : OmBusMp) (call : PollCall) (p len : Nat) (contents : List UInt8) :
    OmBusMpPayload :=
  match call with
  | .pollCopy capacity =>
    if len ≤ capacity ∧ len ≤ ring.maxPayload then .copied (contents.take len) else .null
  | _ => .inSlot (p &&& ring.mask)

theorem recordOf_payload (ring : OmBusMp) (p : Nat) (call : PollCall) :
    (recordOf ring p call).payload =
      deliveredPayload ring call p (ring.slot p).payloadLen (ring.slot p).payload := by
  cases call <;> rfl

/-- A record read from the slot at the cursor carries what its claimant wrote. -/
def ReadOk (s : MpState) : PollPc → Prop
  | .release call record => record.payload = deliveredPayload s.ring call s.ring.dequeuePos
      (s.claimed s.ring.dequeuePos).payloadLen (s.contents s.ring.dequeuePos)
  | _ => True

theorem PollPc.Looks.readOk {pc : PollPc} (h : pc.Looks) {s : MpState} : ReadOk s pc := by
  cases pc <;> trivial

/-- Buffers that are not settled, and the records handed out, hold what the claimants wrote. -/
structure ContentsInv (s : MpState) : Prop where
  slots : ∀ p, s.released ≤ p → s.Returned p → (s.ring.slot p).payload = s.contents p
  read : ReadOk s s.poll
  reports : ∀ p r, s.reports[p]? = some r → r.result = .record →
    r.record.payload =
      deliveredPayload s.ring r.call p (s.claimed p).payloadLen (s.contents p)

/-- A claimant writes only while its position is not settled. -/
def writesUnsettled (s : MpState) (a : MpAction) : Prop :=
  skipsReturned s a ∧
  match a with
  | .write c _ _ => s.reports.length ≤ c.sequence
  | _ => True

instance (s : MpState) (a : MpAction) : Decidable (writesUnsettled s a) := by
  induction a using MpAction.casesOn <;> dsimp only [writesUnsettled] <;> infer_instance

namespace ContentsInv

variable {s s' : MpState}

theorem start (ring : OmBusMp) : ContentsInv (start ring) where
  slots := by
    rintro p - (hp | ⟨c, hc, -⟩)
    · simp [MpState.start] at hp
    · simp [MpState.start] at hc
  read := trivial
  reports := fun p r hr => by simp [MpState.start] at hr

theorem frame (h : ContentsInv s) (hslots : ∀ p, (s'.ring.slot p).payload = (s.ring.slot p).payload)
    (hring : s'.ring.mask = s.ring.mask ∧ s'.ring.maxPayload = s.ring.maxPayload)
    (hclaimed : s'.claimed = s.claimed) (hcontents : s'.contents = s.contents)
    (hreports : s'.reports = s.reports) (hret : ∀ p, s'.Returned p → s.Returned p)
    (hread : ReadOk s' s'.poll) : ContentsInv s' where
  slots := fun p hp hpr => by
    have hp : s.released ≤ p := by
      unfold released at hp ⊢
      rwa [hreports] at hp
    rw [hslots, hcontents]
    exact h.slots p hp (hret p hpr)
  read := hread
  reports := fun p r hr hres => by
    rw [hreports] at hr
    rw [h.reports p r hr hres, hclaimed, hcontents]
    cases r.call <;> simp only [deliveredPayload, hring.1, hring.2]

theorem read_frame (h : ContentsInv s) (hpoll : s'.poll = s.poll)
    (hring : s'.ring.mask = s.ring.mask ∧ s'.ring.maxPayload = s.ring.maxPayload)
    (hdeq : s'.ring.dequeuePos = s.ring.dequeuePos)
    (hsame : ∀ call record, s.poll = .release call record →
      s'.claimed s.ring.dequeuePos = s.claimed s.ring.dequeuePos ∧
      s'.contents s.ring.dequeuePos = s.contents s.ring.dequeuePos) : ReadOk s' s'.poll := by
  have hread := h.read
  rw [hpoll]
  cases hpc : s.poll with
  | release call record =>
    rw [hpc] at hread
    obtain ⟨hcl, hco⟩ := hsame call record hpc
    have hgoal : record.payload = deliveredPayload s'.ring call s'.ring.dequeuePos
        (s'.claimed s'.ring.dequeuePos).payloadLen (s'.contents s'.ring.dequeuePos) := by
      rw [hdeq, hcl, hco]
      refine hread.trans ?_
      cases call <;> simp only [deliveredPayload, hring.1, hring.2]
    exact hgoal
  | idle | check call | take call | enqueued | skip | advance call => trivial

theorem fill (h : ContentsInv s) (hinv : MpInv s) {t pid len pos : Nat}
    (ht : s.threads t = .fill pid len pos) :
    ContentsInv ((s.fillClaim pid len pos).setThread t .idle) := by
  have hok := hinv.threads t
  rw [ht] at hok
  obtain ⟨-, hrel, -, hnone, -⟩ := hok
  refine ⟨?_, ?_, ?_⟩
  · intro p hp hpr
    by_cases hpos : p = pos
    · subst hpos
      simp [setThread, fillClaim]
    · have hold : s.Returned p := by
        rcases hpr with hp | ⟨c, hc, rfl⟩
        · exact Or.inl hp
        · rcases List.mem_cons.mp hc with rfl | hc
          · exact absurd rfl hpos
          · exact Or.inr ⟨c, hc, rfl⟩
      have hslot : (((s.fillClaim pid len pos).setThread t .idle).ring.slot p).payload =
          (s.ring.slot p).payload := setSlot_slot_congr payload rfl
      rw [hslot, h.slots p hp hold]
      exact (update_of_ne hpos ..).symm
  · refine h.read_frame rfl ⟨rfl, rfl⟩ rfl fun call record hpc => ?_
    have hne := hinv.reading_ne hpc hnone
    exact ⟨update_of_ne hne .., update_of_ne hne ..⟩
  · intro p r hr hres
    have hp : p < s.released := (List.getElem?_eq_some_iff.mp hr).1
    have hne : p ≠ pos := by omega
    simp only [setThread, fillClaim, update_of_ne hne]
    exact h.reports p r hr hres

theorem write (h : ContentsInv s) (hinv : MpInv s) {c : OmBusMpClaim} (hc : c ∈ s.claims)
    (hok : s.released ≤ c.sequence) (offset : Nat) (bytes : List UInt8) :
    ContentsInv { s with
      ring := s.ring.setSlot c.sequence { s.ring.slot c.sequence with
        payload := writeAt (s.ring.slot c.sequence).payload offset bytes }
      contents := update s.contents c.sequence
        (writeAt (s.contents c.sequence) offset bytes) } := by
  obtain ⟨-, hnone, hlt⟩ := hinv.claims c hc
  have hhigh := hinv.high
  refine ⟨?_, ?_, ?_⟩
  · intro p hp hpr
    by_cases hpos : p = c.sequence
    · subst hpos
      simp only [setSlot_slot_self, update_self]
      rw [h.slots _ hp hpr]
    · have hplt := hinv.returned_lt hpr
      have hp : s.released ≤ p := hp
      simp only [update_of_ne hpos]
      rw [setSlot_slot_ne hinv.pow hinv.mask hpos (by omega) (by omega)]
      exact h.slots p hp hpr
  · refine h.read_frame rfl ⟨rfl, rfl⟩ rfl fun call record hpc => ?_
    exact ⟨rfl, update_of_ne (hinv.reading_ne hpc hnone) ..⟩
  · intro p r hr hres
    have hp : p < s.released := (List.getElem?_eq_some_iff.mp hr).1
    have hne : p ≠ c.sequence := by omega
    simp only [update_of_ne hne]
    exact h.reports p r hr hres

theorem returned_of_commit {c : OmBusMpClaim} (hc : c ∈ s.claims) {b : Bool} {p : Nat}
    (hp : update s.commits c.sequence (some b) p = some true ∨
      ∃ d ∈ s.claims.erase c, d.sequence = p) : s.Returned p := by
  rcases hp with hp | ⟨d, hd, rfl⟩
  · by_cases hpc : p = c.sequence
    · exact Or.inr ⟨c, hc, hpc.symm⟩
    · exact Or.inl ((update_of_ne hpc ..).symm.trans hp)
  · exact Or.inr ⟨d, List.mem_of_mem_erase hd, rfl⟩

theorem thread (h : ContentsInv s) (t : Nat) (pc : ClaimPc) (pos : Nat) :
    ContentsInv { s.setThread t pc with ring := { s.ring with enqueuePos := pos } } :=
  h.frame (fun _ => rfl) ⟨rfl, rfl⟩ rfl rfl rfl (fun _ hp => hp)
    (h.read_frame rfl ⟨rfl, rfl⟩ rfl fun _ _ _ => ⟨rfl, rfl⟩)

theorem setPoll (h : ContentsInv s) (pos : Nat) (pc : PollPc) (b : Option Nat) (since : UInt64)
    (hread : ReadOk { s with ring := { s.ring with dequeuePos := pos } } pc) :
    ContentsInv { s with
      ring := { s.ring with dequeuePos := pos }
      poll := pc, blockedSequence := b, blockedSinceNs := since } :=
  h.frame (fun _ => rfl) ⟨rfl, rfl⟩ rfl rfl rfl (fun _ hp => hp) (by
    cases pc with
    | release call record => exact hread
    | idle | check call | take call | enqueued | skip | advance call => trivial)

theorem release (h : ContentsInv s) {call : PollCall} {result : OmBusMpPollResult}
    {record : OmBusMpRecord} (hcur : s.ring.dequeuePos = s.released)
    (hrecord : result = .record → record.payload = deliveredPayload s.ring call s.ring.dequeuePos
      (s.claimed s.ring.dequeuePos).payloadLen (s.contents s.ring.dequeuePos)) :
    ContentsInv (s.releaseSlot call result record) := by
  refine ⟨?_, trivial, ?_⟩
  · intro p hp hpr
    have hle : s.released ≤ p := by
      simp only [released, releaseSlot, List.length_append, List.length_singleton] at hp
      exact Nat.le_of_succ_le hp
    refine Eq.trans ?_ (h.slots p hle hpr)
    exact setSlot_slot_congr payload rfl
  · intro p r hr hres
    simp only [releaseSlot] at hr
    rcases Nat.lt_or_ge p s.reports.length with hp | hp
    · rw [List.getElem?_append_left hp] at hr
      exact h.reports p r hr hres
    · rw [List.getElem?_append_right hp, List.getElem?_singleton] at hr
      split at hr
      · next hz =>
        cases hr
        have he : p = s.ring.dequeuePos := by
          rw [hcur]
          unfold released
          omega
        rw [he]
        exact hrecord hres
      · cases hr

theorem step (h : ContentsInv s) (hinv : MpInv s) {a : MpAction} (hok : writesUnsettled s a)
    (hs : s.step a = some s') : ContentsInv s' := by
  have hcursor := hinv.cursor
  have hpoll := hinv.poll
  have hread := h.read
  cases step_moves hs with
  | same => exact h
  | claim | loadPos | free | full | again => exact h.thread _ _ s.ring.enqueuePos
  | exchange => exact h.thread _ _ _
  | fill ht => exact h.fill hinv ht
  | write hc => exact h.write hinv hc hok.2 _ _
  | committed hc _ =>
    exact h.frame (fun p => setSlot_slot_congr payload rfl) ⟨rfl, rfl⟩ rfl rfl rfl
      (fun _ => returned_of_commit hc) (h.read_frame rfl ⟨rfl, rfl⟩ rfl fun _ _ _ => ⟨rfl, rfl⟩)
  | late hc _ =>
    exact h.frame (fun _ => rfl) ⟨rfl, rfl⟩ rfl rfl rfl
      (fun _ => returned_of_commit hc) (h.read_frame rfl ⟨rfl, rfl⟩ rfl fun _ _ _ => ⟨rfl, rfl⟩)
  | look _ hpc => exact h.setPoll _ _ _ _ hpc.readOk
  | take => exact h.setPoll _ (.take _) _ _ trivial
  | @read _ call hpc =>
    rw [hpc] at hpoll hcursor
    have hle : s.released ≤ s.ring.dequeuePos := Nat.le_of_eq hcursor.symm
    have hret : s.Returned s.ring.dequeuePos := Or.inl hpoll
    have hlen := congrArg OmBusMpClaim.payloadLen (hinv.slots _ hle hret)
    have hread : (recordOf s.ring s.ring.dequeuePos call).payload = _ :=
      recordOf_payload s.ring s.ring.dequeuePos call
    rw [h.slots _ hle hret] at hread
    refine h.setPoll s.ring.dequeuePos (.release call _) _ _ ?_
    exact hread.trans (by rw [← hlen]; rfl)
  | release hpc =>
    rw [hpc] at hread hcursor
    exact h.release hcursor fun _ => hread
  | skip hpc _ =>
    rw [hpc] at hcursor
    exact h.release hcursor fun hrec => by cases hrec
  | advance _ hpc => exact h.setPoll _ _ _ _ hpc.readOk

end ContentsInv

section Reached

variable {config : OmBusMpConfig} {ring : OmBusMp} {s : MpState}
  (hinit : ombusMpInit config = .ok ring) (hcap : 2 ≤ config.capacity)
  (hrun : Runs step writesUnsettled (.start ring) s)
include hinit hcap hrun

theorem contentsInv_of_runs : MpInv s ∧ ContentsInv s :=
  hrun.invariant (P := fun s => MpInv s ∧ ContentsInv s)
    ⟨MpInv.start hinit hcap, ContentsInv.start ring⟩
    fun _ _ _ h hok hs => ⟨h.1.step hok.1 hs, h.2.step h.1 hok hs⟩

/-- If claimants write only into buffers that are still theirs, a record carries the position,
the producer, the length and the bytes of the claim that obtained its position. -/
theorem mp_delivers_claim {p : Nat} {r : MpReport}
    (hr : s.reports[p]? = some r) (hres : r.result = .record) :
    s.commits p = some true ∧ (s.claimed p).sequence = p ∧ r.record.header = s.claimed p ∧
    ∀ capacity, r.call = .pollCopy capacity →
      r.record.payload =
        if (s.claimed p).payloadLen ≤ capacity then
          .copied ((s.contents p).take (s.claimed p).payloadLen)
        else .null := by
  obtain ⟨hinv, hcontents⟩ := contentsInv_of_runs hinit hcap hrun
  obtain ⟨htrue, hheader⟩ := (hinv.reports p r hr).record hres
  obtain ⟨hseq, hlen⟩ := hinv.claimed p (Or.inl htrue)
  refine ⟨htrue, hseq, hheader, fun capacity hcall => ?_⟩
  rw [hcontents.reports p r hr hres, hcall]
  simp only [deliveredPayload, hlen, and_true]

end Reached

def pollCopyCall : List MpAction := .pollCopy 40 :: List.replicate 4 (.consumer 0)

def reuseActions (late : List MpAction) : List MpAction :=
  claimCall 0 0 1 ++ skipCalls ++ claimCall 1 1 1 ++ [.commit ⟨1, 1, 1⟩] ++ pollCopyCall ++
    claimCall 1 1 1 ++ [.write ⟨2, 1, 1⟩ 0 [7], .commit ⟨2, 1, 1⟩] ++ late ++ pollCopyCall

theorem mp_delivers_claim_reused :
    ombusMpInit ⟨2, 64, 4, 1⟩ = .ok (smallBusMp 2) ∧
    ∃ s r, Runs step writesUnsettled (.start (smallBusMp 2)) s ∧
      s.reports[2]? = some r ∧ r.result = .record ∧ s.commits 2 = some true ∧
      r.record.header = s.claimed 2 ∧ r.record.payload = .copied [7] := by
  have hinit : ombusMpInit ⟨2, 64, 4, 1⟩ = .ok (smallBusMp 2) := rfl
  obtain ⟨s, hrun, hr, hclaimed, hbytes⟩ := exists_runs step writesUnsettled
    (.start (smallBusMp 2)) (reuseActions [])
    (fun s => s.reports[2]? = some ⟨.record, .pollCopy 40, ⟨2, 1, 1, .copied [7]⟩⟩ ∧
      s.claimed 2 = ⟨2, 1, 1⟩ ∧ (s.contents 2).take 1 = [7])
    (by decide +kernel) (by decide +kernel)
  obtain ⟨htrue, -, hheader, hpayload⟩ := mp_delivers_claim hinit (by decide) hrun hr rfl
  refine ⟨hinit, s, _, hrun, hr, rfl, htrue, hheader, ?_⟩
  rw [hpayload 40 rfl, hclaimed, hbytes]
  rfl

/-- The first claimant was skipped, still holds its buffer and writes into it after the next
claimant has committed: the record delivered for position 2 has the bytes of the first. -/
theorem mp_late_write_delivered :
    ombusMpInit ⟨2, 64, 4, 1⟩ = .ok (smallBusMp 2) ∧
    ∃ s, Runs step skipsReturned (.start (smallBusMp 2)) s ∧
      s.claimed 2 = ⟨2, 1, 1⟩ ∧ s.commits 2 = some true ∧ (s.contents 2).take 1 = [7] ∧
      s.reports[2]? = some ⟨.record, .pollCopy 40, ⟨2, 1, 1, .copied [9]⟩⟩ := by
  refine ⟨rfl, ?_⟩
  exact exists_runs step skipsReturned (.start (smallBusMp 2))
    (reuseActions [.write ⟨0, 0, 1⟩ 0 [9]])
    (fun s => s.claimed 2 = ⟨2, 1, 1⟩ ∧ s.commits 2 = some true ∧ (s.contents 2).take 1 = [7] ∧
      s.reports[2]? = some ⟨.record, .pollCopy 40, ⟨2, 1, 1, .copied [9]⟩⟩)
    (by decide +kernel) (by decide +kernel)

end VeloxMatch
