import VeloxMatch.BusMpResolved

namespace VeloxMatch

open MpState

/-- A step of the ring, or a crash of the consumer, which another one replaces with
`om_bus_mp_consumer_open`. -/
inductive MpCrashAction where
  | act (a : MpAction)
  | crash
  deriving DecidableEq, Repr

namespace MpState

variable (s : MpState)

def crash : MpState := { s.unblock with poll := .idle }

def crashStep : MpCrashAction → Option MpState
  | .act a => s.step a
  | .crash => some s.crash

/-- The slot at the consumer's cursor is free or committed for the cursor's position. -/
def AtCursor : Prop :=
  (s.ring.slot s.ring.dequeuePos).seq = s.ring.dequeuePos ∨
    (s.ring.slot s.ring.dequeuePos).seq = s.ring.dequeuePos + 1

instance : Decidable s.AtCursor := inferInstanceAs (Decidable (_ ∨ _))

def BetweenStores : Prop := s.poll.lag = 1

instance : Decidable s.BetweenStores := inferInstanceAs (Decidable (_ = _))

/-- Polls alone take the consumer past the position at its cursor. -/
def Passes : Prop :=
  ∃ calls : List MpAction, (∀ a ∈ calls, a = .poll ∨ ∃ now, a = .consumer now) ∧
    ∃ s', runActions step s calls = some s' ∧ s'.poll = .idle ∧
      s'.ring.dequeuePos = s.ring.dequeuePos + 1

end MpState

/-- The consumer does not crash between the two stores that settle a position. -/
def crashesWhole (s : MpState) (a : MpCrashAction) : Prop := a = .crash → ¬s.BetweenStores

instance (s : MpState) (a : MpCrashAction) : Decidable (crashesWhole s a) :=
  inferInstanceAs (Decidable (_ → _))

/-- For a lap from the first position not yet released, every slot carries the stamp of its
position, free or committed. -/
structure LapInv (s : MpState) : Prop where
  pow : isPowerOfTwo s.ring.capacity = true
  mask : s.ring.mask = s.ring.capacity - 1
  two_le : 2 ≤ s.ring.capacity
  stamps : ∀ p, s.ring.dequeuePos + s.poll.lag ≤ p →
    p < s.ring.dequeuePos + s.poll.lag + s.ring.capacity →
    (s.ring.slot p).seq = p ∨ (s.ring.slot p).seq = p + 1

theorem PollPc.lag_le (pc : PollPc) : pc.lag ≤ 1 := by
  cases pc <;> simp [PollPc.lag]

theorem released_stamps {ring : OmBusMp} {pos : Nat} {slot : OmBusMpSlot}
    (hpow : isPowerOfTwo ring.capacity = true) (hmask : ring.mask = ring.capacity - 1)
    (hslot : slot.seq = pos + ring.capacity)
    (hstamps : ∀ p, pos ≤ p → p < pos + ring.capacity →
      (ring.slot p).seq = p ∨ (ring.slot p).seq = p + 1) (p : Nat) (hp : pos + 1 ≤ p)
    (hlt : p < pos + 1 + ring.capacity) :
    ((ring.setSlot pos slot).slot p).seq = p ∨ ((ring.setSlot pos slot).slot p).seq = p + 1 := by
  by_cases hlap : p = pos + ring.capacity
  · have hsame : (ring.setSlot pos slot).slot (pos + ring.capacity) = slot :=
      (@slot_add_capacity (ring.setSlot pos slot) pos hpow hmask).trans setSlot_slot_self
    rw [hlap, hsame, hslot]
    exact .inl rfl
  · rw [setSlot_slot_ne hpow hmask (by omega) (by omega) (by omega)]
    exact hstamps p (by omega) (by omega)

namespace LapInv

variable {s s' : MpState}

theorem start {config : OmBusMpConfig} {ring : OmBusMp} (hinit : ombusMpInit config = .ok ring)
    (hcap : 2 ≤ config.capacity) : LapInv (start ring) := by
  have h := MpInv.start hinit hcap
  refine ⟨h.pow, h.mask, h.two_le, fun p hp hlt => ?_⟩
  rw [h.cursor] at hp hlt
  have hle := le_stampOf (MpState.start ring).commits p
  have hge := stampOf_le (MpState.start ring).commits p
  rw [h.stamps p hp hlt]
  omega

variable (h : LapInv s)
include h

theorem frame (hcapacity : s'.ring.capacity = s.ring.capacity) (hmask : s'.ring.mask = s.ring.mask)
    (hcursor : s'.ring.dequeuePos = s.ring.dequeuePos) (hlag : s'.poll.lag = s.poll.lag)
    (hseq : ∀ p, (s'.ring.slot p).seq = (s.ring.slot p).seq) : LapInv s' where
  pow := hcapacity ▸ h.pow
  mask := by rw [hmask, hcapacity, h.mask]
  two_le := hcapacity ▸ h.two_le
  stamps p := by
    rw [hcursor, hlag, hcapacity, hseq]
    exact h.stamps p

theorem committed {c : OmBusMpClaim} (hseq : (s.ring.slot c.sequence).seq = c.sequence)
    (claims : List OmBusMpClaim) (commits : Nat → Option Bool) :
    LapInv { s with
      ring := s.ring.setSlot c.sequence { s.ring.slot c.sequence with seq := c.sequence + 1 }
      claims := claims, commits := commits } := by
  have htwo := h.two_le
  refine ⟨h.pow, h.mask, h.two_le, fun p hp hlt => ?_⟩
  by_cases hidx : p &&& s.ring.mask = c.sequence &&& s.ring.mask
  · have hslot : s.ring.slot p = s.ring.slot c.sequence := congrArg s.ring.slots hidx
    rw [h.mask, land_mask h.pow, land_mask h.pow] at hidx
    have hstamp := h.stamps p hp hlt
    rw [hslot, hseq] at hstamp
    have hpc : p = c.sequence := eq_of_mod_eq hidx (by omega) (by omega)
    rw [hpc]
    exact .inr (congrArg OmBusMpSlot.seq setSlot_slot_self)
  · have hslot : (s.ring.setSlot c.sequence
        { s.ring.slot c.sequence with seq := c.sequence + 1 }).slot p = s.ring.slot p :=
      Function.update_of_ne hidx ..
    change ((s.ring.setSlot c.sequence _).slot p).seq = p ∨ _
    rw [hslot]
    exact h.stamps p hp hlt

theorem release (hlag : s.poll.lag = 0) (call : PollCall) (result : OmBusMpPollResult)
    (record : OmBusMpRecord) : LapInv (s.releaseSlot call result record) :=
  ⟨h.pow, h.mask, h.two_le, released_stamps h.pow h.mask rfl fun p hp hlt =>
    h.stamps p (hlag.symm ▸ hp) (hlag.symm ▸ hlt)⟩

theorem step {a : MpAction} (hs : s.step a = some s') : LapInv s' := by
  have hstamps := h.stamps
  cases step_moves hs with
  | same => exact h
  | claim | loadPos | free | full | again | exchange | late =>
    exact h.frame rfl rfl rfl rfl fun _ => rfl
  | fill | write => exact h.frame rfl rfl rfl rfl fun _ => setSlot_slot_congr OmBusMpSlot.seq rfl
  | committed _ hseq => exact h.committed hseq _ _
  | look hlag hpc => exact h.frame rfl rfl rfl (hpc.lag.trans hlag.symm) fun _ => rfl
  | take hpc | read hpc => exact h.frame rfl rfl rfl (by rw [hpc]; rfl) fun _ => rfl
  | release hpc | skip hpc => exact h.release (by rw [hpc]; rfl) _ _ _
  | advance hpc hlooks =>
    rw [hpc] at hstamps
    exact ⟨h.pow, h.mask, h.two_le, by rw [hlooks.lag]; exact hstamps⟩

theorem crash_step {a : MpCrashAction} (hok : crashesWhole s a)
    (hs : s.crashStep a = some s') : LapInv s' := by
  cases a with
  | act a => exact h.step hs
  | crash =>
    cases hs
    have hlag : s.poll.lag = 0 := by
      have hne : s.poll.lag ≠ 1 := hok rfl
      have hle := s.poll.lag_le
      omega
    exact h.frame rfl rfl rfl hlag.symm fun _ => rfl

/-- After a crash the slot at the cursor is in order unless it was already released. -/
theorem atCursor_crash_iff : s.crash.AtCursor ↔ ¬s.BetweenStores := by
  have htwo := h.two_le
  have hle := s.poll.lag_le
  constructor
  · intro hat hbetween
    have hlag : s.poll.lag = 1 := hbetween
    have hstamp := h.stamps (s.ring.dequeuePos + s.ring.capacity) (by omega) (by omega)
    rw [slot_add_capacity h.pow h.mask] at hstamp
    have hat : (s.ring.slot s.ring.dequeuePos).seq = s.ring.dequeuePos ∨
        (s.ring.slot s.ring.dequeuePos).seq = s.ring.dequeuePos + 1 := hat
    omega
  · intro hwhole
    have hlag : s.poll.lag ≠ 1 := hwhole
    exact h.stamps s.ring.dequeuePos (by omega) (by omega)

theorem atCursor (hidle : s.poll = .idle) : s.AtCursor := by
  have htwo := h.two_le
  have hlag : s.poll.lag = 0 := by rw [hidle]; rfl
  exact h.stamps s.ring.dequeuePos (by omega) (by omega)

end LapInv

section Passes

variable {s : MpState}

theorem advance_returns (hpoll : s.poll = .advance .poll) :
    ∃ s', s.step (.consumer 0) = some s' ∧ s'.poll = .idle ∧
      s'.ring.dequeuePos = s.ring.dequeuePos + 1 := by
  refine ⟨{ unblock { s with ring := { s.ring with dequeuePos := s.ring.dequeuePos + 1 } } with
    poll := .idle }, ?_, rfl, rfl⟩
  simp only [step, consumerStep, hpoll]

theorem passes_committed (hidle : s.poll = .idle)
    (hseq : (s.ring.slot s.ring.dequeuePos).seq = s.ring.dequeuePos + 1) : s.Passes := by
  let record := recordOf s.ring s.ring.dequeuePos .poll
  let taken : MpState := { s with poll := .release .poll record }
  have hstart : s.step .poll = some { s with poll := .check .poll } := if_pos hidle
  have hcheck : step { s with poll := .check .poll } (.consumer 0) =
      some { s with poll := .take .poll } := if_pos hseq
  have htake : step { s with poll := .take .poll } (.consumer 0) = some taken := rfl
  have hrelease : taken.step (.consumer 0) = some (taken.releaseSlot .poll .record record) := rfl
  obtain ⟨s', hadvance, hback, hpos⟩ := advance_returns (s := taken.releaseSlot .poll .record record) rfl
  refine ⟨pollCall, by simp [pollCall], s', ?_, hback, hpos⟩
  exact (runActions_cons hstart _).trans <| (runActions_cons hcheck _).trans <|
    (runActions_cons htake _).trans <| (runActions_cons hrelease _).trans (runActions_cons hadvance _)

theorem poll_enqueued (hidle : s.poll = .idle)
    (hseq : (s.ring.slot s.ring.dequeuePos).seq = s.ring.dequeuePos) (calls : List MpAction) :
    runActions step s (.poll :: .consumer 0 :: calls) =
      runActions step { s with poll := .enqueued } calls := by
  have hne : (s.ring.slot s.ring.dequeuePos).seq ≠ s.ring.dequeuePos + 1 := by omega
  have hstart : s.step .poll = some { s with poll := .check .poll } := if_pos hidle
  have hcheck : step { s with poll := .check .poll } (.consumer 0) =
      some { s with poll := .enqueued } := (if_neg hne).trans (if_pos hseq)
  exact (runActions_cons hstart _).trans (runActions_cons hcheck _)

theorem passes_overdue (hidle : s.poll = .idle)
    (hseq : (s.ring.slot s.ring.dequeuePos).seq = s.ring.dequeuePos)
    (hclaimed : s.ring.dequeuePos < s.ring.enqueuePos)
    (hblocked : s.blockedSequence = some s.ring.dequeuePos) : s.Passes := by
  have hover : ¬s.ring.skipTimeoutNs + s.blockedSinceNs - s.blockedSinceNs <
      s.ring.skipTimeoutNs := by
    rw [UInt64.add_sub_cancel]
    exact UInt64.lt_irrefl _
  let record : OmBusMpRecord := ⟨s.ring.dequeuePos, 2 ^ 32 - 1, 0, .null⟩
  let skipping : MpState := { s with poll := .skip }
  have hwait : step { s with poll := .enqueued }
      (.consumer (s.ring.skipTimeoutNs + s.blockedSinceNs)) = some skipping :=
    (if_neg (Nat.not_le.mpr hclaimed)).trans ((if_neg (not_not.mpr hblocked)).trans (if_neg hover))
  have hskip : skipping.step (.consumer 0) = some (skipping.releaseSlot .poll .skipped record) :=
    if_pos hseq
  obtain ⟨s', hadvance, hback, hpos⟩ :=
    advance_returns (s := skipping.releaseSlot .poll .skipped record) rfl
  refine ⟨[.poll, .consumer 0, .consumer (s.ring.skipTimeoutNs + s.blockedSinceNs), .consumer 0,
    .consumer 0], by simp, s', ?_, hback, hpos⟩
  exact (poll_enqueued hidle hseq _).trans <|
    (runActions_cons hwait _).trans <| (runActions_cons hskip _).trans (runActions_cons hadvance _)

/-- A committed record is delivered; a position that is claimed and not committed is given up
once the time-out is over. -/
theorem passes_of_atCursor (hat : s.AtCursor) (hidle : s.poll = .idle)
    (hclaimed : s.ring.dequeuePos < s.ring.enqueuePos) : s.Passes := by
  rcases hat with hfree | hcommitted
  · by_cases hblocked : s.blockedSequence = some s.ring.dequeuePos
    · exact passes_overdue hidle hfree hclaimed hblocked
    · -- the first poll starts the wait
      let waiting : MpState := { s with
        blockedSequence := some s.ring.dequeuePos, blockedSinceNs := 0, poll := .idle }
      have hwait : step { s with poll := .enqueued } (.consumer 0) = some waiting :=
        (if_neg (Nat.not_le.mpr hclaimed)).trans (if_pos hblocked)
      obtain ⟨calls, hcalls, s', hrun, hback, hpos⟩ :=
        passes_overdue (s := waiting) rfl hfree hclaimed rfl
      refine ⟨.poll :: .consumer 0 :: .consumer 0 :: calls, by simpa using hcalls, s', ?_, hback, hpos⟩
      exact (poll_enqueued hidle hfree _).trans ((runActions_cons hwait _).trans hrun)
  · exact passes_committed hidle hcommitted

end Passes

/-- As long as the consumer does not crash between the two stores that settle a position, the
slot at its cursor is in order and polls get past it; a crash between them leaves a slot that
is not. -/
theorem mp_crash_keeps_cursor {config : OmBusMpConfig} {ring : OmBusMp} {s : MpState}
    (hinit : ombusMpInit config = .ok ring) (hcap : 2 ≤ config.capacity)
    (hrun : Runs crashStep crashesWhole (.start ring) s) :
    (s.poll = .idle → s.AtCursor ∧ (s.ring.dequeuePos < s.ring.enqueuePos → s.Passes)) ∧
      (s.crash.AtCursor ↔ ¬s.BetweenStores) := by
  have h : LapInv s := hrun.invariant (P := LapInv) (LapInv.start hinit hcap)
    fun _ _ _ h hok hs => h.crash_step hok hs
  refine ⟨fun hidle => ?_, h.atCursor_crash_iff⟩
  have hat := h.atCursor hidle
  exact ⟨hat, passes_of_atCursor hat hidle⟩

/-- A record is committed, and the consumer crashes after `n` steps of its poll. -/
def crashInPoll (n : Nat) : List MpCrashAction :=
  let calls : List MpAction :=
    claimCall 0 0 1 ++ [.commit ⟨0, 0, 1⟩, .poll] ++ List.replicate n (.consumer 0)
  calls.map .act ++ [.crash]

/-- The consumer crashes while it looks at a committed record; the next one delivers it. -/
theorem mp_crash_keeps_cursor_small :
    ombusMpInit ⟨2, 64, 4, 1⟩ = .ok (smallBusMp 2) ∧ (2 : Nat) ≤ 2 ∧
    ∃ s, Runs crashStep crashesWhole (.start (smallBusMp 2)) s ∧ s.poll = .idle ∧
      s.ring.dequeuePos < s.ring.enqueuePos ∧ s.AtCursor ∧ s.Passes := by
  have hinit : ombusMpInit ⟨2, 64, 4, 1⟩ = .ok (smallBusMp 2) := rfl
  obtain ⟨s, hrun, hidle, hlt⟩ := exists_runs crashStep crashesWhole
    (.start (smallBusMp 2))
    (crashInPoll 2)
    (fun s => s.poll = .idle ∧ s.ring.dequeuePos < s.ring.enqueuePos)
    (by decide +kernel) (by decide +kernel)
  obtain ⟨hat, hpass⟩ := (mp_crash_keeps_cursor hinit (by decide) hrun).1 hidle
  exact ⟨hinit, by decide, s, hrun, hidle, hlt, hat, hpass hlt⟩

/-- The consumer crashes after it has released the slot of position 0 and before it moves its
cursor to 1: the slot at the cursor has the stamp of the next lap. -/
theorem mp_crash_wedges :
    ombusMpInit ⟨2, 64, 4, 1⟩ = .ok (smallBusMp 2) ∧
    ∃ s, Runs crashStep anyAction (.start (smallBusMp 2)) s ∧ s.poll = .idle ∧
      s.ring.dequeuePos = 0 ∧ (s.ring.slot 0).seq = 2 ∧ ¬s.AtCursor :=
  ⟨rfl, exists_runs crashStep anyAction (.start (smallBusMp 2))
    (crashInPoll 3)
    (fun s => s.poll = .idle ∧ s.ring.dequeuePos = 0 ∧ (s.ring.slot 0).seq = 2 ∧ ¬s.AtCursor)
    (by decide +kernel) (by decide +kernel)⟩

end VeloxMatch
