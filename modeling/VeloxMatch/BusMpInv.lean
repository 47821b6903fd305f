import VeloxMatch.BusMp

namespace VeloxMatch

open MpState OmBusMp Function

def OmBusMpSlot.header (slot : OmBusMpSlot) : OmBusMpClaim :=
  ⟨slot.sequence, slot.producerId, slot.payloadLen⟩

def OmBusMpRecord.header (record : OmBusMpRecord) : OmBusMpClaim :=
  ⟨record.sequence, record.producerId, record.payloadLen⟩

def PollPc.lag : PollPc → Nat
  | .advance _ => 1
  | _ => 0

def MpState.released (s : MpState) : Nat := s.reports.length

def stampOf (commits : Nat → Option Bool) (p : Nat) : Nat :=
  if commits p = some true then p + 1 else p

/-- The call that claimed the position has returned, and the position may be delivered. -/
def MpState.Returned (s : MpState) (p : Nat) : Prop :=
  s.commits p = some true ∨ ∃ c ∈ s.claims, c.sequence = p

def ClaimPcOk (ring : OmBusMp) (released : Nat) (commits : Nat → Option Bool)
    (claims : List OmBusMpClaim) : ClaimPc → Prop
  | .idle => True
  | .loadPos _ len => len ≤ ring.maxPayload
  | .loadSeq _ len pos => len ≤ ring.maxPayload ∧ pos ≤ ring.enqueuePos
  | .exchange _ len pos => len ≤ ring.maxPayload ∧ pos ≤ ring.enqueuePos ∧
      pos < released + ring.capacity
  | .fill _ len pos => len ≤ ring.maxPayload ∧ released ≤ pos ∧ pos < ring.enqueuePos ∧
      commits pos = none ∧ ∀ c ∈ claims, c.sequence ≠ pos

def PollPcOk (commits : Nat → Option Bool) (claimed : Nat → OmBusMpClaim) (pos : Nat) :
    PollPc → Prop
  | .take _ => commits pos = some true
  | .release _ record => commits pos = some true ∧ record.header = claimed pos
  | _ => True

structure ReportOk (commits : Nat → Option Bool) (claimed : Nat → OmBusMpClaim) (p : Nat)
    (r : MpReport) : Prop where
  record : r.result = .record → commits p = some true ∧ r.record.header = claimed p
  skipped : r.result = .skipped → commits p ≠ some true ∧ r.record.sequence = p

structure MpInv (s : MpState) : Prop where
  two_le : 2 ≤ s.ring.capacity
  pow : isPowerOfTwo s.ring.capacity = true
  mask : s.ring.mask = s.ring.capacity - 1
  cursor : s.ring.dequeuePos + s.poll.lag = s.released
  low : s.released ≤ s.ring.enqueuePos
  high : s.ring.enqueuePos ≤ s.released + s.ring.capacity
  stamps : ∀ p, s.released ≤ p → p < s.released + s.ring.capacity →
    (s.ring.slot p).seq = stampOf s.commits p
  future : ∀ p, s.ring.enqueuePos ≤ p → s.commits p = none
  poisoned : ∀ p, s.commits p = some false → p < s.released
  threads : ∀ t, ClaimPcOk s.ring s.released s.commits s.claims (s.threads t)
  fills : ∀ t u pid len pid' len' p, s.threads t = .fill pid len p →
    s.threads u = .fill pid' len' p → t = u
  nodup : s.claims.Nodup
  claims : ∀ c ∈ s.claims, s.claimed c.sequence = c ∧ s.commits c.sequence = none ∧
    c.sequence < s.ring.enqueuePos
  claimed : ∀ p, s.Returned p →
    (s.claimed p).sequence = p ∧ (s.claimed p).payloadLen ≤ s.ring.maxPayload
  slots : ∀ p, s.released ≤ p → s.Returned p → (s.ring.slot p).header = s.claimed p
  reports : ∀ p r, s.reports[p]? = some r → ReportOk s.commits s.claimed p r
  poll : PollPcOk s.commits s.claimed s.ring.dequeuePos s.poll

/-- The consumer gives up only on positions whose claim has returned to its caller. -/
def skipsReturned (s : MpState) : MpAction → Prop
  | .consumer _ => s.poll = .skip → (s.ring.slot s.ring.dequeuePos).seq = s.ring.dequeuePos →
      ∃ c ∈ s.claims, c.sequence = s.ring.dequeuePos
  | _ => True

instance (s : MpState) (a : MpAction) : Decidable (skipsReturned s a) := by
  induction a using MpAction.casesOn <;> dsimp only [skipsReturned] <;> infer_instance

section Slots

variable {ring : OmBusMp} {p q : Nat} {slot : OmBusMpSlot}

@[simp] theorem setSlot_slot_self : (ring.setSlot p slot).slot p = slot := by
  simp [OmBusMp.setSlot, OmBusMp.slot]

theorem setSlot_slot_ne (hpow : isPowerOfTwo ring.capacity = true)
    (hmask : ring.mask = ring.capacity - 1) (hne : p ≠ q) (hp : p < q + ring.capacity)
    (hq : q < p + ring.capacity) : (ring.setSlot q slot).slot p = ring.slot p := by
  have hidx : p &&& ring.mask ≠ q &&& ring.mask := by
    rw [hmask, land_mask hpow, land_mask hpow]
    exact fun he => hne (eq_of_mod_eq he hp hq)
  simp only [OmBusMp.setSlot, OmBusMp.slot, update_of_ne hidx]

theorem slot_add_capacity (hpow : isPowerOfTwo ring.capacity = true)
    (hmask : ring.mask = ring.capacity - 1) : ring.slot (p + ring.capacity) = ring.slot p := by
  simp only [slot, hmask, land_mask hpow, Nat.add_mod_right]

end Slots

theorem le_stampOf (commits : Nat → Option Bool) (p : Nat) : p ≤ stampOf commits p := by
  unfold stampOf
  split <;> omega

theorem stampOf_le (commits : Nat → Option Bool) (p : Nat) : stampOf commits p ≤ p + 1 := by
  unfold stampOf
  split <;> omega

variable {commits : Nat → Option Bool} {p : Nat} {pc : PollPc}

theorem stampOf_eq_self : stampOf commits p = p ↔ commits p ≠ some true := by
  unfold stampOf
  split <;> simp_all

theorem stampOf_eq_succ : stampOf commits p = p + 1 ↔ commits p = some true := by
  unfold stampOf
  split <;> simp_all

namespace MpInv

variable {s : MpState}

theorem start {config : OmBusMpConfig} {ring : OmBusMp} (hinit : ombusMpInit config = .ok ring)
    (hcap : 2 ≤ config.capacity) : MpInv (start ring) := by
  have hvalid : ombusMpValidateConfig config = none := by
    cases h : ombusMpValidateConfig config with
    | none => rfl
    | some err => simp [ombusMpInit, h] at hinit
  have hpow : isPowerOfTwo config.capacity = true := by
    cases hp : isPowerOfTwo config.capacity with
    | true => rfl
    | false => simp [ombusMpValidateConfig, hp] at hvalid
  simp only [ombusMpInit, hvalid, Except.ok.injEq] at hinit
  subst hinit
  refine
    { two_le := hcap, pow := hpow, mask := rfl, cursor := rfl, low := Nat.le_refl _
      high := Nat.zero_le _, stamps := ?_, future := fun _ _ => rfl, poisoned := ?_
      threads := fun _ => trivial, fills := ?_, nodup := List.nodup_nil, claims := ?_
      claimed := ?_, slots := ?_, reports := ?_, poll := trivial }
  · intro p _ hp
    have hp : p < config.capacity := by simpa [MpState.start, MpState.released] using hp
    simp [MpState.start, slot, stampOf, land_mask hpow, Nat.mod_eq_of_lt hp]
  · intro p hp
    simp [MpState.start] at hp
  · intro t u pid len pid' len' p ht
    simp [MpState.start] at ht
  · intro c hc
    simp [MpState.start] at hc
  · rintro p (hp | ⟨c, hc, -⟩)
    · simp [MpState.start] at hp
    · simp [MpState.start] at hc
  · rintro p - (hp | ⟨c, hc, -⟩)
    · simp [MpState.start] at hp
    · simp [MpState.start] at hc
  · intro p r hr
    simp [MpState.start] at hr

theorem setThread (h : MpInv s) (t : Nat) {pc : ClaimPc}
    (hpc : ClaimPcOk s.ring s.released s.commits s.claims pc)
    (hfill : ∀ pid len p, pc ≠ .fill pid len p) : MpInv (s.setThread t pc) :=
  { h with
    threads := fun u => by
      by_cases hu : u = t
      · subst hu
        simp only [MpState.setThread, update_self]
        exact hpc
      · simp only [MpState.setThread, update_of_ne hu]
        exact h.threads u
    fills := fun u v pid len pid' len' p hu hv => by
      have hne : ∀ w pid len, (s.setThread t pc).threads w = .fill pid len p → w ≠ t := by
        rintro w pid len hw rfl
        exact hfill pid len p (by simpa [MpState.setThread] using hw)
      have hut := hne u pid len hu
      have hvt := hne v pid' len' hv
      simp only [MpState.setThread, update_of_ne hut] at hu
      simp only [MpState.setThread, update_of_ne hvt] at hv
      exact h.fills u v pid len pid' len' p hu hv }

theorem setPoll (h : MpInv s) {pc : PollPc} (b : Option Nat) (since : UInt64)
    (hlag : pc.lag = s.poll.lag) (hpc : PollPcOk s.commits s.claimed s.ring.dequeuePos pc) :
    MpInv { s with poll := pc, blockedSequence := b, blockedSinceNs := since } :=
  { h with
    cursor := (congrArg (s.ring.dequeuePos + ·) hlag).trans h.cursor
    poll := hpc }

end MpInv

def PollPc.Looks : PollPc → Prop
  | .idle | .check _ | .enqueued | .skip => True
  | _ => False

theorem PollPc.Looks.lag (h : pc.Looks) : pc.lag = 0 := by
  cases pc <;> first | rfl | cases h

theorem PollPc.Looks.pollPcOk (h : pc.Looks) {claimed : Nat → OmBusMpClaim}
    {pos : Nat} : PollPcOk commits claimed pos pc := by
  cases pc <;> trivial

/-- Everything a step of the ring can do. -/
inductive MpMove (s : MpState) : MpAction → MpState → Prop where
  | same {a : MpAction} : MpMove s a s
  | claim {a : MpAction} {t pid len : Nat} (hlen : len ≤ s.ring.maxPayload) :
      MpMove s a (s.setThread t (.loadPos pid len))
  | loadPos {a : MpAction} {t pid len : Nat} (ht : s.threads t = .loadPos pid len) :
      MpMove s a (s.setThread t (.loadSeq pid len s.ring.enqueuePos))
  | free {a : MpAction} {t pid len pos : Nat} (ht : s.threads t = .loadSeq pid len pos)
      (hseq : (s.ring.slot pos).seq = pos) : MpMove s a (s.setThread t (.exchange pid len pos))
  | full {a : MpAction} {t : Nat} : MpMove s a (s.setThread t .idle)
  | again {a : MpAction} {t pid len pos : Nat}
      (ht : s.threads t = .loadSeq pid len pos ∨ s.threads t = .exchange pid len pos) :
      MpMove s a (s.setThread t (.loadPos pid len))
  | exchange {a : MpAction} {t pid len pos : Nat} (ht : s.threads t = .exchange pid len pos)
      (hpos : s.ring.enqueuePos = pos) :
      MpMove s a { s.setThread t (.fill pid len pos) with
        ring := { s.ring with enqueuePos := pos + 1 } }
  | fill {a : MpAction} {t pid len pos : Nat} (ht : s.threads t = .fill pid len pos) :
      MpMove s a ((s.fillClaim pid len pos).setThread t .idle)
  | write {c : OmBusMpClaim} {offset : Nat} {bytes : List UInt8} (hc : c ∈ s.claims) :
      MpMove s (.write c offset bytes)
        { s with
          ring := s.ring.setSlot c.sequence { s.ring.slot c.sequence with
            payload := writeAt (s.ring.slot c.sequence).payload offset bytes }
          contents := Function.update s.contents c.sequence
            (writeAt (s.contents c.sequence) offset bytes) }
  | committed {a : MpAction} {c : OmBusMpClaim} (hc : c ∈ s.claims)
      (hseq : (s.ring.slot c.sequence).seq = c.sequence) :
      MpMove s a
        { s with
          ring := s.ring.setSlot c.sequence
            { s.ring.slot c.sequence with seq := c.sequence + 1 }
          claims := s.claims.erase c
          commits := Function.update s.commits c.sequence (some true) }
  | late {a : MpAction} {c : OmBusMpClaim} (hc : c ∈ s.claims)
      (hseq : (s.ring.slot c.sequence).seq ≠ c.sequence) :
      MpMove s a
        { s with
          claims := s.claims.erase c
          commits := Function.update s.commits c.sequence (some false) }
  | look {a : MpAction} {pc : PollPc} {b : Option Nat} {since : UInt64} (hlag : s.poll.lag = 0)
      (hpc : pc.Looks) :
      MpMove s a { s with poll := pc, blockedSequence := b, blockedSinceNs := since }
  | take {a : MpAction} {call : PollCall} (hpoll : s.poll = .check call)
      (hseq : (s.ring.slot s.ring.dequeuePos).seq = s.ring.dequeuePos + 1) :
      MpMove s a { s with poll := .take call }
  | read {a : MpAction} {call : PollCall} (hpoll : s.poll = .take call) :
      MpMove s a { s with poll := .release call (recordOf s.ring s.ring.dequeuePos call) }
  | release {a : MpAction} {call : PollCall} {record : OmBusMpRecord}
      (hpoll : s.poll = .release call record) : MpMove s a (s.releaseSlot call .record record)
  | skip {now : UInt64} (hpoll : s.poll = .skip)
      (hseq : (s.ring.slot s.ring.dequeuePos).seq = s.ring.dequeuePos) :
      MpMove s (.consumer now)
        (s.releaseSlot .poll .skipped ⟨s.ring.dequeuePos, 2 ^ 32 - 1, 0, .null⟩)
  | advance {a : MpAction} {call : PollCall} {pc : PollPc} {b : Option Nat} {since : UInt64}
      (hpoll : s.poll = .advance call) (hpc : pc.Looks) :
      MpMove s a
        { s with
          ring := { s.ring with dequeuePos := s.ring.dequeuePos + 1 }
          poll := pc
          blockedSequence := b
          blockedSinceNs := since }

section Moves

variable {s s' : MpState}

theorem threadStep_moves {t : Nat} {spurious : Bool} (hs : s.threadStep t spurious = some s') :
    MpMove s (.thread t spurious) s' := by
  unfold threadStep at hs
  cases hpc : s.threads t with
  | idle => simp [hpc] at hs
  | loadPos pid len =>
    simp only [hpc, Option.some.injEq] at hs
    exact hs ▸ .loadPos hpc
  | loadSeq pid len pos =>
    simp only [hpc] at hs
    split at hs
    · next hseq =>
      cases hs
      exact .free hpc hseq
    split at hs
    · cases hs
      exact .full
    · cases hs
      exact .again (.inl hpc)
  | exchange pid len pos =>
    simp only [hpc] at hs
    split at hs
    · next hpos =>
      cases hs
      exact .exchange hpc hpos.1
    · cases hs
      exact .again (.inr hpc)
  | fill pid len pos =>
    simp only [hpc, Option.some.injEq] at hs
    exact hs ▸ .fill hpc

theorem consumerStep_moves {now : UInt64} (hs : s.consumerStep now = some s') :
    MpMove s (.consumer now) s' := by
  unfold consumerStep at hs
  cases hpc : s.poll with
  | idle => simp [hpc] at hs
  | check call =>
    have hlag : s.poll.lag = 0 := by rw [hpc]; rfl
    cases call with
    | pollBatch left count =>
      simp only [hpc] at hs
      split at hs
      · next hseq =>
        cases hs
        exact .take hpc hseq.2
      split at hs
      · cases hs
        exact .look hlag trivial
      · cases hs
        exact .look hlag trivial
    | poll | pollCopy capacity =>
      simp only [hpc] at hs
      split at hs
      · next hseq =>
        cases hs
        exact .take hpc hseq
      split at hs
      · cases hs
        exact .look hlag trivial
      · cases hs
        exact .look hlag trivial
  | take call =>
    simp only [hpc, Option.some.injEq] at hs
    exact hs ▸ .read hpc
  | release call record =>
    simp only [hpc, Option.some.injEq] at hs
    exact hs ▸ .release hpc
  | enqueued =>
    have hlag : s.poll.lag = 0 := by rw [hpc]; rfl
    simp only [hpc] at hs
    split at hs
    · cases hs
      exact .look hlag trivial
    split at hs
    · cases hs
      exact .look hlag trivial
    split at hs
    · cases hs
      exact .look hlag trivial
    · cases hs
      exact .look hlag trivial
  | skip =>
    simp only [hpc] at hs
    split at hs
    · next hseq =>
      cases hs
      exact .skip hpc hseq
    · cases hs
      exact .look (by rw [hpc]; rfl) trivial
  | advance call =>
    simp only [hpc] at hs
    cases call with
    | pollBatch left count =>
      cases hs
      exact .advance hpc trivial
    | poll | pollCopy capacity =>
      cases hs
      exact .advance hpc trivial

theorem step_moves {a : MpAction} (hs : s.step a = some s') : MpMove s a s' := by
  have hidle : s.poll = .idle → s.poll.lag = 0 := fun hpc => by rw [hpc]; rfl
  cases a with
  | claim t pid len =>
    simp only [MpState.step] at hs
    split at hs
    · split at hs
      · cases hs
        exact .same
      · next hlen =>
        cases hs
        exact .claim (Nat.le_of_not_lt hlen)
    · cases hs
  | thread t spurious => exact threadStep_moves hs
  | write c offset bytes =>
    obtain ⟨hc, hs⟩ := Option.ite_none_right_eq_some.mp hs
    cases hs
    exact .write hc
  | commit c =>
    obtain ⟨hc, hs⟩ := Option.ite_none_right_eq_some.mp hs
    dsimp only at hs
    split at hs
    · next hseq =>
      cases hs
      exact .committed hc hseq
    · next hseq =>
      cases hs
      exact .late hc hseq
  | poll =>
    obtain ⟨hpc, hs⟩ := Option.ite_none_right_eq_some.mp hs
    cases hs
    exact .look (hidle hpc) trivial
  | pollCopy capacity =>
    obtain ⟨hpc, hs⟩ := Option.ite_none_right_eq_some.mp hs
    split at hs
    · cases hs
      exact .same
    · cases hs
      exact .look (hidle hpc) trivial
  | pollBatch maxRecords =>
    obtain ⟨hpc, hs⟩ := Option.ite_none_right_eq_some.mp hs
    cases hs
    exact .look (hidle hpc) trivial
  | consumer now => exact consumerStep_moves hs

end Moves

end VeloxMatch
