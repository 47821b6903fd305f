import VeloxMatch.MarketRing

namespace VeloxMatch

open RingState Function List

/-- `out` are the entries of `log` from position `a` up to position `b`. -/
structure Between (log : List Nat) (a b : Nat) (out : List Nat) : Prop where
  le : a ≤ b
  le_length : b ≤ log.length
  take_eq : log.take b = log.take a ++ out

section Between

variable {log out : List Nat} {a b v : Nat}

theorem Between.refl (h : a ≤ log.length) : Between log a a [] := ⟨Nat.le_refl a, h, by simp⟩

theorem Between.grow (h : Between log a b out) (v : Nat) : Between (log ++ [v]) a b out := by
  have hb := h.le_length
  have ha := h.le
  refine ⟨ha, by rw [length_append]; omega, ?_⟩
  rw [take_append_of_le_length hb, take_append_of_le_length (by omega), h.take_eq]

theorem Between.next (h : Between log a b out) (hv : log[b]? = some v) :
    Between log a (b + 1) (out ++ [v]) := by
  obtain ⟨hb, -⟩ := List.getElem?_eq_some_iff.mp hv
  refine ⟨by have := h.le; omega, hb, ?_⟩
  rw [take_add_one, hv, h.take_eq, Option.toList_some, append_assoc]

end Between

def ProducerOk (ring : OmMarketRing) (log : List Nat) : EnqueuePc → Prop
  | .idle => ring.head = log.length
  | .pressure _ head _ => head = log.length ∧ ring.head = log.length
  | .scan _ head _ next m => head = log.length ∧ ring.head = log.length ∧
      ∀ j, j < next → m ≤ ring.consumerTails j
  | .waitSlot _ head => head = log.length ∧ ring.head = log.length ∧
      ∀ j, j < ring.consumerCount → log.length < ring.consumerTails j + ring.capacity
  | .writePtr _ head => head = log.length ∧ ring.head = log.length ∧
      (∀ j, j < ring.consumerCount → log.length < ring.consumerTails j + ring.capacity) ∧
      (ring.slots (head &&& ring.mask)).seq = head
  | .stamp ptr head => head = log.length ∧ ring.head = log.length ∧
      (∀ j, j < ring.consumerCount → log.length < ring.consumerTails j + ring.capacity) ∧
      ring.slots (head &&& ring.mask) = ⟨head, ptr⟩
  | .advance head => head + 1 = log.length ∧ ring.head = head

def ConsumerOk (tails : Nat → Nat) (log : List Nat) (i : Nat) : DequeuePc → Prop
  | .idle => True
  | .check tail out left => Between log (tails i) tail out ∧ left ≠ 0
  | .take tail out left => Between log (tails i) tail out ∧ left ≠ 0 ∧ tail < log.length
  | .store tail out => Between log (tails i) tail out
  | .cached _ _ => True
  | .scan next m => ∀ j, j < next → m ≤ tails j

/-- The slots as the stamped pointers left them, but for a pointer that is written and not yet
stamped. -/
def SlotsOk (ring : OmMarketRing) (log : List Nat) (pc : EnqueuePc) : Prop :=
  ∃ cells, Stamped ring.capacity log cells ∧ (∀ i, (ring.slots i).seq = (cells i).seq) ∧
    ∀ i, (ring.slots i).value ≠ (cells i).value →
      i = log.length % ring.capacity ∧ ∃ ptr, pc = .stamp ptr log.length

/-- The ring, the calls in progress and what was enqueued and received fit together. -/
structure RingInv (s : RingState) : Prop where
  pow : isPowerOfTwo s.ring.capacity = true
  mask : s.ring.mask = s.ring.capacity - 1
  slots : SlotsOk s.ring s.enqueued s.producer
  producer : ProducerOk s.ring s.enqueued s.producer
  consumers : ∀ i, i < s.ring.consumerCount →
    ConsumerOk s.ring.consumerTails s.enqueued i (s.consumers i)
  noConsumer : ∀ i, s.ring.consumerCount ≤ i → s.consumers i = .idle
  tails : ∀ i, i < s.ring.consumerCount → s.ring.consumerTails i ≤ s.enqueued.length ∧
    s.enqueued.length ≤ s.ring.consumerTails i + s.ring.capacity ∧
    s.ring.minTail ≤ s.ring.consumerTails i
  received : ∀ i, i < s.ring.consumerCount →
    s.received i = s.enqueued.take (s.ring.consumerTails i)

section Slots

variable {s : RingState}

theorem RingInv.index (h : RingInv s) (n : Nat) : n &&& s.ring.mask = n % s.ring.capacity := by
  rw [h.mask, land_mask h.pow]

theorem RingInv.seq_iff (h : RingInv s) {t : Nat} :
    (s.ring.slots (t &&& s.ring.mask)).seq = t + 1 ↔
      t < s.enqueued.length ∧ s.enqueued.length ≤ t + s.ring.capacity := by
  obtain ⟨cells, hst, hseq, -⟩ := h.slots
  rw [h.index, hseq]
  exact hst.seq_eq_iff (isPowerOfTwo_pos h.pow)

theorem RingInv.next_seq_iff (h : RingInv s) :
    (s.ring.slots (s.enqueued.length &&& s.ring.mask)).seq = s.enqueued.length ↔
      s.ring.capacity = 1 ∨ s.enqueued.length < s.ring.capacity := by
  obtain ⟨cells, hst, hseq, -⟩ := h.slots
  have hpos := isPowerOfTwo_pos h.pow
  rw [h.index, hseq]
  by_cases hlap : s.enqueued.length < s.ring.capacity
  · rw [Nat.mod_eq_of_lt hlap, hst.untouched _ hlap (Nat.le_refl _)]
    simp [hlap]
  · -- the slot holds the pointer of one lap before
    have hprev : s.enqueued.length - s.ring.capacity < s.enqueued.length := by omega
    have hcell := hst.retained _ _ (getElem?_eq_getElem hprev) (by omega)
    have hmod : (s.enqueued.length - s.ring.capacity) % s.ring.capacity =
        s.enqueued.length % s.ring.capacity := by
      rw [← Nat.mod_eq_sub_mod (by omega)]
    rw [hmod] at hcell
    rw [hcell]
    simp only
    omega

theorem RingInv.value_eq (h : RingInv s) {i tail : Nat} (hi : i < s.ring.consumerCount)
    (hle : s.ring.consumerTails i ≤ tail) (hlt : tail < s.enqueued.length) :
    s.enqueued[tail]? = some (s.ring.slots (tail &&& s.ring.mask)).value := by
  obtain ⟨cells, hst, -, hvalue⟩ := h.slots
  obtain ⟨-, hlap, -⟩ := h.tails i hi
  have hget := getElem?_eq_getElem hlt
  have hcell := hst.value_eq hget (by omega)
  rw [h.index, hget, ← hcell]
  by_contra hne
  obtain ⟨hidx, ptr, hpc⟩ := hvalue _ fun he => hne (by rw [he])
  have hprod := h.producer
  rw [hpc] at hprod
  have hroom := hprod.2.2.1 i hi
  have := eq_of_mod_eq hidx (by omega) (by omega)
  omega

end Slots

section Step

variable {s s' : RingState} {i m ptr head : Nat} {ring : OmMarketRing} {pc : EnqueuePc}

theorem SlotsOk.of_quiet {log : List Nat} {pc' : EnqueuePc} (h : SlotsOk ring log pc)
    (hpc : ∀ ptr head, pc ≠ .stamp ptr head) : SlotsOk ring log pc' := by
  obtain ⟨cells, hst, hseq, hvalue⟩ := h
  refine ⟨cells, hst, hseq, fun i hne => ?_⟩
  obtain ⟨-, ptr, hstamp⟩ := hvalue i hne
  exact absurd hstamp (hpc ptr _)

theorem RingInv.setProducer (h : RingInv s) (hslots : SlotsOk s.ring s.enqueued pc)
    (hpc : ProducerOk s.ring s.enqueued pc) : RingInv { s with producer := pc } :=
  { h with slots := hslots, producer := hpc }

theorem RingInv.setConsumer {pc : DequeuePc} (h : RingInv s) (hi : i < s.ring.consumerCount)
    (hpc : ConsumerOk s.ring.consumerTails s.enqueued i pc) : RingInv (s.setConsumer i pc) :=
  { h with
    consumers := fun j hj => by
      by_cases hij : j = i
      · subst hij
        simp only [RingState.setConsumer, update_self]
        exact hpc
      · simp only [RingState.setConsumer, update_of_ne hij]
        exact h.consumers j hj
    noConsumer := fun j hj => by
      have hij : j ≠ i := by
        have : s.ring.consumerCount ≤ j := hj
        omega
      simp only [RingState.setConsumer, update_of_ne hij]
      exact h.noConsumer j hj }

variable {next : Nat}

theorem scanTail_le (h : ∀ j, j < next → m ≤ ring.consumerTails j) :
    ∀ j, j < next + 1 → scanTail ring next m ≤ ring.consumerTails j := by
  intro j hj
  have hm : scanTail ring next m ≤ m ∧ scanTail ring next m ≤ ring.consumerTails next := by
    unfold scanTail
    split <;> omega
  by_cases hlast : j = next
  · rw [hlast]
    exact hm.2
  · exact hm.1.trans (h j (by omega))

variable (h : RingInv s)
include h

theorem RingInv.setMinTail (hnext : ¬ next < s.ring.consumerCount)
    (hm : ∀ j, j < next → m ≤ s.ring.consumerTails j) :
    RingInv { s with ring := { s.ring with minTail := scanResult m } } :=
  { h with
    producer := by
      have hp := h.producer
      generalize s.producer = pc at hp ⊢
      cases pc <;> exact hp
    tails := fun i hi => by
      have hi' : i < s.ring.consumerCount := hi
      obtain ⟨h1, h2, -⟩ := h.tails i hi'
      have hmi := hm i (by omega)
      refine ⟨h1, h2, ?_⟩
      unfold scanResult
      split
      next => exact Nat.zero_le _
      next => exact hmi }

theorem RingInv.storeTail {tail : Nat} {out : List Nat} {pc : DequeuePc}
    (hi : i < s.ring.consumerCount) (hout : Between s.enqueued (s.ring.consumerTails i) tail out)
    (hpc : ∀ tails, ConsumerOk tails s.enqueued i pc) :
    RingInv { s.setConsumer i pc with
      ring := { s.ring with consumerTails := update s.ring.consumerTails i tail }
      received := update s.received i (s.received i ++ out) } := by
  have hle : ∀ j, s.ring.consumerTails j ≤ update s.ring.consumerTails i tail j := by
    intro j
    by_cases hj : j = i
    · rw [hj, update_self]
      exact hout.le
    · rw [update_of_ne hj]
  refine
    { pow := h.pow
      mask := h.mask
      slots := h.slots
      producer := ?_
      consumers := fun j hj => ?_
      noConsumer := (h.setConsumer hi (hpc _)).noConsumer
      tails := fun j hj => ?_
      received := fun j hj => ?_ }
  · have hp := h.producer
    simp only [RingState.setConsumer]
    generalize s.producer = pc' at hp ⊢
    cases pc' with
    | idle | pressure | advance => exact hp
    | scan => exact ⟨hp.1, hp.2.1, fun j hj => (hp.2.2 j hj).trans (hle j)⟩
    | waitSlot =>
      refine ⟨hp.1, hp.2.1, fun j hj => Nat.lt_of_lt_of_le (hp.2.2 j hj) ?_⟩
      exact Nat.add_le_add_right (hle j) _
    | writePtr | stamp =>
      refine ⟨hp.1, hp.2.1, fun j hj => Nat.lt_of_lt_of_le (hp.2.2.1 j hj) ?_, hp.2.2.2⟩
      exact Nat.add_le_add_right (hle j) _
  · by_cases hij : j = i
    · subst hij
      simp only [RingState.setConsumer, update_self]
      exact hpc _
    · have hc := h.consumers j hj
      simp only [RingState.setConsumer, update_of_ne hij]
      generalize s.consumers j = pc' at hc ⊢
      cases pc' with
      | idle | cached => exact hc
      | check | take | store => simpa only [ConsumerOk, update_of_ne hij] using hc
      | scan => exact fun k hk => (hc k hk).trans (hle k)
  · obtain ⟨h1, h2, h3⟩ := h.tails j hj
    refine ⟨?_, h2.trans (Nat.add_le_add_right (hle j) _), h3.trans (hle j)⟩
    by_cases hij : j = i
    · rw [hij]
      simp only [update_self]
      exact hout.le_length
    · simp only [update_of_ne hij]
      exact h1
  · by_cases hij : j = i
    · subst hij
      simp only [update_self]
      rw [h.received j hi]
      exact hout.take_eq.symm
    · simp only [update_of_ne hij]
      exact h.received j hj

theorem RingInv.consumerStep (hs : s.consumerStep i = some s') : RingInv s' := by
  have hi : i < s.ring.consumerCount := by
    by_contra hge
    simp [RingState.consumerStep, h.noConsumer i (Nat.le_of_not_lt hge)] at hs
  have hc := h.consumers i hi
  unfold RingState.consumerStep at hs
  cases hpc : s.consumers i with
  | idle => simp [hpc] at hs
  | check tail out left =>
    rw [hpc] at hc
    obtain ⟨hout, hleft⟩ := hc
    simp only [hpc] at hs
    split at hs
    next hseq =>
      cases hs
      exact h.setConsumer hi ⟨hout, hleft, (h.seq_iff.mp hseq).1⟩
    next =>
      split at hs
      next =>
        cases hs
        exact h.setConsumer hi trivial
      next =>
        cases hs
        exact h.setConsumer hi hout
  | take tail out left =>
    rw [hpc] at hc
    obtain ⟨hout, hleft, hlt⟩ := hc
    have hnext := hout.next (h.value_eq hi hout.le hlt)
    simp only [hpc] at hs
    split at hs
    next =>
      cases hs
      exact h.setConsumer hi hnext
    next hone =>
      cases hs
      exact h.setConsumer hi ⟨hnext, by omega⟩
  | store tail out =>
    rw [hpc] at hc
    simp only [hpc] at hs
    cases hs
    exact h.storeTail hi hc fun _ => trivial
  | cached prevTail newTail =>
    simp only [hpc] at hs
    split at hs
    next =>
      cases hs
      exact h.setConsumer hi fun j hj => absurd hj (Nat.not_lt_zero j)
    next =>
      cases hs
      exact h.setConsumer hi trivial
  | scan next m =>
    rw [hpc] at hc
    simp only [hpc] at hs
    split at hs
    next =>
      cases hs
      exact h.setConsumer hi (scanTail_le hc)
    next hnext =>
      cases hs
      have hidle : RingInv (s.setConsumer i .idle) := h.setConsumer hi trivial
      exact hidle.setMinTail hnext hc

theorem RingInv.writePtr (hpc : s.producer = .writePtr ptr head) :
    RingInv { s with
      ring := { s.ring with
        slots := update s.ring.slots (head &&& s.ring.mask)
          ⟨(s.ring.slots (head &&& s.ring.mask)).seq, ptr⟩ }
      producer := .stamp ptr head } := by
  have hp := h.producer
  rw [hpc] at hp
  obtain ⟨hhead, hring, hroom, hseq⟩ := hp
  obtain ⟨cells, hst, hsame, hvalue⟩ := h.slots
  refine { h with slots := ⟨cells, hst, fun i => ?_, fun i hne => ?_⟩, producer := ?_ }
  · by_cases hi : i = head &&& s.ring.mask
    · simp only [hi, update_self]
      exact hsame _
    · simp only [update_of_ne hi]
      exact hsame i
  · by_cases hi : i = head &&& s.ring.mask
    · refine ⟨?_, ptr, by rw [hhead]⟩
      rw [hi, h.index, hhead]
    · simp only [update_of_ne hi] at hne
      obtain ⟨-, _, hstamp⟩ := hvalue i hne
      cases hpc.symm.trans hstamp
  · refine ⟨hhead, hring, hroom, ?_⟩
    simp only [update_self, hseq]

theorem RingInv.stamp (hpc : s.producer = .stamp ptr head) :
    RingInv { s with
      ring := { s.ring with
        slots := update s.ring.slots (head &&& s.ring.mask)
          ⟨head + 1, (s.ring.slots (head &&& s.ring.mask)).value⟩ }
      producer := .advance head
      enqueued := s.enqueued ++ [ptr] } := by
  have hp := h.producer
  rw [hpc] at hp
  obtain ⟨hhead, hring, hroom, hslot⟩ := hp
  obtain ⟨cells, hst, hsame, hvalue⟩ := h.slots
  subst hhead
  have hother : ∀ i, i ≠ s.enqueued.length % s.ring.capacity →
      (s.ring.slots i).value = (cells i).value := by
    intro i hi
    by_contra hne
    exact hi (hvalue i hne).1
  refine
    { pow := h.pow
      mask := h.mask
      slots := ⟨_, hst.push ptr, fun i => ?_, fun i hne => ?_⟩
      producer := ⟨by simp, hring⟩
      consumers := fun i hi => ?_
      noConsumer := h.noConsumer
      tails := fun i hi => ?_
      received := fun i hi => ?_ }
  · rw [h.index]
    by_cases hi : i = s.enqueued.length % s.ring.capacity
    · simp only [hi, update_self]
    · simp only [update_of_ne hi]
      exact hsame i
  · refine absurd ?_ hne
    simp only [hslot]
    rw [h.index]
    by_cases hi : i = s.enqueued.length % s.ring.capacity
    · simp only [hi, update_self]
    · simp only [update_of_ne hi]
      exact hother i hi
  · have hc := h.consumers i hi
    generalize s.consumers i = pc at hc ⊢
    cases pc with
    | idle | cached | scan => exact hc
    | check => exact ⟨hc.1.grow ptr, hc.2⟩
    | take =>
      have hlt := hc.2.2
      exact ⟨hc.1.grow ptr, hc.2.1, by rw [length_append]; omega⟩
    | store => exact hc.grow ptr
  · obtain ⟨h1, -, h3⟩ := h.tails i hi
    have := hroom i hi
    refine ⟨?_, ?_, h3⟩ <;> simp only [length_append, length_singleton] <;> omega
  · rw [take_append_of_le_length (h.tails i hi).1]
    exact h.received i hi

theorem RingInv.producerStep (hs : s.producerStep = some s') : RingInv s' := by
  have hp := h.producer
  unfold RingState.producerStep at hs
  cases hpc : s.producer with
  | idle => simp [hpc] at hs
  | pressure ptr head spins =>
    rw [hpc] at hp
    obtain ⟨hhead, hring⟩ := hp
    have hslots : ∀ pc, SlotsOk s.ring s.enqueued pc :=
      fun pc => h.slots.of_quiet (by simp [hpc])
    simp only [hpc] at hs
    split at hs
    next hspace =>
      cases hs
      refine h.setProducer (hslots _) ⟨hhead, hring, fun j hj => ?_⟩
      obtain ⟨-, -, hmin⟩ := h.tails j hj
      have := isPowerOfTwo_pos h.pow
      omega
    next =>
      split at hs
      next =>
        cases hs
        exact h.setProducer (hslots _)
          ⟨hhead, hring, fun j hj => absurd hj (Nat.not_lt_zero j)⟩
      next =>
        cases hs
        exact h.setProducer (hslots _) ⟨hhead, hring⟩
  | scan ptr head spins next m =>
    rw [hpc] at hp
    obtain ⟨hhead, hring, hm⟩ := hp
    have hslots : ∀ pc, SlotsOk s.ring s.enqueued pc :=
      fun pc => h.slots.of_quiet (by simp [hpc])
    simp only [hpc] at hs
    split at hs
    next =>
      cases hs
      exact h.setProducer (hslots _) ⟨hhead, hring, scanTail_le hm⟩
    next hnext =>
      cases hs
      have hset : RingInv { s with producer := .pressure ptr head ((spins + 1) % 2 ^ 32) } :=
        h.setProducer (hslots _) ⟨hhead, hring⟩
      exact hset.setMinTail hnext hm
  | waitSlot ptr head =>
    rw [hpc] at hp
    obtain ⟨hhead, hring, hroom⟩ := hp
    simp only [hpc] at hs
    split at hs
    next hseq =>
      cases hs
      exact h.setProducer (h.slots.of_quiet (by simp [hpc])) ⟨hhead, hring, hroom, hseq⟩
    next =>
      cases hs
      exact h
  | writePtr ptr head =>
    simp only [hpc] at hs
    cases hs
    exact h.writePtr hpc
  | stamp ptr head =>
    simp only [hpc] at hs
    cases hs
    exact h.stamp hpc
  | advance head =>
    rw [hpc] at hp
    simp only [hpc] at hs
    cases hs
    exact { h with slots := h.slots.of_quiet (by simp [hpc]), producer := hp.1 }

theorem RingInv.startDequeue {maxCount : Nat}
    (hs : s.startDequeue i maxCount = some s') : RingInv s' := by
  unfold RingState.startDequeue at hs
  split at hs
  next =>
    split at hs
    next =>
      cases hs
      exact h
    next hok =>
      cases hs
      have hi : i < s.ring.consumerCount := by omega
      exact h.setConsumer hi ⟨Between.refl (h.tails i hi).1, by omega⟩
  next => cases hs

theorem RingInv.step {a : RingAction} (hs : s.step a = some s') : RingInv s' := by
  cases a with
  | enqueue ptr =>
    simp only [RingState.step] at hs
    split at hs
    next hidle =>
      have hp := h.producer
      rw [hidle] at hp
      split at hs
      next =>
        cases hs
        exact h
      next =>
        cases hs
        exact h.setProducer (h.slots.of_quiet (by simp [hidle])) ⟨hp, hp⟩
    next => cases hs
  | producer => exact h.producerStep hs
  | dequeue i => exact h.startDequeue hs
  | dequeueBatch i maxCount => exact h.startDequeue hs
  | consumer i => exact h.consumerStep hs

end Step

section Step

variable {s s' : RingState} {ptr head i : Nat}

theorem consumerStep_producer (hs : s.consumerStep i = some s') :
    s'.producer = s.producer ∧ s'.ring.capacity = s.ring.capacity := by
  unfold consumerStep at hs
  split at hs
  next => cases hs
  next =>
    split at hs
    next => cases hs; exact ⟨rfl, rfl⟩
    next => split at hs <;> cases hs <;> exact ⟨rfl, rfl⟩
  next => split at hs <;> cases hs <;> exact ⟨rfl, rfl⟩
  next => cases hs; exact ⟨rfl, rfl⟩
  next => split at hs <;> cases hs <;> exact ⟨rfl, rfl⟩
  next => split at hs <;> cases hs <;> exact ⟨rfl, rfl⟩

theorem startDequeue_producer {maxCount : Nat} (hs : s.startDequeue i maxCount = some s') :
    s'.producer = s.producer ∧ s'.ring.capacity = s.ring.capacity := by
  unfold startDequeue at hs
  split at hs
  next => split at hs <;> cases hs <;> exact ⟨rfl, rfl⟩
  next => cases hs

theorem RingInv.waitSlot_iff (h : RingInv s) (hpc : s.producer = .waitSlot ptr head) :
    s.producerStep = some { s with producer := .writePtr ptr head } ↔
      s.ring.capacity = 1 ∨ head < s.ring.capacity := by
  have hp := h.producer
  rw [hpc] at hp
  have hnext := h.next_seq_iff
  rw [← hp.1] at hnext
  rw [← hnext]
  simp only [RingState.producerStep, hpc]
  split
  next hseq => exact iff_of_true rfl hseq
  next hseq =>
    refine iff_of_false (fun he => ?_) hseq
    have hsame : s.producer = .writePtr ptr head := congrArg RingState.producer (Option.some.inj he)
    cases hpc.symm.trans hsame

/-- Once the ring of several slots is full for the first time, a call that waits for its slot
waits for ever. -/
theorem RingInv.stuck {a : RingAction} (h : RingInv s) (hpc : s.producer = .waitSlot ptr head)
    (hcap : s.ring.capacity ≠ 1) (hlap : s.ring.capacity ≤ head) (hs : s.step a = some s') :
    s'.producer = .waitSlot ptr head ∧ s'.ring.capacity = s.ring.capacity := by
  cases a with
  | enqueue => simp [RingState.step, hpc] at hs
  | producer =>
    have hwait := (h.waitSlot_iff hpc).not.mpr (by omega)
    simp only [RingState.step, RingState.producerStep, hpc] at hs hwait
    split at hs
    next hseq => exact absurd (if_pos hseq) hwait
    next =>
      cases hs
      exact ⟨hpc, rfl⟩
  | dequeue i =>
    obtain ⟨hp, hc⟩ := startDequeue_producer hs
    exact ⟨hp.trans hpc, hc⟩
  | dequeueBatch i maxCount =>
    obtain ⟨hp, hc⟩ := startDequeue_producer hs
    exact ⟨hp.trans hpc, hc⟩
  | consumer i =>
    obtain ⟨hp, hc⟩ := consumerStep_producer hs
    exact ⟨hp.trans hpc, hc⟩

theorem RingInv.stuck_run (h : RingInv s) (hpc : s.producer = .waitSlot ptr head)
    (hcap : s.ring.capacity ≠ 1) (hlap : s.ring.capacity ≤ head)
    (hrun : Runs RingState.step anyAction s s') : s'.producer = .waitSlot ptr head := by
  refine (hrun.invariant (P := fun t => RingInv t ∧ t.producer = .waitSlot ptr head ∧
    t.ring.capacity = s.ring.capacity) ⟨h, hpc, rfl⟩ ?_).2.1
  rintro t a t' ⟨ht, htpc, htc⟩ - hs
  obtain ⟨hp, hc⟩ := ht.stuck htpc (htc ▸ hcap) (htc ▸ hlap) hs
  exact ⟨ht.step hs, hp, hc.trans htc⟩

end Step

variable {config : OmMarketRingConfig} {ring : OmMarketRing}

theorem ringInv_start (h : omMarketRingInit config = .ok ring) : RingInv (.start ring) := by
  unfold omMarketRingInit at h
  split at h
  next => cases h
  next =>
    split at h
    next => cases h
    next hpow =>
      cases h
      have hpow' : isPowerOfTwo config.capacity = true := by simpa using hpow
      exact
        { pow := hpow'
          mask := rfl
          slots := ⟨fun i => ⟨i, 0⟩, Stamped.nil fun _ _ => rfl, fun _ => rfl,
            fun _ hne => absurd rfl hne⟩
          producer := rfl
          consumers := fun _ _ => trivial
          noConsumer := fun _ _ => rfl
          tails := fun _ _ => ⟨Nat.le_refl 0, Nat.zero_le _, Nat.le_refl 0⟩
          received := fun _ _ => rfl }

theorem ringInv_of_runs {s : RingState} (hinit : omMarketRingInit config = .ok ring)
    (h : Runs step anyAction (.start ring) s) : RingInv s :=
  h.invariant (ringInv_start hinit) fun _ _ _ hs _ hstep => hs.step hstep

/-- Every consumer has taken a prefix of the enqueued pointers and finds the next one as soon
as it is stamped. Between two enqueues the slot at the head carries the head exactly on the
first lap, or when the ring has one slot; in the second wait loop, the same decides whether
the enqueue goes on. -/
theorem ring_fifo_first_lap {config : OmMarketRingConfig} {ring : OmMarketRing} {s : RingState}
    (hinit : omMarketRingInit config = .ok ring) (h : Runs step anyAction (.start ring) s) :
    (∀ i, i < s.ring.consumerCount →
      s.received i = s.enqueued.take (s.ring.consumerTails i) ∧
      s.ring.consumerTails i ≤ s.enqueued.length ∧
      ((s.ring.slots (s.ring.consumerTails i &&& s.ring.mask)).seq =
        s.ring.consumerTails i + 1 ↔ s.ring.consumerTails i < s.enqueued.length)) ∧
    ((∀ head, s.producer ≠ .advance head) →
      ((s.ring.slots (s.ring.head &&& s.ring.mask)).seq = s.ring.head ↔
        s.ring.capacity = 1 ∨ s.ring.head < s.ring.capacity)) ∧
    ∀ ptr head, s.producer = .waitSlot ptr head →
      (s.producerStep = some { s with producer := .writePtr ptr head } ↔
        s.ring.capacity = 1 ∨ head < s.ring.capacity) := by
  have hinv := ringInv_of_runs hinit h
  refine ⟨fun i hi => ?_, fun hidle => ?_, fun ptr head hpc => hinv.waitSlot_iff hpc⟩
  · obtain ⟨h1, h2, -⟩ := hinv.tails i hi
    refine ⟨hinv.received i hi, h1, ?_⟩
    rw [hinv.seq_iff]
    exact ⟨And.left, fun hlt => ⟨hlt, h2⟩⟩
  · have hhead : s.ring.head = s.enqueued.length := by
      have hp := hinv.producer
      cases hpc : s.producer with
      | advance head => exact absurd hpc (hidle head)
      | idle => rwa [hpc] at hp
      | pressure =>
        rw [hpc] at hp
        exact hp.2
      | scan | waitSlot | writePtr | stamp =>
        rw [hpc] at hp
        exact hp.2.1
    rw [hhead]
    exact hinv.next_seq_iff

def enqueueCall (ptr : Nat) : List RingAction :=
  [.enqueue ptr, .producer, .producer, .producer, .producer, .producer]

def smallRing : OmMarketRing where
  capacity := 2
  mask := 1
  consumerCount := 1
  slots := fun i => ⟨i, 0⟩
  consumerTails := fun _ => 0
  head := 0
  minTail := 0

def firstLapActions : List RingAction :=
  enqueueCall 7 ++ [.dequeue 0] ++ List.replicate 6 (.consumer 0)

theorem ring_fifo_first_lap_small :
    omMarketRingInit ⟨2, 1⟩ = .ok smallRing ∧
    ∃ s, Runs step anyAction (.start smallRing) s ∧ s.received 0 = [7] ∧
      s.ring.consumerTails 0 = 1 ∧ s.received 0 = s.enqueued.take 1 := by
  have hinit : omMarketRingInit ⟨2, 1⟩ = .ok smallRing := rfl
  obtain ⟨s, hrun, hcount, hreceived, htail⟩ := exists_runs step anyAction
    (.start smallRing) firstLapActions
    (fun s => 0 < s.ring.consumerCount ∧ s.received 0 = [7] ∧ s.ring.consumerTails 0 = 1)
    (by decide +kernel) (by decide +kernel)
  obtain ⟨htake, -, -⟩ := (ring_fifo_first_lap hinit hrun).1 0 hcount
  exact ⟨hinit, s, hrun, hreceived, htail, by rwa [htail] at htake⟩

def secondLapActions : List RingAction :=
  enqueueCall 7 ++ enqueueCall 8 ++ [.dequeueBatch 0 2] ++ List.replicate 8 (.consumer 0) ++
    [.enqueue 9, .producer]

/-- Everything enqueued has been taken, yet the third enqueue never completes. -/
theorem ring_second_lap_stuck :
    omMarketRingInit ⟨2, 1⟩ = .ok smallRing ∧
    ∃ s, Runs step anyAction (.start smallRing) s ∧ s.received 0 = [7, 8] ∧
      (∀ i, i < s.ring.consumerCount →
        s.ring.head - s.ring.consumerTails i < s.ring.capacity) ∧
      (s.ring.slots (s.ring.head &&& s.ring.mask)).seq ≠ s.ring.head ∧
      s.producer = .waitSlot 9 2 ∧
      ∀ s', Runs step anyAction s s' → s'.producer = .waitSlot 9 2 := by
  have hinit : omMarketRingInit ⟨2, 1⟩ = .ok smallRing := rfl
  obtain ⟨s, hrun, ⟨hreceived, hroom, hseq, hpc⟩, hcap⟩ := exists_runs step anyAction
    (.start smallRing) secondLapActions
    (fun s => (s.received 0 = [7, 8] ∧
      (∀ i, i < s.ring.consumerCount →
        s.ring.head - s.ring.consumerTails i < s.ring.capacity) ∧
      (s.ring.slots (s.ring.head &&& s.ring.mask)).seq ≠ s.ring.head ∧
      s.producer = .waitSlot 9 2) ∧ s.ring.capacity = 2)
    (by decide +kernel) (by decide +kernel)
  have hinv := ringInv_of_runs hinit hrun
  exact ⟨hinit, s, hrun, hreceived, hroom, hseq, hpc,
    fun s' => hinv.stuck_run hpc (by omega) (by omega)⟩

end VeloxMatch
