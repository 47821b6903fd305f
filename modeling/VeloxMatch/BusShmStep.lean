import VeloxMatch.BusShmInv

namespace VeloxMatch

open StreamState Function OmBusShm

theorem take_drop_append {α : Type} (log : List α) {a b n : Nat} (hab : a ≤ b)
    (hb : b ≤ log.length) :
    (log.take b).drop a ++ (log.drop b).take n = (log.take (b + n)).drop a := by
  rw [List.take_add, List.drop_append_of_le_length]
  rw [List.length_take]
  omega

theorem advance_eq (shm : OmBusShm) (i old new : Nat) (walSeq now now' : UInt64) :
    shm.advance i old new walSeq now now' =
      { shm.storeTail i new walSeq now with
        minTail := (shm.advance i old new walSeq now now').minTail } := by
  unfold advance
  simp only
  split <;> rfl

/-- What a poll does when it delivers: `recs` are the next records published. -/
structure Delivery (s : StreamState) (i : Nat) (recs : List OmBusRecord) : Prop where
  opened : s.endpoints i ≠ none
  next : recs = (s.published.drop (s.tail i)).take recs.length
  retained : s.published.length ≤ s.tail i + s.shm.capacity

theorem Delivery.le {s : StreamState} {i : Nat} {recs : List OmBusRecord} (h : Delivery s i recs)
    (htail : s.tail i ≤ s.published.length) : s.tail i + recs.length ≤ s.published.length := by
  have hlen := congrArg List.length h.next
  rw [List.length_take, List.length_drop] at hlen
  omega

namespace StreamInv

variable {s s' : StreamState} (h : StreamInv s)
include h

variable {now : UInt64} {recs : List OmBusRecord} {head i : Nat}

theorem live_tail_le {j : Nat}
    (hlive : s.shm.live now j = true) : s.tail j ≤ s.published.length := by
  cases he : s.endpoints j with
  | none => exact absurd (h.closed j he) (live_iff.mp hlive).1
  | some e => exact (h.opened j e he).1

theorem wait {spins : Nat} (hpc : s.producer = .waiting recs head spins) {minTail : Nat}
    (hmin : minTail ≤ s.published.length) (spins' : Nat) (clock : UInt64) :
    StreamInv { s with
      shm := { s.shm with minTail := minTail }
      producer := .waiting recs head spins'
      clock := clock } :=
  { h with
    producer := by
      have hold := h.producer
      rw [hpc] at hold
      exact hold
    minTail := hmin }

theorem refresh_le (now : UInt64) {fallback : Nat} (hfallback : fallback ≤ s.published.length) :
    s.shm.minTailLive now fallback ≤ s.published.length :=
  minTailLive_of (P := (· ≤ s.published.length)) (fun _ _ hlive => h.live_tail_le hlive) hfallback

theorem publish {chunk rest : List OmBusRecord} {pc : PublishPc}
    (hsizes : ∀ rec ∈ chunk ++ rest, rec.payload.length ≤ s.shm.maxPayload)
    (hpc : (head = s.published.length + chunk.length ∧ pc = .idle) ∨
      (head ≤ s.published.length + chunk.length ∧
        pc = .waiting rest (s.published.length + chunk.length) 0)) :
    StreamInv { s with
      shm := { s.shm.publishSlots s.published.length chunk with head := head }
      producer := pc
      published := s.published ++ chunk } := by
  rw [publishSlots_eq]
  have hmin := h.minTail
  refine
    { h with
      stamped := publishSlots_stamped h.pow h.mask h.stamped chunk
      sizes := ?_, producer := ?_, minTail := ?_, opened := ?_ }
  · intro rec hrec
    rcases List.mem_append.mp hrec with hrec | hrec
    · exact h.sizes rec hrec
    · exact hsizes rec (List.mem_append_left _ hrec)
  · simp only [List.length_append]
    rcases hpc with ⟨hhead, rfl⟩ | ⟨hhead, rfl⟩
    · exact hhead
    · exact ⟨rfl, hhead, fun rec hrec => hsizes rec (List.mem_append_right _ hrec)⟩
  · simp only [List.length_append]
    omega
  · intro i e he
    obtain ⟨htail, hi, hpoll⟩ := h.opened i e he
    refine ⟨?_, hi, hpoll⟩
    simp only [List.length_append]
    exact Nat.le_add_right_of_le htail

theorem setLine {tail : Nat} (walSeq : UInt64) (endpoint : Option UInt64)
    (hopen : endpoint ≠ none → tail ≤ s.published.length ∧ i < s.shm.maxConsumers ∧ now ≠ 0)
    (hclosed : endpoint = none → now = 0) :
    let shm := s.shm.storeTail i tail walSeq now
    (∀ j e, update s.endpoints i endpoint j = some e →
      (shm.tails j).tail ≤ s.published.length ∧ j < s.shm.maxConsumers ∧
        (shm.tails j).lastPollNs ≠ 0) ∧
    ∀ j, update s.endpoints i endpoint j = none → (shm.tails j).lastPollNs = 0 := by
  intro shm
  refine ⟨fun j e he => ?_, fun j he => ?_⟩ <;> rcases eq_or_ne j i with rfl | hj
  · simp only [shm, storeTail, update_self] at he ⊢
    exact hopen (by simp [he])
  · simp only [shm, storeTail, update_of_ne hj] at he ⊢
    exact h.opened j e he
  · simp only [shm, storeTail, update_self] at he ⊢
    exact hclosed he
  · simp only [shm, storeTail, update_of_ne hj] at he ⊢
    exact h.closed j he

theorem openEndpoint (hnow : now ≠ 0) (hi : i < s.shm.maxConsumers) (opening : Nat → Nat)
    (received : Nat → List OmBusRecord) (lastCall : Nat → UInt64) :
    StreamInv { s with
      shm := s.shm.storeTail i s.shm.head 0 now
      endpoints := update s.endpoints i (some 0)
      clock := now, opening := opening, received := received, lastCall := lastCall } := by
  obtain ⟨hopened, hclosed⟩ := h.setLine 0 (some 0)
    (fun _ => ⟨h.producer.announced_le, hi, hnow⟩) nofun
  exact { h with opened := hopened, closed := hclosed }

theorem advance_minTail (i count : Nat) (walSeq now now' : UInt64) :
    (s.shm.advance i (s.tail i) (s.tail i + count) walSeq now now').minTail =
      match advancePoint s i count walSeq now now' with
      | none => s.shm.minTail
      | some p => p.1.minTailLive p.2 (s.tail i + count) := by
  unfold advance advancePoint
  have hflag : (s.shm.storeTail i (s.tail i + count) walSeq now).flags.broadcast = false :=
    h.unicast
  simp only [hflag, true_and]
  split <;> rfl

theorem deliver (hd : Delivery s i recs) {walSeq now' : UInt64}
    (hnow : now ≠ 0) : StreamInv (s.deliver i recs walSeq now now') := by
  obtain ⟨e, he⟩ := Option.ne_none_iff_exists'.mp hd.opened
  obtain ⟨htail, hi, -⟩ := h.opened i e he
  have hle := hd.le htail
  -- the lines after the consumer has stored its own
  have hline : ∀ j, ((s.shm.storeTail i (s.tail i + recs.length) walSeq now).tails j).lastPollNs
      ≠ 0 → ((s.shm.storeTail i (s.tail i + recs.length) walSeq now).tails j).tail ≤
        s.published.length := by
    intro j hj
    by_cases hji : j = i
    · subst hji
      simpa [storeTail] using hle
    · simp only [storeTail, update_of_ne hji] at hj ⊢
      cases hej : s.endpoints j with
      | none => exact absurd (h.closed j hej) hj
      | some e' => exact (h.opened j e' hej).1
  have hmin : (s.shm.advance i (s.tail i) (s.tail i + recs.length) walSeq now now').minTail ≤
      s.published.length := by
    rw [h.advance_minTail]
    split
    · exact h.minTail
    · next p hp =>
      unfold advancePoint at hp
      simp only at hp
      split at hp
      · cases hp
        exact minTailLive_of (P := (· ≤ s.published.length))
          (fun j _ hlive => hline j (live_iff.mp hlive).1) hle
      · cases hp
  unfold StreamState.deliver
  rw [advance_eq]
  obtain ⟨hopened, hclosed⟩ := h.setLine walSeq (some (walSeq + 1)) (fun _ => ⟨hle, hi, hnow⟩) nofun
  exact { h with minTail := hmin, opened := hopened, closed := hclosed }

theorem close :
    StreamInv { s with
      shm := s.shm.storeTail i (s.shm.tails i).tail (s.shm.tails i).walSeq 0
      endpoints := update s.endpoints i none } := by
  obtain ⟨hopened, hclosed⟩ :=
    h.setLine (s.shm.tails i).walSeq none (fun hne => absurd rfl hne) fun _ => rfl
  exact { h with opened := hopened, closed := hclosed }

end StreamInv

/-- What a step does: the call goes on, the minimum is evaluated, records are written, an
endpoint is opened, gets records, or is closed. -/
inductive StreamMove (s : StreamState) (a : StreamAction) : StreamState → Prop where
  | stay (clock : UInt64) (lastCall : Nat → UInt64) :
    StreamMove s a { s with clock := clock, lastCall := lastCall }
  | begin {recs : List OmBusRecord} (hidle : s.producer = .idle)
    (hsizes : ∀ rec ∈ recs, rec.payload.length ≤ s.shm.maxPayload) :
    StreamMove s a { s with producer := .waiting recs s.shm.head 0 }
  | spin {recs : List OmBusRecord} {head spins : Nat} (spins' : Nat)
    (hpc : s.producer = .waiting recs head spins) :
    StreamMove s a { s with producer := .waiting recs head spins' }
  | refresh {recs : List OmBusRecord} {head spins : Nat} (spins' : Nat) (now : UInt64)
    (hpc : s.producer = .waiting recs head spins)
    (hpoint : refreshPoint s a = some (s.shm, now)) :
    StreamMove s a { s with
      shm := s.shm.refresh now head, producer := .waiting recs head spins', clock := now }
  | publish {chunk rest : List OmBusRecord} {head : Nat} {pc : PublishPc}
    (hsizes : ∀ rec ∈ chunk ++ rest, rec.payload.length ≤ s.shm.maxPayload)
    (hroom : s.published.length + chunk.length ≤ s.shm.minTail + s.shm.capacity)
    (hpc : (head = s.published.length + chunk.length ∧ pc = .idle) ∨
      (head ≤ s.published.length + chunk.length ∧
        pc = .waiting rest (s.published.length + chunk.length) 0)) :
    StreamMove s a { s with
      shm := { s.shm.publishSlots s.published.length chunk with head := head }
      producer := pc
      published := s.published ++ chunk }
  | opens {i : Nat} {now : UInt64} (ha : a = .open i now) (hnone : s.endpoints i = none)
    (hnow : now ≠ 0) (hi : i < s.shm.maxConsumers) :
    StreamMove s a { s with
      shm := s.shm.storeTail i s.shm.head 0 now
      endpoints := update s.endpoints i (some 0)
      clock := now
      opening := update s.opening i s.shm.head
      received := update s.received i []
      lastCall := update s.lastCall i now }
  | delivers {i : Nat} {recs : List OmBusRecord} {walSeq now now' : UInt64}
    (hd : Delivery s i recs) (hnow : now ≠ 0)
    (hpoint : refreshPoint s a = advancePoint s i recs.length walSeq now now')
    (clock : UInt64) (lastCall : Nat → UInt64) :
    StreamMove s a { s.deliver i recs walSeq now now' with clock := clock, lastCall := lastCall }
  | closes (i : Nat) :
    StreamMove s a { s with
      shm := s.shm.storeTail i (s.shm.tails i).tail (s.shm.tails i).walSeq 0
      endpoints := update s.endpoints i none }

/-- A call of `om_bus_endpoint_poll` or `om_bus_endpoint_poll_batch` on endpoint `i`. -/
def StreamAction.Polls (i : Nat) : StreamAction → Prop
  | .poll j _ _ => j = i
  | .pollBatch j _ _ _ => j = i
  | _ => False

inductive EndpointCall (s : StreamState) (i : Nat) (a : StreamAction) : StreamState → Prop where
  | stay (hopen : s.endpoints i ≠ none) (clock : UInt64) (lastCall : Nat → UInt64) :
    EndpointCall s i a { s with clock := clock, lastCall := lastCall }
  | delivers {recs : List OmBusRecord} {walSeq now now' : UInt64}
    (hd : Delivery s i recs) (hnow : now ≠ 0)
    (hpoint : refreshPoint s a = advancePoint s i recs.length walSeq now now')
    (clock : UInt64) (lastCall : Nat → UInt64) :
    EndpointCall s i a
      { s.deliver i recs walSeq now now' with clock := clock, lastCall := lastCall }

section Moves

variable {s s' : StreamState} {a : StreamAction} {i : Nat} {now now' : UInt64}

theorem startPublish_move {recs : List OmBusRecord} (hs : s.startPublish recs = some s') :
    StreamMove s a s' := by
  unfold startPublish at hs
  split at hs
  · next hidle =>
    split at hs
    · cases hs
      exact .stay s.clock s.lastCall
    · next hsizes =>
      cases hs
      refine .begin hidle fun rec hrec => ?_
      rw [Bool.or_eq_true, not_or, List.any_eq_true] at hsizes
      exact Nat.le_of_not_lt fun hlt => hsizes.1 ⟨rec, hrec, by simpa using hlt⟩
  · cases hs

theorem producerStep_move (h : StreamInv s) (hs : s.producerStep now = some s') :
    StreamMove s (.producer now) s' := by
  have hmin := h.minTail
  have hpcok := h.producer
  unfold producerStep at hs
  cases hpc : s.producer with
  | idle => simp [hpc] at hs
  | waiting recs head spins =>
    rw [hpc] at hpcok
    obtain ⟨rfl, hann, hsizes⟩ := hpcok
    simp only [hpc] at hs
    split at hs
    · next hfull =>
      generalize hn : s.shm.capacity - (s.published.length - s.shm.minTail) = n at hs
      have hlen := List.length_take_le n recs
      have hroom : s.published.length + (recs.take n).length ≤ s.shm.minTail + s.shm.capacity := by
        omega
      have hsplit : ∀ rec ∈ recs.take n ++ recs.drop n,
          rec.payload.length ≤ s.shm.maxPayload := by
        rwa [List.take_append_drop]
      split at hs
      · cases hs
        exact .publish hsplit hroom (Or.inl ⟨rfl, rfl⟩)
      · simp only [Option.some.injEq] at hs
        subst hs
        have hmove : StreamMove s (.producer now) { s with
            shm := { s.shm.publishSlots s.published.length (recs.take n) with head := s.shm.head }
            producer := .waiting (recs.drop n) (s.published.length + (recs.take n).length) 0
            published := s.published ++ recs.take n } :=
          .publish hsplit hroom (Or.inr ⟨by omega, rfl⟩)
        have hhead : { s.shm.publishSlots s.published.length (recs.take n) with
            head := s.shm.head } = s.shm.publishSlots s.published.length (recs.take n) := by
          rw [publishSlots_eq]
        rwa [hhead] at hmove
    · next hfull =>
      split at hs
      · next hspin =>
        cases hs
        refine .refresh _ now hpc ?_
        simp only [refreshPoint, hpc]
        exact if_pos ⟨Nat.le_of_not_lt hfull, hspin⟩
      · cases hs
        exact .spin _ hpc

theorem EndpointCall.move (h : EndpointCall s i a s') : StreamMove s a s' := by
  cases h with
  | stay hopen clock lastCall => exact .stay clock lastCall
  | delivers hd hnow hpoint clock lastCall => exact .delivers hd hnow hpoint clock lastCall

theorem poll_call (h : StreamInv s) (hnow : now ≠ 0)
    (hs : s.poll i now now' = some s') : EndpointCall s i (.poll i now now') s' := by
  unfold poll at hs
  cases he : s.endpoints i with
  | none => simp [he] at hs
  | some expected =>
    simp only [he] at hs
    by_cases hres : s.pollResult i expected = .empty
    · simp only [hres, Option.some.injEq] at hs
      subst hs
      exact .stay (by simp [he]) _ _
    · obtain ⟨rec, hrec, hslot, -⟩ := h.pollResult_delivers hres
      obtain ⟨hlt, hget⟩ := List.getElem?_eq_some_iff.mp hrec
      have hd : Delivery s i [(s.shm.slot (s.tail i)).value.record] := by
        have hretained := (h.pollResult_empty_iff i expected).not.mp hres
        refine ⟨by simp [he], ?_, by omega⟩
        rw [hslot, List.drop_eq_getElem_cons hlt, hget]
        rfl
      split at hs
      · cases hs
        exact .stay hd.opened _ _
      · cases hs
        exact .stay hd.opened _ _
      · cases hs
        exact .stay hd.opened _ _
      · cases hs
        exact .stay hd.opened _ _
      all_goals
        next hr =>
        cases hs
        refine .delivers hd hnow ?_ _ _
        simp only [refreshPoint, he, hr, List.length_singleton]

theorem pollBatch_call (h : StreamInv s) {maxCount : Nat} (hnow : now ≠ 0)
    (hs : s.pollBatch i maxCount now now' = some s') :
    EndpointCall s i (.pollBatch i maxCount now now') s' := by
  unfold pollBatch at hs
  cases he : s.endpoints i with
  | none => simp [he] at hs
  | some expected =>
    simp only [he] at hs
    split at hs
    · cases hs
      exact .stay (by simp [he]) _ _
    · next rec hlast =>
      cases hs
      have hne : batchLoop s.shm (s.tail i) maxCount ≠ [] := by
        intro hnil
        simp [hnil] at hlast
      have hd : Delivery s i (batchLoop s.shm (s.tail i) maxCount) := by
        have hloop := h.batchLoop_eq (s.tail i) maxCount
        split at hloop
        · next hretained =>
          refine ⟨by simp [he], ?_, hretained⟩
          rw [hloop, List.length_take, List.take_eq_take_iff]
          omega
        · exact absurd hloop hne
      refine .delivers hd hnow ?_ _ _
      simp only [refreshPoint, he, hlast]

theorem clockOk_ne_zero (h : s.clockOk now now' = true) : now ≠ 0 := by
  simp only [clockOk, Bool.and_eq_true, bne_iff_ne] at h
  exact h.2

theorem StreamInv.call (h : StreamInv s) (ha : a.Polls i) (hs : s.step a = some s') :
    EndpointCall s i a s' := by
  cases a with
  | poll j now now' =>
    obtain rfl : j = i := ha
    simp only [step] at hs
    split at hs
    · next hok => exact poll_call h (clockOk_ne_zero hok) hs
    · cases hs
  | pollBatch j maxCount now now' =>
    obtain rfl : j = i := ha
    simp only [step] at hs
    split at hs
    · next hok => exact pollBatch_call h (clockOk_ne_zero hok) hs
    · cases hs
  | _ => exact ha.elim

theorem StreamInv.move (h : StreamInv s) (hs : s.step a = some s') : StreamMove s a s' := by
  cases a with
  | publish rec => exact startPublish_move hs
  | publishBatch recs => exact startPublish_move hs
  | producer now =>
    simp only [step] at hs
    split at hs
    · exact producerStep_move h hs
    · cases hs
  | «open» i now =>
    simp only [step] at hs
    split at hs
    · next hok =>
      unfold StreamState.openEndpoint at hs
      split at hs
      · cases hs
      · next hnone =>
        split at hs
        · cases hs
          exact .stay s.clock s.lastCall
        · next hi =>
          cases hs
          exact .opens rfl (not_not.mp hnone) (clockOk_ne_zero hok) (Nat.lt_of_not_le hi)
    · cases hs
  | poll i now now' =>
    exact (h.call (show StreamAction.Polls i (.poll i now now') from rfl) hs).move
  | pollBatch i maxCount now now' =>
    exact (h.call (show StreamAction.Polls i (.pollBatch i maxCount now now') from rfl) hs).move
  | close i =>
    simp only [step, closeEndpoint] at hs
    split at hs
    · cases hs
    · cases hs
      exact .closes i

theorem StreamInv.step (h : StreamInv s) (hs : s.step a = some s') : StreamInv s' := by
  cases h.move hs with
  | stay clock lastCall => exact { h with }
  | begin hidle hsizes =>
    have hpc := h.producer
    rw [hidle] at hpc
    exact { h with producer := ⟨hpc, Nat.le_of_eq hpc, hsizes⟩ }
  | spin spins' hpc => exact h.wait hpc h.minTail spins' s.clock
  | refresh spins' now hpc hpoint =>
    have hhead := h.producer
    rw [hpc] at hhead
    exact h.wait hpc (h.refresh_le now (Nat.le_of_eq hhead.1)) spins' now
  | publish hsizes hroom hpc => exact h.publish hsizes hpc
  | opens ha hnone hnow hi => exact h.openEndpoint hnow hi _ _ _
  | delivers hd hnow hpoint clock lastCall => exact { h.deliver hd hnow with }
  | closes i => exact h.close

theorem Follows.congr (h : Follows s i) (hmin : s'.shm.minTail = s.shm.minTail)
    (hcap : s'.shm.capacity = s.shm.capacity) (hpub : s'.published = s.published)
    (htail : s'.tail i = s.tail i) (hopening : s'.opening i = s.opening i)
    (hreceived : s'.received i = s.received i) : Follows s' i where
  minTail := by rw [hmin, htail]; exact h.minTail
  retained := by rw [hpub, htail, hcap]; exact h.retained
  opening := by rw [hopening, htail]; exact h.opening
  received := by rw [hreceived, hpub, htail, hopening]; exact h.received

/-- An endpoint that counts wherever the minimum is evaluated keeps its place. -/
theorem Follows.step (hinv : StreamInv s) (h : s.endpoints i ≠ none → Follows s i)
    (hok : countsAlways i s a)
    (hs : s.step a = some s') : s'.endpoints i ≠ none → Follows s' i := by
  intro hopen
  cases hinv.move hs with
  | stay clock lastCall => exact { h hopen with }
  | begin hidle hsizes => exact { h hopen with }
  | spin spins' hpc => exact { h hopen with }
  | @refresh recs head spins spins' now hpc hpoint =>
    obtain ⟨e, he⟩ := Option.ne_none_iff_exists'.mp hopen
    obtain ⟨-, hi, hpoll⟩ := hinv.opened i e he
    have hrecent := hok.2 (s.shm, now) hpoint hopen
    have hlive : s.shm.live now i = true := live_iff.mpr ⟨hpoll, hrecent⟩
    have hmin : s.shm.minTailLive now head ≤ s.tail i := minTailLive_le hi hlive
    exact { h hopen with minTail := hmin }
  | @publish chunk rest head pc hsizes hroom hpc =>
    have hold := h hopen
    obtain ⟨e, he⟩ := Option.ne_none_iff_exists'.mp hopen
    have htail := (hinv.opened i e he).1
    have hmin := hold.minTail
    rw [publishSlots_eq]
    refine { hold with retained := ?_, received := ?_ }
    · simp only [tail, List.length_append] at hmin ⊢
      omega
    · have htake : (s.published ++ chunk).take (s.tail i) = s.published.take (s.tail i) :=
        List.take_append_of_le_length htail
      exact hold.received.trans (congrArg (List.drop (s.opening i)) htake.symm)
  | @opens j now ha hnone hnow hi =>
    by_cases hji : i = j
    · subst hji
      have hhead : s.shm.head = s.published.length := by
        have hann := hok.1
        rw [ha] at hann
        exact hann
      have hmin := hinv.minTail
      refine ⟨?_, ?_, ?_, ?_⟩ <;>
        simp only [tail, storeTail, update_self, hhead]
      · exact hmin
      · omega
      · exact Nat.le_refl _
      · simp
    · simp only [update_of_ne hji] at hopen
      refine (h hopen).congr rfl rfl rfl ?_ ?_ ?_ <;>
        simp only [tail, storeTail, update_of_ne hji]
  | @delivers j recs walSeq now now' hd hnow hpoint clock lastCall =>
    have hopen' : s.endpoints i ≠ none := by
      by_cases hji : i = j
      · exact hji ▸ hd.opened
      · simpa only [deliver, update_of_ne hji] using hopen
    have hold := h hopen'
    obtain ⟨e, he⟩ := Option.ne_none_iff_exists'.mp hopen'
    obtain ⟨htail, hi, hpoll⟩ := hinv.opened i e he
    have hpoll' : ((s.shm.storeTail j (s.tail j + recs.length) walSeq now).tails i).lastPollNs
        ≠ 0 := by
      by_cases hji : i = j
      · subst hji
        simpa [storeTail] using hnow
      · simpa only [storeTail, update_of_ne hji] using hpoll
    -- the tail of `i` after the delivery, and the minimum below it
    have hgrow : s.tail i ≤
        ((s.shm.storeTail j (s.tail j + recs.length) walSeq now).tails i).tail := by
      by_cases hji : i = j
      · subst hji
        simp [storeTail]
      · simp only [storeTail, update_of_ne hji]
        exact Nat.le_refl _
    have hmin : (s.shm.advance j (s.tail j) (s.tail j + recs.length) walSeq now now').minTail ≤
        ((s.shm.storeTail j (s.tail j + recs.length) walSeq now).tails i).tail := by
      rw [hinv.advance_minTail]
      split
      · exact Nat.le_trans hold.minTail hgrow
      · next p hp =>
        have hrecent := hok.2 p (hpoint.trans hp) hopen'
        unfold advancePoint at hp
        simp only at hp
        split at hp
        · cases hp
          exact minTailLive_le hi (live_iff.mpr ⟨hpoll', hrecent⟩)
        · cases hp
    unfold deliver
    rw [advance_eq]
    have hretained := hold.retained
    have hopening := hold.opening
    refine ⟨hmin, ?_, ?_, ?_⟩
    · simp only [tail] at hretained ⊢
      exact Nat.le_trans hretained (Nat.add_le_add_right hgrow _)
    · exact Nat.le_trans hopening hgrow
    · by_cases hji : i = j
      · subst hji
        simp only [tail, storeTail, update_self]
        rw [hold.received]
        nth_rewrite 1 [hd.next]
        exact take_drop_append s.published hopening htail
      · simp only [tail, storeTail, update_of_ne hji]
        exact hold.received
  | closes j =>
    by_cases hji : i = j
    · subst hji
      simp at hopen
    · simp only [update_of_ne hji] at hopen
      refine (h hopen).congr rfl rfl rfl ?_ rfl rfl
      simp only [tail, storeTail, update_of_ne hji]

end Moves

end VeloxMatch
