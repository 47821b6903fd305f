import VeloxMatch.BusEndpoint
import VeloxMatch.BusShmDelivery

namespace VeloxMatch

open OmBusAttached Function

variable {config : OmBusStreamConfig} {shm : OmBusShm}

theorem holdsLog_publishSlots (hcreate : omBusStreamCreate config = .ok shm)
    {recs : List OmBusRecord} (hsizes : ∀ rec ∈ recs, rec.payload.length ≤ shm.maxPayload) :
    HoldsLog (shm.publishSlots 0 recs) recs := by
  obtain ⟨hpow, hshm⟩ := omBusStreamCreate_ok hcreate
  have hmask : shm.mask = shm.capacity - 1 := congrArg OmBusShm.mask hshm
  have hnil : Stamped shm.capacity (([] : List OmBusRecord).map shm.slotData) shm.slots :=
    Stamped.nil fun i _ => by rw [hshm]
  have hstamped := publishSlots_stamped hpow hmask hnil recs
  rw [publishSlots_eq] at hstamped ⊢
  exact ⟨hpow, hmask, hstamped, hsizes⟩

/-- A stream whose consumers do not become stale is so between any two calls, if no endpoint is
opened while a batch is being published. -/
theorem holdsLog_of_runs {s : StreamState} (hcreate : omBusStreamCreate config = .ok shm)
    (hflags : config.flags.broadcast = false) (hstale : shm.stalenessNs = 0)
    (hrun : Runs StreamState.step opensAnnounced (.start shm) s) :
    HoldsLog s.shm s.published ∧ s.shm.MinLow := by
  have hinv := streamInv_of_runs hcreate hflags hrun
  have hzero := (hrun.invariant (P := fun s => StreamInv s ∧ s.shm.stalenessNs = 0)
    ⟨StreamInv.start hcreate hflags, hstale⟩
    fun _ _ _ h _ hs => ⟨h.1.step hs, (h.1.move hs).stalenessNs.trans h.2⟩).2
  refine ⟨hinv.toHoldsLog, hzero, fun i _ hlive => ?_⟩
  have hcounts := countsAlways_of_no_staleness hcreate hflags hstale hrun i
  have hopen : s.endpoints i ≠ none := fun hnone => hlive (hinv.closed i hnone)
  exact ((follows_of_runs hcreate hflags hcounts).2 hopen).minTail

/-- The record that a peek over `distance` positions finds in the stream. -/
structure Peekable (ep : OmBusAttached) (published : List OmBusRecord) (distance : Nat)
    (rec : OmBusRecord) : Prop where
  positive : distance ≠ 0
  le_position : distance ≤ ep.position
  le_capacity : distance ≤ ep.shm.capacity
  epoch : ep.headerEpoch = ep.producerEpoch
  record : published[ep.position - distance]? = some rec
  retained : published.length ≤ ep.position - distance + ep.shm.capacity

/-- The producer counts the endpoint, and has no consumer behind its minimum. -/
structure Counted (ep : OmBusAttached) : Prop where
  low : ep.shm.MinLow
  live : (ep.shm.tails ep.consumerIndex).lastPollNs ≠ 0

/-- A peek leaves no trace, and what it returns is what was published there. -/
structure PeekUndisturbed (ep : OmBusAttached) (published : List OmBusRecord) (distance : Nat)
    (now now' : UInt64) : Prop where
  position : (ep.peekPrevious distance now now').2.2.position = ep.position
  walSeq : (ep.peekPrevious distance now now').2.2.walSeq = ep.walSeq
  cursor : (ep.peekPrevious distance now now').2.2.savedCursor = ep.savedCursor
  expected : (ep.peekPrevious distance now now').2.2.expectedWalSeq = ep.expectedWalSeq
  later : ∀ calls, (ep.peekPrevious distance now now').2.2.results calls = ep.results calls
  record : ∀ rec, (ep.peekPrevious distance now now').2.1 = some rec →
    0 < distance ∧ distance ≤ ep.position ∧ published[ep.position - distance]? = some rec

theorem omBusGapResult_delivers (flags : OmBusFlags) (expected walSeq : UInt64) :
    (omBusGapResult flags expected walSeq).delivers = true := by
  unfold omBusGapResult
  split
  · split
    · rfl
    · split <;> rfl
  · rfl

namespace HoldsLog

variable {shm : OmBusShm} {published : List OmBusRecord} {pos : Nat} {expected : UInt64}

theorem slotResult_held (h : HoldsLog shm published) {rec : OmBusRecord}
    (hrec : published[pos]? = some rec) (hle : published.length ≤ pos + shm.capacity) :
    (shm.slot pos).value.record = rec ∧
      (slotResult shm pos expected).delivers = true := by
  obtain ⟨hlt, rfl⟩ := List.getElem?_eq_some_iff.mp hrec
  have hvalue := h.slot_value hrec hle
  have hseq := (h.seq_iff pos).mpr ⟨hlt, hle⟩
  have hsize : ¬shm.maxPayload < (shm.slotData published[pos]).record.payload.length :=
    Nat.not_lt.mpr (h.sizes _ (List.getElem_mem hlt))
  refine ⟨by rw [hvalue]; rfl, ?_⟩
  unfold slotResult
  simp only [hseq, hvalue, ne_eq, not_true_eq_false, if_false, if_neg (StreamInv.crc_ok shm _),
    Nat.lt_irrefl, and_false]
  rw [if_neg hsize]
  exact omBusGapResult_delivers ..

theorem slotResult_lost (h : HoldsLog shm published)
    (hlost : ¬(pos < published.length ∧ published.length ≤ pos + shm.capacity)) :
    (slotResult shm pos expected).delivers = false := by
  have hseq : (shm.slot pos).seq ≠ pos + 1 := fun he => hlost ((h.seq_iff pos).mp he)
  unfold slotResult
  dsimp only
  by_cases hlapped : shm.flags.broadcast = true ∧ pos + 1 < (shm.slot pos).seq
  · rw [if_pos hlapped]
    rfl
  · rw [if_neg hlapped, if_pos hseq]
    rfl

end HoldsLog

section Peek

variable {ep : OmBusAttached} {published : List OmBusRecord} {distance : Nat} {now now' : UInt64}

def OmBusAttached.rewound (ep : OmBusAttached) (distance : Nat) : OmBusAttached :=
  { ep.setPosition (ep.position - distance) with expectedWalSeq := 0 }

theorem OmBusAttached.rewound_reads (ep : OmBusAttached) (distance : Nat) :
    SameStream ep (ep.rewound distance) ∧
      (ep.rewound distance).position = ep.position - distance ∧
      (ep.rewound distance).walSeq = ep.walSeq :=
  setPosition_reads ep (ep.position - distance) 0

/-- The tails are as before, and the minimum that the poll may have stored is not above them. -/
theorem Counted.peeked (h : Counted ep) (hbroadcast : ep.shm.flags.broadcast = false)
    (hnow : now ≠ 0) (hpositive : distance ≠ 0) (hle : distance ≤ ep.position) (rec : OmBusRecord)
    (expected : UInt64) :
    ep.shm.SameTails { ((ep.rewound distance).deliver 1 rec now now').setPosition ep.position with
      expectedWalSeq := expected }.shm := by
  obtain ⟨-, hpos, -⟩ := ep.rewound_reads distance
  have hrewound : ∀ i, i ≠ ep.consumerIndex → (ep.rewound distance).shm.tails i = ep.shm.tails i :=
    fun i hne => update_of_ne hne ..
  have hlow : ((ep.rewound distance).deliver 1 rec now now').shm.MinLow := by
    refine .advance hbroadcast h.low.staleness fun j hne hj hlive => ?_
    rw [hrewound j hne] at hlive ⊢
    exact h.low.minTail j hj hlive
  have hmid := deliver_tails (ep.rewound distance) 1 rec now now'
  have hother : ∀ i, i ≠ ep.consumerIndex →
      ((ep.rewound distance).deliver 1 rec now now').shm.tails i = ep.shm.tails i :=
    fun i hne => (congrFun hmid i).trans ((update_of_ne hne ..).trans (hrewound i hne))
  have hown : ((ep.rewound distance).deliver 1 rec now now').shm.tails ep.consumerIndex =
      ⟨ep.position - distance + 1, rec.walSeq, now⟩ := by
    rw [hmid, hpos]
    exact update_self ..
  have hline : ∀ i, (((ep.rewound distance).deliver 1 rec now now').setPosition
      ep.position).shm.tails i = if i = ep.consumerIndex then ⟨ep.position, rec.walSeq, now⟩
        else ep.shm.tails i := fun i => by
    split
    · next heq =>
      rw [heq]
      refine (update_self ..).trans ?_
      exact congrArg (fun line : OmBusConsumerTail => { line with tail := ep.position }) hown
    · next hne => exact (update_of_ne hne ..).trans (hother i hne)
  refine ⟨fun i => ?_, fun i => ?_, h.low, hlow.staleness, fun i hi hlive => ?_⟩
  · simp only [hline]
    split
    · next heq => rw [heq]; rfl
    · rfl
  · simp only [hline]
    split
    · next heq =>
      rw [heq]
      exact iff_of_false hnow h.live
    · rfl
  · simp only [hline] at hlive ⊢
    split
    · next heq =>
      have hmin := hlow.minTail i hi (by rw [heq, hown]; exact hnow)
      rw [heq, hown] at hmin
      exact Nat.le_trans hmin (by simp only; omega)
    · next hne =>
      rw [if_neg hne] at hlive
      have hmin := hlow.minTail i hi (by rw [hother i hne]; exact hlive)
      rwa [hother i hne] at hmin

theorem poll_delivers (hepoch : ep.headerEpoch = ep.producerEpoch)
    (hdelivers : (slotResult ep.shm ep.position ep.expectedWalSeq).delivers = true) :
    ep.poll now now' = (.result (slotResult ep.shm ep.position ep.expectedWalSeq),
      some (ep.shm.slot ep.position).value.record,
      ep.deliver 1 (ep.shm.slot ep.position).value.record now now') := by
  unfold poll
  rw [if_neg (not_not.mpr hepoch)]
  exact if_pos hdelivers

theorem poll_idle (hidle : ep.headerEpoch ≠ ep.producerEpoch ∨
    (slotResult ep.shm ep.position ep.expectedWalSeq).delivers = false) (now now' : UInt64) :
    ∃ result, ep.poll now now' = (result, none, ep) := by
  unfold poll
  by_cases hepoch : ep.headerEpoch = ep.producerEpoch
  · have hnot := hidle.resolve_left (not_not.mpr hepoch)
    rw [if_neg (not_not.mpr hepoch)]
    exact ⟨_, if_neg (hnot ▸ Bool.false_ne_true)⟩
  · exact ⟨_, if_pos hepoch⟩

theorem peekPrevious_out (hrange : ¬(distance = 0 ∨ ep.position < distance ∨
    ep.shm.capacity < distance)) (now now' : UInt64) :
    ep.peekPrevious distance now now' =
      let out := (ep.rewound distance).poll now now'
      (out.1, out.2.1, { out.2.2.setPosition ep.position with expectedWalSeq := ep.expectedWalSeq }) :=
  if_neg hrange

theorem HoldsLog.peek_found (h : HoldsLog ep.shm published) {rec : OmBusRecord}
    (hp : Peekable ep published distance rec) (now now' : UInt64) :
    let out := ep.peekPrevious distance now now'
    out.2.1 = some rec ∧ SameStream ep out.2.2 ∧ out.2.2.position = ep.position ∧
      out.2.2.expectedWalSeq = ep.expectedWalSeq ∧ out.2.2.walSeq = rec.walSeq ∧
      (ep.shm.flags.broadcast = false → now ≠ 0 → Counted ep →
        ep.shm.SameTails out.2.2.shm) := by
  have hrange : ¬(distance = 0 ∨ ep.position < distance ∨ ep.shm.capacity < distance) := by
    have := hp.positive
    have := hp.le_position
    have := hp.le_capacity
    omega
  obtain ⟨hsame, hpos, -⟩ := ep.rewound_reads distance
  obtain ⟨hrecord, hdelivers⟩ :
      (ep.shm.slot (ep.position - distance)).value.record = rec ∧
        (slotResult ep.shm (ep.position - distance) 0).delivers = true :=
    h.slotResult_held hp.record hp.retained
  have hpoll : (ep.rewound distance).poll now now' =
      (.result (slotResult ep.shm (ep.position - distance) 0), some rec,
        (ep.rewound distance).deliver 1 rec now now') := by
    rw [← hsame.slotResult, ← hpos] at hdelivers
    rw [@poll_delivers (ep.rewound distance) now now' hp.epoch hdelivers, hpos, hsame.slotResult,
      hsame.slot, hrecord]
    rfl
  rw [peekPrevious_out hrange, hpoll]
  obtain ⟨hback, hpos', hseq'⟩ := setPosition_reads ((ep.rewound distance).deliver 1 rec now now')
    ep.position ep.expectedWalSeq
  obtain ⟨hreads, -, hseq⟩ := deliver_reads (ep.rewound distance) 1 rec now now'
  refine ⟨rfl, hsame.trans (hreads.trans hback), hpos', rfl, hseq'.trans hseq,
    fun hbroadcast hnow hcounted =>
      hcounted.peeked hbroadcast hnow hp.positive hp.le_position rec _⟩

theorem HoldsLog.peek_nothing (h : HoldsLog ep.shm published)
    (hlow : ep.shm.flags.broadcast = false → ep.shm.MinLow)
    (hnot : ∀ rec, ¬Peekable ep published distance rec) (now now' : UInt64) :
    (ep.peekPrevious distance now now').2.1 = none ∧
      SameInput ep (ep.peekPrevious distance now now').2.2 := by
  by_cases hrange : distance = 0 ∨ ep.position < distance ∨ ep.shm.capacity < distance
  · have hout : ep.peekPrevious distance now now' = (.result .empty, none, ep) := if_pos hrange
    rw [hout]
    exact ⟨rfl, .refl ep hlow⟩
  obtain ⟨hsame, hpos, hseq⟩ := ep.rewound_reads distance
  have hidle : (ep.rewound distance).headerEpoch ≠ (ep.rewound distance).producerEpoch ∨
      (slotResult (ep.rewound distance).shm (ep.rewound distance).position 0).delivers = false := by
    by_cases hepoch : ep.headerEpoch = ep.producerEpoch
    · right
      rw [hpos, hsame.slotResult]
      exact h.slotResult_lost fun ⟨hlt, hle⟩ =>
        hnot _ ⟨by omega, by omega, by omega, hepoch, List.getElem?_eq_getElem hlt, hle⟩
    · exact .inl hepoch
  obtain ⟨result, hpoll⟩ := poll_idle hidle now now'
  rw [peekPrevious_out hrange, hpoll]
  obtain ⟨hback, hpos', hseq'⟩ := setPosition_reads (ep.rewound distance) ep.position
    ep.expectedWalSeq
  have htails : ((ep.rewound distance).setPosition ep.position).shm.tails = ep.shm.tails := by
    funext i
    rcases eq_or_ne i ep.consumerIndex with rfl | hne
    · simp [setPosition, rewound, position]
    · simp [setPosition, rewound, hne]
  have hproducer : ep.shm.flags.broadcast = false →
      ep.shm.SameTails ((ep.rewound distance).setPosition ep.position).shm := fun hbroadcast => by
    have hlow := hlow hbroadcast
    refine ⟨fun i => by rw [htails], fun i => by rw [htails], hlow, hlow.staleness, ?_⟩
    rw [htails]
    exact hlow.minTail
  exact ⟨rfl, ⟨hsame.trans hback, hpos', hseq'.trans hseq, rfl, hproducer⟩⟩

/-- On a broadcast stream, or one whose consumers do not become stale, a peek leaves the endpoint
as it was exactly if it finds no record or one with the sequence number that the endpoint got
last. -/
theorem peek_undisturbed_iff (h : HoldsLog ep.shm published)
    (hcounted : ep.shm.flags.broadcast = false → Counted ep) (hnow : now ≠ 0) (distance : Nat)
    (now' : UInt64) :
    PeekUndisturbed ep published distance now now' ↔
      ∀ rec, Peekable ep published distance rec → rec.walSeq = ep.walSeq := by
  constructor
  · intro hquiet rec hp
    obtain ⟨-, -, -, -, hseq, -⟩ := h.peek_found hp now now'
    exact hseq.symm.trans hquiet.walSeq
  · intro hseq
    by_cases hfound : ∃ rec, Peekable ep published distance rec
    · obtain ⟨rec, hp⟩ := hfound
      obtain ⟨hrec, hstream, hpos, hexpected, hwal, hproducer⟩ := h.peek_found hp now now'
      have hsame : SameInput ep (ep.peekPrevious distance now now').2.2 :=
        ⟨hstream, hpos, hwal.trans (hseq rec hp), hexpected,
          fun hbroadcast => hproducer hbroadcast hnow (hcounted hbroadcast)⟩
      refine ⟨hpos, hsame.walSeq, ?_, hexpected, hsame.results, fun rec' hrec' => ?_⟩
      · simp only [savedCursor, hsame.walSeq]
      · cases Option.some.inj (hrec.symm.trans hrec')
        exact ⟨Nat.pos_of_ne_zero hp.positive, hp.le_position, hp.record⟩
    · obtain ⟨hnone, hsame⟩ := h.peek_nothing (fun hbroadcast => (hcounted hbroadcast).low)
        (fun rec hp => hfound ⟨rec, hp⟩) now now'
      refine ⟨hsame.position, hsame.walSeq, ?_, hsame.expected, hsame.results, fun rec hrec => ?_⟩
      · simp only [savedCursor, hsame.walSeq]
      · rw [hnone] at hrec
        cases hrec

end Peek

def attachedAfterTwo (line : OmBusConsumerTail) (expectedWalSeq : UInt64) : OmBusAttached where
  shm := { (smallShm 4 1 0).publishSlots 0 [busRecord 5, busRecord 6] with
    head := 2, tails := fun _ => line }
  headerEpoch := 1
  consumerIndex := 0
  expectedWalSeq := expectedWalSeq
  producerEpoch := 1

theorem holdsLog_afterTwo (line : OmBusConsumerTail) (expectedWalSeq : UInt64) :
    HoldsLog (attachedAfterTwo line expectedWalSeq).shm [busRecord 5, busRecord 6] := by
  have hcreate : omBusStreamCreate (smallStreamConfig 4 1 0) = .ok (smallShm 4 1 0) := rfl
  have h : HoldsLog ((smallShm 4 1 0).publishSlots 0 [busRecord 5, busRecord 6])
      [busRecord 5, busRecord 6] := holdsLog_publishSlots hcreate (by decide)
  exact ⟨h.pow, h.mask, h.stamped, h.sizes⟩

/-- A peek at the record got last leaves no trace. -/
theorem peek_undisturbed_last :
    HoldsLog (attachedAfterTwo ⟨2, 6, 1⟩ 7).shm [busRecord 5, busRecord 6] ∧
    Peekable (attachedAfterTwo ⟨2, 6, 1⟩ 7) [busRecord 5, busRecord 6] 1 (busRecord 6) ∧
    Counted (attachedAfterTwo ⟨2, 6, 1⟩ 7) ∧
    PeekUndisturbed (attachedAfterTwo ⟨2, 6, 1⟩ 7) [busRecord 5, busRecord 6] 1 2 2 := by
  have h := holdsLog_afterTwo ⟨2, 6, 1⟩ 7
  have hcounted : Counted (attachedAfterTwo ⟨2, 6, 1⟩ 7) :=
    ⟨⟨rfl, fun _ _ _ => Nat.zero_le _⟩, by decide⟩
  refine ⟨h, ⟨by decide, by decide, by decide, rfl, rfl, by decide⟩, hcounted,
    (peek_undisturbed_iff h (fun _ => hcounted) (by decide) 1 2).mpr fun rec hp => ?_⟩
  cases Option.some.inj hp.record
  rfl

/-- An endpoint that was opened behind record 6 has got nothing. A peek at that record leaves its
sequence number in the consumer's line, and the cursor saved next says that it was read. -/
theorem peek_moves_cursor :
    HoldsLog (attachedAfterTwo ⟨2, 0, 1⟩ 0).shm [busRecord 5, busRecord 6] ∧
    (attachedAfterTwo ⟨2, 0, 1⟩ 0).walSeq = 0 ∧
    ((attachedAfterTwo ⟨2, 0, 1⟩ 0).peekPrevious 1 2 2).2.2.walSeq = 6 ∧
    ((attachedAfterTwo ⟨2, 0, 1⟩ 0).peekPrevious 1 2 2).2.2.savedCursor ≠
      (attachedAfterTwo ⟨2, 0, 1⟩ 0).savedCursor ∧
    ¬PeekUndisturbed (attachedAfterTwo ⟨2, 0, 1⟩ 0) [busRecord 5, busRecord 6] 1 2 2 :=
  ⟨holdsLog_afterTwo ⟨2, 0, 1⟩ 0, rfl, by decide +kernel, by decide +kernel,
    fun h => absurd h.walSeq (by decide +kernel)⟩

end VeloxMatch
