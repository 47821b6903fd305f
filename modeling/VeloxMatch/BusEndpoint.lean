import VeloxMatch.BusShmStep

namespace VeloxMatch

open StreamState OmBusShm Function

def OmBusPollResult.delivers : OmBusPollResult → Bool
  | .delivered | .gapDetected | .reorderDetected => true
  | .empty | .recordTooLarge | .crcMismatch | .lapped => false

/-- What a poll returns; `epochChanged` comes before any look at the slots. -/
inductive OmBusCallResult where
  | epochChanged
  | result (r : OmBusPollResult)
  deriving DecidableEq, Repr

/-- An endpoint and the shared memory of its stream, of either kind, while no other call is in
progress. `headerEpoch` is the producer's, `producerEpoch` what the endpoint found when it was
opened. -/
structure OmBusAttached where
  shm : OmBusShm
  headerEpoch : UInt64
  consumerIndex : Nat
  expectedWalSeq : UInt64
  producerEpoch : UInt64

def omBusCursorMagic : Nat := 0x4F4D4243

namespace OmBusAttached

variable (ep : OmBusAttached)

def position : Nat := (ep.shm.tails ep.consumerIndex).tail

def walSeq : UInt64 := (ep.shm.tails ep.consumerIndex).walSeq

def savedCursor : List UInt8 :=
  let bytes := leBytes 8 ep.walSeq.toNat
  leBytes 4 omBusCursorMagic ++ bytes ++ leBytes 4 (omBusCrc32 bytes).toNat

def setPosition (tail : Nat) : OmBusAttached :=
  let line := { ep.shm.tails ep.consumerIndex with tail := tail }
  { ep with shm := { ep.shm with tails := update ep.shm.tails ep.consumerIndex line } }

def slotResult (shm : OmBusShm) (pos : Nat) (expected : UInt64) : OmBusPollResult :=
  let slot := shm.slot pos
  if shm.flags.broadcast = true ∧ pos + 1 < slot.seq then .lapped
  else if slot.seq ≠ pos + 1 then .empty
  else if shm.maxPayload < slot.value.record.payload.length then .recordTooLarge
  else if shm.flags.crc ∧ omBusCrc32 slot.value.record.payload ≠ slot.value.crc32 then
    .crcMismatch
  else omBusGapResult shm.flags expected slot.value.record.walSeq

def deliver (count : Nat) (rec : OmBusRecord) (now now' : UInt64) : OmBusAttached :=
  { ep with
    shm := ep.shm.advance ep.consumerIndex ep.position (ep.position + count) rec.walSeq now now'
    expectedWalSeq := rec.walSeq + 1 }

def poll (now now' : UInt64) : OmBusCallResult × Option OmBusRecord × OmBusAttached :=
  if ep.headerEpoch ≠ ep.producerEpoch then (.epochChanged, none, ep)
  else
    let result := slotResult ep.shm ep.position ep.expectedWalSeq
    let record := (ep.shm.slot ep.position).value.record
    if result.delivers = true then (.result result, some record, ep.deliver 1 record now now')
    else (.result result, none, ep)

def pollBatch (maxCount : Nat) (now now' : UInt64) :
    OmBusCallResult × List OmBusRecord × OmBusAttached :=
  if maxCount = 0 then (.result .empty, [], ep)
  else if ep.headerEpoch ≠ ep.producerEpoch then (.epochChanged, [], ep)
  else if ep.shm.flags.broadcast = true ∧ ep.position + 1 < (ep.shm.slot ep.position).seq then
    (.result .lapped, [], ep)
  else
    let recs := batchLoop ep.shm ep.position (if ep.shm.flags.broadcast then 1 else maxCount)
    match recs.getLast? with
    | none => (.result .empty, [], ep)
    | some rec => (.result .delivered, recs, ep.deliver recs.length rec now now')

/-- `om_bus_endpoint_peek_previous`: a poll from a position further back, after which the
position and the expected sequence number are put back. -/
def peekPrevious (distance : Nat) (now now' : UInt64) :
    OmBusCallResult × Option OmBusRecord × OmBusAttached :=
  let tail := ep.position
  if distance = 0 ∨ tail < distance ∨ ep.shm.capacity < distance then (.result .empty, none, ep)
  else
    let out := { ep.setPosition (tail - distance) with expectedWalSeq := 0 }.poll now now'
    (out.1, out.2.1, { out.2.2.setPosition tail with expectedWalSeq := ep.expectedWalSeq })

end OmBusAttached

/-- What may follow a peek: calls of the endpoint, and `om_bus_stream_publish`. -/
inductive LaterCall where
  | poll (now now' : UInt64)
  | pollBatch (maxCount : Nat) (now now' : UInt64)
  | saveCursor
  | publish (rec : OmBusRecord) (now : UInt64)
  deriving DecidableEq

inductive LaterResult where
  | poll (result : OmBusCallResult) (rec : Option OmBusRecord)
  | pollBatch (result : OmBusCallResult) (recs : List OmBusRecord)
  | cursor (bytes : List UInt8)
  | published
  | publishTooLarge
  | publishWaits
  deriving DecidableEq

namespace OmBusShm

def hasRoom (shm : OmBusShm) : Bool :=
  shm.flags.broadcast || decide (shm.head - shm.minTail < shm.capacity)

/-- The wait of `om_bus_stream_publish`, up to the first evaluation of the minimum. -/
def awaitRoom (shm : OmBusShm) (now : UInt64) : OmBusShm :=
  { shm with minTail := if shm.hasRoom then shm.minTail else shm.minTailLive now shm.head }

/-- `om_bus_stream_publish` while no other call makes progress. If there is no room it does not
return; it goes on with the next `publish` of the record. -/
def publish (shm : OmBusShm) (rec : OmBusRecord) (now : UInt64) : LaterResult × OmBusShm :=
  if shm.maxPayload < rec.payload.length then (.publishTooLarge, shm)
  else
    let shm := shm.awaitRoom now
    if shm.hasRoom then (.published, { shm.publishSlot shm.head rec with head := shm.head + 1 })
    else (.publishWaits, shm)

/-- No consumer is stale, and none that counts is behind the minimum the producer looks at. -/
structure MinLow (shm : OmBusShm) : Prop where
  staleness : shm.stalenessNs = 0
  minTail : ∀ i, i < shm.maxConsumers → (shm.tails i).lastPollNs ≠ 0 →
    shm.minTail ≤ (shm.tails i).tail

/-- The producer counts the same consumers, at the same tails. -/
structure SameTails (shm shm' : OmBusShm) : Prop where
  tail : ∀ i, (shm'.tails i).tail = (shm.tails i).tail
  live : ∀ i, (shm'.tails i).lastPollNs = 0 ↔ (shm.tails i).lastPollNs = 0
  low : shm.MinLow
  low' : shm'.MinLow

section Room

variable {shm shm' : OmBusShm}

theorem MinLow.live_iff (h : shm.MinLow) {now : UInt64} {i : Nat} :
    shm.live now i = true ↔ (shm.tails i).lastPollNs ≠ 0 := by
  rw [VeloxMatch.live_iff]
  exact and_iff_left (.inl h.staleness)

theorem MinLow.refresh (h : shm.stalenessNs = 0) (now : UInt64) (fallback : Nat) :
    (shm.refresh now fallback).MinLow where
  staleness := h
  minTail := fun _ hi hlive => minTailLive_le hi (VeloxMatch.live_iff.mpr ⟨hlive, .inl h⟩)

theorem MinLow.advance {i old new : Nat} {walSeq now now' : UInt64}
    (hbroadcast : shm.flags.broadcast = false) (hstale : shm.stalenessNs = 0)
    (hothers : ∀ j, j ≠ i → j < shm.maxConsumers → (shm.tails j).lastPollNs ≠ 0 →
      shm.minTail ≤ (shm.tails j).tail) :
    (shm.advance i old new walSeq now now').MinLow := by
  unfold OmBusShm.advance
  dsimp only
  split
  · exact @MinLow.refresh (shm.storeTail i new walSeq now) hstale now' new
  · next hheld =>
    refine ⟨hstale, fun j hj hlive => ?_⟩
    rcases eq_or_ne j i with rfl | hne
    · simp only [storeTail, update_self]
      by_contra hlt
      refine hheld ⟨hbroadcast, ?_⟩
      simp only [heldMin, Bool.or_eq_true, decide_eq_true_eq]
      exact .inr (Nat.lt_of_not_le hlt)
    · simp only [storeTail, update_of_ne hne] at hlive ⊢
      exact hothers j hne hj hlive

/-- Whether a publish has room depends on the tails only, not on the minimum it finds stored. -/
theorem MinLow.awaitRoom_iff (h : shm.MinLow) (hbroadcast : shm.flags.broadcast = false)
    (now : UInt64) :
    (shm.awaitRoom now).hasRoom = true ↔
      shm.head - shm.minTailLive now shm.head < shm.capacity := by
  by_cases hroom : shm.head - shm.minTail < shm.capacity
  · have hlow : min shm.minTail shm.head ≤ shm.minTailLive now shm.head :=
      minTailLive_of (P := (min shm.minTail shm.head ≤ ·))
        (fun j hj hlive => Nat.le_trans (Nat.min_le_left ..)
          (h.minTail j hj (h.live_iff.mp hlive)))
        (Nat.min_le_right ..)
    simp only [hasRoom, awaitRoom, hbroadcast, Bool.false_or, decide_eq_true_eq, hroom, if_true,
      true_iff]
    omega
  · simp only [hasRoom, awaitRoom, hbroadcast, Bool.false_or, decide_eq_true_eq, hroom, if_false]

theorem MinLow.awaitRoom (h : shm.MinLow) (now : UInt64) : (shm.awaitRoom now).MinLow := by
  refine ⟨h.staleness, fun i hi hlive => ?_⟩
  unfold OmBusShm.awaitRoom
  dsimp only
  split
  · exact h.minTail i hi hlive
  · exact minTailLive_le hi (h.live_iff.mpr hlive)

theorem SameTails.minTailLive (h : SameTails shm shm') (hmax : shm'.maxConsumers = shm.maxConsumers)
    (now : UInt64) (fallback : Nat) :
    shm'.minTailLive now fallback = shm.minTailLive now fallback := by
  have hround : shm'.minTailRound now = shm.minTailRound now := by
    funext minVal i
    have hlive : shm'.live now i = true ↔ shm.live now i = true := by
      rw [h.low.live_iff, h.low'.live_iff, ne_eq, h.live]
    simp only [minTailRound, hlive, h.tail]
  simp only [OmBusShm.minTailLive, hround, hmax]

end Room

end OmBusShm

namespace OmBusAttached

def call (ep : OmBusAttached) : LaterCall → LaterResult × OmBusAttached
  | .poll now now' => let out := ep.poll now now'; (.poll out.1 out.2.1, out.2.2)
  | .pollBatch maxCount now now' =>
    let out := ep.pollBatch maxCount now now'; (.pollBatch out.1 out.2.1, out.2.2)
  | .saveCursor => (.cursor ep.savedCursor, ep)
  | .publish rec now =>
    let out := ep.shm.publish rec now; (out.1, { ep with shm := out.2 })

def results (ep : OmBusAttached) : List LaterCall → List LaterResult
  | [] => []
  | c :: calls => (ep.call c).1 :: (ep.call c).2.results calls

/-- What the calls of an endpoint leave alone. -/
structure SameStream (ep ep' : OmBusAttached) : Prop where
  head : ep'.shm.head = ep.shm.head
  maxConsumers : ep'.shm.maxConsumers = ep.shm.maxConsumers
  consumerIndex : ep'.consumerIndex = ep.consumerIndex
  capacity : ep'.shm.capacity = ep.shm.capacity
  mask : ep'.shm.mask = ep.shm.mask
  maxPayload : ep'.shm.maxPayload = ep.shm.maxPayload
  flags : ep'.shm.flags = ep.shm.flags
  slots : ep'.shm.slots = ep.shm.slots
  headerEpoch : ep'.headerEpoch = ep.headerEpoch
  producerEpoch : ep'.producerEpoch = ep.producerEpoch

structure SameInput (ep ep' : OmBusAttached) : Prop extends SameStream ep ep' where
  position : ep'.position = ep.position
  walSeq : ep'.walSeq = ep.walSeq
  expected : ep'.expectedWalSeq = ep.expectedWalSeq
  producer : ep.shm.flags.broadcast = false → ep.shm.SameTails ep'.shm

section Same

variable {ep ep' : OmBusAttached}

theorem SameStream.slot (h : SameStream ep ep') (pos : Nat) : ep'.shm.slot pos = ep.shm.slot pos := by
  simp only [OmBusShm.slot, h.slots, h.mask]

theorem SameStream.slotResult (h : SameStream ep ep') (pos : Nat) (expected : UInt64) :
    slotResult ep'.shm pos expected = slotResult ep.shm pos expected := by
  simp only [OmBusAttached.slotResult, h.slot, h.flags, h.maxPayload]

theorem SameStream.batchLoop (h : SameStream ep ep') (pos left : Nat) :
    batchLoop ep'.shm pos left = batchLoop ep.shm pos left := by
  induction left generalizing pos with
  | zero => rfl
  | succ left ih => simp only [StreamState.batchLoop, h.slot, h.flags, ih]

theorem SameStream.trans {ep'' : OmBusAttached} (h : SameStream ep ep') (h' : SameStream ep' ep'') :
    SameStream ep ep'' where
  head := h'.head.trans h.head
  maxConsumers := h'.maxConsumers.trans h.maxConsumers
  consumerIndex := h'.consumerIndex.trans h.consumerIndex
  capacity := h'.capacity.trans h.capacity
  mask := h'.mask.trans h.mask
  maxPayload := h'.maxPayload.trans h.maxPayload
  flags := h'.flags.trans h.flags
  slots := h'.slots.trans h.slots
  headerEpoch := h'.headerEpoch.trans h.headerEpoch
  producerEpoch := h'.producerEpoch.trans h.producerEpoch

theorem SameStream.symm (h : SameStream ep ep') : SameStream ep' ep where
  head := h.head.symm
  maxConsumers := h.maxConsumers.symm
  consumerIndex := h.consumerIndex.symm
  capacity := h.capacity.symm
  mask := h.mask.symm
  maxPayload := h.maxPayload.symm
  flags := h.flags.symm
  slots := h.slots.symm
  headerEpoch := h.headerEpoch.symm
  producerEpoch := h.producerEpoch.symm

theorem deliver_reads (ep : OmBusAttached) (count : Nat) (rec : OmBusRecord) (now now' : UInt64) :
    SameStream ep (ep.deliver count rec now now') ∧
      (ep.deliver count rec now now').position = ep.position + count ∧
      (ep.deliver count rec now now').walSeq = rec.walSeq := by
  have hshm := advance_eq ep.shm ep.consumerIndex ep.position (ep.position + count) rec.walSeq now now'
  have hline : (ep.deliver count rec now now').shm.tails ep.consumerIndex =
      ⟨ep.position + count, rec.walSeq, now⟩ :=
    (congrArg (fun shm => shm.tails ep.consumerIndex) hshm).trans (update_self ..)
  refine ⟨⟨(congrArg head hshm :), (congrArg maxConsumers hshm :), rfl,
    (congrArg capacity hshm :), (congrArg mask hshm :),
    (congrArg maxPayload hshm :), (congrArg flags hshm :),
    (congrArg slots hshm :), rfl, rfl⟩, ?_, ?_⟩
  · exact congrArg OmBusConsumerTail.tail hline
  · exact congrArg OmBusConsumerTail.walSeq hline

theorem deliver_tails (ep : OmBusAttached) (count : Nat) (rec : OmBusRecord) (now now' : UInt64) :
    (ep.deliver count rec now now').shm.tails = update ep.shm.tails ep.consumerIndex
      ⟨ep.position + count, rec.walSeq, now⟩ :=
  congrArg tails (advance_eq ..)

theorem deliver_sameTails (h : ep.shm.SameTails ep'.shm) (hstream : SameStream ep ep')
    (hpos : ep'.position = ep.position) (hbroadcast : ep.shm.flags.broadcast = false) (count : Nat)
    (rec : OmBusRecord) (now now' : UInt64) :
    (ep.deliver count rec now now').shm.SameTails (ep'.deliver count rec now now').shm := by
  have hline : ∀ i,
      ((ep'.deliver count rec now now').shm.tails i).tail =
        ((ep.deliver count rec now now').shm.tails i).tail ∧
      (((ep'.deliver count rec now now').shm.tails i).lastPollNs = 0 ↔
        ((ep.deliver count rec now now').shm.tails i).lastPollNs = 0) := by
    intro i
    simp only [deliver_tails, hstream.consumerIndex, hpos]
    rcases eq_or_ne i ep.consumerIndex with rfl | hne
    · simp only [update_self, and_self]
    · simp only [update_of_ne hne]
      exact ⟨h.tail i, h.live i⟩
  exact ⟨fun i => (hline i).1, fun i => (hline i).2,
    .advance hbroadcast h.low.staleness fun j _ => h.low.minTail j,
    .advance (hstream.flags ▸ hbroadcast) h.low'.staleness fun j _ => h.low'.minTail j⟩

theorem SameInput.deliver (h : SameInput ep ep') (count : Nat) (rec : OmBusRecord)
    (now now' : UInt64) :
    SameInput (ep.deliver count rec now now') (ep'.deliver count rec now now') := by
  obtain ⟨hstream, hpos, hseq⟩ := deliver_reads ep count rec now now'
  obtain ⟨hstream', hpos', hseq'⟩ := deliver_reads ep' count rec now now'
  refine ⟨hstream.symm.trans (h.toSameStream.trans hstream'), ?_, hseq'.trans hseq.symm, rfl,
    fun hbroadcast => ?_⟩
  · rw [hpos, hpos', h.position]
  · rw [hstream.flags] at hbroadcast
    exact deliver_sameTails (h.producer hbroadcast) h.toSameStream h.position hbroadcast ..

theorem SameInput.awaitRoom (h : SameInput ep ep') (now : UInt64) :
    (ep'.shm.awaitRoom now).hasRoom = (ep.shm.awaitRoom now).hasRoom ∧
      SameInput { ep with shm := ep.shm.awaitRoom now }
        { ep' with shm := ep'.shm.awaitRoom now } := by
  constructor
  · cases hbroadcast : ep.shm.flags.broadcast with
    | true => simp [OmBusShm.hasRoom, OmBusShm.awaitRoom, h.flags, hbroadcast]
    | false =>
      have hsame := h.producer hbroadcast
      rw [Bool.eq_iff_iff, hsame.low.awaitRoom_iff hbroadcast,
        hsame.low'.awaitRoom_iff (h.flags ▸ hbroadcast), hsame.minTailLive h.maxConsumers, h.head,
        h.capacity]
  · refine { h with producer := fun hbroadcast => ?_ }
    have hsame := h.producer hbroadcast
    exact ⟨hsame.tail, hsame.live, hsame.low.awaitRoom now, hsame.low'.awaitRoom now⟩

theorem SameInput.publish (h : SameInput ep ep') (rec : OmBusRecord) (now : UInt64) :
    (ep'.call (.publish rec now)).1 = (ep.call (.publish rec now)).1 ∧
      SameInput (ep.call (.publish rec now)).2 (ep'.call (.publish rec now)).2 := by
  obtain ⟨hroom, hwait⟩ := h.awaitRoom now
  simp only [OmBusAttached.call, OmBusShm.publish, hroom, h.maxPayload]
  split
  · exact ⟨rfl, h⟩
  split
  · refine ⟨rfl, { hwait with head := ?_, slots := ?_, producer := fun hbroadcast => ?_ }⟩
    · exact congrArg (· + 1) hwait.head
    · have hdata : ep'.shm.slotData rec = ep.shm.slotData rec := by
        simp only [slotData, h.flags]
      change update ep'.shm.slots (ep'.shm.head &&& ep'.shm.mask)
        ⟨ep'.shm.head + 1, ep'.shm.slotData rec⟩ = _
      rw [h.slots, h.mask, h.head, hdata]
      rfl
    · exact { hwait.producer hbroadcast with
        low := { (hwait.producer hbroadcast).low with }
        low' := { (hwait.producer hbroadcast).low' with } }
  · exact ⟨rfl, hwait⟩

theorem SameInput.call (h : SameInput ep ep') (c : LaterCall) :
    (ep'.call c).1 = (ep.call c).1 ∧ SameInput (ep.call c).2 (ep'.call c).2 := by
  cases c with
  | poll now now' =>
    simp only [OmBusAttached.call, OmBusAttached.poll, h.headerEpoch, h.producerEpoch, h.position,
      h.expected, h.slotResult, h.slot]
    split
    · exact ⟨rfl, h⟩
    split
    · exact ⟨rfl, h.deliver ..⟩
    · exact ⟨rfl, h⟩
  | pollBatch maxCount now now' =>
    simp only [OmBusAttached.call, OmBusAttached.pollBatch, h.headerEpoch, h.producerEpoch,
      h.position, h.flags, h.slot, h.batchLoop]
    split
    · exact ⟨rfl, h⟩
    split
    · exact ⟨rfl, h⟩
    split
    · exact ⟨rfl, h⟩
    split
    · exact ⟨rfl, h⟩
    · exact ⟨rfl, h.deliver ..⟩
  | saveCursor =>
    refine ⟨?_, h⟩
    simp only [OmBusAttached.call, savedCursor, h.walSeq]
  | publish rec now => exact h.publish rec now

theorem SameInput.results (h : SameInput ep ep') (calls : List LaterCall) :
    ep'.results calls = ep.results calls := by
  induction calls generalizing ep ep' with
  | nil => rfl
  | cons c calls ih =>
    obtain ⟨hresult, hnext⟩ := h.call c
    simp only [OmBusAttached.results, hresult, ih hnext]

theorem SameInput.refl (ep : OmBusAttached)
    (hlow : ep.shm.flags.broadcast = false → ep.shm.MinLow) : SameInput ep ep :=
  ⟨⟨rfl, rfl, rfl, rfl, rfl, rfl, rfl, rfl, rfl, rfl⟩, rfl, rfl, rfl, fun hbroadcast =>
    ⟨fun _ => rfl, fun _ => .rfl, hlow hbroadcast, hlow hbroadcast⟩⟩

theorem setPosition_reads (ep : OmBusAttached) (tail : Nat) (expected : UInt64) :
    let out : OmBusAttached := { ep.setPosition tail with expectedWalSeq := expected }
    SameStream ep out ∧ out.position = tail ∧ out.walSeq = ep.walSeq := by
  refine ⟨⟨rfl, rfl, rfl, rfl, rfl, rfl, rfl, rfl, rfl, rfl⟩, ?_, ?_⟩
  · simp [position, setPosition]
  · simp [OmBusAttached.walSeq, setPosition]

end Same

end OmBusAttached

end VeloxMatch
