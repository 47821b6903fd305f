import VeloxMatch.BusShm

namespace VeloxMatch

open StreamState List

section MinTail

variable {shm : OmBusShm} {now : UInt64} {i fallback : Nat} {is : List Nat}

theorem foldl_minTailRound_le (is : List Nat) (m : Nat) :
    ∃ m', is.foldl (shm.minTailRound now) (some m) = some m' ∧ m' ≤ m := by
  induction is generalizing m with
  | nil => exact ⟨m, rfl, Nat.le_refl m⟩
  | cons j is ih =>
    have hround : ∃ k, shm.minTailRound now (some m) j = some k ∧ k ≤ m := by
      unfold OmBusShm.minTailRound
      split
      · split
        · next h => simp at h
        · next k h =>
          cases h
          split
          · next hlt => exact ⟨_, rfl, Nat.le_of_lt hlt⟩
          · exact ⟨_, rfl, Nat.le_refl _⟩
      · exact ⟨m, rfl, Nat.le_refl m⟩
    obtain ⟨k, hk, hkm⟩ := hround
    obtain ⟨m', hm', hle⟩ := ih k
    exact ⟨m', by rw [foldl_cons, hk, hm'], Nat.le_trans hle hkm⟩

theorem foldl_minTailRound_mem (hi : i ∈ is) (hlive : shm.live now i = true) (acc : Option Nat) :
    ∃ m, is.foldl (shm.minTailRound now) acc = some m ∧ m ≤ (shm.tails i).tail := by
  induction is generalizing acc with
  | nil => cases hi
  | cons j is ih =>
    rcases mem_cons.mp hi with rfl | hi
    · have hround : ∃ k, shm.minTailRound now acc i = some k ∧ k ≤ (shm.tails i).tail := by
        unfold OmBusShm.minTailRound
        rw [if_pos hlive]
        cases acc with
        | none => exact ⟨_, rfl, Nat.le_refl _⟩
        | some m =>
          simp only
          split
          · exact ⟨_, rfl, Nat.le_refl _⟩
          · next hlt => exact ⟨_, rfl, Nat.le_of_not_lt hlt⟩
      obtain ⟨k, hk, hkt⟩ := hround
      obtain ⟨m', hm', hle⟩ : ∃ m', is.foldl (shm.minTailRound now) (some k) = some m' ∧ m' ≤ k :=
        foldl_minTailRound_le is k
      exact ⟨m', by rw [foldl_cons, hk, hm'], Nat.le_trans hle hkt⟩
    · exact ih hi _

/-- The minimum is at most the tail of every consumer that counts. -/
theorem minTailLive_le (hi : i < shm.maxConsumers) (hlive : shm.live now i = true) :
    shm.minTailLive now fallback ≤ (shm.tails i).tail := by
  obtain ⟨m, hm, hle⟩ := foldl_minTailRound_mem (mem_range.mpr hi) hlive none
  simp only [OmBusShm.minTailLive, hm, Option.getD_some]
  exact hle

/-- The minimum is the tail of a consumer that counts, or the fallback. -/
theorem foldl_minTailRound_of {P : Nat → Prop} {acc : Option Nat}
    (htails : ∀ j ∈ is, shm.live now j = true → P (shm.tails j).tail)
    (hacc : ∀ m, acc = some m → P m) {m : Nat}
    (hm : is.foldl (shm.minTailRound now) acc = some m) : P m := by
  induction is generalizing acc with
  | nil => exact hacc m hm
  | cons j is ih =>
    refine ih (fun k hk => htails k (mem_cons_of_mem j hk)) (fun k hk => ?_) hm
    unfold OmBusShm.minTailRound at hk
    split at hk
    · next hlive =>
      have hj := htails j mem_cons_self hlive
      cases acc with
      | none =>
        cases hk
        exact hj
      | some n =>
        have hn := hacc n rfl
        simp only at hk
        split at hk <;> · cases hk; assumption
    · exact hacc k hk

theorem minTailLive_of {P : Nat → Prop}
    (htails : ∀ j, j < shm.maxConsumers → shm.live now j = true → P (shm.tails j).tail)
    (hfallback : P fallback) : P (shm.minTailLive now fallback) := by
  unfold OmBusShm.minTailLive
  cases hm : (range shm.maxConsumers).foldl (shm.minTailRound now) none with
  | none => exact hfallback
  | some m =>
    exact foldl_minTailRound_of (fun j hj => htails j (mem_range.mp hj)) (by simp) hm

theorem live_iff : shm.live now i = true ↔ (shm.tails i).lastPollNs ≠ 0 ∧
    (shm.stalenessNs = 0 ∨ now - (shm.tails i).lastPollNs ≤ shm.stalenessNs) := by
  simp [OmBusShm.live, UInt64.not_lt]

end MinTail

section Publish

variable {shm : OmBusShm}

theorem publishSlots_eq (recs : List OmBusRecord) (pos : Nat) :
    shm.publishSlots pos recs =
      { shm with
        slots := (shm.publishSlots pos recs).slots
        buffers := (shm.publishSlots pos recs).buffers } := by
  induction recs generalizing shm pos with
  | nil => rfl
  | cons rec recs ih =>
    simp only [OmBusShm.publishSlots]
    rw [ih]
    rfl

theorem publishSlots_stamped (hpow : isPowerOfTwo shm.capacity = true)
    (hmask : shm.mask = shm.capacity - 1) {log : List OmBusRecord}
    (h : Stamped shm.capacity (log.map shm.slotData) shm.slots) (recs : List OmBusRecord) :
    Stamped shm.capacity ((log ++ recs).map shm.slotData)
      (shm.publishSlots log.length recs).slots := by
  induction recs generalizing shm log with
  | nil => simpa [OmBusShm.publishSlots] using h
  | cons rec recs ih =>
    have hpush := h.push (shm.slotData rec)
    rw [length_map, ← map_singleton, ← map_append] at hpush
    have hslots : (shm.publishSlot log.length rec).slots =
        Function.update shm.slots (log.length % shm.capacity)
          ⟨log.length + 1, shm.slotData rec⟩ := by
      simp only [OmBusShm.publishSlot, hmask, land_mask hpow]
    rw [← hslots] at hpush
    have hrest := ih (show isPowerOfTwo (shm.publishSlot log.length rec).capacity = true from hpow)
      hmask hpush
    rw [append_assoc, singleton_append, length_append] at hrest
    exact hrest

end Publish

def PublishPcOk (announced maxPayload count : Nat) : PublishPc → Prop
  | .idle => announced = count
  | .waiting recs head _ => head = count ∧ announced ≤ count ∧
      ∀ rec ∈ recs, rec.payload.length ≤ maxPayload

theorem PublishPcOk.announced_le {announced maxPayload count : Nat} {pc : PublishPc}
    (h : PublishPcOk announced maxPayload count pc) : announced ≤ count := by
  cases pc with
  | idle => exact Nat.le_of_eq h
  | waiting recs head spins => exact h.2.1

/-- The slots of a stream of either kind hold the last records published. -/
structure HoldsLog (shm : OmBusShm) (published : List OmBusRecord) : Prop where
  pow : isPowerOfTwo shm.capacity = true
  mask : shm.mask = shm.capacity - 1
  stamped : Stamped shm.capacity (published.map shm.slotData) shm.slots
  sizes : ∀ rec ∈ published, rec.payload.length ≤ shm.maxPayload

namespace HoldsLog

variable {shm : OmBusShm} {published : List OmBusRecord}

theorem seq_iff (h : HoldsLog shm published) (pos : Nat) : (shm.slot pos).seq = pos + 1 ↔
    pos < published.length ∧ published.length ≤ pos + shm.capacity := by
  have hiff := h.stamped.seq_eq_iff (isPowerOfTwo_pos h.pow) (t := pos)
  rw [length_map] at hiff
  simpa only [OmBusShm.slot, h.mask, land_mask h.pow] using hiff

theorem slot_value (h : HoldsLog shm published) {pos : Nat} {rec : OmBusRecord}
    (hrec : published[pos]? = some rec) (hle : published.length ≤ pos + shm.capacity) :
    (shm.slot pos).value = shm.slotData rec := by
  have hvalue := h.stamped.value_eq (t := pos) (v := shm.slotData rec)
    (by rw [getElem?_map, hrec, Option.map_some]) (by rwa [length_map])
  simpa only [OmBusShm.slot, h.mask, land_mask h.pow] using hvalue

end HoldsLog

structure StreamInv (s : StreamState) : Prop extends HoldsLog s.shm s.published where
  unicast : s.shm.flags.broadcast = false
  producer : PublishPcOk s.shm.head s.shm.maxPayload s.published.length s.producer
  minTail : s.shm.minTail ≤ s.published.length
  opened : ∀ i e, s.endpoints i = some e → s.tail i ≤ s.published.length ∧
    i < s.shm.maxConsumers ∧ (s.shm.tails i).lastPollNs ≠ 0
  closed : ∀ i, s.endpoints i = none → (s.shm.tails i).lastPollNs = 0

/-- What endpoint `i` has got is what was published from its opening up to its tail, and what
it has not got is still in the ring. -/
structure Follows (s : StreamState) (i : Nat) : Prop where
  minTail : s.shm.minTail ≤ s.tail i
  retained : s.published.length ≤ s.tail i + s.shm.capacity
  opening : s.opening i ≤ s.tail i
  received : s.received i = (s.published.take (s.tail i)).drop (s.opening i)

variable (s : StreamState)

/-- Where an action of a consumer evaluates the minimum of the tails: with which lines, when. -/
def advancePoint (i count : Nat) (walSeq now now' : UInt64) : Option (OmBusShm × UInt64) :=
  let shm := s.shm.storeTail i (s.tail i + count) walSeq now
  if shm.heldMin (s.tail i) (s.tail i + count) = true then some (shm, now') else none

def refreshPoint : StreamAction → Option (OmBusShm × UInt64)
  | .producer now =>
    match s.producer with
    | .waiting _ head spins =>
      if s.shm.capacity ≤ head - s.shm.minTail ∧ spins &&& 31 = 0 then some (s.shm, now)
      else none
    | .idle => none
  | .poll i now now' =>
    match s.endpoints i with
    | none => none
    | some expected =>
      match s.pollResult i expected with
      | .empty | .recordTooLarge | .crcMismatch | .lapped => none
      | .delivered | .gapDetected | .reorderDetected =>
        advancePoint s i 1 (s.shm.slot (s.tail i)).value.record.walSeq now now'
  | .pollBatch i maxCount now now' =>
    match s.endpoints i with
    | none => none
    | some _ =>
      let recs := batchLoop s.shm (s.tail i) maxCount
      match recs.getLast? with
      | none => none
      | some last => advancePoint s i recs.length last.walSeq now now'
  | _ => none

def opensAnnounced : StreamAction → Prop
  | .open _ _ => s.shm.head = s.published.length
  | _ => True

/-- Wherever the minimum is evaluated, the last delivery to endpoint `i`, or its opening, is
recent enough for it to count. -/
def countsAlways (i : Nat) (s : StreamState) (a : StreamAction) : Prop :=
  opensAnnounced s a ∧ ∀ p ∈ refreshPoint s a, s.endpoints i ≠ none →
    s.shm.stalenessNs = 0 ∨ p.2 - (p.1.tails i).lastPollNs ≤ s.shm.stalenessNs

instance (a : StreamAction) : Decidable (opensAnnounced s a) := by
  induction a using StreamAction.casesOn <;> dsimp only [opensAnnounced] <;> infer_instance

instance (i : Nat) (s : StreamState) (a : StreamAction) : Decidable (countsAlways i s a) :=
  inferInstanceAs (Decidable (_ ∧ ∀ p ∈ refreshPoint s a, _ → _))

namespace StreamInv

variable {s : StreamState}

theorem start {config : OmBusStreamConfig} {shm : OmBusShm}
    (hcreate : omBusStreamCreate config = .ok shm) (hflags : config.flags.broadcast = false) :
    StreamInv (start shm) := by
  obtain ⟨hpow, hshm⟩ := omBusStreamCreate_ok hcreate
  rw [hshm]
  exact
    { pow := hpow
      mask := rfl
      unicast := hflags
      stamped := Stamped.nil fun _ _ => rfl
      sizes := by simp [StreamState.start]
      producer := rfl
      minTail := Nat.le_refl _
      opened := by simp [StreamState.start]
      closed := fun _ _ => rfl }

theorem crc_ok (shm : OmBusShm) (rec : OmBusRecord) :
    ¬ (shm.flags.crc = true ∧ omBusCrc32 (shm.slotData rec).record.payload ≠
      (shm.slotData rec).crc32) := by
  rintro ⟨hcrc, hne⟩
  simp [OmBusShm.slotData, hcrc] at hne

theorem pollResult_empty_iff (h : StreamInv s) (i : Nat) (expected : UInt64) :
    s.pollResult i expected = .empty ↔
      s.published.length ≤ s.tail i ∨ s.tail i + s.shm.capacity < s.published.length := by
  have hiff := h.seq_iff (s.tail i)
  constructor
  · intro hempty
    by_contra hnot
    have hseq := hiff.mpr (by omega)
    unfold pollResult at hempty
    simp only [hseq, ne_eq, not_true_eq_false, if_false] at hempty
    split at hempty
    · cases hempty
    · split at hempty
      · cases hempty
      · unfold omBusGapResult at hempty
        split at hempty
        · split at hempty
          · cases hempty
          · split at hempty <;> cases hempty
        · cases hempty
  · intro hnot
    have hseq : (s.shm.slot (s.tail i)).seq ≠ s.tail i + 1 := fun he => by
      have := hiff.mp he
      omega
    simp [pollResult, hseq]

theorem pollResult_delivers (h : StreamInv s) {i : Nat} {expected : UInt64}
    (hres : s.pollResult i expected ≠ .empty) :
    ∃ rec, s.published[s.tail i]? = some rec ∧ (s.shm.slot (s.tail i)).value.record = rec ∧
      s.pollResult i expected = omBusGapResult s.shm.flags expected rec.walSeq := by
  obtain ⟨hlt, hle⟩ := not_or.mp fun hw => hres ((h.pollResult_empty_iff i expected).mpr hw)
  rw [Nat.not_le] at hlt
  rw [Nat.not_lt] at hle
  have hrec := getElem?_eq_getElem hlt
  have hvalue := h.slot_value hrec hle
  refine ⟨s.published[s.tail i], hrec, by rw [hvalue]; rfl, ?_⟩
  have hseq := (h.seq_iff (s.tail i)).mpr ⟨hlt, hle⟩
  have hsize := h.sizes _ (getElem_mem hlt)
  unfold pollResult
  simp only [hseq, hvalue, ne_eq, not_true_eq_false, if_false, if_neg (crc_ok s.shm _)]
  exact if_neg (Nat.not_lt.mpr hsize)

/-- A batch takes the records published from its position on, or nothing if that is lost. -/
theorem batchLoop_eq (h : StreamInv s) (pos left : Nat) :
    batchLoop s.shm pos left =
      if s.published.length ≤ pos + s.shm.capacity then (s.published.drop pos).take left
      else [] := by
  induction left generalizing pos with
  | zero => simp [batchLoop]
  | succ left ih =>
    have hiff := h.seq_iff pos
    unfold batchLoop
    by_cases hlt : pos < s.published.length
    · by_cases hle : s.published.length ≤ pos + s.shm.capacity
      · have hseq := hiff.mpr ⟨hlt, hle⟩
        have hvalue := h.slot_value (getElem?_eq_getElem hlt) hle
        simp only [hseq, hvalue, ne_eq, not_true_eq_false, if_false, if_neg (crc_ok s.shm _),
          if_pos hle]
        rw [ih, if_pos (by omega), drop_eq_getElem_cons hlt, take_succ_cons]
        rfl
      · have hseq : (s.shm.slot pos).seq ≠ pos + 1 := fun he => hle (hiff.mp he).2
        simp [hseq, hle]
    · have hseq : (s.shm.slot pos).seq ≠ pos + 1 := fun he => hlt (hiff.mp he).1
      simp [hseq, drop_eq_nil_of_le (Nat.le_of_not_lt hlt)]

end StreamInv

end VeloxMatch
