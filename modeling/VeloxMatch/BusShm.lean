import VeloxMatch.Bytes
import VeloxMatch.Runs
import VeloxMatch.StampedRing

namespace VeloxMatch

open Function

structure OmBusRecord where
  walSeq : UInt64
  walType : UInt8
  payload : List UInt8
  deriving DecidableEq, Repr

structure OmBusSlotData where
  record : OmBusRecord
  crc32 : UInt32
  deriving DecidableEq, Repr

structure OmBusFlags where
  crc : Bool
  rejectReorder : Bool
  broadcast : Bool
  deriving DecidableEq, Repr

structure OmBusConsumerTail where
  tail : Nat
  walSeq : UInt64
  lastPollNs : UInt64
  deriving DecidableEq, Repr

/-- The shared memory of a stream. Positions are not wrapped: the 64-bit cursors reach their
limit after 2^64 records. `buffers` are the payload bytes of the slots; the payload of the record
in a slot is the first `payload_len` of them (`BuffersInv.held`). -/
structure OmBusShm where
  capacity : Nat
  mask : Nat
  maxPayload : Nat
  maxConsumers : Nat
  flags : OmBusFlags
  stalenessNs : UInt64
  slots : Nat → Cell OmBusSlotData
  buffers : Nat → List UInt8
  head : Nat
  minTail : Nat
  tails : Nat → OmBusConsumerTail

structure OmBusStreamConfig where
  capacity : Nat
  slotSize : Nat
  maxConsumers : Nat
  flags : OmBusFlags
  stalenessNs : UInt64
  deriving DecidableEq, Repr

inductive OmBusError where
  | init
  | notPow2
  | alignment
  deriving DecidableEq, Repr

def omBusSlotHeaderSize : Nat := 24
def omBusCachelineSize : Nat := 64
def omBusDefaultCapacity : Nat := 4096
def omBusDefaultSlotSize : Nat := 256
def omBusDefaultMaxConsumers : Nat := 8

/-- The shared memory object is created, sized and mapped. -/
def omBusStreamCreate (config : OmBusStreamConfig) : Except OmBusError OmBusShm :=
  let capacity := if config.capacity = 0 then omBusDefaultCapacity else config.capacity
  let slotSize := if config.slotSize = 0 then omBusDefaultSlotSize else config.slotSize
  let maxConsumers :=
    if config.maxConsumers = 0 then omBusDefaultMaxConsumers else config.maxConsumers
  if isPowerOfTwo capacity = false then .error .notPow2
  else if slotSize < omBusSlotHeaderSize + 1 then .error .init
  else if slotSize % omBusCachelineSize ≠ 0 then .error .alignment
  else .ok
    { capacity := capacity
      mask := capacity - 1
      maxPayload := slotSize - omBusSlotHeaderSize
      maxConsumers := maxConsumers
      flags := config.flags
      stalenessNs := config.stalenessNs
      slots := fun i => ⟨i, ⟨⟨0, 0, []⟩, 0⟩⟩
      buffers := fun _ => List.replicate (slotSize - omBusSlotHeaderSize) 0
      head := 0
      minTail := 0
      tails := fun _ => ⟨0, 0, 0⟩ }

theorem omBusStreamCreate_ok {config : OmBusStreamConfig} {shm : OmBusShm}
    (h : omBusStreamCreate config = .ok shm) :
    isPowerOfTwo shm.capacity = true ∧ shm =
      { capacity := shm.capacity, mask := shm.capacity - 1, maxPayload := shm.maxPayload
        maxConsumers := shm.maxConsumers, flags := config.flags
        stalenessNs := config.stalenessNs, slots := fun i => ⟨i, ⟨⟨0, 0, []⟩, 0⟩⟩
        buffers := fun _ => List.replicate shm.maxPayload 0
        head := 0, minTail := 0, tails := fun _ => ⟨0, 0, 0⟩ } := by
  unfold omBusStreamCreate at h
  simp only at h
  generalize (if config.capacity = 0 then omBusDefaultCapacity else config.capacity) = capacity
    at h
  generalize (if config.slotSize = 0 then omBusDefaultSlotSize else config.slotSize) = slotSize
    at h
  split at h
  · cases h
  · next hpow =>
    split at h
    · cases h
    · split at h
      · cases h
      · cases h
        exact ⟨Bool.eq_true_of_not_eq_false hpow, rfl⟩

def omBusCrc32cEntry (i : UInt32) : UInt32 :=
  (List.range 8).foldl
    (fun c _ => (c >>> 1) ^^^ (if c &&& 1 = 1 then 0x82F63B78 else 0)) i

def omBusCrc32 (data : List UInt8) : UInt32 :=
  data.foldl
    (fun crc b => omBusCrc32cEntry ((crc ^^^ b.toUInt32) &&& 0xFF) ^^^ (crc >>> 8)) 0xFFFFFFFF
    ^^^ 0xFFFFFFFF

namespace OmBusShm

variable (shm : OmBusShm)

def slotData (rec : OmBusRecord) : OmBusSlotData :=
  ⟨rec, if shm.flags.crc then omBusCrc32 rec.payload else 0⟩

def slot (pos : Nat) : Cell OmBusSlotData := shm.slots (pos &&& shm.mask)

def buffer (pos : Nat) : List UInt8 := shm.buffers (pos &&& shm.mask)

/-- `_om_bus_publish_slot` as one step. -/
def publishSlot (pos : Nat) (rec : OmBusRecord) : OmBusShm :=
  { shm with
    slots := update shm.slots (pos &&& shm.mask) ⟨pos + 1, shm.slotData rec⟩
    buffers :=
      update shm.buffers (pos &&& shm.mask) (overwrite (shm.buffer pos) rec.payload) }

def publishSlots (shm : OmBusShm) (pos : Nat) : List OmBusRecord → OmBusShm
  | [] => shm
  | rec :: recs => (shm.publishSlot pos rec).publishSlots (pos + 1) recs

def live (now : UInt64) (i : Nat) : Bool :=
  (shm.tails i).lastPollNs != 0 &&
    (shm.stalenessNs == 0 || !(shm.stalenessNs < now - (shm.tails i).lastPollNs))

/-- One round of `_om_bus_min_tail_live`; `none` is UINT64_MAX, which no tail reaches. -/
def minTailRound (now : UInt64) (minVal : Option Nat) (i : Nat) : Option Nat :=
  if shm.live now i = true then
    match minVal with
    | none => some (shm.tails i).tail
    | some m => if (shm.tails i).tail < m then some (shm.tails i).tail else some m
  else minVal

def minTailLive (now : UInt64) (fallback : Nat) : Nat :=
  ((List.range shm.maxConsumers).foldl (shm.minTailRound now) none).getD fallback

def refresh (now : UInt64) (fallback : Nat) : OmBusShm :=
  { shm with minTail := shm.minTailLive now fallback }

/-- The stores of `_om_bus_endpoint_advance` to the consumer's own line. -/
def storeTail (i tail : Nat) (walSeq now : UInt64) : OmBusShm :=
  { shm with tails := update shm.tails i ⟨tail, walSeq, now⟩ }

def heldMin (oldTail newTail : Nat) : Bool :=
  oldTail == shm.minTail || decide (newTail < shm.minTail)

/-- `_om_bus_endpoint_advance`, which reads the clock twice. -/
def advance (i oldTail newTail : Nat) (walSeq now now' : UInt64) : OmBusShm :=
  let shm := shm.storeTail i newTail walSeq now
  if shm.flags.broadcast = false ∧ shm.heldMin oldTail newTail = true then
    shm.refresh now' newTail
  else shm

end OmBusShm

inductive OmBusPollResult where
  | empty
  | delivered
  | gapDetected
  | reorderDetected
  | recordTooLarge
  | crcMismatch
  | lapped
  deriving DecidableEq, Repr

/-- `_om_bus_gap_result`: what a delivery returns. -/
def omBusGapResult (flags : OmBusFlags) (expectedWalSeq walSeq : UInt64) : OmBusPollResult :=
  if 0 < expectedWalSeq ∧ walSeq ≠ expectedWalSeq then
    if expectedWalSeq < walSeq then .gapDetected
    else if flags.rejectReorder then .reorderDetected
    else .delivered
  else .delivered

theorem omBusGapResult_of_skip {last walSeq : UInt64} (flags : OmBusFlags)
    (h : last.toNat + 1 < walSeq.toNat) : omBusGapResult flags (last + 1) walSeq = .gapDetected := by
  have hbound := walSeq.toNat_lt
  have hexpected : (last + 1).toNat = last.toNat + 1 := by
    rw [UInt64.toNat_add, UInt64.toNat_one]
    omega
  have hpositive : 0 < last + 1 := by
    rw [UInt64.lt_iff_toNat_lt, hexpected, UInt64.toNat_zero]
    omega
  have hbehind : last + 1 < walSeq := by
    rw [UInt64.lt_iff_toNat_lt, hexpected]
    exact h
  have hne : walSeq ≠ last + 1 := fun he => by
    rw [he] at hbehind
    exact absurd hbehind (UInt64.lt_irrefl _)
  rw [omBusGapResult, if_pos ⟨hpositive, hne⟩, if_pos hbehind]

/-- Where the producer stands in `om_bus_stream_publish` or `om_bus_stream_publish_batch`: in the
loop that waits for space, with the records still to be written and the local head. -/
inductive PublishPc where
  | idle
  | waiting (recs : List OmBusRecord) (head spins : Nat)
  deriving DecidableEq, Repr

/-- A stream that is not broadcast, its producer and its endpoints by consumer index, given by
their expected sequence numbers. `published` are the records in the order of their positions,
`received i` those an endpoint has got since it was opened at `opening i`, `lastCall i` when it
was opened or last polled. -/
structure StreamState where
  shm : OmBusShm
  producer : PublishPc
  endpoints : Nat → Option UInt64
  clock : UInt64
  published : List OmBusRecord
  opening : Nat → Nat
  received : Nat → List OmBusRecord
  lastCall : Nat → UInt64

/-- The calls; a call that waits goes on with `producer`. Clock values are arguments. -/
inductive StreamAction where
  | publish (rec : OmBusRecord)
  | publishBatch (recs : List OmBusRecord)
  | producer (now : UInt64)
  | open (i : Nat) (now : UInt64)
  | poll (i : Nat) (now now' : UInt64)
  | pollBatch (i maxCount : Nat) (now now' : UInt64)
  | close (i : Nat)
  deriving DecidableEq, Repr

namespace StreamState

def start (shm : OmBusShm) : StreamState where
  shm := shm
  producer := .idle
  endpoints := fun _ => none
  clock := 0
  published := []
  opening := fun _ => 0
  received := fun _ => []
  lastCall := fun _ => 0

variable (s : StreamState)

def tail (i : Nat) : Nat := (s.shm.tails i).tail

def startPublish (recs : List OmBusRecord) : Option StreamState :=
  match s.producer with
  | .idle =>
    if recs.any (fun rec => s.shm.maxPayload < rec.payload.length) || recs.isEmpty then some s
    else some { s with producer := .waiting recs s.shm.head 0 }
  | _ => none

/-- Another round of the wait, or as many records as fit. The head is stored after the last. -/
def producerStep (now : UInt64) : Option StreamState :=
  match s.producer with
  | .idle => none
  | .waiting recs head spins =>
    if head - s.shm.minTail < s.shm.capacity then
      let chunk := recs.take (s.shm.capacity - (head - s.shm.minTail))
      let rest := recs.drop (s.shm.capacity - (head - s.shm.minTail))
      let shm := s.shm.publishSlots head chunk
      let s := { s with published := s.published ++ chunk }
      if rest = [] then
        some { s with shm := { shm with head := head + chunk.length }, producer := .idle }
      else some { s with shm := shm, producer := .waiting rest (head + chunk.length) 0 }
    else
      let s := { s with producer := .waiting recs head ((spins + 1) % 2 ^ 32) }
      if spins &&& 31 = 0 then some { s with shm := s.shm.refresh now head, clock := now }
      else some s

/-- The other failures of `om_bus_endpoint_open` leave no trace. -/
def openEndpoint (i : Nat) (now : UInt64) : Option StreamState :=
  if s.endpoints i ≠ none then none
  else if s.shm.maxConsumers ≤ i then some s
  else some { s with
    shm := s.shm.storeTail i s.shm.head 0 now
    endpoints := update s.endpoints i (some 0)
    clock := now
    opening := update s.opening i s.shm.head
    received := update s.received i []
    lastCall := update s.lastCall i now }

def deliver (i : Nat) (recs : List OmBusRecord) (walSeq now now' : UInt64) : StreamState :=
  { s with
    shm := s.shm.advance i (s.tail i) (s.tail i + recs.length) walSeq now now'
    endpoints := update s.endpoints i (some (walSeq + 1))
    received := update s.received i (s.received i ++ recs) }

def pollResult (i : Nat) (expected : UInt64) : OmBusPollResult :=
  let slot := s.shm.slot (s.tail i)
  if slot.seq ≠ s.tail i + 1 then .empty
  else if s.shm.maxPayload < slot.value.record.payload.length then .recordTooLarge
  else if s.shm.flags.crc ∧ omBusCrc32 slot.value.record.payload ≠ slot.value.crc32 then
    .crcMismatch
  else omBusGapResult s.shm.flags expected slot.value.record.walSeq

/-- `om_bus_endpoint_poll`; the producer's epoch does not change. -/
def poll (i : Nat) (now now' : UInt64) : Option StreamState :=
  match s.endpoints i with
  | none => none
  | some expected =>
    let record := (s.shm.slot (s.tail i)).value.record
    let s' := { s with clock := now', lastCall := update s.lastCall i now }
    match s.pollResult i expected with
    | .empty | .recordTooLarge | .crcMismatch | .lapped => some s'
    | .delivered | .gapDetected | .reorderDetected =>
      some (s'.deliver i [record] record.walSeq now now')

/-- The loop of `om_bus_endpoint_poll_batch` from position `pos` on. -/
def batchLoop (shm : OmBusShm) (pos : Nat) : Nat → List OmBusRecord
  | 0 => []
  | left + 1 =>
    let slot := shm.slot pos
    if slot.seq ≠ pos + 1 then []
    else if shm.flags.crc ∧ omBusCrc32 slot.value.record.payload ≠ slot.value.crc32 then []
    else slot.value.record :: batchLoop shm (pos + 1) left

def pollBatch (i maxCount : Nat) (now now' : UInt64) : Option StreamState :=
  match s.endpoints i with
  | none => none
  | some _ =>
    let recs := batchLoop s.shm (s.tail i) maxCount
    let s' := { s with clock := now', lastCall := update s.lastCall i now }
    match recs.getLast? with
    | none => some s'
    | some rec => some (s'.deliver i recs rec.walSeq now now')

def closeEndpoint (i : Nat) : Option StreamState :=
  match s.endpoints i with
  | none => none
  | some _ =>
    let line := s.shm.tails i
    some { s with
      shm := s.shm.storeTail i line.tail line.walSeq 0
      endpoints := update s.endpoints i none }

def clockOk (now now' : UInt64) : Bool :=
  decide (s.clock ≤ now) && decide (now ≤ now') && now != 0

def step : StreamAction → Option StreamState
  | .publish rec => s.startPublish [rec]
  | .publishBatch recs => s.startPublish recs
  | .producer now => if s.clockOk now now then s.producerStep now else none
  | .open i now => if s.clockOk now now then s.openEndpoint i now else none
  | .poll i now now' => if s.clockOk now now' then s.poll i now now' else none
  | .pollBatch i maxCount now now' =>
    if s.clockOk now now' then s.pollBatch i maxCount now now' else none
  | .close i => s.closeEndpoint i

end StreamState

end VeloxMatch
