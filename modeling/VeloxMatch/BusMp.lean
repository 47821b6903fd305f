import VeloxMatch.Bytes
import VeloxMatch.Runs
import VeloxMatch.StampedRing

namespace VeloxMatch

open Function

structure OmBusMpConfig where
  capacity : Nat
  slotSize : Nat
  maxProducers : Nat
  skipTimeoutNs : UInt64
  deriving DecidableEq, Repr

inductive OmBusMpError where
  | init
  | notPow2
  | alignment
  deriving DecidableEq, Repr

structure OmBusMpSlot where
  seq : Nat
  sequence : Nat
  producerId : Nat
  payloadLen : Nat
  payload : List UInt8
  deriving DecidableEq, Repr

/-- Positions are not wrapped: the 64-bit cursors reach their limit after 2^64 claims. -/
structure OmBusMp where
  capacity : Nat
  mask : Nat
  maxPayload : Nat
  skipTimeoutNs : UInt64
  slots : Nat → OmBusMpSlot
  enqueuePos : Nat
  dequeuePos : Nat

def ombusMpSlotHeaderSize : Nat := 24
def ombusMpCachelineSize : Nat := 64
def ombusMpDefaultSkipTimeoutNs : UInt64 := 100000

def ombusMpValidateConfig (config : OmBusMpConfig) : Option OmBusMpError :=
  if isPowerOfTwo config.capacity = false then some .notPow2
  else if config.slotSize < ombusMpSlotHeaderSize + 1 then some .init
  else if config.slotSize % ombusMpCachelineSize ≠ 0 then some .alignment
  else if config.maxProducers = 0 then some .init
  else none

/-- The memory handed over is aligned and large enough. -/
def ombusMpInit (config : OmBusMpConfig) : Except OmBusMpError OmBusMp :=
  match ombusMpValidateConfig config with
  | some err => .error err
  | none => .ok
    { capacity := config.capacity
      mask := config.capacity - 1
      maxPayload := config.slotSize - ombusMpSlotHeaderSize
      skipTimeoutNs :=
        if config.skipTimeoutNs = 0 then ombusMpDefaultSkipTimeoutNs else config.skipTimeoutNs
      slots := fun i =>
        ⟨i, 0, 0, 0, List.replicate (config.slotSize - ombusMpSlotHeaderSize) 0⟩
      enqueuePos := 0
      dequeuePos := 0 }

def OmBusMp.setSlot (ring : OmBusMp) (pos : Nat) (slot : OmBusMpSlot) : OmBusMp :=
  { ring with slots := update ring.slots (pos &&& ring.mask) slot }

def OmBusMp.slot (ring : OmBusMp) (pos : Nat) : OmBusMpSlot := ring.slots (pos &&& ring.mask)

/-- What a claimant holds: its slot is that of `sequence`. -/
structure OmBusMpClaim where
  sequence : Nat
  producerId : Nat
  payloadLen : Nat
  deriving DecidableEq, Repr

/-- Where the payload pointer of a record leads: nowhere, into a slot of the ring, which is
already released when the poll returns, or to the caller's copy. -/
inductive OmBusMpPayload where
  | null
  | inSlot (index : Nat)
  | copied (bytes : List UInt8)
  deriving DecidableEq, Repr

structure OmBusMpRecord where
  sequence : Nat
  producerId : Nat
  payloadLen : Nat
  payload : OmBusMpPayload
  deriving DecidableEq, Repr

inductive OmBusMpPollResult where
  | record
  | skipped
  deriving DecidableEq, Repr

/-- Where a producer thread stands in `om_bus_mp_claim`: at the load of the cursor, of the
slot's stamp, at the compare-and-exchange, and before the stores to the slot's header. -/
inductive ClaimPc where
  | idle
  | loadPos (producerId payloadLen : Nat)
  | loadSeq (producerId payloadLen pos : Nat)
  | exchange (producerId payloadLen pos : Nat)
  | fill (producerId payloadLen pos : Nat)
  deriving DecidableEq, Repr

/-- The call the consumer is in; a batch has `left` records to go and `count` behind it. -/
inductive PollCall where
  | poll
  | pollCopy (capacity : Nat)
  | pollBatch (left count : Nat)
  deriving DecidableEq, Repr

/-- Where the consumer stands. `release` is before the store that frees the slot, `advance`
between that store and the store to the cursor. -/
inductive PollPc where
  | idle
  | check (call : PollCall)
  | take (call : PollCall)
  | release (call : PollCall) (record : OmBusMpRecord)
  | enqueued
  | skip
  | advance (call : PollCall)
  deriving DecidableEq, Repr

structure MpReport where
  result : OmBusMpPollResult
  call : PollCall
  record : OmBusMpRecord
  deriving DecidableEq, Repr

/-- The ring with its producers and its consumer. `claims` are the claims returned and not yet
committed, `claimed` the claims by position, `contents` the payload buffer as each claimant left
it, `commits` what each commit returned, and `reports` what the polls settled, each from the
store or exchange on that releases its slot. -/
structure MpState where
  ring : OmBusMp
  blockedSequence : Option Nat
  blockedSinceNs : UInt64
  threads : Nat → ClaimPc
  poll : PollPc
  claims : List OmBusMpClaim
  claimed : Nat → OmBusMpClaim
  contents : Nat → List UInt8
  commits : Nat → Option Bool
  reports : List MpReport

inductive MpAction where
  | claim (thread producerId payloadLen : Nat)
  | thread (thread : Nat) (spurious : Bool)
  | write (claim : OmBusMpClaim) (offset : Nat) (bytes : List UInt8)
  | commit (claim : OmBusMpClaim)
  | poll
  | pollCopy (capacity : Nat)
  | pollBatch (maxRecords : Nat)
  | consumer (now : UInt64)
  deriving DecidableEq, Repr

namespace MpState

def start (ring : OmBusMp) : MpState where
  ring := ring
  blockedSequence := none
  blockedSinceNs := 0
  threads := fun _ => .idle
  poll := .idle
  claims := []
  claimed := fun p => ⟨p, 0, 0⟩
  contents := fun _ => []
  commits := fun _ => none
  reports := []

variable (s : MpState)

def setThread (t : Nat) (pc : ClaimPc) : MpState :=
  { s with threads := update s.threads t pc }

def fillClaim (producerId payloadLen pos : Nat) : MpState :=
  let claim : OmBusMpClaim := ⟨pos, producerId, payloadLen⟩
  let slot := { s.ring.slot pos with
    sequence := pos, producerId := producerId, payloadLen := payloadLen }
  { s with
    ring := s.ring.setSlot pos slot
    claims := claim :: s.claims
    claimed := update s.claimed pos claim
    contents := update s.contents pos (s.ring.slot pos).payload }

/-- The next step of a claim. The exchange is the weak one, which may fail for no reason. -/
def threadStep (t : Nat) (spurious : Bool) : Option MpState :=
  match s.threads t with
  | .idle => none
  | .loadPos pid len => some (s.setThread t (.loadSeq pid len s.ring.enqueuePos))
  | .loadSeq pid len pos =>
    let seq := (s.ring.slot pos).seq
    if seq = pos then some (s.setThread t (.exchange pid len pos))
    else if seq < pos then some (s.setThread t .idle)
    else some (s.setThread t (.loadPos pid len))
  | .exchange pid len pos =>
    if s.ring.enqueuePos = pos ∧ spurious = false then
      some { s.setThread t (.fill pid len pos) with
        ring := { s.ring with enqueuePos := pos + 1 } }
    else some (s.setThread t (.loadPos pid len))
  | .fill pid len pos => some ((s.fillClaim pid len pos).setThread t .idle)

/-- `om_bus_mp_commit` of a claim that is still held. -/
def commit (claim : OmBusMpClaim) : Option MpState :=
  if claim ∈ s.claims then
    let s := { s with claims := s.claims.erase claim }
    let slot := s.ring.slot claim.sequence
    if slot.seq = claim.sequence then
      some { s with
        ring := s.ring.setSlot claim.sequence { slot with seq := claim.sequence + 1 }
        commits := update s.commits claim.sequence (some true) }
    else some { s with commits := update s.commits claim.sequence (some false) }
  else none

def write (claim : OmBusMpClaim) (offset : Nat) (bytes : List UInt8) : Option MpState :=
  if claim ∈ s.claims then
    let slot := s.ring.slot claim.sequence
    let slot := { slot with payload := writeAt slot.payload offset bytes }
    some { s with
      ring := s.ring.setSlot claim.sequence slot
      contents := update s.contents claim.sequence
        (writeAt (s.contents claim.sequence) offset bytes) }
  else none

/-- The record as a poll fills it in from the slot; a copy that does not fit has no payload. -/
def recordOf (ring : OmBusMp) (pos : Nat) (call : PollCall) : OmBusMpRecord :=
  let slot := ring.slot pos
  { sequence := slot.sequence
    producerId := slot.producerId
    payloadLen := slot.payloadLen
    payload :=
      match call with
      | .pollCopy capacity =>
        if slot.payloadLen ≤ capacity ∧ slot.payloadLen ≤ ring.maxPayload then
          .copied (slot.payload.take slot.payloadLen)
        else .null
      | _ => .inSlot (pos &&& ring.mask) }

def releaseSlot (call : PollCall) (result : OmBusMpPollResult) (record : OmBusMpRecord) : MpState :=
  let pos := s.ring.dequeuePos
  { s with
    ring := s.ring.setSlot pos { s.ring.slot pos with seq := pos + s.ring.capacity }
    poll := .advance call
    reports := s.reports ++ [⟨result, call, record⟩] }

def unblock : MpState := { s with blockedSequence := none, blockedSinceNs := 0 }

/-- The next step of a poll; `now` is what the clock shows if it is read. -/
def consumerStep (now : UInt64) : Option MpState :=
  let pos := s.ring.dequeuePos
  let seq := (s.ring.slot pos).seq
  match s.poll with
  | .idle => none
  | .check (.pollBatch left count) =>
    if left ≠ 0 ∧ seq = pos + 1 then some { s with poll := .take (.pollBatch left count) }
    else some { if count = 0 then s else s.unblock with poll := .idle }
  | .check call =>
    if seq = pos + 1 then some { s with poll := .take call }
    else if seq = pos then some { s with poll := .enqueued }
    else some { s with poll := .idle }
  | .take call => some { s with poll := .release call (recordOf s.ring pos call) }
  | .release call record => some (s.releaseSlot call .record record)
  | .enqueued =>
    if s.ring.enqueuePos ≤ pos then some { s with poll := .idle }
    else if s.blockedSequence ≠ some pos then
      some { s with blockedSequence := some pos, blockedSinceNs := now, poll := .idle }
    else if now - s.blockedSinceNs < s.ring.skipTimeoutNs then some { s with poll := .idle }
    else some { s with poll := .skip }
  | .skip =>
    if seq = pos then some (s.releaseSlot .poll .skipped ⟨pos, 2 ^ 32 - 1, 0, .null⟩)
    else some { s with poll := .idle }
  | .advance call =>
    let s := { s with ring := { s.ring with dequeuePos := pos + 1 } }
    match call with
    | .pollBatch left count => some { s with poll := .check (.pollBatch (left - 1) (count + 1)) }
    | _ => some { s.unblock with poll := .idle }

def step : MpAction → Option MpState
  | .claim t producerId payloadLen =>
    match s.threads t with
    | .idle =>
      if s.ring.maxPayload < payloadLen then some s
      else some (s.setThread t (.loadPos producerId payloadLen))
    | _ => none
  | .thread t spurious => s.threadStep t spurious
  | .write claim offset bytes => s.write claim offset bytes
  | .commit claim => s.commit claim
  | .poll => if s.poll = .idle then some { s with poll := .check .poll } else none
  | .pollCopy capacity =>
    if s.poll = .idle then
      if capacity = 0 then some s else some { s with poll := .check (.pollCopy capacity) }
    else none
  | .pollBatch maxRecords =>
    if s.poll = .idle then some { s with poll := .check (.pollBatch maxRecords 0) } else none
  | .consumer now => s.consumerStep now

end MpState

end VeloxMatch
