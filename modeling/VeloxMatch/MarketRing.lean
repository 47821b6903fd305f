import VeloxMatch.Bytes
import VeloxMatch.Runs
import VeloxMatch.StampedRing

namespace VeloxMatch

open Function

structure OmMarketRingConfig where
  capacity : Nat
  consumerCount : Nat
  deriving DecidableEq, Repr

inductive OmRingError where
  | invalidParam
  | ringNotPow2
  deriving DecidableEq, Repr

/-- Pointers are addresses, `NULL` is 0. The ring positions are not wrapped: the 64-bit
counters of the source reach their limit after 2^64 pointers. -/
structure OmMarketRing where
  capacity : Nat
  mask : Nat
  consumerCount : Nat
  slots : Nat → Cell Nat
  consumerTails : Nat → Nat
  head : Nat
  minTail : Nat

/-- Allocations and the initialisation of the mutex succeed. -/
def omMarketRingInit (config : OmMarketRingConfig) : Except OmRingError OmMarketRing :=
  if config.capacity = 0 ∨ config.consumerCount = 0 then .error .invalidParam
  else if isPowerOfTwo config.capacity = false then .error .ringNotPow2
  else .ok
    { capacity := config.capacity
      mask := config.capacity - 1
      consumerCount := config.consumerCount
      slots := fun i => ⟨i, 0⟩
      consumerTails := fun _ => 0
      head := 0
      minTail := 0 }

def scanTail (ring : OmMarketRing) (i minTail : Nat) : Nat :=
  if ring.consumerTails i < minTail then ring.consumerTails i else minTail

def scanResult (minTail : Nat) : Nat := if minTail = uint64Max then 0 else minTail

/-- Where `om_market_ring_enqueue` stands. Every access to shared memory is a step: the wait
for space, the loop over the tails, the wait for the slot, and the three writes. -/
inductive EnqueuePc where
  | idle
  | pressure (ptr head spins : Nat)
  | scan (ptr head spins next minTail : Nat)
  | waitSlot (ptr head : Nat)
  | writePtr (ptr head : Nat)
  | stamp (ptr head : Nat)
  | advance (head : Nat)
  deriving DecidableEq, Repr

/-- Where `om_market_ring_dequeue_batch` stands; `om_market_ring_dequeue` takes the same steps
with room for one pointer. -/
inductive DequeuePc where
  | idle
  | check (tail : Nat) (out : List Nat) (left : Nat)
  | take (tail : Nat) (out : List Nat) (left : Nat)
  | store (tail : Nat) (out : List Nat)
  | cached (prevTail newTail : Nat)
  | scan (next minTail : Nat)
  deriving DecidableEq, Repr

/-- One producer and the consumers on a ring. `enqueued` are the pointers the producer has
stamped and `received i` those that the calls of consumer `i` have taken. -/
structure RingState where
  ring : OmMarketRing
  producer : EnqueuePc
  consumers : Nat → DequeuePc
  enqueued : List Nat
  received : Nat → List Nat

inductive RingAction where
  | enqueue (ptr : Nat)
  | producer
  | dequeue (consumer : Nat)
  | dequeueBatch (consumer maxCount : Nat)
  | consumer (consumer : Nat)
  deriving DecidableEq, Repr

namespace RingState

def start (ring : OmMarketRing) : RingState where
  ring := ring
  producer := .idle
  consumers := fun _ => .idle
  enqueued := []
  received := fun _ => []

variable (s : RingState)

def setConsumer (i : Nat) (pc : DequeuePc) : RingState :=
  { s with consumers := update s.consumers i pc }

def producerStep : Option RingState :=
  match s.producer with
  | .idle => none
  | .pressure ptr head spins =>
    if head - s.ring.minTail < s.ring.capacity then
      some { s with producer := .waitSlot ptr head }
    else if spins &&& 31 = 0 then some { s with producer := .scan ptr head spins 0 uint64Max }
    else some { s with producer := .pressure ptr head ((spins + 1) % 2 ^ 32) }
  | .scan ptr head spins next minTail =>
    if next < s.ring.consumerCount then
      let pc := .scan ptr head spins (next + 1) (scanTail s.ring next minTail)
      some { s with producer := pc }
    else
      some { s with
        ring := { s.ring with minTail := scanResult minTail }
        producer := .pressure ptr head ((spins + 1) % 2 ^ 32) }
  | .waitSlot ptr head =>
    if (s.ring.slots (head &&& s.ring.mask)).seq = head then
      some { s with producer := .writePtr ptr head }
    else some s
  | .writePtr ptr head =>
    let idx := head &&& s.ring.mask
    let slots := update s.ring.slots idx ⟨(s.ring.slots idx).seq, ptr⟩
    some { s with ring := { s.ring with slots := slots }, producer := .stamp ptr head }
  | .stamp ptr head =>
    let idx := head &&& s.ring.mask
    let slots := update s.ring.slots idx ⟨head + 1, (s.ring.slots idx).value⟩
    some { s with
      ring := { s.ring with slots := slots }
      producer := .advance head
      enqueued := s.enqueued ++ [ptr] }
  | .advance head =>
    some { s with ring := { s.ring with head := head + 1 }, producer := .idle }

def consumerStep (i : Nat) : Option RingState :=
  match s.consumers i with
  | .idle => none
  | .check tail out left =>
    if (s.ring.slots (tail &&& s.ring.mask)).seq = tail + 1 then
      some (s.setConsumer i (.take tail out left))
    else if out = [] then some (s.setConsumer i .idle)
    else some (s.setConsumer i (.store tail out))
  | .take tail out left =>
    let out := out ++ [(s.ring.slots (tail &&& s.ring.mask)).value]
    if left = 1 then some (s.setConsumer i (.store (tail + 1) out))
    else some (s.setConsumer i (.check (tail + 1) out (left - 1)))
  | .store tail out =>
    let tails := update s.ring.consumerTails i tail
    some { s.setConsumer i (.cached (s.ring.consumerTails i) tail) with
      ring := { s.ring with consumerTails := tails }
      received := update s.received i (s.received i ++ out) }
  | .cached prevTail newTail =>
    if prevTail = s.ring.minTail ∨ newTail < s.ring.minTail then
      some (s.setConsumer i (.scan 0 uint64Max))
    else some (s.setConsumer i .idle)
  | .scan next minTail =>
    if next < s.ring.consumerCount then
      some (s.setConsumer i (.scan (next + 1) (scanTail s.ring next minTail)))
    else
      some { s.setConsumer i .idle with
        ring := { s.ring with minTail := scanResult minTail } }

/-- A call of consumer `i`; a wrong index or no room is refused with an error. -/
def startDequeue (i maxCount : Nat) : Option RingState :=
  match s.consumers i with
  | .idle =>
    if maxCount = 0 ∨ s.ring.consumerCount ≤ i then some s
    else some (s.setConsumer i (.check (s.ring.consumerTails i) [] maxCount))
  | _ => none

def step : RingAction → Option RingState
  | .enqueue ptr =>
    match s.producer with
    | .idle => if ptr = 0 then some s else some { s with producer := .pressure ptr s.ring.head 0 }
    | _ => none
  | .producer => s.producerStep
  | .dequeue i => s.startDequeue i 1
  | .dequeueBatch i maxCount => s.startDequeue i maxCount
  | .consumer i => s.consumerStep i

end RingState

end VeloxMatch
