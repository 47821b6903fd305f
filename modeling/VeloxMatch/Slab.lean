import VeloxMatch.Bytes
import Mathlib.Logic.Function.Basic

namespace VeloxMatch

open Function

/-- The result codes of `om_error.h` that the modelled functions return. -/
inductive OmError where
  | ok
  | nullParam
  | invalidParam
  | notFound
  | outOfRange
  | notSubscribed
  | slabFull
  | walOpen
  | walWrite
  | walRead
  | walFlush
  | walFsync
  | walCrcMismatch
  | walTruncated
  | recoveryFailed
  | hashPut
  | ladderDirty
  | noPublicMap
  | workerIdRange
  deriving DecidableEq, Repr

def omSideMask : UInt16 := 0x01
def omSideBid : UInt16 := 0x00
def omSideAsk : UInt16 := 0x01
def omStatusMask : UInt16 := 0xE0
def omStatusNew : UInt16 := 0x00
def omStatusDeactivated : UInt16 := 0xA0

def omGetSide (flags : UInt16) : UInt16 := flags &&& omSideMask

def omIsBid (flags : UInt16) : Bool := omGetSide flags == omSideBid

def omGetStatus (flags : UInt16) : UInt16 := flags &&& omStatusMask

def omSetStatus (flags status : UInt16) : UInt16 :=
  (flags &&& ~~~omStatusMask) ||| (status &&& omStatusMask)

/-- The queues of `queue_nodes`: Q0 is the free list, Q1 the price ladder, Q2 the time
FIFO of a price level and Q3 the queue of an organisation within a product. -/
inductive OmQueue where
  | internalFree
  | priceLadder
  | timeFifo
  | orgQueue
  deriving DecidableEq, Repr

/-- Slot indices; `none` is `OM_SLOT_IDX_NULL`. -/
structure OmIntrusiveNode where
  nextIdx : Option Nat
  prevIdx : Option Nat
  deriving DecidableEq, Repr

def OmIntrusiveNode.null : OmIntrusiveNode := ⟨none, none⟩

/-- The mandatory fields and the user data of a slot: what a callback reads of an order. -/
structure OmOrderFields where
  price : Nat
  volume : Nat
  volumeRemain : Nat
  org : Nat
  flags : UInt16
  orderId : Nat
  data : List UInt8
  deriving DecidableEq, Repr

structure OmSlabSlot extends OmOrderFields where
  queueNodes : OmQueue → OmIntrusiveNode

structure OmSlabConfig where
  userDataSize : Nat
  auxDataSize : Nat
  totalSlots : Nat
  totalSlots_lt : totalSlots < 2 ^ 32

/-- Slab A is addressed slot by slot; the memory of slab B's one block likewise, so a slot
pointer is a slot index. -/
structure OmDualSlab where
  slots : Nat → OmSlabSlot
  capacity : Nat
  freeListIdx : Option Nat
  used : Nat
  auxMemory : Nat → List UInt8
  auxFreeListIdx : Option Nat
  config : OmSlabConfig
  nextOrderId : Nat

def encodeIdx (idx : Option Nat) : List UInt8 :=
  leBytes 4 (idx.getD (2 ^ 32 - 1))

def decodeIdx (bytes : List UInt8) : Option Nat :=
  let n := leNat (bytes.take 4)
  if n = 2 ^ 32 - 1 then none else some n

namespace OmDualSlab

def next (s : OmDualSlab) (q : OmQueue) (i : Nat) : Option Nat := ((s.slots i).queueNodes q).nextIdx

def prev (s : OmDualSlab) (q : OmQueue) (i : Nat) : Option Nat := ((s.slots i).queueNodes q).prevIdx

def order (s : OmDualSlab) (i : Nat) : OmOrderFields := (s.slots i).toOmOrderFields

def setNode (s : OmDualSlab) (q : OmQueue) (i : Nat) (node : OmIntrusiveNode) : OmDualSlab :=
  let slot := { s.slots i with queueNodes := update (s.slots i).queueNodes q node }
  { s with slots := update s.slots i slot }

def setNext (s : OmDualSlab) (q : OmQueue) (i : Nat) (v : Option Nat) : OmDualSlab :=
  s.setNode q i ⟨v, s.prev q i⟩

def setPrev (s : OmDualSlab) (q : OmQueue) (i : Nat) (v : Option Nat) : OmDualSlab :=
  s.setNode q i ⟨s.next q i, v⟩

def setOrder (s : OmDualSlab) (i : Nat) (o : OmOrderFields) : OmDualSlab :=
  let slot := { s.slots i with toOmOrderFields := o }
  { s with slots := update s.slots i slot }

def setAux (s : OmDualSlab) (i : Nat) (bytes : List UInt8) : OmDualSlab :=
  { s with auxMemory := update s.auxMemory i (overwrite (s.auxMemory i) bytes) }

def clearNodes (s : OmDualSlab) (i : Nat) : OmDualSlab :=
  let slot := { s.slots i with queueNodes := fun _ => OmIntrusiveNode.null }
  { s with slots := update s.slots i slot }

end OmDualSlab

/-- `align_up` to 8 bytes; sizes are 64-bit numbers. -/
def alignUp8 (size : Nat) : Nat := (size + 7) % 2 ^ 64 / 8 * 8

variable (config : OmSlabConfig)

/-- The mandatory fields and the queue nodes take 64 bytes. -/
def slotSize : Nat := (64 + alignUp8 config.userDataSize) % 2 ^ 64

def auxSlotSize : Nat :=
  if alignUp8 config.auxDataSize = 0 then 8 else alignUp8 config.auxDataSize

def arenaSize : Nat := slotSize config * config.totalSlots % 2 ^ 64

def auxBlockSize : Nat := auxSlotSize config * config.totalSlots % 2 ^ 64

def blankSlot : OmSlabSlot where
  price := 0
  volume := 0
  volumeRemain := 0
  org := 0
  flags := 0
  orderId := 0
  data := List.replicate config.userDataSize 0
  queueNodes := fun _ => OmIntrusiveNode.null

variable (s : OmDualSlab)

/-- The body of the loop that threads slab A's free list. -/
def initSlotA (i : Nat) : OmDualSlab :=
  { (s.clearNodes i).setNext .internalFree i s.freeListIdx with freeListIdx := some i }

/-- The body of the loop that threads slab B's free list. -/
def initSlotB (i : Nat) : OmDualSlab :=
  s.setAux i (encodeIdx (if i = 0 then none else some (i - 1)))

def freshSlab : OmDualSlab :=
  let zeroed : OmDualSlab :=
    { slots := fun _ => blankSlot config
      capacity := config.totalSlots
      freeListIdx := none
      used := 0
      auxMemory := fun _ => List.replicate (auxSlotSize config) 0
      auxFreeListIdx := none
      config := config
      nextOrderId := 0 }
  let a := (List.range config.totalSlots).foldl initSlotA zeroed
  let b := (List.range config.totalSlots).foldl initSlotB a
  { b with auxFreeListIdx := some (config.totalSlots - 1), nextOrderId := 1 }

/-- Allocations succeed. -/
def omSlabInit : OmError × Option OmDualSlab :=
  if config.totalSlots = 0 then (.invalidParam, none) else (.ok, some (freshSlab config))

/-- `om_slot_from_idx`: the slot, unless the index is null or past the slab. -/
def omSlotFromIdx (idx : Option Nat) : Option Nat :=
  match idx with
  | none => none
  | some i => if i < s.capacity then some i else none

def omSlabAlloc : Option Nat × OmDualSlab :=
  match omSlotFromIdx s s.freeListIdx with
  | none => (none, s)
  | some idx =>
    -- the slot goes back to the head of the list when slab B has no slot or another one
    if s.auxFreeListIdx ≠ some idx then (none, s)
    else
      let s := { s with freeListIdx := s.next .internalFree idx }
      let s := { s with auxFreeListIdx := decodeIdx (s.auxMemory idx) }
      let s := s.setOrder idx
        { price := 0, volume := 0, volumeRemain := 0, org := 0, flags := 0,
          orderId := 2 ^ 32 - 1, data := (s.order idx).data }
      let s := s.clearNodes idx
      let s := s.setAux idx (List.replicate (auxSlotSize s.config) 0)
      (some idx, { s with used := s.used + 1 })

def omSlabFree (slot : Nat) : OmDualSlab :=
  let s := s.clearNodes slot
  let s := s.setNext .internalFree slot s.freeListIdx
  let s := { s with freeListIdx := some slot, used := s.used - 1 }
  let s := s.setAux slot (encodeIdx s.auxFreeListIdx)
  { s with auxFreeListIdx := some slot }

/-- `next_order_id++` on 32 bits. -/
def omSlabNextOrderId : Nat × OmDualSlab :=
  if s.nextOrderId = 0 then (0, s)
  else (s.nextOrderId, { s with nextOrderId := (s.nextOrderId + 1) % 2 ^ 32 })

def setNextOf (q : OmQueue) (idx v : Option Nat) : OmDualSlab :=
  match omSlotFromIdx s idx with
  | none => s
  | some i => s.setNext q i v

def setPrevOf (q : OmQueue) (idx v : Option Nat) : OmDualSlab :=
  match omSlotFromIdx s idx with
  | none => s
  | some i => s.setPrev q i v

def omQueueLinkAfter (prev slot : Nat) (q : OmQueue) : OmDualSlab :=
  let nextIdx := s.next q prev
  let s := s.setPrev q slot (some prev)
  let s := s.setNext q slot nextIdx
  let s := s.setNext q prev (some slot)
  setPrevOf s q nextIdx (some slot)

def omQueueLinkBefore (next slot : Nat) (q : OmQueue) : OmDualSlab :=
  let prevIdx := s.prev q next
  let s := s.setNext q slot (some next)
  let s := s.setPrev q slot prevIdx
  let s := s.setPrev q next (some slot)
  setNextOf s q prevIdx (some slot)

def omQueueUnlink (slot : Nat) (q : OmQueue) : OmDualSlab :=
  let nextIdx := s.next q slot
  let prevIdx := s.prev q slot
  if nextIdx = none ∧ prevIdx = none then s
  else
    let s := setNextOf s q prevIdx nextIdx
    let s := setPrevOf s q nextIdx prevIdx
    (s.setNext q slot none).setPrev q slot none

end VeloxMatch
