import VeloxMatch.Slab

namespace VeloxMatch

/-- An INSERT record with the user and aux bytes that follow it. -/
structure OmWalInsert where
  orderId : Nat
  price : Nat
  volume : Nat
  volRemain : Nat
  org : Nat
  flags : UInt16
  productId : Nat
  userDataSize : Nat
  auxDataSize : Nat
  timestampNs : Nat
  userData : List UInt8
  auxData : List UInt8
  deriving DecidableEq, Repr

/-- CANCEL, DEACTIVATE and ACTIVATE records have the same fields. -/
structure OmWalCancel where
  orderId : Nat
  timestampNs : Nat
  slotIdx : Nat
  productId : Nat
  deriving DecidableEq, Repr

structure OmWalMatch where
  makerId : Nat
  takerId : Nat
  price : Nat
  volume : Nat
  timestampNs : Nat
  productId : Nat
  deriving DecidableEq, Repr

inductive OmWalRecord where
  | insert (rec : OmWalInsert)
  | cancel (rec : OmWalCancel)
  | matched (rec : OmWalMatch)
  | deactivate (rec : OmWalCancel)
  | activate (rec : OmWalCancel)
  | other (type : Nat) (payload : List UInt8)
  deriving DecidableEq, Repr

/-- A log as the order book and the engine use it: an append is acknowledged with a sequence
number or refused with zero. Which appends are acknowledged and what the clock shows at
each of them come from outside. -/
structure OmWalHandle where
  records : List OmWalRecord
  attempts : Nat
  accepts : Nat → Bool
  clock : Nat → Nat
  userDataSize : Nat
  auxDataSize : Nat

variable (w : OmWalHandle)

def OmWalHandle.now : Nat := w.clock w.attempts

def OmWalHandle.append (r : OmWalRecord) : Bool × OmWalHandle :=
  if w.accepts w.attempts then
    (true, { w with records := w.records ++ [r], attempts := w.attempts + 1 })
  else (false, { w with attempts := w.attempts + 1 })

def insertRecord (s : OmDualSlab) (slot productId : Nat) (w : OmWalHandle) : OmWalRecord :=
  let o := s.order slot
  .insert
    { orderId := o.orderId
      price := o.price
      volume := o.volume
      volRemain := o.volumeRemain
      org := o.org
      flags := o.flags
      productId := productId
      userDataSize := w.userDataSize
      auxDataSize := w.auxDataSize
      timestampNs := w.now
      userData := o.data.take w.userDataSize
      auxData := (s.auxMemory slot).take w.auxDataSize }

def omWalInsert (s : OmDualSlab) (slot productId : Nat) : Bool × OmWalHandle :=
  w.append (insertRecord s slot productId w)

def omWalCancel (orderId slotIdx productId : Nat) : Bool × OmWalHandle :=
  w.append (.cancel ⟨orderId, w.now, slotIdx, productId⟩)

def omWalDeactivate (orderId slotIdx productId : Nat) : Bool × OmWalHandle :=
  w.append (.deactivate ⟨orderId, w.now, slotIdx, productId⟩)

def omWalActivate (orderId slotIdx productId : Nat) : Bool × OmWalHandle :=
  w.append (.activate ⟨orderId, w.now, slotIdx, productId⟩)

def omWalMatch (rec : OmWalMatch) : Bool × OmWalHandle :=
  w.append (.matched rec)

end VeloxMatch
