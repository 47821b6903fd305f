import VeloxMatch.BookPark

namespace VeloxMatch

/-- Every call of a registered callback, with the orders as it sees them and its answer. -/
inductive OmEvent where
  | canMatch (maker taker : OmOrderFields) (answer : UInt64)
  | onMatch (order : OmOrderFields) (price qty : Nat)
  | onDeal (maker taker : OmOrderFields) (price qty : Nat)
  | onFilled (order : OmOrderFields)
  | onCancel (order : OmOrderFields)
  | onDecrementCancel (maker taker : OmOrderFields) (qty : Nat)
  | preBooked (order : OmOrderFields) (answer : Bool)
  | onBooked (order : OmOrderFields)
  deriving DecidableEq, Repr

/-- A callback may keep state of its own, so its answer depends on all earlier calls. -/
structure OmEngineCallbacks where
  canMatch : Option (List OmEvent → OmOrderFields → OmOrderFields → UInt64)
  preBooked : Option (List OmEvent → OmOrderFields → Bool)
  onMatch : Bool
  onDeal : Bool
  onFilled : Bool
  onBooked : Bool
  onCancel : Bool
  onDecrementCancel : Bool

def omCanMatchCancelMaker : UInt64 := 0xFFFFFFFFFFFFFFFE
def omCanMatchCancelBoth : UInt64 := 0xFFFFFFFFFFFFFFFD
def omCanMatchDecrementCancel : UInt64 := 0xFFFFFFFFFFFFFFFC

/-- What happens to the volume of the order in a slot. A deal or a decrement is `traded`; the
rest of a taker that is cancelled together with its maker is `forfeited`. -/
inductive LifeEvent where
  | cleared (slot : Nat)
  | submitted (slot volume : Nat)
  | traded (maker taker qty : Nat)
  | forfeited (slot : Nat)
  deriving DecidableEq, Repr

def withVolume (ctx : OmOrderbookContext) (i volume : Nat) : OmOrderbookContext :=
  { ctx with slab := ctx.slab.setOrder i { ctx.slab.order i with volumeRemain := volume } }

/-- `events` is the trace of callback calls, `trace` that of all changes of volume and
`bookings` the slots booked so far, latest first; the engine's log is the order book's. -/
structure OmEngine where
  orderbook : OmOrderbookContext
  callbacks : OmEngineCallbacks
  events : List OmEvent
  trace : List LifeEvent
  bookings : List Nat

namespace OmEngine

variable (e : OmEngine)

def slab : OmDualSlab := e.orderbook.slab

def order (i : Nat) : OmOrderFields := e.orderbook.slab.order i

def emit (registered : Bool) (event : OmEvent) : OmEngine :=
  if registered then { e with events := e.events ++ [event] } else e

def setVolumeRemain (i volume : Nat) : OmEngine :=
  { e with orderbook := withVolume e.orderbook i volume }

def log (append : OmWalHandle → Bool × OmWalHandle) : Bool × OmEngine :=
  let r := e.orderbook.log append
  (r.1, { e with orderbook := r.2 })

end OmEngine

/-- Where `engine_match` stands: at the head of the loop over levels, in the traversal of
`om_orderbook_first_other_org`, at the head of the loop over makers, before a call of
`om_orderbook_remove_slot`, or after the loops. -/
inductive MatchPc where
  | levels (levelIdx : Option Nat)
  | scan (levelPrice : Nat) (nextLevelIdx : Option Nat) (head : Nat) (idx : Option Nat)
  | makers (levelPrice : Nat) (nextLevelIdx makerIdx : Option Nat)
  | remove (levelPrice : Nat) (nextLevelIdx : Option Nat) (maker : Nat) (nextMakerIdx : Option Nat)
      (both : Bool)
  | book
  deriving DecidableEq, Repr

structure MatchFrame where
  productId : Nat
  taker : Nat
  excludeSameOrg : Bool
  takerRemaining : Nat
  takerIsBid : Bool
  takerPrice : Nat
  matchTsNs : Nat
  pc : MatchPc
  deriving DecidableEq, Repr

inductive MatchNext where
  | running (frame : MatchFrame)
  | returned (rc : OmError)
  deriving DecidableEq, Repr

namespace MatchFrame

def goto (f : MatchFrame) (pc : MatchPc) : MatchNext := .running { f with pc := pc }

def beyondLimit (f : MatchFrame) (levelPrice : Nat) : Prop :=
  if f.takerIsBid then f.takerPrice < levelPrice else levelPrice < f.takerPrice

instance (f : MatchFrame) (levelPrice : Nat) : Decidable (f.beyondLimit levelPrice) :=
  inferInstanceAs (Decidable (if f.takerIsBid = true then f.takerPrice < levelPrice
    else levelPrice < f.takerPrice))

end MatchFrame

/-- Entry of `engine_match`; a taker without volume returns at once. -/
def matchStart (e : OmEngine) (productId taker : Nat) (excludeSameOrg : Bool) : MatchNext :=
  let o := e.order taker
  if o.volumeRemain = 0 then .returned .ok
  else
    let takerIsBid := omIsBid o.flags
    .running
      { productId := productId
        taker := taker
        excludeSameOrg := excludeSameOrg
        takerRemaining := o.volumeRemain
        takerIsBid := takerIsBid
        takerPrice := o.price
        matchTsNs := (e.orderbook.wal.map OmWalHandle.now).getD 0
        pc := .levels (omSlotFromIdx e.slab (e.orderbook.head productId (!takerIsBid))) }

def levelsStep (e : OmEngine) (f : MatchFrame) (levelIdx : Option Nat) : MatchNext :=
  if f.takerRemaining = 0 then .returned .ok
  else
    match omSlotFromIdx e.slab levelIdx with
    | none => f.goto .book
    | some level =>
      let levelPrice := (e.order level).price
      if f.beyondLimit levelPrice then f.goto .book
      else
        let nextLevelIdx := e.slab.next .priceLadder level
        let takerOrg := (e.order f.taker).org
        if f.excludeSameOrg = true ∧ (e.order level).org = takerOrg then
          match e.orderbook.knownOrg level with
          | some known =>
            f.goto (.makers levelPrice nextLevelIdx (if known = takerOrg then none else some level))
          | none => f.goto (.scan levelPrice nextLevelIdx level (some level))
        else f.goto (.makers levelPrice nextLevelIdx (some level))

/-- The loop of `om_orderbook_first_other_org`; a full traversal relearns the organisation. -/
def scanStep (e : OmEngine) (f : MatchFrame) (levelPrice : Nat) (nextLevelIdx : Option Nat)
    (head : Nat) (idx : Option Nat) : OmEngine × MatchNext :=
  let takerOrg := (e.order f.taker).org
  match idx with
  | none =>
    let known := Function.update e.orderbook.knownOrg head (some takerOrg)
    ({ e with orderbook := { e.orderbook with knownOrg := known } },
      f.goto (.makers levelPrice nextLevelIdx none))
  | some i =>
    match omSlotFromIdx e.slab (some i) with
    | none => (e, f.goto (.makers levelPrice nextLevelIdx (some i)))
    | some i =>
      if (e.order i).org ≠ takerOrg then (e, f.goto (.makers levelPrice nextLevelIdx (some i)))
      else (e, f.goto (.scan levelPrice nextLevelIdx head (e.slab.next .timeFifo i)))

section Makers

variable (e : OmEngine) (f : MatchFrame) (levelPrice : Nat) (nextLevelIdx : Option Nat)
  (maker : Nat) (nextMakerIdx : Option Nat)

def matchRecord (qty : Nat) : OmWalMatch where
  makerId := (e.order maker).orderId
  takerId := (e.order f.taker).orderId
  price := levelPrice
  volume := qty
  timestampNs := f.matchTsNs
  productId := f.productId

def reduceBoth (qty : Nat) : OmEngine × MatchFrame :=
  let remaining := f.takerRemaining - qty
  let e := e.setVolumeRemain maker ((e.order maker).volumeRemain - qty)
  let e := e.setVolumeRemain f.taker remaining
  ({ e with trace := e.trace ++ [.traded maker f.taker qty] }, { f with takerRemaining := remaining })

def decrementEffect (qty : Nat) : OmEngine × MatchFrame :=
  let (e, f) := reduceBoth e f maker qty
  (e.emit e.callbacks.onDecrementCancel
    (.onDecrementCancel (e.order maker) (e.order f.taker) qty), f)

def dealEffect (qty : Nat) : OmEngine × MatchFrame :=
  let (e, f) := reduceBoth e f maker qty
  let e := e.emit e.callbacks.onMatch (.onMatch (e.order maker) levelPrice qty)
  let e := e.emit e.callbacks.onMatch (.onMatch (e.order f.taker) levelPrice qty)
  let e := e.emit e.callbacks.onDeal (.onDeal (e.order maker) (e.order f.taker) levelPrice qty)
  (if (e.order maker).volumeRemain = 0 then
    e.emit e.callbacks.onFilled (.onFilled (e.order maker)) else e, f)

def afterReduce (r : OmEngine × MatchFrame) : OmEngine × MatchNext :=
  (r.1, r.2.goto (if (r.1.order maker).volumeRemain = 0 then
    .remove levelPrice nextLevelIdx maker nextMakerIdx false
    else .makers levelPrice nextLevelIdx (some maker)))

def decrementStep (qty : Nat) : OmEngine × MatchNext :=
  match e.log (fun w => omWalMatch w (matchRecord e f levelPrice maker qty)) with
  | (false, e) => (e, .returned .walWrite)
  | (true, e) =>
    afterReduce levelPrice nextLevelIdx maker nextMakerIdx (decrementEffect e f maker qty)

def dealStep (qty : Nat) : OmEngine × MatchNext :=
  if qty = 0 then (e, f.goto (.makers levelPrice nextLevelIdx nextMakerIdx))
  else
    match e.log (fun w => omWalMatch w (matchRecord e f levelPrice maker qty)) with
    | (false, e) => (e, .returned .walWrite)
    | (true, e) =>
      afterReduce levelPrice nextLevelIdx maker nextMakerIdx (dealEffect e f levelPrice maker qty)

def cancelMakerStep (both : Bool) : OmEngine × MatchNext :=
  match e.log (fun w => omWalCancel w (e.order maker).orderId maker f.productId) with
  | (false, e) => (e, .returned .walWrite)
  | (true, e) =>
    (e.emit e.callbacks.onCancel (.onCancel (e.order maker)),
      f.goto (.remove levelPrice nextLevelIdx maker nextMakerIdx both))

def askStep : OmEngine × MatchNext :=
  let matchable := min f.takerRemaining (e.order maker).volumeRemain
  match e.callbacks.canMatch with
  | none => dealStep e f levelPrice nextLevelIdx maker nextMakerIdx matchable
  | some canMatch =>
    let allowed := canMatch e.events (e.order maker) (e.order f.taker)
    let e := e.emit true (.canMatch (e.order maker) (e.order f.taker) allowed)
    if allowed = omCanMatchCancelMaker ∨ allowed = omCanMatchCancelBoth then
      cancelMakerStep e f levelPrice nextLevelIdx maker nextMakerIdx
        (decide (allowed = omCanMatchCancelBoth))
    else if allowed = omCanMatchDecrementCancel then
      decrementStep e f levelPrice nextLevelIdx maker nextMakerIdx matchable
    else if allowed = 0 then (e, f.goto (.makers levelPrice nextLevelIdx nextMakerIdx))
    else dealStep e f levelPrice nextLevelIdx maker nextMakerIdx (min allowed.toNat matchable)

end Makers

def makersStep (e : OmEngine) (f : MatchFrame) (levelPrice : Nat)
    (nextLevelIdx makerIdx : Option Nat) : OmEngine × MatchNext :=
  if f.takerRemaining = 0 then (e, .returned .ok)
  else
    match omSlotFromIdx e.slab makerIdx with
    | none => (e, f.goto (.levels nextLevelIdx))
    | some maker =>
      let nextMakerIdx := e.slab.next .timeFifo maker
      if f.excludeSameOrg = true ∧ (e.order maker).org = (e.order f.taker).org then
        (e, f.goto (.makers levelPrice nextLevelIdx nextMakerIdx))
      else if (e.order maker).volumeRemain = 0 then
        (e, f.goto (.remove levelPrice nextLevelIdx maker nextMakerIdx false))
      else askStep e f levelPrice nextLevelIdx maker nextMakerIdx

section Steps

variable (K : Kavl)

def removeStep (e : OmEngine) (f : MatchFrame) (levelPrice : Nat) (nextLevelIdx : Option Nat)
    (maker : Nat) (nextMakerIdx : Option Nat) (both : Bool) : OmEngine × MatchNext :=
  let e := { e with orderbook := (omOrderbookRemoveSlot K e.orderbook f.productId maker).2 }
  if both then
    let e := { e.setVolumeRemain f.taker 0 with trace := e.trace ++ [.forfeited f.taker] }
    (e, { f with takerRemaining := 0 }.goto (.makers levelPrice nextLevelIdx nextMakerIdx))
  else (e, f.goto (.makers levelPrice nextLevelIdx nextMakerIdx))

def insertTaker (e : OmEngine) (f : MatchFrame) : OmEngine × MatchNext :=
  match omOrderbookInsert K e.orderbook f.productId f.taker with
  | (.ok, ctx) =>
    let e := { e with orderbook := ctx, bookings := f.taker :: e.bookings }
    (e.emit e.callbacks.onBooked (.onBooked (e.order f.taker)), .returned .ok)
  | (rc, ctx) => ({ e with orderbook := ctx }, .returned rc)

/-- After the loops the rest of the taker is booked, unless `pre_booked` refuses. -/
def bookStep (e : OmEngine) (f : MatchFrame) : OmEngine × MatchNext :=
  match e.callbacks.preBooked with
  | none => insertTaker K e f
  | some preBooked =>
    let answer := preBooked e.events (e.order f.taker)
    let e := e.emit true (.preBooked (e.order f.taker) answer)
    if answer then insertTaker K e f
    else (e.emit e.callbacks.onCancel (.onCancel (e.order f.taker)), .returned .ok)

def matchStep (e : OmEngine) (f : MatchFrame) : OmEngine × MatchNext :=
  match f.pc with
  | .levels levelIdx => (e, levelsStep e f levelIdx)
  | .scan levelPrice nextLevelIdx head idx => scanStep e f levelPrice nextLevelIdx head idx
  | .makers levelPrice nextLevelIdx makerIdx => makersStep e f levelPrice nextLevelIdx makerIdx
  | .remove levelPrice nextLevelIdx maker nextMakerIdx both =>
    removeStep K e f levelPrice nextLevelIdx maker nextMakerIdx both
  | .book => bookStep K e f

/-- `engine_match` for at most `fuel` steps. -/
def engineMatchLoop : Nat → OmEngine → MatchNext → Option (OmEngine × OmError)
  | _, e, .returned rc => some (e, rc)
  | 0, _, .running _ => none
  | fuel + 1, e, .running f =>
    let r := matchStep K e f
    engineMatchLoop fuel r.1 r.2

def omEngineMatch (fuel : Nat) (e : OmEngine) (productId taker : Nat) :
    Option (OmEngine × OmError) :=
  engineMatchLoop K fuel e (matchStart e productId taker false)

def omEngineMatchExcludingOrg (fuel : Nat) (e : OmEngine) (productId taker : Nat) :
    Option (OmEngine × OmError) :=
  engineMatchLoop K fuel e (matchStart e productId taker true)

end Steps

end VeloxMatch
