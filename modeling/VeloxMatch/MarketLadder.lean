import VeloxMatch.WalRecord

namespace VeloxMatch

/-- A price level. Q0 links the free slots, Q1 the levels of one side of a ladder, best first;
`none` is `OM_MARKET_SLOT_NULL`. -/
structure OmMarketLevelSlot where
  q0Next : Option Nat
  q0Prev : Option Nat
  q1Next : Option Nat
  q1Prev : Option Nat
  price : Nat
  qty : Nat
  deriving DecidableEq, Repr

/-- The slots from `capacity` on stand for the memory behind the array. -/
structure OmMarketLevelSlab where
  slots : Nat → OmMarketLevelSlot
  capacity : Nat
  q0Head : Option Nat
  q0Tail : Option Nat
  freeCount : Nat

namespace OmMarketLevelSlab

def modify (slab : OmMarketLevelSlab) (i : Nat) (f : OmMarketLevelSlot → OmMarketLevelSlot) :
    OmMarketLevelSlab :=
  { slab with slots := Function.update slab.slots i (f (slab.slots i)) }

/-- Nothing is written through a null index. -/
def modifyAt (slab : OmMarketLevelSlab) (i : Option Nat)
    (f : OmMarketLevelSlot → OmMarketLevelSlot) : OmMarketLevelSlab :=
  match i with
  | none => slab
  | some i => slab.modify i f

end OmMarketLevelSlab

/-- The free slot `i` of a run of free slots that ends before `stop`. -/
def freeLevelSlot (i stop : Nat) (before : Option Nat) : OmMarketLevelSlot where
  q0Next := if i = stop - 1 then none else some (i + 1)
  q0Prev := before
  q1Next := none
  q1Prev := none
  price := 0
  qty := 0

def omMarketSlabInit (capacity : Nat) : OmMarketLevelSlab where
  slots := fun i => freeLevelSlot i capacity (if i = 0 then none else some (i - 1))
  capacity := capacity
  q0Head := some 0
  q0Tail := some (capacity - 1)
  freeCount := capacity

variable (slab : OmMarketLevelSlab)

def omMarketSlabAlloc : Option Nat × OmMarketLevelSlab :=
  if slab.freeCount = 0 then (none, slab)
  else
    match slab.q0Head with
    | none => (none, slab)
    | some idx =>
      let next := (slab.slots idx).q0Next
      let tail := if next.isNone then none else slab.q0Tail
      let slab := slab.modifyAt next fun slot => { slot with q0Prev := none }
      let slab := slab.modify idx fun _ => ⟨none, none, none, none, 0, 0⟩
      (some idx, { slab with q0Head := next, q0Tail := tail, freeCount := slab.freeCount - 1 })

/-- The capacity is a 32-bit number. -/
def grownCapacity (capacity : Nat) : Nat :=
  let doubled := capacity * 2 % 2 ^ 32
  if doubled < (capacity + 64) % 2 ^ 32 then (capacity + 64) % 2 ^ 32 else doubled

def omMarketSlabGrow : OmMarketLevelSlab :=
  let old := slab.capacity
  let new := grownCapacity old
  let grown :=
    { slab with
      slots := fun i =>
        if old ≤ i ∧ i < new then
          freeLevelSlot i new (if i = old then slab.q0Tail else some (i - 1))
        else slab.slots i }
  let linked := grown.modifyAt slab.q0Tail fun slot => { slot with q0Next := some old }
  { linked with
    capacity := new
    q0Head := if slab.q0Tail.isNone then some old else slab.q0Head
    q0Tail := some (new - 1)
    freeCount := (slab.freeCount + (2 ^ 32 + new - old)) % 2 ^ 32 }

def omMarketSlabFree (idx : Nat) : OmMarketLevelSlab :=
  if slab.capacity ≤ idx then slab
  else
    let head := slab.q0Head
    let slab := slab.modify idx fun slot => { slot with q0Prev := none, q0Next := head }
    let slab := slab.modifyAt head fun slot => { slot with q0Prev := some idx }
    { slab with
      q0Head := some idx
      q0Tail := if head.isNone then some idx else slab.q0Tail
      freeCount := slab.freeCount + 1 }

/-- The ends of a list of levels, its length as a 32-bit number, and where a level was linked or
unlinked last. -/
structure LadderSide where
  head : Option Nat
  tail : Option Nat
  count : Nat
  hint : Option Nat
  deriving DecidableEq, Repr

def LadderSide.empty : LadderSide := ⟨none, none, 0, none⟩

/-- The levels of a product. One map serves both sides. -/
structure OmMarketLadder where
  bid : LadderSide
  ask : LadderSide
  priceToSlot : Nat → Option Nat

namespace OmMarketLadder

def empty : OmMarketLadder := ⟨.empty, .empty, fun _ => none⟩

def side (ladder : OmMarketLadder) (isBid : Bool) : LadderSide :=
  if isBid then ladder.bid else ladder.ask

def setSide (ladder : OmMarketLadder) (isBid : Bool) (side : LadderSide) : OmMarketLadder :=
  if isBid then { ladder with bid := side } else { ladder with ask := side }

end OmMarketLadder

def betterPrice (isBid : Bool) (a b : Nat) : Bool := if isBid then decide (b < a) else decide (a < b)

/-- From `curr` on to the first level that `price` comes before; the result is the level before
it. The fuel bounds the length of a list. -/
def walkForward (slab : OmMarketLevelSlab) (isBid : Bool) (price : Nat) :
    Nat → Option Nat → Option Nat → Option Nat
  | 0, before, _ => before
  | _ + 1, before, none => before
  | fuel + 1, before, some curr =>
    if betterPrice isBid price (slab.slots curr).price then before
    else walkForward slab isBid price fuel (some curr) (slab.slots curr).q1Next

def walkBack (slab : OmMarketLevelSlab) (isBid : Bool) (price : Nat) :
    Nat → Option Nat → Option Nat
  | 0, walk => walk
  | _ + 1, none => none
  | fuel + 1, some walk =>
    if betterPrice isBid price (slab.slots walk).price then
      walkBack slab isBid price fuel (slab.slots walk).q1Prev
    else some walk

/-- The walk of `om_ladder_find_insert_pos` that starts at the hint. -/
def insertPosFromHint (isBid : Bool) (price hint : Nat) : Option Nat :=
  let start :=
    if betterPrice isBid price (slab.slots hint).price then
      walkBack slab isBid price slab.capacity (some hint)
    else some hint
  match start with
  | none => none
  | some start =>
    walkForward slab isBid price slab.capacity (some start) (slab.slots start).q1Next

variable (ladder : OmMarketLadder)

/-- The level after which a new price goes, `none` for the head. -/
def omLadderFindInsertPos (price : Nat) (isBid : Bool) : Option Nat :=
  let side := ladder.side isBid
  match side.head with
  | none => none
  | some head =>
    if betterPrice isBid price (slab.slots head).price then none
    else
      match side.tail.filter fun t => !betterPrice isBid price (slab.slots t).price with
      | some tail => some tail
      | none =>
        match side.hint.filter fun h => decide (h < slab.capacity) with
        | some hint => insertPosFromHint slab isBid price hint
        | none => walkForward slab isBid price slab.capacity none (some head)

def omLadderLinkAfter (slot : Nat) (after : Option Nat)
    (isBid : Bool) : OmMarketLevelSlab × OmMarketLadder :=
  let side := ladder.side isBid
  let next :=
    match after with
    | none => side.head
    | some after => (slab.slots after).q1Next
  let slab := slab.modify slot fun s => { s with q1Prev := after, q1Next := next }
  let slab := slab.modifyAt next fun s => { s with q1Prev := some slot }
  let slab := slab.modifyAt after fun s => { s with q1Next := some slot }
  (slab, ladder.setSide isBid
    { head := if after.isNone then some slot else side.head
      tail := if next.isNone then some slot else side.tail
      count := (side.count + 1) % 2 ^ 32
      hint := some slot })

def omLadderUnlink (slot : Nat) (isBid : Bool) : OmMarketLevelSlab × OmMarketLadder :=
  let side := ladder.side isBid
  let before := (slab.slots slot).q1Prev
  let next := (slab.slots slot).q1Next
  let nextHint := if before.isSome then before else next
  let slab := slab.modifyAt before fun s => { s with q1Next := next }
  let slab := slab.modifyAt next fun s => { s with q1Prev := before }
  let slab := slab.modify slot fun s => { s with q1Prev := none, q1Next := none }
  let count := (side.count + (2 ^ 32 - 1)) % 2 ^ 32
  let hint := if side.hint = some slot then nextHint else side.hint
  (slab, ladder.setSide isBid
    { head := if before.isNone then next else side.head
      tail := if next.isNone then before else side.tail
      count := count
      hint := if count = 0 then none else hint })

def allocLevel : Option Nat × OmMarketLevelSlab :=
  match omMarketSlabAlloc slab with
  | (some idx, slab) => (some idx, slab)
  | (none, slab) => omMarketSlabAlloc (omMarketSlabGrow slab)

/-- An addition that takes a new level from a slab with none free finds room to grow. -/
def LevelFits (price qty : Nat) : Prop :=
  qty ≠ 0 → ladder.priceToSlot price = none → slab.freeCount = 0 → slab.capacity < 2 ^ 32 - 64

instance (price qty : Nat) : Decidable (LevelFits slab ladder price qty) :=
  inferInstanceAs (Decidable (_ → _ → _ → _))

def omLadderAddQty (price qty : Nat)
    (isBid : Bool) : OmError × OmMarketLevelSlab × OmMarketLadder :=
  if qty = 0 then (.ok, slab, ladder)
  else
    match ladder.priceToSlot price with
    | some idx =>
      if uint64Max - (slab.slots idx).qty < qty then (.outOfRange, slab, ladder)
      else (.ok, slab.modify idx fun s => { s with qty := s.qty + qty }, ladder)
    | none =>
      match allocLevel slab with
      | (none, slab) => (.slabFull, slab, ladder)
      | (some idx, slab) =>
        let slab := slab.modify idx fun s => { s with price := price, qty := qty }
        let ladder :=
          { ladder with priceToSlot := Function.update ladder.priceToSlot price (some idx) }
        let after := omLadderFindInsertPos slab ladder price isBid
        (.ok, omLadderLinkAfter slab ladder idx after isBid)

def omLadderSubQty (price qty : Nat) (isBid : Bool) : OmMarketLevelSlab × OmMarketLadder :=
  if qty = 0 then (slab, ladder)
  else
    match ladder.priceToSlot price with
    | none => (slab, ladder)
    | some idx =>
      if (slab.slots idx).qty ≤ qty then
        let out := omLadderUnlink slab ladder idx isBid
        (omMarketSlabFree out.1 idx,
          { out.2 with priceToSlot := Function.update out.2.priceToSlot price none })
      else (slab.modify idx fun s => { s with qty := s.qty - qty }, ladder)

def omLadderGetQty (price : Nat) : Option Nat :=
  (ladder.priceToSlot price).map fun idx => (slab.slots idx).qty

end VeloxMatch
