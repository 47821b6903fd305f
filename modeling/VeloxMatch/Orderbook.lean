import VeloxMatch.WalRecord
import VeloxMatch.SearchTree
import Mathlib.Order.Nat

namespace VeloxMatch

open Function

/-- The price levels of one side: each node holds a price and the slot that heads the level.
The operations of the balanced tree itself come from outside. -/
abbrev PriceTree := SearchTree Nat Nat

abbrev Kavl := SearchTree.Ops Nat Nat

structure OmProductBook where
  bidHeadQ1 : Option Nat
  askHeadQ1 : Option Nat
  deriving DecidableEq, Repr

structure OmOrderEntry where
  slotIdx : Nat
  productId : Nat
  deriving DecidableEq, Repr

/-- `knownOrg` is the `known_org` field of the preallocated price nodes; `none` stands for
`UINT32_MAX`, a mixed or unknown level. -/
structure OmOrderbookContext where
  slab : OmDualSlab
  products : Nat → OmProductBook
  maxProducts : Nat
  maxOrg : Nat
  orgHeads : Nat → Option Nat
  orderHashmap : Nat → Option OmOrderEntry
  knownOrg : Nat → Option Nat
  priceRoots : Nat → PriceTree
  wal : Option OmWalHandle

namespace OmOrderbookContext

def order (ctx : OmOrderbookContext) (i : Nat) : OmOrderFields := ctx.slab.order i

def head (ctx : OmOrderbookContext) (productId : Nat) (isBid : Bool) : Option Nat :=
  if isBid then (ctx.products productId).bidHeadQ1 else (ctx.products productId).askHeadQ1

def setHead (ctx : OmOrderbookContext) (productId : Nat) (isBid : Bool) (v : Option Nat) :
    OmOrderbookContext :=
  let book := ctx.products productId
  let book := if isBid then { book with bidHeadQ1 := v } else { book with askHeadQ1 := v }
  { ctx with products := update ctx.products productId book }

end OmOrderbookContext

/-- No order, and no organisation's queue has a head. The loop that clears `org_heads` counts
up to the 32-bit product. -/
def freshBook (slab : OmDualSlab) (wal : Option OmWalHandle) (maxProducts maxOrg : Nat) :
    OmOrderbookContext where
  slab := slab
  products := fun _ => ⟨none, none⟩
  maxProducts := maxProducts
  maxOrg := maxOrg
  orgHeads := fun i => if i < maxProducts * maxOrg % 2 ^ 32 then none else some 0
  orderHashmap := fun _ => none
  knownOrg := fun _ => some 0
  priceRoots := fun _ => .leaf
  wal := wal

/-- Allocations succeed. -/
def omOrderbookInit (config : OmSlabConfig) (wal : Option OmWalHandle)
    (maxProducts maxOrg : Nat) : OmError × Option OmOrderbookContext :=
  if maxProducts = 0 ∨ maxOrg = 0 then (.invalidParam, none)
  else
    match omSlabInit config with
    | (rc, none) => (rc, none)
    | (_, some slab) => (.ok, some (freshBook slab wal maxProducts maxOrg))

def priceRoot (productId : Nat) (isBid : Bool) : Nat := productId * 2 + if isBid then 0 else 1

/-- The index of an organisation's queue, computed on 32 bits. -/
def orgIdx (ctx : OmOrderbookContext) (productId org : Nat) : Nat :=
  (productId * ctx.maxOrg + org) % 2 ^ 32

section Levels

variable (K : Kavl)

variable (ctx : OmOrderbookContext)

def priceAdd (productId : Nat) (isBid : Bool) (slot : Nat) : OmOrderbookContext :=
  let root := priceRoot productId isBid
  let tree := K.insert (ctx.priceRoots root) (ctx.order slot).price slot
  { ctx with
    knownOrg := update ctx.knownOrg slot (some (ctx.order slot).org)
    priceRoots := update ctx.priceRoots root tree }

def priceRemove (productId : Nat) (isBid : Bool) (slot : Nat) : OmOrderbookContext :=
  let root := priceRoot productId isBid
  let tree := K.erase (ctx.priceRoots root) (ctx.order slot).price
  { ctx with priceRoots := update ctx.priceRoots root tree }

def pricePromote (productId : Nat) (isBid : Bool) (old next : Nat) : OmOrderbookContext :=
  let knownOrg := ctx.knownOrg old
  let ctx := priceRemove K ctx productId isBid old
  let ctx := priceAdd K ctx productId isBid next
  { ctx with knownOrg := update ctx.knownOrg next knownOrg }

/-- The descent of `find_price_level_with_insertion_point`: the level's head slot when the
price is in the tree, and the last better level passed on the way. -/
def findDescend (price : Nat) (isBid : Bool) : PriceTree → Option Nat → Option Nat × Option Nat
  | .leaf, insertAfter => (none, insertAfter)
  | .node l nodePrice slot r, insertAfter =>
    if nodePrice = price then (some slot, insertAfter)
    else if price < nodePrice then
      findDescend price isBid l (if isBid then some slot else insertAfter)
    else findDescend price isBid r (if isBid then insertAfter else some slot)

def findPriceLevelWithInsertionPoint (productId price : Nat)
    (isBid : Bool) : Option Nat × Option Nat :=
  match ctx.head productId isBid with
  | none => (none, none)
  | some head =>
    if isBid = true ∧ (ctx.order head).price < price then (none, none)
    else if isBid = false ∧ price < (ctx.order head).price then (none, none)
    else findDescend price isBid (ctx.priceRoots (priceRoot productId isBid)) none

def insertOrderAt (productId : Nat) (isBid : Bool) (order : Nat)
    (insertAfter : Option Nat) : OmOrderbookContext :=
  let s := (ctx.slab.setNext .priceLadder order none).setPrev .priceLadder order none
  match insertAfter with
  | none =>
    match ctx.head productId isBid with
    | none => { ctx with slab := s }.setHead productId isBid (some order)
    | some oldHead =>
      let s := s.setNext .priceLadder order (some oldHead)
      let s := s.setPrev .priceLadder oldHead (some order)
      { ctx with slab := s }.setHead productId isBid (some order)
  | some after => { ctx with slab := omQueueLinkAfter s after order .priceLadder }

/-- `head`'s Q2 back link holds the tail, or nothing when the head is alone. -/
def appendToTimeQueue (head order : Nat) : OmOrderbookContext :=
  let tail := (ctx.slab.prev .timeFifo head).getD head
  let s := omQueueLinkAfter ctx.slab tail order .timeFifo
  { ctx with slab := s.setPrev .timeFifo head (some order) }

def removePriceLevel (productId level : Nat) (isBid : Bool) : OmOrderbookContext :=
  let ctx := if ctx.head productId isBid = some level then
      ctx.setHead productId isBid (ctx.slab.next .priceLadder level)
    else ctx
  let ctx := priceRemove K ctx productId isBid level
  { ctx with slab := omQueueUnlink ctx.slab level .priceLadder }

def linkIntoLevel (productId order : Nat) : OmOrderbookContext :=
  let price := (ctx.order order).price
  let isBid := omIsBid (ctx.order order).flags
  match findPriceLevelWithInsertionPoint ctx productId price isBid with
  | (none, insertAfter) =>
    let ctx := insertOrderAt ctx productId isBid order insertAfter
    let ctx := priceAdd K ctx productId isBid order
    let s := (ctx.slab.setPrev .timeFifo order none).setNext .timeFifo order none
    { ctx with slab := s }
  | (some head, _) =>
    let ctx := appendToTimeQueue ctx head order
    if ctx.knownOrg head ≠ none ∧ ctx.knownOrg head ≠ some (ctx.order order).org then
      { ctx with knownOrg := update ctx.knownOrg head none }
    else ctx

/-- The organisation queue part of `om_orderbook_insert`: the order becomes the head. -/
def linkIntoOrg (productId order : Nat) : OmOrderbookContext :=
  if productId < ctx.maxProducts ∧ (ctx.order order).org < ctx.maxOrg then
    let idx := orgIdx ctx productId (ctx.order order).org
    let s := match ctx.orgHeads idx with
      | none => (ctx.slab.setPrev .orgQueue order none).setNext .orgQueue order none
      | some head => omQueueLinkBefore ctx.slab head order .orgQueue
    { ctx with slab := s, orgHeads := update ctx.orgHeads idx (some order) }
  else ctx

/-- `ctx->wal && !om_wal_…`: without a log the append counts as done. -/
def OmOrderbookContext.log
    (append : OmWalHandle → Bool × OmWalHandle) : Bool × OmOrderbookContext :=
  match ctx.wal with
  | none => (true, ctx)
  | some w => ((append w).1, { ctx with wal := some (append w).2 })

def omOrderbookInsert (productId order : Nat) : OmError × OmOrderbookContext :=
  let o := ctx.order order
  if ctx.maxProducts ≤ productId ∨ ctx.maxOrg ≤ o.org ∨ o.orderId = 0 then (.recoveryFailed, ctx)
  else if ctx.orderHashmap o.orderId ≠ none then (.recoveryFailed, ctx)
  else
    match ctx.log (fun w => omWalInsert w ctx.slab order productId) with
    -- the hash entry made before the append is taken out again
    | (false, ctx) => (.walWrite, ctx)
    | (true, ctx) =>
      let ctx := { ctx with
        orderHashmap := update ctx.orderHashmap o.orderId (some ⟨order, productId⟩) }
      let ctx := linkIntoLevel K ctx productId order
      (.ok, linkIntoOrg ctx productId order)

/-- Q2 when `next` takes over from `head`: the tail mark moves, and a lone order has none. -/
def promoteFifo (s : OmDualSlab) (head next : Nat) : OmDualSlab :=
  let s := s.setPrev .timeFifo next (s.prev .timeFifo head)
  let s := if s.next .timeFifo next = none then s.setPrev .timeFifo next none else s
  setPrevOf s .timeFifo (s.next .timeFifo next) (some next)

def promoteLadder (s : OmDualSlab) (head next : Nat) : OmDualSlab :=
  let prevQ1 := s.prev .priceLadder head
  let nextQ1 := s.next .priceLadder head
  let s := (s.setPrev .priceLadder next prevQ1).setNext .priceLadder next nextQ1
  let s := setNextOf s .priceLadder prevQ1 (some next)
  setPrevOf s .priceLadder nextQ1 (some next)

def detachHead (s : OmDualSlab) (head : Nat) : OmDualSlab :=
  let s := (s.setNext .priceLadder head none).setPrev .priceLadder head none
  (s.setNext .timeFifo head none).setPrev .timeFifo head none

/-- The head of a level leaves and the next order at the price takes its place in Q1. -/
def promoteNext (productId : Nat) (isBid : Bool) (head next : Nat) : OmOrderbookContext :=
  let ctx := pricePromote K ctx productId isBid head next
  let s := detachHead (promoteLadder (promoteFifo ctx.slab head next) head next) head
  let ctx := if ctx.head productId isBid = some head then
      ctx.setHead productId isBid (some next)
    else ctx
  { ctx with slab := s }

def removeFromQueue (head order : Nat) : OmOrderbookContext :=
  let nextIdx := ctx.slab.next .timeFifo order
  let prevQ2Idx := ctx.slab.prev .timeFifo order
  let s := omQueueUnlink ctx.slab order .timeFifo
  let s := if nextIdx = none then
      s.setPrev .timeFifo head (if prevQ2Idx = some head then none else prevQ2Idx)
    else s
  { ctx with slab := s }

/-- What `om_orderbook_cancel`, `om_orderbook_remove_slot` and `om_orderbook_unlink_slot`
all do to Q1, Q2 and the price tree; nothing when the price level is not found. -/
def unlinkFromLevel (productId order : Nat) : Option OmOrderbookContext :=
  let price := (ctx.order order).price
  let isBid := omIsBid (ctx.order order).flags
  match (findPriceLevelWithInsertionPoint ctx productId price isBid).1 with
  | none => none
  | some head =>
    if order = head then
      match ctx.slab.next .timeFifo order with
      | none => some (removePriceLevel K ctx productId head isBid)
      | some next => some (promoteNext K ctx productId isBid head next)
    else some (removeFromQueue ctx head order)

/-- `*head_idx` moves on when the leaving order heads its organisation's queue. -/
def advanceOrgHead (productId order : Nat) : OmOrderbookContext :=
  if productId < ctx.maxProducts ∧ (ctx.order order).org < ctx.maxOrg then
    let idx := orgIdx ctx productId (ctx.order order).org
    if ctx.orgHeads idx = some order then
      { ctx with
        orgHeads := update ctx.orgHeads idx (ctx.slab.next .orgQueue order) }
    else ctx
  else ctx

def unlinkFromOrg (order : Nat) : OmOrderbookContext :=
  { ctx with slab := omQueueUnlink ctx.slab order .orgQueue }

def releaseOrder (orderId order : Nat) : OmOrderbookContext :=
  { ctx with
    orderHashmap := update ctx.orderHashmap orderId none
    slab := omSlabFree ctx.slab order }

def omOrderbookCancel (orderId : Nat) : Bool × OmOrderbookContext :=
  match ctx.orderHashmap orderId with
  | none => (false, ctx)
  | some entry =>
    match ctx.log (fun w => omWalCancel w orderId entry.slotIdx entry.productId) with
    | (false, ctx) => (false, ctx)
    | (true, ctx) =>
      match unlinkFromLevel K ctx entry.productId entry.slotIdx with
      | none => (false, ctx)
      | some ctx =>
        let ctx := advanceOrgHead ctx entry.productId entry.slotIdx
        let ctx := unlinkFromOrg ctx entry.slotIdx
        (true, releaseOrder ctx orderId entry.slotIdx)

/-- Unlike its two siblings, this one leaves `org_heads` alone. -/
def omOrderbookRemoveSlot (productId order : Nat) : Bool × OmOrderbookContext :=
  match unlinkFromLevel K ctx productId order with
  | none => (false, ctx)
  | some ctx =>
    let ctx := unlinkFromOrg ctx order
    (true, releaseOrder ctx (ctx.order order).orderId order)

def omOrderbookUnlinkSlot (productId order : Nat) : Bool × OmOrderbookContext :=
  match unlinkFromLevel K ctx productId order with
  | none => (false, ctx)
  | some ctx =>
    let ctx := advanceOrgHead ctx productId order
    (true, unlinkFromOrg ctx order)

end Levels

def omOrderbookGetBestBid (ctx : OmOrderbookContext) (productId : Nat) : Nat :=
  match (ctx.products productId).bidHeadQ1 with
  | none => 0
  | some head => (ctx.order head).price

def omOrderbookGetBestAsk (ctx : OmOrderbookContext) (productId : Nat) : Nat :=
  match (ctx.products productId).askHeadQ1 with
  | none => 0
  | some head => (ctx.order head).price

end VeloxMatch
