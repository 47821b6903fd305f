import VeloxMatch.DirtyList
import VeloxMatch.MarketDelta
import Mathlib.Algebra.BigOperators.Group.Finset.Basic

namespace VeloxMatch

open Function

def thenDo {σ : Type} (out : OmError × σ) (f : σ → σ) : OmError × σ :=
  match out with
  | (.ok, worker) => (.ok, f worker)
  | (err, worker) => (err, worker)

structure OmMarketSubscription where
  orgId : Nat
  productId : Nat
  deriving DecidableEq, Repr

structure OmMarketOrderState where
  productId : Nat
  side : UInt16
  active : Bool
  org : Nat
  flags : UInt16
  price : Nat
  remaining : Nat
  volRemain : Nat
  deriving DecidableEq, Repr

def OmMarketOrderState.isBid (state : OmMarketOrderState) : Bool := state.side == omSideBid

abbrev OmMarketDealableFn := OmWalInsert → Nat → Nat

/-- A private worker. Tables are functions, 0 or null where the source has no memory; hash maps are
partial functions. `ladderDeltas l` are the maps and list heads of the bid and the ask side. -/
structure OmMarketWorker where
  maxProducts : Nat
  subscriptionCount : Nat
  productOffsets : Nat → Nat
  productOrgs : Nat → Nat
  productLadderIndices : Nat → Option Nat
  orgIndexMap : Nat → Option Nat
  ladderIndex : Nat → Option Nat
  productHasSubs : Nat → Bool
  productSlab : OmMarketLevelSlab
  productLadders : Nat → OmMarketLadder
  productOrderSets : Nat → Finset Nat
  globalOrders : Nat → Option OmMarketOrderState
  dirty : DirtyList
  ladderDeltas : Nat → Bool → DeltaSide
  ladderOrg : Nat → Nat
  ladderProduct : Nat → Nat
  dealable : OmMarketDealableFn

namespace OmMarketWorker

def fakeInsert (state : OmMarketOrderState) (orderId : Nat) : OmWalInsert where
  orderId := orderId
  price := state.price
  volume := state.volRemain
  volRemain := state.volRemain
  org := state.org
  flags := state.flags
  productId := state.productId
  userDataSize := 0
  auxDataSize := 0
  timestampNs := 0
  userData := []
  auxData := []

def qtyFromDq (volRemain dq remaining : Nat) : Nat :=
  if dq = 0 then 0 else min volRemain dq - (volRemain - remaining)

variable (dealable : OmMarketDealableFn)

def omMarketComputeOrgQty (state : OmMarketOrderState) (orderId viewerOrg : Nat) : Nat :=
  qtyFromDq state.volRemain (dealable (fakeInsert state orderId) viewerOrg) state.remaining

variable (worker : OmMarketWorker)

/-- The entries of `product_orgs` and `product_ladder_indices` for a product. -/
def fanOutRange (productId : Nat) : List Nat :=
  List.range' (worker.productOffsets productId)
    (worker.productOffsets (productId + 1) - worker.productOffsets productId)

def setDelta (ladder : Nat) (isBid : Bool) (side : DeltaSide) : OmMarketWorker :=
  { worker with
    ladderDeltas := update worker.ladderDeltas ladder
      (update (worker.ladderDeltas ladder) isBid side) }

def recordChange (price : Nat) (isBid : Bool) (ladder : Nat)
    (delta : Int) : OmError × OmMarketWorker :=
  if ladder < worker.subscriptionCount then
    match omMarketDeltaAdd (worker.ladderDeltas ladder isBid) price delta delta true with
    | (.ok, side) =>
      let worker := worker.setDelta ladder isBid side
      (.ok, { worker with dirty := worker.dirty.mark ladder })
    | (err, side) => (err, worker.setDelta ladder isBid side)
  else (.invalidParam, worker)

/-- The loop over the viewers of a product; `change` is what a viewer's quantity changes by, `none`
if the viewer is passed over. The first error ends it. -/
def fanOut (price : Nat) (isBid : Bool) (change : Nat → Option Int) :
    List Nat → OmMarketWorker → OmError × OmMarketWorker
  | [], worker => (.ok, worker)
  | idx :: rest, worker =>
    match worker.productLadderIndices idx, change (worker.productOrgs idx) with
    | some ladder, some delta =>
      match worker.recordChange price isBid ladder delta with
      | (.ok, worker) => fanOut price isBid change rest worker
      | (err, worker) => (err, worker)
    | _, _ => fanOut price isBid change rest worker

def nonzero (qty : Int) : Option Int := if qty = 0 then none else some qty

variable (rec : OmWalInsert)

def insertChange (viewer : Nat) : Option Int :=
  if dealable rec viewer = 0 then none else some (min rec.volRemain (dealable rec viewer) : Nat)

def cancelChange (state : OmMarketOrderState) (orderId viewer : Nat) : Option Int :=
  nonzero (-(omMarketComputeOrgQty dealable state orderId viewer : Int))

def activateChange (state : OmMarketOrderState) (orderId viewer : Nat) : Option Int :=
  nonzero (omMarketComputeOrgQty dealable state orderId viewer)

def matchChange (state : OmMarketOrderState) (orderId post viewer : Nat) : Option Int :=
  let dq := dealable (fakeInsert state orderId) viewer
  nonzero ((qtyFromDq state.volRemain dq post : Int) - qtyFromDq state.volRemain dq state.remaining)

def setLadder (productId : Nat) (out : OmMarketLevelSlab × OmMarketLadder) : OmMarketWorker :=
  { worker with
    productSlab := out.1
    productLadders := update worker.productLadders productId out.2 }

def setOrder (orderId : Nat) (state : Option OmMarketOrderState) : OmMarketWorker :=
  { worker with globalOrders := update worker.globalOrders orderId state }

def setOrderSet (productId : Nat) (ids : Finset Nat) : OmMarketWorker :=
  { worker with productOrderSets := update worker.productOrderSets productId ids }

def evict (productId orderId : Nat) : OmMarketWorker :=
  (worker.setOrderSet productId ((worker.productOrderSets productId).erase orderId)).setOrder
    orderId none

def subLevel (state : OmMarketOrderState) (qty : Nat) : OmMarketWorker :=
  worker.setLadder state.productId (omLadderSubQty worker.productSlab
    (worker.productLadders state.productId) state.price qty state.isBid)

def insertState : OmMarketOrderState where
  productId := rec.productId
  side := omGetSide rec.flags
  active := true
  org := rec.org
  flags := rec.flags
  price := rec.price
  remaining := rec.volRemain
  volRemain := rec.volRemain

def addOrder : OmMarketWorker :=
  (worker.setOrder rec.orderId (some (insertState rec))).setOrderSet rec.productId
    (insert rec.orderId (worker.productOrderSets rec.productId))

def processInsert : OmError × OmMarketWorker :=
  if int64Max < rec.price ∨ int64Max < rec.volRemain then (.outOfRange, worker)
  else if !worker.productHasSubs rec.productId then (.ok, worker)
  else
    match omLadderAddQty worker.productSlab (worker.productLadders rec.productId) rec.price
      rec.volRemain (omIsBid rec.flags) with
    | (.ok, out) =>
      fanOut rec.price (omIsBid rec.flags) (insertChange worker.dealable rec)
        (worker.fanOutRange rec.productId) ((worker.setLadder rec.productId out).addOrder rec)
    | (err, out) => (err, worker.setLadder rec.productId out)

/-- CANCEL and DEACTIVATE records. The loop needs the order as it was. -/
def processCancel (rec : OmWalCancel) : OmError × OmMarketWorker :=
  match worker.globalOrders rec.orderId with
  | none => (.ok, worker)
  | some state =>
    if !state.active then (.ok, worker)
    else
      thenDo
        (fanOut state.price state.isBid (cancelChange worker.dealable state rec.orderId)
          (worker.fanOutRange state.productId) worker)
        fun worker => (worker.subLevel state state.remaining).evict state.productId rec.orderId

def processActivate (rec : OmWalCancel) : OmError × OmMarketWorker :=
  match worker.globalOrders rec.orderId with
  | none => (.ok, worker)
  | some state =>
    if state.active || state.remaining == 0 then (.ok, worker)
    else
      match omLadderAddQty worker.productSlab (worker.productLadders state.productId) state.price
        state.remaining state.isBid with
      | (.ok, out) =>
        fanOut state.price state.isBid (activateChange worker.dealable state rec.orderId)
          (worker.fanOutRange state.productId)
          ((worker.setOrder rec.orderId (some { state with active := true })).setLadder
            state.productId out)
      | (err, out) =>
        (err, (worker.setOrder rec.orderId (some { state with active := true })).setLadder
          state.productId out)

def reduceOrder (state : OmMarketOrderState) (orderId post : Nat) : OmMarketWorker :=
  if post = 0 then worker.evict state.productId orderId
  else worker.setOrder orderId (some { state with remaining := post })

def processMatch (rec : OmWalMatch) : OmError × OmMarketWorker :=
  if int64Max < rec.volume then (.outOfRange, worker)
  else
    match worker.globalOrders rec.makerId with
    | none => (.ok, worker)
    | some state =>
      if !state.active || state.remaining == 0 then (.ok, worker)
      else
        let globalMatch := min rec.volume state.remaining
        let post := state.remaining - globalMatch
        thenDo
          (fanOut state.price state.isBid (matchChange worker.dealable state rec.makerId post)
            (worker.fanOutRange state.productId) worker)
          fun worker => (worker.subLevel state globalMatch).reduceOrder state rec.makerId post

end OmMarketWorker

/-- An INSERT names a product below `max_products`: the source reads `product_has_subs` there
without a check, and beyond the array the model takes the product for one not subscribed to. -/
def omMarketWorkerProcess (worker : OmMarketWorker) : OmWalRecord → OmError × OmMarketWorker
  | .insert rec => worker.processInsert rec
  | .cancel rec | .deactivate rec => worker.processCancel rec
  | .activate rec => worker.processActivate rec
  | .matched rec => worker.processMatch rec
  | .other _ _ => (.ok, worker)

def omMarketWorkerFindLadder (worker : OmMarketWorker) (orgId productId : Nat) : Option Nat :=
  (worker.orgIndexMap orgId).bind fun orgIndex =>
    worker.ladderIndex (orgIndex * worker.maxProducts + productId)

/-- `om_market_worker_get_qty`; the sum is a 64-bit number. -/
def omMarketWorkerGetQty (worker : OmMarketWorker) (orgId productId : Nat) (side : UInt16)
    (price : Nat) : Except OmError Nat :=
  match omMarketWorkerFindLadder worker orgId productId with
  | none => .error .notSubscribed
  | some _ =>
    let total := (∑ orderId ∈ worker.productOrderSets productId,
      match worker.globalOrders orderId with
      | none => 0
      | some state =>
        if !state.active || state.side != side || state.price != price then 0
        else OmMarketWorker.omMarketComputeOrgQty worker.dealable state orderId orgId) % 2 ^ 64
    if total = 0 then .error .notFound else .ok total

/-- The side of a delta map: `OM_SIDE_BID` or anything else. -/
def sideIsBid (side : UInt16) : Bool := side == omSideBid

def omMarketWorkerCopyDeltasByLadder (worker : OmMarketWorker) (ladder : Nat) (side : UInt16)
    (max : Nat) : Except OmError (List OmMarketDelta) :=
  if max = 0 ∨ worker.subscriptionCount ≤ ladder then .error .nullParam
  else
    let deltas := worker.ladderDeltas ladder (sideIsBid side)
    copyDirty deltas.map max deltas.head

def omMarketWorkerCopyDeltas (worker : OmMarketWorker) (orgId productId : Nat) (side : UInt16)
    (max : Nat) : Except OmError (List OmMarketDelta) :=
  if max = 0 then .error .nullParam
  else
    match omMarketWorkerFindLadder worker orgId productId with
    | none => .error .notSubscribed
    | some ladder => omMarketWorkerCopyDeltasByLadder worker ladder side max

def countDirty (map : OmMarketDeltaMap) : Nat → Option Nat → Option (Except OmError Nat)
  | _, none => some (.ok 0)
  | 0, some _ => none
  | fuel + 1, some price =>
    match map.lookup price with
    | none => some (.error .notFound)
    | some entry => (countDirty map fuel entry.nextDirty).map (·.map (· + 1))

def omMarketWorkerDeltaCount (worker : OmMarketWorker) (orgId productId : Nat) (side : UInt16) :
    Option (Except OmError Nat) :=
  match omMarketWorkerFindLadder worker orgId productId with
  | none => some (.error .notSubscribed)
  | some ladder =>
    let deltas := worker.ladderDeltas ladder (sideIsBid side)
    countDirty deltas.map deltas.map.entries.length deltas.head

/-- `none` if the list of prices does not end. -/
def omMarketWorkerClearDeltasByLadder (worker : OmMarketWorker) (ladder : Nat)
    (side : UInt16) : Option (OmError × OmMarketWorker) :=
  if worker.subscriptionCount ≤ ladder then some (.nullParam, worker)
  else
    let deltas := worker.ladderDeltas ladder (sideIsBid side)
    (clearDirty deltas.map.entries.length deltas.map deltas.head).map fun
      | (.ok, map) => (.ok, worker.setDelta ladder (sideIsBid side) ⟨map, none⟩)
      | (err, map) => (err, worker.setDelta ladder (sideIsBid side) ⟨map, deltas.head⟩)

def omMarketWorkerClearDeltas (worker : OmMarketWorker) (orgId productId : Nat)
    (side : UInt16) : Option (OmError × OmMarketWorker) :=
  match omMarketWorkerFindLadder worker orgId productId with
  | none => some (.notSubscribed, worker)
  | some ladder => omMarketWorkerClearDeltasByLadder worker ladder side

def omMarketWorkerIsDirty (worker : OmMarketWorker) (orgId productId : Nat) : Except OmError Bool :=
  match omMarketWorkerFindLadder worker orgId productId with
  | none => .error .notSubscribed
  | some ladder => .ok (worker.dirty.flag ladder)

def omMarketWorkerClearDirtyByLadder (worker : OmMarketWorker) (ladder : Nat) :
    OmError × OmMarketWorker :=
  if worker.subscriptionCount ≤ ladder then (.nullParam, worker)
  else (.ok, { worker with dirty := worker.dirty.clear ladder })

def omMarketWorkerCompactDirty (worker : OmMarketWorker) : OmMarketWorker :=
  { worker with dirty := worker.dirty.compact }

def countProducts (maxProducts : Nat) (subs : List OmMarketSubscription) : Nat → Nat :=
  subs.foldl
    (fun offsets sub =>
      if sub.productId < maxProducts then
        update offsets (sub.productId + 1) (offsets (sub.productId + 1) + 1)
      else offsets)
    fun _ => 0

def sumTable (n : Nat) (table : Nat → Nat) : Nat → Nat :=
  (List.range n).foldl (fun t i => update t (i + 1) (t (i + 1) + t i)) table

structure SubsTables where
  cursor : Nat → Nat
  productOrgs : Nat → Nat
  productHasSubs : Nat → Bool
  orgIndexMap : Nat → Option Nat
  orgCount : Nat

def SubsTables.add (maxProducts : Nat) (t : SubsTables) (sub : OmMarketSubscription) : SubsTables :=
  if maxProducts ≤ sub.productId then t
  else
    let idx := t.cursor sub.productId
    let t :=
      { t with
        cursor := update t.cursor sub.productId (idx + 1)
        productOrgs := update t.productOrgs idx sub.orgId
        productHasSubs := update t.productHasSubs sub.productId true }
    match t.orgIndexMap sub.orgId with
    | none =>
      { t with
        orgIndexMap := update t.orgIndexMap sub.orgId (some t.orgCount)
        orgCount := t.orgCount + 1 }
    | some _ => t

def subsTables (maxProducts : Nat) (offsets : Nat → Nat) (subs : List OmMarketSubscription) :
    SubsTables :=
  subs.foldl (SubsTables.add maxProducts) ⟨offsets, fun _ => 0, fun _ => false, fun _ => none, 0⟩

/-- The ladder of an organisation and a product is the subscription that names them last. -/
def ladderTable (maxProducts : Nat) (orgIndexMap : Nat → Option Nat)
    (subs : List OmMarketSubscription) : Nat → Option Nat :=
  subs.zipIdx.foldl
    (fun table entry =>
      match orgIndexMap entry.1.orgId with
      | none => table
      | some orgIndex =>
        update table (orgIndex * maxProducts + entry.1.productId) (some entry.2))
    fun _ => none

def fillLadderIndices (t : SubsTables) (ladderIndex : Nat → Option Nat) (maxProducts : Nat)
    (offsets : Nat → Nat) (indices : Nat → Option Nat) (productId : Nat) : Nat → Option Nat :=
  (List.range' (offsets productId) (offsets (productId + 1) - offsets productId)).foldl
    (fun indices idx =>
      update indices idx
        ((t.orgIndexMap (t.productOrgs idx)).bind fun orgIndex =>
          ladderIndex (orgIndex * maxProducts + productId)))
    indices

/-- `om_market_worker_init` for a positive slab capacity. Without a subscription the allocation of
the dirty flags fails. -/
def omMarketWorkerInit (maxProducts : Nat) (subs : List OmMarketSubscription) (slabCapacity : Nat)
    (dealable : OmMarketDealableFn) : Option OmMarketWorker :=
  if subs = [] then none
  else
    let offsets := sumTable maxProducts (countProducts maxProducts subs)
    let t := subsTables maxProducts offsets subs
    let ladderIndex := ladderTable maxProducts t.orgIndexMap subs
    some
      { maxProducts := maxProducts
        subscriptionCount := subs.length
        productOffsets := offsets
        productOrgs := t.productOrgs
        productLadderIndices :=
          (List.range maxProducts).foldl (fillLadderIndices t ladderIndex maxProducts offsets)
            fun _ => some 0
        orgIndexMap := t.orgIndexMap
        ladderIndex := ladderIndex
        productHasSubs := t.productHasSubs
        productSlab := omMarketSlabInit slabCapacity
        productLadders := fun _ => .empty
        productOrderSets := fun _ => ∅
        globalOrders := fun _ => none
        dirty := .empty subs.length
        ladderDeltas := fun _ _ => .empty
        ladderOrg := fun i => (subs.getD i ⟨0, 0⟩).orgId
        ladderProduct := fun i => (subs.getD i ⟨0, 0⟩).productId
        dealable := dealable }

end VeloxMatch
