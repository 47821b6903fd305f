import VeloxMatch.MarketWorker

namespace VeloxMatch

open Function

/-- A public worker. The products it serves have `productHasSubs` set. -/
structure OmMarketPublicWorker where
  maxProducts : Nat
  productHasSubs : Nat → Bool
  slab : OmMarketLevelSlab
  ladders : Nat → OmMarketLadder
  dirty : DirtyList
  deltas : Nat → Bool → DeltaSide
  orders : Nat → Option OmMarketOrderState

/-- `om_market_public_worker_init` for a positive slab capacity, with the products that
`om_market_init` then assigns to the worker. -/
def omMarketPublicWorkerInit (maxProducts slabCapacity : Nat) (serves : Nat → Bool) :
    OmMarketPublicWorker where
  maxProducts := maxProducts
  productHasSubs := fun p => decide (p < maxProducts) && serves p
  slab := omMarketSlabInit slabCapacity
  ladders := fun _ => .empty
  dirty := .empty maxProducts
  deltas := fun _ _ => .empty
  orders := fun _ => none

namespace OmMarketPublicWorker

def setLadder (worker : OmMarketPublicWorker) (productId : Nat)
    (out : OmMarketLevelSlab × OmMarketLadder) : OmMarketPublicWorker :=
  { worker with slab := out.1, ladders := update worker.ladders productId out.2 }

def setOrder (worker : OmMarketPublicWorker) (orderId : Nat)
    (state : Option OmMarketOrderState) : OmMarketPublicWorker :=
  { worker with orders := update worker.orders orderId state }

def recordChange (worker : OmMarketPublicWorker) (productId price : Nat) (isBid : Bool)
    (delta : Int) : OmError × OmMarketPublicWorker :=
  if productId < worker.maxProducts then
    let out := omMarketDeltaAdd (worker.deltas productId isBid) price delta 0 false
    let worker :=
      { worker with
        deltas := update worker.deltas productId
          (update (worker.deltas productId) isBid out.2) }
    match out.1 with
    | .ok => (.ok, { worker with dirty := worker.dirty.mark productId })
    | err => (err, worker)
  else (.invalidParam, worker)

def subLevel (worker : OmMarketPublicWorker) (state : OmMarketOrderState) (qty : Nat) :
    OmMarketPublicWorker :=
  worker.setLadder state.productId (omLadderSubQty worker.slab (worker.ladders state.productId)
    state.price qty state.isBid)

def insertState (rec : OmWalInsert) : OmMarketOrderState where
  productId := rec.productId
  side := omGetSide rec.flags
  active := true
  org := 0
  flags := 0
  price := rec.price
  remaining := rec.volRemain
  volRemain := 0

def processInsert (worker : OmMarketPublicWorker) (rec : OmWalInsert) :
    OmError × OmMarketPublicWorker :=
  if int64Max < rec.price ∨ int64Max < rec.volRemain then (.outOfRange, worker)
  else if !worker.productHasSubs rec.productId then (.ok, worker)
  else
    let worker := worker.setOrder rec.orderId (some (insertState rec))
    let isBid := omIsBid rec.flags
    match omLadderAddQty worker.slab (worker.ladders rec.productId) rec.price rec.volRemain
      isBid with
    | (.ok, out) =>
      (worker.setLadder rec.productId out).recordChange rec.productId rec.price isBid rec.volRemain
    | (err, out) => (err, worker.setLadder rec.productId out)

/-- CANCEL and DEACTIVATE records. -/
def processCancel (worker : OmMarketPublicWorker) (rec : OmWalCancel) :
    OmError × OmMarketPublicWorker :=
  match worker.orders rec.orderId with
  | none => (.ok, worker)
  | some state =>
    if !state.active || state.remaining == 0 then (.ok, worker)
    else
      let worker := worker.subLevel state state.remaining
      let worker := worker.setOrder rec.orderId
        (some { state with remaining := 0, active := false })
      thenDo (worker.recordChange state.productId state.price state.isBid (-state.remaining))
        fun worker => worker.setOrder rec.orderId none

def processActivate (worker : OmMarketPublicWorker) (rec : OmWalCancel) :
    OmError × OmMarketPublicWorker :=
  match worker.orders rec.orderId with
  | none => (.ok, worker)
  | some state =>
    if state.active || state.remaining == 0 then (.ok, worker)
    else
      match omLadderAddQty worker.slab (worker.ladders state.productId) state.price
        state.remaining state.isBid with
      | (.ok, out) =>
        let worker := worker.setLadder state.productId out
        let worker := worker.setOrder rec.orderId (some { state with active := true })
        worker.recordChange state.productId state.price state.isBid state.remaining
      | (err, out) => (err, worker.setLadder state.productId out)

def processMatch (worker : OmMarketPublicWorker) (rec : OmWalMatch) :
    OmError × OmMarketPublicWorker :=
  if int64Max < rec.volume then (.outOfRange, worker)
  else
    match worker.orders rec.makerId with
    | none => (.ok, worker)
    | some state =>
      if !state.active || state.remaining == 0 then (.ok, worker)
      else
        let matchVol := min rec.volume state.remaining
        let post := state.remaining - matchVol
        let worker := worker.subLevel state matchVol
        let worker := worker.setOrder rec.makerId (some { state with remaining := post })
        thenDo (worker.recordChange state.productId state.price state.isBid (-matchVol))
          fun worker => if post = 0 then worker.setOrder rec.makerId none else worker

end OmMarketPublicWorker

variable (worker : OmMarketPublicWorker)

/-- An INSERT names a product below `max_products`, as for `om_market_worker_process`. -/
def omMarketPublicProcess : OmWalRecord → OmError × OmMarketPublicWorker
  | .insert rec => worker.processInsert rec
  | .cancel rec | .deactivate rec => worker.processCancel rec
  | .activate rec => worker.processActivate rec
  | .matched rec => worker.processMatch rec
  | .other _ _ => (.ok, worker)

def OmMarketPublicWorker.served (productId : Nat) : Except OmError Unit :=
  if worker.maxProducts ≤ productId then .error .outOfRange
  else if !worker.productHasSubs productId then .error .notSubscribed
  else .ok ()

/-- `om_market_public_get_qty`, which does not read its side. -/
def omMarketPublicGetQty (productId : Nat) (_side : UInt16) (price : Nat) : Except OmError Nat :=
  (worker.served productId).bind fun _ =>
    match omLadderGetQty worker.slab (worker.ladders productId) price with
    | some qty => .ok qty
    | none => .error .notFound

def asInt64 (n : Nat) : Int := if n ≤ int64Max then n else (n : Int) - 2 ^ 64

def copyLevels (slab : OmMarketLevelSlab) : Nat → Option Nat → List OmMarketDelta
  | 0, _ => []
  | _ + 1, none => []
  | max + 1, some idx =>
    let slot := slab.slots idx
    ⟨slot.price, asInt64 slot.qty, slot.qty⟩ :: copyLevels slab max slot.q1Next

def omMarketPublicCopyFull (productId : Nat) (side : UInt16)
    (max : Nat) : Except OmError (List OmMarketDelta) :=
  if max = 0 then .error .invalidParam
  else
    (worker.served productId).map fun _ =>
      copyLevels worker.slab max ((worker.ladders productId).side (sideIsBid side)).head

def omMarketPublicDeltaCount (productId : Nat) (side : UInt16) : Except OmError Nat :=
  (worker.served productId).map fun _ =>
    (worker.deltas productId (sideIsBid side)).map.entries.length

/-- The entries of a delta map come in the order of its buckets, which nothing here depends on. -/
def omMarketPublicCopyDeltas (productId : Nat) (side : UInt16)
    (max : Nat) : Except OmError (Finset OmMarketDelta) :=
  if max = 0 then .error .invalidParam
  else
    (worker.served productId).bind fun _ =>
      let map := (worker.deltas productId (sideIsBid side)).map
      if max < map.entries.length then .error .outOfRange
      else .ok (map.entries.map fun entry => ⟨entry.1, entry.2.delta, 0⟩).toFinset

def omMarketPublicClearDeltas (productId : Nat) (side : UInt16) : OmError × OmMarketPublicWorker :=
  match worker.served productId with
  | .error err => (err, worker)
  | .ok _ =>
    (.ok, { worker with
      deltas := update worker.deltas productId
        (update (worker.deltas productId) (sideIsBid side) .empty) })

def omMarketPublicIsDirty (productId : Nat) : Except OmError Bool :=
  (worker.served productId).map fun _ => worker.dirty.flag productId

def omMarketPublicClearDirty (productId : Nat) : OmError × OmMarketPublicWorker :=
  match worker.served productId with
  | .error err => (err, worker)
  | .ok _ => (.ok, { worker with dirty := worker.dirty.clear productId })

def omMarketPublicCompactDirty : OmMarketPublicWorker :=
  { worker with dirty := worker.dirty.compact }

end VeloxMatch
