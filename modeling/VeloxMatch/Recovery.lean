import VeloxMatch.WalReplay
import VeloxMatch.BookPark

namespace VeloxMatch

structure OmWalReplayStats where
  recordsInsert : Nat
  recordsCancel : Nat
  recordsMatch : Nat
  recordsOther : Nat
  bytesProcessed : Nat
  lastSequence : Nat
  deriving DecidableEq, Repr

def OmWalReplayStats.count (stats : OmWalReplayStats) (r : WalReplayRecord) : OmWalReplayStats :=
  let stats := { stats with
    lastSequence := r.seq
    bytesProcessed := stats.bytesProcessed + (walHeaderSize + r.data.length) }
  if r.type = walTypeInsert then { stats with recordsInsert := stats.recordsInsert + 1 }
  else if r.type = walTypeCancel then { stats with recordsCancel := stats.recordsCancel + 1 }
  else if r.type = walTypeMatch then { stats with recordsMatch := stats.recordsMatch + 1 }
  else { stats with recordsOther := stats.recordsOther + 1 }

/-- The counter of order ids, which has 32 bits, moves past an id of a record. -/
def passOrderId (s : OmDualSlab) (orderId : Nat) : OmDualSlab :=
  if s.nextOrderId ≠ 0 ∧ s.nextOrderId ≤ orderId then
    { s with nextOrderId := if orderId = 2 ^ 32 - 1 then 0 else (orderId + 1) % 2 ^ 32 }
  else s

/-- The local variable `highest`, which has 32 bits. -/
def OmWalMatch.highest (rec : OmWalMatch) : Nat :=
  (if rec.takerId < rec.makerId then rec.makerId else rec.takerId) % 2 ^ 32

/-- The fields and the bytes of an INSERT record in a slot; the id of a slot has 32 bits. -/
def restoreSlot (s : OmDualSlab) (slot : Nat) (rec : OmWalInsert) : OmDualSlab :=
  let s := s.setOrder slot
    { price := rec.price
      volume := rec.volume
      volumeRemain := rec.volRemain
      org := rec.org
      flags := rec.flags
      orderId := rec.orderId % 2 ^ 32
      data := overwrite (s.order slot).data rec.userData }
  s.setAux slot (overwrite (s.auxMemory slot) rec.auxData)

section Records

variable (K : Kavl) (ctx : OmOrderbookContext)

def recoverInsert (rec : OmWalInsert) : OmError × OmOrderbookContext :=
  if ctx.slab.config.userDataSize < rec.userDataSize ∨
      ctx.slab.config.auxDataSize < rec.auxDataSize ∨ ctx.maxProducts ≤ rec.productId ∨
      ctx.maxOrg ≤ rec.org ∨ rec.orderId = 0 then (.recoveryFailed, ctx)
  else
    let ctx := { ctx with slab := passOrderId ctx.slab rec.orderId }
    match omSlabAlloc ctx.slab with
    | (none, slab) => (.slabFull, { ctx with slab := slab })
    | (some slot, slab) =>
      match omOrderbookInsert K { ctx with slab := restoreSlot slab slot rec } rec.productId slot with
      | (.ok, ctx) => (.ok, ctx)
      | (_, ctx) => (.recoveryFailed, { ctx with slab := omSlabFree ctx.slab slot })

def recoverMatch (rec : OmWalMatch) : OmError × OmOrderbookContext :=
  if rec.makerId = 0 ∨ rec.takerId = 0 ∨ rec.volume = 0 then (.recoveryFailed, ctx)
  else
    let ctx := { ctx with slab := passOrderId ctx.slab rec.highest }
    match (ctx.orderHashmap rec.makerId).bind
        fun entry => omSlotFromIdx ctx.slab (some entry.slotIdx) with
    | none => (.recoveryFailed, ctx)
    | some slot =>
      let o := ctx.order slot
      if o.volumeRemain < rec.volume then (.recoveryFailed, ctx)
      else
        let o := { o with volumeRemain := o.volumeRemain - rec.volume }
        let ctx := { ctx with slab := ctx.slab.setOrder slot o }
        (.ok, if o.volumeRemain = 0 then (omOrderbookCancel K ctx (rec.makerId % 2 ^ 32)).2 else ctx)

def recoverDeactivate (rec : OmWalCancel) : OmOrderbookContext :=
  match ctx.orderHashmap rec.orderId with
  | none => ctx
  | some entry =>
    match omSlotFromIdx ctx.slab (some entry.slotIdx) with
    | none => ctx
    | some slot =>
      setStatus (omOrderbookUnlinkSlot K ctx entry.productId slot).2 slot omStatusDeactivated

/-- An activated order comes back by the MATCH and INSERT records that follow. -/
def recoverActivate (rec : OmWalCancel) : OmOrderbookContext :=
  match ctx.orderHashmap rec.orderId with
  | none => ctx
  | some entry =>
    match omSlotFromIdx ctx.slab (some entry.slotIdx) with
    | none => ctx
    | some slot =>
      if omGetStatus (ctx.order slot).flags = omStatusDeactivated then
        releaseOrder ctx rec.orderId slot
      else ctx

def recoverRecord : OmWalRecord → OmError × OmOrderbookContext
  | .insert rec => recoverInsert K ctx rec
  | .cancel rec => (.ok, (omOrderbookCancel K ctx (rec.orderId % 2 ^ 32)).2)
  | .matched rec => recoverMatch K ctx rec
  | .deactivate rec => (.ok, recoverDeactivate K ctx rec)
  | .activate rec => (.ok, recoverActivate ctx rec)
  | .other _ _ => (.ok, ctx)

end Records

/-- A record of the wrong length for its type is passed over. -/
def WalReplayRecord.passedOver (r : WalReplayRecord) : Bool :=
  if r.type = walTypeInsert then r.data.length < walInsertSize
  else if r.type = walTypeCancel ∨ r.type = walTypeDeactivate ∨ r.type = walTypeActivate then
    r.data.length ≠ walCancelSize
  else if r.type = walTypeMatch then r.data.length ≠ walMatchSize
  else false

/-- The loop of `om_orderbook_recover_from_wal` over the records that `om_wal_replay_next` hands
out before it ends, with an error or without. -/
def recoverLoop (K : Kavl) (failure : Option OmError) : OmOrderbookContext → OmWalReplayStats →
    List WalReplayRecord → OmError × OmOrderbookContext × OmWalReplayStats
  | ctx, stats, [] => (failure.getD .ok, ctx, stats)
  | ctx, stats, r :: records =>
    if r.passedOver then recoverLoop K failure ctx stats records
    else
      match recoverRecord K ctx (decodeRecord r.type r.data) with
      | (.ok, ctx) => recoverLoop K failure ctx (stats.count r) records
      | (rc, ctx) => (rc, ctx, stats)

/-- Nothing is logged during a recovery. -/
def omOrderbookRecoverFromWal (K : Kavl) (ctx : OmOrderbookContext) (records : List WalReplayRecord)
    (failure : Option OmError) : OmError × OmOrderbookContext × OmWalReplayStats :=
  let out := recoverLoop K failure { ctx with wal := none } ⟨0, 0, 0, 0, 0, 0⟩ records
  (out.1, { out.2.1 with wal := ctx.wal }, out.2.2)

end VeloxMatch
