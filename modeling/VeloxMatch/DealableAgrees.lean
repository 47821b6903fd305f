import VeloxMatch.MarketFeed
import VeloxMatch.CancelEffects

namespace VeloxMatch

open OmMarketWorker SearchTree

section Queries

variable {subs : List OmMarketSubscription} {s : FeedRun}

theorem FeedInv.dealable_stored (h : FeedInv subs s) (hreads : ReadsOrder s.run.worker.dealable)
    (hunread : VolumeUnread s.run.worker.dealable s.seen) {id : Nat} {state : OmMarketOrderState}
    (hstate : s.run.worker.globalOrders id = some state) :
    ∃ rec, bookedBy s.seen id = some rec ∧ ∀ viewer,
      s.run.worker.dealable (fakeInsert state id) viewer = s.run.worker.dealable rec viewer := by
  obtain ⟨rec, hrec, hfields⟩ := (h.stored hstate).booked
  obtain ⟨hmem, hid⟩ := bookedBy_mem hrec
  refine ⟨rec, hrec, fun viewer => ?_⟩
  rw [← hunread rec hmem viewer, hfields]
  exact hreads _ _ viewer hid.symm rfl rfl rfl rfl rfl rfl

theorem FeedInv.published (h : FeedInv subs s) {orgId productId : Nat}
    (hsub : ⟨orgId, productId⟩ ∈ subs) :
    ∃ ladder, omMarketWorkerFindLadder s.run.worker orgId productId = some ladder ∧
      ∀ isBid price, ((s.run.worker.ladderDeltas ladder isBid).entry price).absQty =
        reportedQty s.run.worker orgId productId (omSide isBid) price := by
  obtain ⟨ladder, hl⟩ := List.mem_iff_getElem?.mp hsub
  refine ⟨ladder, h.sides.index.ladder hl, fun isBid price => ?_⟩
  obtain ⟨ds, htracks⟩ := h.sides.tracks isBid hl
  rw [htracks.absQty, h.sides.reportedQty_eq isBid hl]

end Queries

def lotOrder (id price volume : Nat) (isBid : Bool) : Submission where
  order :=
    { price := price, volume := volume, volumeRemain := volume, org := 0
      flags := if isBid then omSideBid else omSideAsk, orderId := id, data := [] }
  aux := []

def fillAndRest : List Op :=
  [.alloc, .write 2 (lotOrder 1 10 5 true), .submit 0 2 false, .tick, .tick,
    .alloc, .write 1 (lotOrder 2 10 8 false), .submit 0 1 false, .tick, .tick, .tick, .tick, .tick,
    .tick]

def feedLog (s : EngineState) : List DeltaAction := (loggedRecords s.book.wal).map .process

def oneLot : OmMarketDealableFn := fun rec _ => if 5 < rec.volume then 1 else rec.volRemain

def oneLotWorker : OmMarketWorker := (omMarketWorkerInit 2 twoSubs 64 oneLot).get rfl

end VeloxMatch
