import VeloxMatch.MarketRoom
import VeloxMatch.LoggedOrders

namespace VeloxMatch

open OmMarketWorker Function

def ReadsOrder (dealable : OmMarketDealableFn) : Prop :=
  ∀ (rec rec' : OmWalInsert) (viewer : Nat), rec.orderId = rec'.orderId → rec.price = rec'.price →
    rec.volume = rec'.volume → rec.volRemain = rec'.volRemain → rec.org = rec'.org →
    rec.flags = rec'.flags → rec.productId = rec'.productId →
    dealable rec viewer = dealable rec' viewer

/-- For every new order, the callback says the same if it is told that nothing has been filled. -/
def VolumeUnread (dealable : OmMarketDealableFn) (seen : List OmWalRecord) : Prop :=
  ∀ rec, .insert rec ∈ seen → ∀ viewer,
    dealable { rec with volume := rec.volRemain } viewer = dealable rec viewer

def orderInsert (id : Nat) : OmWalRecord → Option OmWalInsert
  | .insert rec => if rec.orderId = id then some rec else none
  | _ => none

def bookedBy (seen : List OmWalRecord) (id : Nat) : Option OmWalInsert :=
  seen.reverse.findSome? (orderInsert id)

def changedOrder : OmWalRecord → Option Nat
  | .insert rec => some rec.orderId
  | .cancel rec | .deactivate rec => some rec.orderId
  | .matched rec => some rec.makerId
  | .activate _ | .other _ _ => none

structure FeedRun where
  run : DeltaRun
  seen : List OmWalRecord

def feedStep (s : FeedRun) : DeltaAction → Option FeedRun
  | .process rec => (deltaStep s.run (.process rec)).map (⟨·, s.seen ++ [rec]⟩)
  | .clear orgId productId side =>
    (deltaStep s.run (.clear orgId productId side)).map (⟨·, s.seen⟩)

def feedOk (s : FeedRun) : DeltaAction → Prop
  | .process rec => s.run.worker.Fits rec
  | .clear _ _ _ => True

instance (s : FeedRun) : (a : DeltaAction) → Decidable (feedOk s a)
  | .process rec => inferInstanceAs (Decidable (s.run.worker.Fits rec))
  | .clear .. => instDecidableTrue

section Seen

variable {seen : List OmWalRecord} {rec : OmWalRecord} {id : Nat}

theorem bookedBy_append : bookedBy (seen ++ [rec]) id = (orderInsert id rec).or (bookedBy seen id) := by
  rw [bookedBy, List.reverse_append, List.reverse_singleton, List.singleton_append,
    List.findSome?_cons]
  cases orderInsert id rec <;> rfl

theorem orderInsert_eq_some {r : OmWalInsert} (h : orderInsert id rec = some r) :
    rec = .insert r ∧ r.orderId = id := by
  unfold orderInsert at h
  split at h
  · split at h
    · next hid =>
      cases h
      exact ⟨rfl, hid⟩
    · cases h
  · cases h

theorem orderInsert_other (h : changedOrder rec ≠ some id) : orderInsert id rec = none := by
  by_contra hne
  obtain ⟨r, hr⟩ := Option.ne_none_iff_exists'.mp hne
  obtain ⟨rfl, hid⟩ := orderInsert_eq_some hr
  exact h (congrArg some hid)

theorem liveAfter_other (live : Nat → Option LiveOrder) (h : changedOrder rec ≠ some id) :
    liveAfter rec live id = live id := by
  cases rec with
  | insert r | cancel r | deactivate r | matched r =>
    exact update_of_ne (fun he => h (congrArg some he.symm)) ..
  | activate r => rfl
  | other => rfl

theorem bookedBy_mem {r : OmWalInsert} (h : bookedBy seen id = some r) :
    .insert r ∈ seen ∧ r.orderId = id := by
  obtain ⟨rec, hrec, hr⟩ := List.exists_of_findSome?_eq_some h
  obtain ⟨rfl, hid⟩ := orderInsert_eq_some hr
  exact ⟨List.mem_reverse.mp hrec, hid⟩

theorem freshInserts_ids {live : List LiveOrder} (hids : (live.map (·.orderId)).Nodup)
    (h : FreshInserts live seen) : ((seen.foldl liveStep live).map (·.orderId)).Nodup := by
  induction seen generalizing live with
  | nil => exact hids
  | cons rec seen ih => exact ih (liveStep_ids hids h.1) h.2

end Seen

/-- A stored order is that of its last INSERT, with what the matches since then have left. -/
structure StoredAs (seen : List OmWalRecord) (id : Nat) (state : OmMarketOrderState) : Prop where
  price : state.price ≤ int64Max
  live : ∃ o, liveAt (seen.foldl liveStep []) id = some o ∧ o.remaining = state.remaining
  booked : ∃ rec, bookedBy seen id = some rec ∧
    state = { insertState rec with remaining := state.remaining }

section Stored

variable {orders orders' : Nat → Option OmMarketOrderState} {seen : List OmWalRecord}
  {rec : OmWalRecord} {id : Nat} {state : OmMarketOrderState}

theorem liveAt_seen (hfresh : FreshInserts [] seen) (rec : OmWalRecord) :
    liveAt ((seen ++ [rec]).foldl liveStep []) =
      liveAfter rec (liveAt (seen.foldl liveStep [])) := by
  have hids : ((seen.foldl liveStep []).map (·.orderId)).Nodup :=
    @freshInserts_ids seen [] List.nodup_nil hfresh
  rw [List.foldl_append, List.foldl_cons, List.foldl_nil, liveAt_liveStep hids]

theorem StoredAs.left {o' : LiveOrder} {remaining : Nat} (h : StoredAs seen id state)
    (hfresh : FreshInserts [] seen) (hinsert : orderInsert id rec = none)
    (hlive : liveAfter rec (liveAt (seen.foldl liveStep [])) id = some o')
    (hremaining : o'.remaining = remaining) :
    StoredAs (seen ++ [rec]) id { state with remaining := remaining } := by
  obtain ⟨r, hr, hstate⟩ := h.booked
  refine ⟨h.price, ⟨o', by rw [liveAt_seen hfresh, hlive], hremaining⟩, r, ?_, ?_⟩
  · rw [bookedBy_append, hinsert, Option.none_or, hr]
  · rw [hstate]

theorem StoredAs.other (h : StoredAs seen id state) (hfresh : FreshInserts [] seen)
    (hid : changedOrder rec ≠ some id) : StoredAs (seen ++ [rec]) id state := by
  obtain ⟨o, ho, hremaining⟩ := h.live
  exact h.left hfresh (orderInsert_other hid) ((liveAfter_other _ hid).trans ho) hremaining

theorem storedAs_insert {r : OmWalInsert} (hfresh : FreshInserts [] seen)
    (hprice : r.price ≤ int64Max) : StoredAs (seen ++ [.insert r]) r.orderId (insertState r) := by
  refine ⟨hprice, ⟨.ofInsert r, ?_, rfl⟩, r, ?_, rfl⟩
  · rw [liveAt_seen hfresh]
    exact update_self ..
  · rw [bookedBy_append, orderInsert, if_pos rfl]
    rfl

end Stored

structure FeedInv (subs : List OmMarketSubscription) (s : FeedRun) : Prop where
  sides : SidesInv subs s.run
  stored : ∀ {id state}, s.run.worker.globalOrders id = some state → StoredAs s.seen id state

section Steps

variable {subs : List OmMarketSubscription} {s s' : FeedRun} {rec : OmWalRecord}
  {worker' : OmMarketWorker} {id : Nat} {state : OmMarketOrderState}

/-- A record is accepted if no number overflows: no quantity goes below 0. -/
theorem FeedInv.process_ok (h : FeedInv subs s) (hnodup : subs.Nodup)
    (hfits : s.run.worker.Fits rec) : (omMarketWorkerProcess s.run.worker rec).1 = .ok := by
  cases rec with
  | insert r => exact h.sides.insert_ok hnodup r hfits
  | cancel r | deactivate r =>
    exact h.sides.cancel_ok hnodup r (fun _ hstate => (h.stored hstate).price) hfits
  | matched r => exact h.sides.match_ok hnodup r (fun _ hstate => (h.stored hstate).price) hfits
  | activate r =>
    change (s.run.worker.processActivate r).1 = .ok
    unfold processActivate
    split
    · rfl
    next state hstate =>
    rw [(h.sides.orders.stored hstate).2.1, Bool.true_or, if_pos rfl]
  | other => rfl

theorem FeedInv.insert_new (h : FeedInv subs s) {r : OmWalInsert}
    (hfresh : FreshInserts [] (s.seen ++ [.insert r])) :
    s.run.worker.globalOrders r.orderId = none := by
  by_contra hne
  obtain ⟨state, hstate⟩ := Option.ne_none_iff_exists'.mp hne
  obtain ⟨o, ho, -⟩ := (h.stored hstate).live
  exact Option.some_ne_none o (ho.symm.trans (freshInserts_append.mp hfresh).2.1)

theorem FeedInv.readsAlike (h : FeedInv subs s) (hreads : ReadsOrder s.run.worker.dealable)
    (hfresh : FreshInserts [] (s.seen ++ [rec]))
    (hunread : VolumeUnread s.run.worker.dealable (s.seen ++ [rec])) :
    ReadsAlike s.run.worker rec := by
  cases rec with
  | insert r =>
    refine ⟨h.insert_new hfresh, fun viewer => ?_⟩
    rw [← hunread r (by simp) viewer]
    exact hreads _ _ viewer rfl rfl rfl rfl rfl rfl rfl
  | _ => trivial

theorem FeedInv.stored_update (h : FeedInv subs s) (hseen : FreshInserts [] s.seen) {key : Nat}
    {state' : Option OmMarketOrderState} (hkey : changedOrder rec = some key)
    (horders : worker'.globalOrders = update s.run.worker.globalOrders key state')
    (hself : ∀ state, state' = some state → StoredAs (s.seen ++ [rec]) key state)
    (hstate : worker'.globalOrders id = some state) : StoredAs (s.seen ++ [rec]) id state := by
  rw [horders] at hstate
  rcases eq_or_ne id key with rfl | hne
  · rw [update_self] at hstate
    exact hself state hstate
  · rw [update_of_ne hne] at hstate
    refine (h.stored hstate).other hseen fun hid => hne ?_
    exact Option.some.inj (hid.symm.trans hkey)

theorem fill_remaining {o : LiveOrder} {volume : Nat}
    (h : o.remaining = 0 ∨ o.remaining - min volume o.remaining ≠ 0) :
    o.fill volume = some { o with remaining := o.remaining - min volume o.remaining } := by
  unfold LiveOrder.fill
  rw [if_neg (by omega)]
  congr 2
  omega

theorem FeedInv.stored_process (h : FeedInv subs s) (hnodup : subs.Nodup)
    (hfits : s.run.worker.Fits rec) (hfresh : FreshInserts [] (s.seen ++ [rec]))
    (hok : omMarketWorkerProcess s.run.worker rec = (.ok, worker'))
    (hstate : worker'.globalOrders id = some state) : StoredAs (s.seen ++ [rec]) id state := by
  have hseen := (freshInserts_append.mp hfresh).1
  cases rec with
  | insert r =>
    have hnone := h.insert_new hfresh
    rcases processInsert_cases h.sides.index hnodup h.sides.orders (by simp [hnone]) hok with
      ⟨-, rfl⟩ | hmove
    · refine h.stored_update hseen rfl (update_eq_self ..).symm (fun _ hsome => ?_) hstate
      cases hnone.symm.trans hsome
    · refine h.stored_update hseen rfl hmove.changes.orders ?_ hstate
      rintro _ ⟨rfl⟩
      exact storedAs_insert hseen hfits.1
  | cancel r | deactivate r =>
    rcases processCancel_cases h.sides.index hnodup h.sides.orders hok with
      ⟨hnone, rfl⟩ | ⟨_, _, hmove⟩
    · refine h.stored_update hseen rfl (update_eq_self ..).symm (fun _ hsome => ?_) hstate
      cases hnone.symm.trans hsome
    · exact h.stored_update hseen rfl hmove.changes.orders nofun hstate
  | matched r =>
    have hlive : ∀ {old}, s.run.worker.globalOrders r.makerId = some old → ∃ o : LiveOrder,
        liveAfter (.matched r) (liveAt (s.seen.foldl liveStep [])) r.makerId = o.fill r.volume ∧
          o.remaining = old.remaining := by
      intro old hold
      obtain ⟨o, ho, hremaining⟩ := (h.stored hold).live
      refine ⟨o, (update_self ..).trans ?_, hremaining⟩
      rw [ho, Option.bind_some]
    rcases processMatch_cases h.sides.index hnodup h.sides.orders hok with
      ⟨hzero, rfl⟩ | ⟨old, hold, -, hmove⟩
    · refine h.stored_update hseen rfl (update_eq_self ..).symm (fun old hold => ?_) hstate
      obtain ⟨o, ho, hremaining⟩ := hlive hold
      have hzero : o.remaining = 0 := hremaining.trans (hzero old hold)
      have hleft : o.remaining - min r.volume o.remaining = old.remaining := by omega
      exact (h.stored hold).left hseen rfl (ho.trans (fill_remaining (.inl hzero))) hleft
    · refine h.stored_update hseen rfl hmove.changes.orders (fun state hsome => ?_) hstate
      obtain ⟨o, ho, hremaining⟩ := hlive hold
      unfold matchedState at hsome
      split at hsome
      · cases hsome
      · next hpost =>
        cases hsome
        rw [← hremaining] at hpost
        exact (h.stored hold).left hseen rfl (ho.trans (fill_remaining (.inr hpost)))
          (by rw [hremaining])
  | activate r =>
    rw [processActivate_eq h.sides.orders hok] at hstate
    exact (h.stored hstate).other hseen nofun
  | other =>
    cases hok
    exact (h.stored hstate).other hseen nofun

theorem FeedInv.process (h : FeedInv subs s) (hnodup : subs.Nodup)
    (hreads : ReadsOrder s.run.worker.dealable) (hfits : s.run.worker.Fits rec)
    (hfresh : FreshInserts [] (s.seen ++ [rec]))
    (hunread : VolumeUnread s.run.worker.dealable (s.seen ++ [rec])) :
    FeedInv subs ⟨{ s.run with worker := (omMarketWorkerProcess s.run.worker rec).2 },
      s.seen ++ [rec]⟩ := by
  have hok := h.process_ok hnodup hfits
  exact ⟨h.sides.process hnodup hok (h.readsAlike hreads hfresh hunread),
    h.stored_process hnodup hfits hfresh (Prod.ext hok rfl)⟩

theorem FeedInv.clear (h : FeedInv subs s) {orgId productId : Nat} {side : UInt16} {run : DeltaRun}
    (hs : deltaStep s.run (.clear orgId productId side) = some run) : FeedInv subs ⟨run, s.seen⟩ := by
  refine ⟨h.sides.clear hs, fun {id state} hstate => h.stored ?_⟩
  rwa [deltaStep_clear hs] at hstate

end Steps

/-- What holds of a worker as long as the records it has seen are fit for it. -/
def Fed (subs : List OmMarketSubscription) (dealable : OmMarketDealableFn) (s : FeedRun) : Prop :=
  s.run.worker.dealable = dealable ∧
    (FreshInserts [] s.seen → VolumeUnread dealable s.seen → FeedInv subs s)

section Runs

variable {subs : List OmMarketSubscription} {dealable : OmMarketDealableFn} {s s' : FeedRun}

theorem VolumeUnread.before {seen recs : List OmWalRecord}
    (h : VolumeUnread dealable (seen ++ recs)) : VolumeUnread dealable seen :=
  fun rec hrec => h rec (List.mem_append_left _ hrec)

theorem Fed.step (hnodup : subs.Nodup) (hreads : ReadsOrder dealable) {a : DeltaAction}
    (h : Fed subs dealable s) (hok : feedOk s a) (hs : feedStep s a = some s') :
    Fed subs dealable s' := by
  obtain ⟨hdealable, hinv⟩ := h
  cases a with
  | process rec =>
    cases hs
    refine ⟨?_, fun hfresh hunread => ?_⟩
    · exact (congrArg OmMarketWorker.dealable (process_sameTables s.run.worker rec)).trans hdealable
    · have hbefore := hinv (freshInserts_append.mp hfresh).1 hunread.before
      exact hbefore.process hnodup (hdealable ▸ hreads) hok hfresh (hdealable ▸ hunread)
  | clear orgId productId side =>
    obtain ⟨run, hrun, rfl⟩ := Option.map_eq_some_iff.mp hs
    refine ⟨?_, fun hfresh hunread => (hinv hfresh hunread).clear hrun⟩
    exact (congrArg OmMarketWorker.dealable (deltaStep_clear hrun)).trans hdealable

theorem feedInv_init {maxProducts slabCapacity : Nat} {worker : OmMarketWorker}
    (hrange : SubsInRange maxProducts subs) (hnodup : subs.Nodup)
    (hinit : omMarketWorkerInit maxProducts subs slabCapacity dealable = some worker) :
    FeedInv subs ⟨⟨worker, fun _ _ _ => 0⟩, []⟩ := by
  refine ⟨(sidesInv_init hrange hnodup hinit).1, ?_⟩
  cases (Option.ite_none_left_eq_some.mp hinit).2
  exact nofun

end Runs

end VeloxMatch
