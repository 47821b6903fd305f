import VeloxMatch.PublicTotals

namespace VeloxMatch

open OmMarketWorker Function

section Ladders

variable {worker worker' : OmMarketWorker} {state : OmMarketOrderState}

/-- The ladder of a product becomes `out`, and no other changes. -/
def SetsLadder (worker worker' : OmMarketWorker) (p : Nat)
    (out : OmMarketLevelSlab × OmMarketLadder) : Prop :=
  worker'.productSlab = out.1 ∧ worker'.productLadders = update worker.productLadders p out.2

theorem processInsert_ladder {rec : OmWalInsert}
    (hsubs : worker.productHasSubs rec.productId = true)
    (hok : worker.processInsert rec = (.ok, worker')) :
    ∃ out, omLadderAddQty worker.productSlab (worker.productLadders rec.productId) rec.price
        rec.volRemain (omIsBid rec.flags) = (.ok, out) ∧
      SetsLadder worker worker' rec.productId out := by
  unfold processInsert at hok
  split at hok
  · cases hok
  rw [hsubs, Bool.not_true, if_neg Bool.false_ne_true] at hok
  split at hok
  · next out hadd =>
    refine ⟨out, hadd, ?_⟩
    rw [fanOut_same hok]
    exact ⟨rfl, rfl⟩
  · next hne _ =>
    obtain ⟨herr, -⟩ := Prod.mk.inj hok
    exact absurd herr hne

theorem processCancel_ladder {rec : OmWalCancel}
    (hstate : worker.globalOrders rec.orderId = some state) (hactive : state.active = true)
    (hok : worker.processCancel rec = (.ok, worker')) :
    SetsLadder worker worker' state.productId (omLadderSubQty worker.productSlab
      (worker.productLadders state.productId) state.price state.remaining state.isBid) := by
  unfold processCancel at hok
  rw [hstate] at hok
  dsimp only at hok
  rw [hactive, Bool.not_true, if_neg Bool.false_ne_true] at hok
  obtain ⟨mid, hfan, rfl⟩ := thenDo_ok hok
  rw [fanOut_same hfan]
  exact ⟨rfl, rfl⟩

theorem reduceOrder_ladder (worker : OmMarketWorker) (state : OmMarketOrderState) (id post : Nat) :
    (worker.reduceOrder state id post).productSlab = worker.productSlab ∧
      (worker.reduceOrder state id post).productLadders = worker.productLadders := by
  unfold reduceOrder
  split <;> exact ⟨rfl, rfl⟩

theorem processMatch_ladder {rec : OmWalMatch}
    (hstate : worker.globalOrders rec.makerId = some state) (hactive : state.active = true)
    (hne : state.remaining ≠ 0) (hok : worker.processMatch rec = (.ok, worker')) :
    SetsLadder worker worker' state.productId (omLadderSubQty worker.productSlab
      (worker.productLadders state.productId) state.price (min rec.volume state.remaining)
      state.isBid) := by
  unfold processMatch at hok
  split at hok
  · cases hok
  rw [hstate] at hok
  dsimp only at hok
  rw [goes_on hactive hne, if_neg Bool.false_ne_true] at hok
  obtain ⟨mid, hfan, rfl⟩ := thenDo_ok hok
  rw [SetsLadder, (reduceOrder_ladder ..).1, (reduceOrder_ladder ..).2, fanOut_same hfan]
  exact ⟨rfl, rfl⟩

end Ladders

def OmMarketWorker.SlabFits (worker : OmMarketWorker) (rec : OmWalRecord) : Prop :=
  InsertFits worker.productHasSubs worker.productSlab worker.productLadders rec

structure PrivateInv (subs : List OmMarketSubscription) (worker : OmMarketWorker)
    (live : List LiveOrder) : Prop where
  index : SubsIndex worker subs
  orders : OrdersOk worker
  view : ∀ id, (worker.globalOrders id).map (·.toLive id) =
    (liveAt live id).filter fun o => worker.productHasSubs o.productId
  volumes : ∀ {id state}, worker.globalOrders id = some state → state.remaining ≤ state.volRemain
  ids : (live.map (·.orderId)).Nodup
  ladders : LaddersShow worker.productSlab worker.productLadders
    (servedTotal worker.productHasSubs live)
  capacity : worker.productSlab.capacity ≤ 2 ^ 32
  bounded : ∀ {p} b x, worker.productHasSubs p = true → liveTotal live p b x ≤ uint64Max

section Steps

variable {subs : List OmMarketSubscription} {worker worker' : OmMarketWorker}
  {live live' : List LiveOrder} {rec : OmWalInsert}

theorem PrivateInv.cases (h : PrivateInv subs worker live) (id : Nat) :
    (∃ state, worker.globalOrders id = some state ∧ state.active = true ∧
      liveAt live id = some (state.toLive id) ∧ worker.productHasSubs state.productId = true) ∨
    worker.globalOrders id = none ∧
      ∀ o, liveAt live id = some o → worker.productHasSubs o.productId ≠ true := by
  have hview := h.view id
  cases hstate : worker.globalOrders id with
  | some state =>
    rw [hstate, Option.map_some] at hview
    obtain ⟨hat, hserved⟩ := Option.filter_eq_some_iff.mp hview.symm
    exact .inl ⟨state, rfl, (h.orders.stored hstate).2.1, hat, hserved⟩
  | none =>
    rw [hstate, Option.map_none] at hview
    exact .inr ⟨rfl, fun o ho => Option.filter_eq_none_iff.mp hview.symm o ho⟩

theorem PrivateInv.move {p price id : Nat} {isBid : Bool} {change : Nat → Option Int}
    {state' : Option OmMarketOrderState} {out : OmMarketLevelSlab × OmMarketLadder}
    (h : PrivateInv subs worker live)
    (hmove : OrderMove subs worker worker' p price isBid change id state')
    (hids : (live'.map (·.orderId)).Nodup)
    (hlive : liveAt live' = update (liveAt live) id (state'.map (·.toLive id)))
    (hserved : ∀ state, state' = some state →
      worker.productHasSubs state.productId = true ∧ state.remaining ≤ state.volRemain)
    (hsets : SetsLadder worker worker' p out)
    (hshow : LaddersShow out.1 (update worker.productLadders p out.2)
      (servedTotal worker.productHasSubs live')) (hcapacity : out.1.capacity ≤ 2 ^ 32)
    (hbounded : ∀ {p} b x, worker.productHasSubs p = true → liveTotal live' p b x ≤ uint64Max) :
    PrivateInv subs worker' live' := by
  have hsubs : worker'.productHasSubs = worker.productHasSubs := by rw [hmove.tables]
  refine ⟨h.index.of_sameTables hmove.tables, hmove.orders, fun id' => ?_, fun {id' state} hstate => ?_,
    hids, ?_, hsets.1 ▸ hcapacity, fun b x hp => hbounded b x (hsubs ▸ hp)⟩
  · rw [hsubs, hmove.changes.orders, hlive]
    rcases eq_or_ne id' id with rfl | hne
    · rw [update_self, update_self]
      cases state' with
      | none => rfl
      | some state => exact (if_pos (hserved state rfl).1).symm
    · rw [update_of_ne hne, update_of_ne hne]
      exact h.view id'
  · rw [hmove.changes.orders] at hstate
    rcases eq_or_ne id' id with rfl | hne
    · rw [update_self] at hstate
      exact (hserved state hstate).2
    · rw [update_of_ne hne] at hstate
      exact h.volumes hstate
  · rw [hsets.1, hsets.2, hsubs]
    exact hshow

theorem PrivateInv.pass {id : Nat} {o' : Option LiveOrder} (h : PrivateInv subs worker live)
    (hids : (live'.map (·.orderId)).Nodup) (hlive : liveAt live' = update (liveAt live) id o')
    (hview : (worker.globalOrders id).map (·.toLive id) =
      o'.filter fun o => worker.productHasSubs o.productId)
    (htotal : ∀ p b x, worker.productHasSubs p = true →
      liveTotal live' p b x = liveTotal live p b x) : PrivateInv subs worker live' := by
  refine ⟨h.index, h.orders, fun id' => ?_, h.volumes, hids, ?_, h.capacity,
    fun b x hp => htotal _ b x hp ▸ h.bounded b x hp⟩
  · rw [hlive]
    rcases eq_or_ne id' id with rfl | hne
    · rw [update_self]
      exact hview
    · rw [update_of_ne hne]
      exact h.view id'
  · rw [servedTotal_congr htotal]
    exact h.ladders

theorem processInsert_unsubscribed (hsubs : worker.productHasSubs rec.productId = false)
    (hok : worker.processInsert rec = (.ok, worker')) : worker' = worker := by
  unfold processInsert at hok
  split at hok
  · cases hok
  rw [hsubs, Bool.not_false, if_pos rfl] at hok
  cases hok
  rfl

theorem processInsert_range (hok : worker.processInsert rec = (.ok, worker')) :
    rec.volRemain ≤ uint64Max := by
  unfold processInsert at hok
  split at hok
  · cases hok
  next hrange =>
  have hle := Nat.not_lt.mp (not_or.mp hrange).2
  exact hle.trans (by decide)

theorem PrivateInv.insert (h : PrivateInv subs worker live) (hnodup : subs.Nodup)
    (hok : worker.processInsert rec = (.ok, worker')) (hnew : liveAt live rec.orderId = none)
    (hunlocked : Unlocked (liveStep live (.insert rec))) (hfits : worker.SlabFits (.insert rec)) :
    PrivateInv subs worker' (liveStep live (.insert rec)) := by
  have hids : ((liveStep live (.insert rec)).map (·.orderId)).Nodup := liveStep_ids h.ids hnew
  have hlive : liveAt (liveStep live (.insert rec)) =
      update (liveAt live) rec.orderId (some (.ofInsert rec)) := liveAt_cons
  have htotal := liveTotal_insert live rec
  have hnone : worker.globalOrders rec.orderId = none := by
    have hview := h.view rec.orderId
    rw [hnew] at hview
    exact Option.map_eq_none_iff.mp hview
  cases hsubs : worker.productHasSubs rec.productId with
  | false =>
    obtain rfl := processInsert_unsubscribed hsubs hok
    refine h.pass hids hlive ?_ fun p b x hp => ?_
    · rw [hnone]
      exact (if_neg fun hserved => Bool.false_ne_true (hsubs.symm.trans hserved)).symm
    · rw [htotal, atPlace_ne, Nat.add_zero]
      rintro ⟨rfl, -⟩
      cases hsubs.symm.trans hp
  | true =>
    rcases processInsert_cases h.index hnodup h.orders (by simp [hnone]) hok with
      ⟨hnot, -⟩ | hmove
    · cases hsubs.symm.trans hnot
    · obtain ⟨out, hadd, hsets⟩ := processInsert_ladder hsubs hok
      have hcapacity := capacity_omLadderAddQty h.capacity (worker.productLadders rec.productId)
        rec.price rec.volRemain (omIsBid rec.flags)
      rw [hadd] at hcapacity
      have hopposite : rec.volRemain ≠ 0 → servedTotal worker.productHasSubs live rec.productId
          (!omIsBid rec.flags) rec.price = 0 := fun hq => by
        rw [servedTotal_of_served hsubs]
        exact opposite_empty hunlocked hq
      refine h.move hmove hids hlive ?_ hsets
        (h.ladders.add (hfits hsubs) hopposite (servedTotal_add hsubs htotal) hadd) hcapacity
        fun {p} b x hp => ?_
      · rintro state ⟨rfl⟩
        exact ⟨hsubs, Nat.le_refl _⟩
      · rw [htotal]
        by_cases hplace : p = rec.productId ∧ b = omIsBid rec.flags ∧ x = rec.price
        · obtain ⟨rfl, rfl, rfl⟩ := hplace
          rw [atPlace_self, ← servedTotal_of_served hsubs]
          refine h.ladders.add_le hopposite (processInsert_range hok) ?_ hadd
          rw [servedTotal_of_served hsubs]
          exact h.bounded _ _ hsubs
        · rw [atPlace_ne hplace]
          exact h.bounded b x hp

theorem PrivateInv.cancel {rec : OmWalCancel} (h : PrivateInv subs worker live)
    (hnodup : subs.Nodup) (hok : worker.processCancel rec = (.ok, worker')) :
    PrivateInv subs worker' (live.filter (·.orderId ≠ rec.orderId)) := by
  have hids : ((live.filter (·.orderId ≠ rec.orderId)).map (·.orderId)).Nodup :=
    h.ids.sublist (List.filter_sublist.map _)
  have htotal := fun p b x => liveTotal_leave (p := p) (b := b) (x := x) h.ids rec.orderId
  rcases h.cases rec.orderId with ⟨state, hstate, hactive, hat, hserved⟩ | ⟨hnone, hother⟩
  · rcases processCancel_cases h.index hnodup h.orders hok with ⟨hnone, -⟩ | ⟨state', hstate', hmove⟩
    · cases hstate.symm.trans hnone
    cases hstate.symm.trans hstate'
    have hsets := processCancel_ladder hstate hactive hok
    rw [hat] at htotal
    refine h.move hmove hids liveAt_leave nofun hsets ?_
      ((capacity_omLadderSubQty ..).trans_le h.capacity)
      fun b x hp => (Nat.le_of_add_right_le (htotal _ b x).symm.le).trans (h.bounded b x hp)
    exact h.ladders.sub (servedTotal_add hserved htotal)
  · rcases processCancel_cases h.index hnodup h.orders hok with ⟨-, rfl⟩ | ⟨state', hstate', -⟩
    · refine h.pass hids liveAt_leave (by rw [hnone]; rfl) fun p b x hp => ?_
      have hzero := elim_idle (g := id) rfl (fun o ho hs => absurd hs (hother o ho)) hp b x
      exact ((htotal p b x).trans (congrArg (_ + ·) hzero)).symm
    · cases hnone.symm.trans hstate'

theorem PrivateInv.matched {rec : OmWalMatch} (h : PrivateInv subs worker live)
    (hnodup : subs.Nodup) (hok : worker.processMatch rec = (.ok, worker')) :
    PrivateInv subs worker' (fillLive live rec.makerId rec.volume) := by
  have hids := fillLive_ids h.ids rec.makerId rec.volume
  have hlive := liveAt_fill h.ids rec.makerId rec.volume
  have htotal := fun p b x =>
    liveTotal_fill (p := p) (b := b) (x := x) h.ids rec.makerId rec.volume
  rcases h.cases rec.makerId with ⟨state, hstate, hactive, hat, hserved⟩ | ⟨hnone, hother⟩
  · rcases processMatch_cases h.index hnodup h.orders hok with
      ⟨hzero, rfl⟩ | ⟨state', hstate', hne, hmove⟩
    · have hzero := hzero state hstate
      have hkeep : (state.toLive rec.makerId).fill rec.volume = some (state.toLive rec.makerId) := by
        unfold LiveOrder.fill OmMarketOrderState.toLive
        dsimp only
        rw [if_neg fun hfilled => hfilled.1 hzero, hzero, Nat.zero_sub]
      rw [hat, Option.bind_some, hkeep] at hlive
      refine h.pass hids hlive ?_ fun p b x _ => ?_
      · rw [hstate]
        exact (if_pos hserved).symm
      · rw [htotal p b x, hat, Option.elim_some]
        change _ = _ + atPlace _ _ _ (min rec.volume state.remaining) p b x
        rw [hzero, Nat.min_zero, atPlace_zero, Nat.add_zero]
    · cases hstate.symm.trans hstate'
      have hsets := processMatch_ladder hstate hactive hne hok
      rw [hat] at htotal
      rw [hat, Option.bind_some, fill_toLive hne] at hlive
      refine h.move hmove hids hlive ?_ hsets ?_
        ((capacity_omLadderSubQty ..).trans_le h.capacity)
        fun b x hp => (Nat.le_of_add_right_le (htotal _ b x).symm.le).trans (h.bounded b x hp)
      · intro state' hstate'
        unfold matchedState at hstate'
        split at hstate'
        · cases hstate'
        · cases hstate'
          have := h.volumes hstate
          exact ⟨hserved, by dsimp only; omega⟩
      · exact h.ladders.sub (servedTotal_add hserved htotal)
  · rcases processMatch_cases h.index hnodup h.orders hok with ⟨-, rfl⟩ | ⟨state', hstate', -⟩
    · refine h.pass hids hlive ?_ fun p b x hp => ?_
      · rw [hnone]
        refine (Option.filter_eq_none_iff.mpr fun o ho => ?_).symm
        obtain ⟨o', ho', hfill⟩ := Option.bind_eq_some_iff.mp ho
        rw [fill_productId hfill]
        exact hother o' ho'
      · rw [htotal p b x, elim_idle (g := min rec.volume) (Nat.min_zero _)
          (fun o ho hs => absurd hs (hother o ho)) hp, Nat.add_zero]
    · cases hnone.symm.trans hstate'

theorem PrivateInv.process {rec : OmWalRecord} (h : PrivateInv subs worker live)
    (hnodup : subs.Nodup) (hok : omMarketWorkerProcess worker rec = (.ok, worker'))
    (hstream : StreamOk live rec) (hfits : worker.SlabFits rec) :
    PrivateInv subs worker' (liveStep live rec) := by
  cases rec with
  | insert r => exact h.insert hnodup hok hstream.1 hstream.2 hfits
  | cancel r | deactivate r => exact h.cancel hnodup hok
  | matched r => exact h.matched hnodup hok
  | activate r =>
    rw [processActivate_eq h.orders hok]
    exact h
  | other =>
    cases hok
    exact h

theorem privateInv_init {maxProducts slabCapacity : Nat} {dealable : OmMarketDealableFn}
    (hrange : SubsInRange maxProducts subs) (hnodup : subs.Nodup) (hpos : 0 < slabCapacity)
    (hcapacity : slabCapacity < 2 ^ 32)
    (hinit : omMarketWorkerInit maxProducts subs slabCapacity dealable = some worker) :
    PrivateInv subs worker [] := by
  have hindex := omMarketWorkerInit_index hrange hnodup hinit
  cases (Option.ite_none_left_eq_some.mp hinit).2
  refine ⟨hindex, ⟨nofun, nofun⟩, fun _ => rfl, nofun, List.nodup_nil, ?_, hcapacity.le,
    fun _ _ _ => Nat.zero_le _⟩
  rw [servedTotal_nil]
  exact laddersShow_init hpos

end Steps

end VeloxMatch
