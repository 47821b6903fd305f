import VeloxMatch.MarketIndex

namespace VeloxMatch

open OmMarketWorker Function List

/-- What happens to the side of a ladder whose viewer's quantity changes by `change`. -/
def SideChanges (price : Nat) (change : Option Int) (side side' : DeltaSide) : Prop :=
  match change with
  | none => side' = side
  | some d => omMarketDeltaAdd side price d d true = (.ok, side')

def SameButDeltas (worker worker' : OmMarketWorker) : Prop :=
  worker' = { worker with ladderDeltas := worker'.ladderDeltas, dirty := worker'.dirty }

section FanOut

variable {worker worker' worker'' : OmMarketWorker} {price ladder : Nat} {isBid : Bool}
  {change : Nat → Option Int} {d : Int} {err : OmError} {idxs : List Nat}

theorem SameButDeltas.trans (h : SameButDeltas worker worker')
    (h' : SameButDeltas worker' worker'') : SameButDeltas worker worker'' := by
  unfold SameButDeltas at h h' ⊢
  rw [h', h]

theorem recordChange_ok (h : worker.recordChange price isBid ladder d = (.ok, worker')) :
    SameButDeltas worker worker' ∧
      ∃ side, omMarketDeltaAdd (worker.ladderDeltas ladder isBid) price d d true = (.ok, side) ∧
        worker'.ladderDeltas = update worker.ladderDeltas ladder
          (update (worker.ladderDeltas ladder) isBid side) := by
  unfold recordChange at h
  split at h
  · split at h
    · next side hside =>
      cases h
      exact ⟨rfl, side, hside, rfl⟩
    · next hne _ =>
      obtain ⟨herr, -⟩ := Prod.mk.inj h
      exact absurd herr hne
  · cases h

theorem recordChange_same
    (h : worker.recordChange price isBid ladder d = (err, worker')) : SameButDeltas worker worker' := by
  unfold recordChange at h
  split at h
  · split at h <;> cases h <;> rfl
  · cases h
    rfl

theorem fanOut_same
    (h : fanOut price isBid change idxs worker = (err, worker')) : SameButDeltas worker worker' := by
  induction idxs generalizing worker with
  | nil =>
    cases h
    rfl
  | cons idx idxs ih =>
    unfold fanOut at h
    split at h
    · split at h
      · next hmid => exact (recordChange_same hmid).trans (ih h)
      · next hmid =>
        cases h
        exact recordChange_same hmid
    · exact ih h

theorem fanOut_ok (hsome : ∀ idx ∈ idxs, ∃ l, worker.productLadderIndices idx = some l)
    (hnodup : (idxs.map worker.productLadderIndices).Nodup)
    (h : fanOut price isBid change idxs worker = (.ok, worker')) :
    SameButDeltas worker worker' ∧
      (∀ idx ∈ idxs, ∀ l, worker.productLadderIndices idx = some l →
        SideChanges price (change (worker.productOrgs idx)) (worker.ladderDeltas l isBid)
          (worker'.ladderDeltas l isBid)) ∧
      (∀ l, some l ∉ idxs.map worker.productLadderIndices →
        worker'.ladderDeltas l = worker.ladderDeltas l) ∧
      ∀ l, worker'.ladderDeltas l (!isBid) = worker.ladderDeltas l (!isBid) := by
  induction idxs generalizing worker with
  | nil =>
    cases h
    exact ⟨rfl, nofun, fun _ _ => rfl, fun _ => rfl⟩
  | cons idx idxs ih =>
    obtain ⟨l, hl⟩ := hsome idx mem_cons_self
    obtain ⟨hfresh, hnodup⟩ := nodup_cons.mp hnodup
    have hsome := fun i hi => hsome i (mem_cons_of_mem _ hi)
    have hother : ∀ i ∈ idxs, ∀ k, worker.productLadderIndices i = some k → k ≠ l := by
      rintro i hi k hk rfl
      exact hfresh (mem_map.mpr ⟨i, hi, hk.trans hl.symm⟩)
    unfold fanOut at h
    cases hd : change (worker.productOrgs idx) with
    | none =>
      simp only [hl, hd] at h
      obtain ⟨hsame, hlisted, hrest, hside⟩ := ih hsome hnodup h
      refine ⟨hsame, fun i hi k hk => ?_, fun k hk => hrest k fun hmem => hk ?_, hside⟩
      · rcases mem_cons.mp hi with rfl | hi
        · cases hl.symm.trans hk
          rw [hd]
          exact congrFun (hrest l (hl ▸ hfresh)) isBid
        · exact hlisted i hi k hk
      · exact mem_cons_of_mem _ hmem
    | some d =>
      simp only [hl, hd] at h
      split at h
      · next mid hmid =>
        obtain ⟨hsame, side, hadd, hdeltas⟩ := recordChange_ok hmid
        have hindices : mid.productLadderIndices = worker.productLadderIndices := by rw [hsame]
        have horgs : mid.productOrgs = worker.productOrgs := by rw [hsame]
        have hkeep : ∀ k, k ≠ l → mid.ladderDeltas k = worker.ladderDeltas k := fun k hk => by
          rw [hdeltas, update_of_ne hk]
        rw [← hindices] at hsome hnodup
        obtain ⟨hsame', hlisted, hrest, hside⟩ := ih hsome hnodup h
        rw [hindices] at hlisted hrest
        rw [horgs] at hlisted
        refine ⟨hsame.trans hsame', fun i hi k hk => ?_, fun k hk => ?_, fun k => ?_⟩
        · rcases mem_cons.mp hi with rfl | hi
          · cases hl.symm.trans hk
            rw [hd, hrest l (hl ▸ hfresh), hdeltas, update_self, update_self]
            exact hadd
          · rw [← hkeep k (hother i hi k hk)]
            exact hlisted i hi k hk
        · have hne : k ≠ l := fun he => hk (by simp [he, hl])
          rw [hrest k fun hmem => hk (mem_cons_of_mem _ hmem), hkeep k hne]
        · rw [hside, hdeltas]
          rcases eq_or_ne k l with rfl | hne
          · rw [update_self, update_of_ne (by simp)]
          · rw [update_of_ne hne]
      · next hne _ =>
        obtain ⟨herr, -⟩ := Prod.mk.inj h
        exact absurd herr hne

end FanOut

section Viewers

variable {worker worker' : OmMarketWorker} {subs : List OmMarketSubscription} {price p : Nat}
  {isBid : Bool} {change : Nat → Option Int} (h : SubsIndex worker subs)
include h

theorem SubsIndex.viewer (hp : p < worker.maxProducts) {idx : Nat}
    (hidx : idx ∈ worker.fanOutRange p) :
    ∃ l, worker.productLadderIndices idx = some l ∧
      subs[l]? = some ⟨worker.productOrgs idx, p⟩ := by
  have hmem : worker.productOrgs idx ∈ (worker.fanOutRange p).map worker.productOrgs :=
    mem_map_of_mem hidx
  rw [h.viewers p hp] at hmem
  obtain ⟨⟨o, p'⟩, hsub, ho⟩ := mem_map.mp hmem
  obtain ⟨hsub, hp'⟩ := mem_filter.mp hsub
  obtain ⟨l, hl⟩ := mem_iff_getElem?.mp hsub
  simp only [decide_eq_true_eq] at ho hp'
  subst ho hp'
  refine ⟨l, ?_, hl⟩
  rw [h.indices _ hp idx hidx]
  exact h.ladder hl

theorem SubsIndex.viewer_of_sub (hp : p < worker.maxProducts)
    {l o : Nat} (hl : subs[l]? = some ⟨o, p⟩) :
    ∃ idx ∈ worker.fanOutRange p, worker.productOrgs idx = o ∧
      worker.productLadderIndices idx = some l := by
  have hmem : o ∈ (subs.filter (·.productId = p)).map (·.orgId) :=
    mem_map.mpr ⟨⟨o, p⟩, mem_filter.mpr ⟨mem_of_getElem? hl, by simp⟩, rfl⟩
  rw [← h.viewers p hp] at hmem
  obtain ⟨idx, hidx, rfl⟩ := mem_map.mp hmem
  refine ⟨idx, hidx, rfl, ?_⟩
  rw [h.indices p hp idx hidx]
  exact h.ladder hl

theorem SubsIndex.nodup_ladders (hnodup : subs.Nodup) (hp : p < worker.maxProducts) :
    ((worker.fanOutRange p).map worker.productLadderIndices).Nodup := by
  have horgs : ((worker.fanOutRange p).map worker.productOrgs).Nodup := by
    rw [h.viewers p hp]
    refine (hnodup.filter _).map_on fun sub hsub sub' hsub' ho => ?_
    have hproduct := (mem_filter.mp hsub).2
    have hproduct' := (mem_filter.mp hsub').2
    simp only [decide_eq_true_eq] at hproduct hproduct'
    cases sub
    cases sub'
    simp_all
  refine List.Nodup.map_on (fun i hi j hj hij => ?_) nodup_range'
  obtain ⟨l, hl, hsub⟩ := h.viewer hp hi
  obtain ⟨l', hl', hsub'⟩ := h.viewer hp hj
  cases hl.symm.trans (hij.trans hl')
  have ho := congrArg OmMarketSubscription.orgId (Option.some.inj (hsub.symm.trans hsub'))
  exact inj_on_of_nodup_map horgs hi hj ho

theorem SubsIndex.fanOut_ok (hnodup : subs.Nodup) (hp : p < worker.maxProducts)
    (hok : fanOut price isBid change (worker.fanOutRange p) worker = (.ok, worker')) :
    SameButDeltas worker worker' ∧ ∀ l o p' b, subs[l]? = some ⟨o, p'⟩ →
      SideChanges price (if p' = p ∧ b = isBid then change o else none)
        (worker.ladderDeltas l b) (worker'.ladderDeltas l b) := by
  have hsome : ∀ idx ∈ worker.fanOutRange p, ∃ l, worker.productLadderIndices idx = some l :=
    fun idx hidx => (h.viewer hp hidx).imp fun _ hl => hl.1
  obtain ⟨hsame, hlisted, hrest, hside⟩ :=
    VeloxMatch.fanOut_ok hsome (h.nodup_ladders hnodup hp) hok
  refine ⟨hsame, fun l o p' b hl => ?_⟩
  by_cases hhere : p' = p ∧ b = isBid
  · obtain ⟨rfl, rfl⟩ := hhere
    obtain ⟨idx, hidx, rfl, hindex⟩ := h.viewer_of_sub hp hl
    rw [if_pos ⟨rfl, rfl⟩]
    exact hlisted idx hidx l hindex
  · rw [if_neg hhere]
    by_cases hb : b = isBid
    · have hother : some l ∉ (worker.fanOutRange p).map worker.productLadderIndices := by
        intro hmem
        obtain ⟨idx, hidx, hindex⟩ := mem_map.mp hmem
        obtain ⟨l', hl', hsub⟩ := h.viewer hp hidx
        cases hl'.symm.trans hindex
        exact hhere ⟨congrArg OmMarketSubscription.productId
          (Option.some.inj (hl.symm.trans hsub)), hb⟩
      exact congrFun (hrest l hother) b
    · rw [Bool.eq_not_of_ne hb]
      exact hside l

end Viewers

def omSide (isBid : Bool) : UInt16 := if isBid then omSideBid else omSideAsk

@[simp] theorem sideIsBid_omSide (isBid : Bool) : sideIsBid (omSide isBid) = isBid := by
  cases isBid <;> rfl

theorem omSide_omIsBid (flags : UInt16) : omSide (omIsBid flags) = omGetSide flags := by
  have hcases : ∀ side : UInt16, side ∈ [omSideBid, omSideAsk] →
      omSide (side == omSideBid) = side := by
    intro side hside
    rcases List.mem_pair.mp hside with rfl | rfl <;> rfl
  refine hcases _ ?_
  have hle : (flags &&& omSideMask).toNat ≤ 1 := by
    rw [UInt16.toNat_and]
    exact Nat.and_le_right
  rcases Nat.le_one_iff_eq_zero_or_eq_one.mp hle with h | h
  · exact List.mem_cons.mpr (.inl (UInt16.toNat_inj.mp h))
  · exact List.mem_cons_of_mem _ (List.mem_singleton.mpr (UInt16.toNat_inj.mp h))

def stateQty (dealable : OmMarketDealableFn) (org productId : Nat) (side : UInt16) (price orderId : Nat) :
    Option OmMarketOrderState → Nat
  | none => 0
  | some state =>
    if state.productId = productId ∧ state.side = side ∧ state.price = price then
      omMarketComputeOrgQty dealable state orderId org
    else 0

def viewerQty (worker : OmMarketWorker) (org productId : Nat) (side : UInt16) (price : Nat) : Nat :=
  ∑ orderId ∈ worker.productOrderSets productId,
    stateQty worker.dealable org productId side price orderId (worker.globalOrders orderId)

structure OrdersOk (worker : OmMarketWorker) : Prop where
  listed : ∀ {p id}, id ∈ worker.productOrderSets p →
    ∃ state, worker.globalOrders id = some state ∧ state.productId = p
  stored : ∀ {id state}, worker.globalOrders id = some state →
    id ∈ worker.productOrderSets state.productId ∧ state.active = true ∧
      state.productId < worker.maxProducts ∧ omSide state.isBid = state.side

def reportedQty (worker : OmMarketWorker) (org productId : Nat) (side : UInt16) (price : Nat) : Nat :=
  match omMarketWorkerGetQty worker org productId side price with
  | .ok qty => qty
  | .error _ => 0

section Sum

variable {worker worker' : OmMarketWorker} {org p price id ladder : Nat} {side : UInt16}

theorem getQty_eq (h : OrdersOk worker)
    (hfind : omMarketWorkerFindLadder worker org p = some ladder) :
    omMarketWorkerGetQty worker org p side price =
      if viewerQty worker org p side price % 2 ^ 64 = 0 then .error .notFound
      else .ok (viewerQty worker org p side price % 2 ^ 64) := by
  have hcongr : ∀ a b : Nat, a = b →
      (if a % 2 ^ 64 = 0 then Except.error OmError.notFound else .ok (a % 2 ^ 64)) =
        if b % 2 ^ 64 = 0 then Except.error OmError.notFound else .ok (b % 2 ^ 64) := by
    rintro a _ rfl
    rfl
  unfold omMarketWorkerGetQty
  rw [hfind]
  refine hcongr _ _ (Finset.sum_congr rfl fun id hid => ?_)
  obtain ⟨state, hstate, hp⟩ := h.listed hid
  obtain ⟨-, hactive, -⟩ := h.stored hstate
  simp only [hstate, stateQty, hactive, hp]
  by_cases hs : state.side = side <;> by_cases hx : state.price = price <;> simp [hs, hx]

theorem reportedQty_eq (h : OrdersOk worker)
    (hfind : omMarketWorkerFindLadder worker org p = some ladder)
    (hle : viewerQty worker org p side price ≤ uint64Max) :
    reportedQty worker org p side price = viewerQty worker org p side price := by
  have hmod : viewerQty worker org p side price % 2 ^ 64 = viewerQty worker org p side price :=
    Nat.mod_eq_of_lt (by unfold uint64Max at hle; omega)
  rw [reportedQty, getQty_eq h hfind, hmod]
  by_cases hzero : viewerQty worker org p side price = 0
  · rw [if_pos hzero, hzero]
  · rw [if_neg hzero]

theorem OrdersOk.stateQty_of_notMem (h : OrdersOk worker) (hid : id ∉ worker.productOrderSets p) :
    stateQty worker.dealable org p side price id (worker.globalOrders id) = 0 := by
  cases hstate : worker.globalOrders id with
  | none => rfl
  | some state =>
    refine if_neg fun hplace => hid ?_
    rw [← hplace.1]
    exact (h.stored hstate).1

/-- One order has a new state, and the sets of the products have changed with it. -/
structure ChangesOrder (worker worker' : OmMarketWorker) (id : Nat)
    (state : Option OmMarketOrderState) : Prop where
  orders : worker'.globalOrders = Function.update worker.globalOrders id state
  sets : ∀ p, (worker'.productOrderSets p).erase id = (worker.productOrderSets p).erase id
  dealable : worker'.dealable = worker.dealable

theorem OrdersOk.viewerQty_eq_erase (h : OrdersOk worker) (id : Nat) :
    viewerQty worker org p side price =
      (∑ other ∈ (worker.productOrderSets p).erase id,
        stateQty worker.dealable org p side price other (worker.globalOrders other)) +
      stateQty worker.dealable org p side price id (worker.globalOrders id) := by
  unfold viewerQty
  by_cases hid : id ∈ worker.productOrderSets p
  · exact (Finset.sum_erase_add _ _ hid).symm
  · rw [h.stateQty_of_notMem hid, Finset.erase_eq_of_notMem hid, Nat.add_zero]

theorem ChangesOrder.viewerQty {state : Option OmMarketOrderState}
    (hc : ChangesOrder worker worker' id state) (h : OrdersOk worker) (h' : OrdersOk worker') :
    (viewerQty worker' org p side price : Int) = viewerQty worker org p side price +
      (stateQty worker.dealable org p side price id state -
        stateQty worker.dealable org p side price id (worker.globalOrders id)) := by
  have hrest : ∑ other ∈ (worker.productOrderSets p).erase id,
        stateQty worker.dealable org p side price other (worker'.globalOrders other) =
      ∑ other ∈ (worker.productOrderSets p).erase id,
        stateQty worker.dealable org p side price other (worker.globalOrders other) := by
    refine Finset.sum_congr rfl fun other hother => ?_
    rw [hc.orders, Function.update_of_ne (Finset.ne_of_mem_erase hother)]
  rw [h.viewerQty_eq_erase id, h'.viewerQty_eq_erase id, hc.sets, hc.dealable, hrest, hc.orders,
    Function.update_self]
  push_cast
  omega

end Sum

end VeloxMatch
