import VeloxMatch.PrivateFull

namespace VeloxMatch

open OmMarketWorker

structure PairRun where
  publicWorker : OmMarketPublicWorker
  worker : OmMarketWorker
  live : List LiveOrder

inductive PairAction where
  | process (rec : OmWalRecord)
  | clearPublic (productId : Nat) (side : UInt16)
  | clearPrivate (orgId productId : Nat) (side : UInt16)

def pairStep (s : PairRun) : PairAction → Option PairRun
  | .process rec => some ⟨(omMarketPublicProcess s.publicWorker rec).2,
      (omMarketWorkerProcess s.worker rec).2, liveStep s.live rec⟩
  | .clearPublic productId side =>
    some { s with publicWorker := (omMarketPublicClearDeltas s.publicWorker productId side).2 }
  | .clearPrivate orgId productId side =>
    (omMarketWorkerClearDeltas s.worker orgId productId side).map fun out =>
      { s with worker := out.2 }

def pairOk (s : PairRun) : PairAction → Prop
  | .process rec => (omMarketPublicProcess s.publicWorker rec).1 = .ok ∧
      (omMarketWorkerProcess s.worker rec).1 = .ok ∧ StreamOk s.live rec ∧
      s.publicWorker.SlabFits rec ∧ s.worker.SlabFits rec
  | .clearPublic _ _ | .clearPrivate _ _ _ => True

instance (s : PairRun) : (a : PairAction) → Decidable (pairOk s a)
  | .process _ => inferInstanceAs (Decidable (_ ∧ _ ∧ _ ∧ InsertFits .. ∧ InsertFits ..))
  | .clearPublic _ _ | .clearPrivate _ _ _ => inferInstanceAs (Decidable True)

structure PairInv (subs : List OmMarketSubscription) (s : PairRun) : Prop where
  pub : ∃ base, PublicInv s.publicWorker s.live base
  priv : PrivateInv subs s.worker s.live
  dealable : s.worker.dealable = dealAll
  served : ∀ sub ∈ subs, s.publicWorker.served sub.productId = .ok ()

section Run

variable {subs : List OmMarketSubscription} {s s' : PairRun}

theorem SameProducts.served {worker worker' : OmMarketPublicWorker}
    (h : SameProducts worker worker') (p : Nat) : worker'.served p = worker.served p := by
  rw [OmMarketPublicWorker.served, OmMarketPublicWorker.served, h.1, h.2]

theorem PairInv.step {a : PairAction} (h : PairInv subs s) (hnodup : subs.Nodup)
    (hok : pairOk s a) (hs : pairStep s a = some s') : PairInv subs s' := by
  obtain ⟨base, hpub⟩ := h.pub
  cases a with
  | process rec =>
    cases hs
    obtain ⟨hpublic, hprivate, hstream, hfits, hfits'⟩ := hok
    refine ⟨⟨base, hpub.process (Prod.ext hpublic rfl) hstream hfits⟩,
      h.priv.process hnodup (Prod.ext hprivate rfl) hstream hfits', ?_, fun sub hsub => ?_⟩
    · rw [process_sameTables s.worker rec]
      exact h.dealable
    · rw [(publicProcess_sameProducts s.publicWorker rec).served]
      exact h.served sub hsub
  | clearPublic productId side =>
    cases hs
    cases hserved : s.publicWorker.served productId with
    | ok _ =>
      rw [clearDeltas_served hserved]
      exact ⟨⟨_, hpub.clear productId (sideIsBid side)⟩, h.priv, h.dealable, h.served⟩
    | error err =>
      rw [clearDeltas_refused hserved]
      exact h
  | clearPrivate orgId productId side =>
    obtain ⟨out, hclear, rfl⟩ := Option.map_eq_some_iff.mp hs
    have hsame := clearDeltas_same hclear
    refine ⟨h.pub, h.priv.sameButDeltas hsame, ?_, h.served⟩
    dsimp only
    rw [hsame]
    exact h.dealable

end Run

section Sum

variable {subs : List OmMarketSubscription} {worker : OmMarketWorker} {live : List LiveOrder}

theorem liveAt_of_mem (hids : (live.map (·.orderId)).Nodup) {o : LiveOrder} (ho : o ∈ live) :
    liveAt live o.orderId = some o := by
  cases hat : liveAt live o.orderId with
  | none => exact absurd rfl (liveAt_none hat o ho)
  | some o' =>
    obtain ⟨ho', hid⟩ := liveAt_mem hat
    exact congrArg some (List.inj_on_of_nodup_map hids ho' ho hid)

theorem liveTotal_eq_sum (hids : (live.map (·.orderId)).Nodup) (p : Nat) (b : Bool) (x : Nat) :
    liveTotal live p b x = ∑ id ∈ (live.map (·.orderId)).toFinset,
      (liveAt live id).elim 0 (·.volumeAt p b x) := by
  rw [List.sum_toFinset _ hids, List.map_map, liveTotal]
  refine congrArg List.sum (List.map_congr_left fun o ho => ?_)
  rw [Function.comp_apply, liveAt_of_mem hids ho, Option.elim_some]

theorem computeOrgQty_dealAll {state : OmMarketOrderState} (h : state.remaining ≤ state.volRemain)
    (id org : Nat) : omMarketComputeOrgQty dealAll state id org = state.remaining := by
  unfold omMarketComputeOrgQty qtyFromDq dealAll fakeInsert
  dsimp only
  split
  · omega
  · rw [Nat.min_self]
    omega

theorem PrivateInv.stateQty_dealAll (h : PrivateInv subs worker live) {p : Nat}
    (hsubs : worker.productHasSubs p = true) (org : Nat) (b : Bool) (x id : Nat) :
    stateQty dealAll org p (omSide b) x id (worker.globalOrders id) =
      (liveAt live id).elim 0 (·.volumeAt p b x) := by
  rcases h.cases id with ⟨state, hstate, -, hlive, -⟩ | ⟨hnone, hother⟩
  · rw [hstate, hlive, Option.elim_some, stateQty, computeOrgQty_dealAll (h.volumes hstate)]
    have hside : state.side = omSide b ↔ b = state.isBid := by
      rw [← (h.orders.stored hstate).2.2.2]
      cases b <;> cases state.isBid <;> decide
    refine if_congr ?_ rfl rfl
    rw [hside, eq_comm (a := p), eq_comm (a := x)]
    rfl
  · rw [hnone]
    cases hlive : liveAt live id with
    | none => rfl
    | some o =>
      rw [Option.elim_some]
      refine (if_neg fun hplace => hother o hlive ?_).symm
      rw [← hplace.1]
      exact hsubs

theorem PrivateInv.viewerQty_dealAll (h : PrivateInv subs worker live)
    (hdealable : worker.dealable = dealAll) {p : Nat} (hsubs : worker.productHasSubs p = true)
    (org : Nat) (b : Bool) (x : Nat) :
    viewerQty worker org p (omSide b) x = liveTotal live p b x := by
  rw [viewerQty, hdealable, liveTotal_eq_sum h.ids]
  refine (Finset.sum_congr rfl fun id _ => h.stateQty_dealAll hsubs org b x id).trans
    (Finset.sum_subset (fun id hid => ?_) fun id _ hid => ?_)
  · obtain ⟨state, hstate, -⟩ := h.orders.listed hid
    obtain ⟨ho, hname⟩ := liveAt_mem (h.live_of_stored hstate).1
    exact List.mem_toFinset.mpr (List.mem_map.mpr ⟨_, ho, hname⟩)
  · rw [← h.stateQty_dealAll hsubs org b x id, ← hdealable]
    exact h.orders.stateQty_of_notMem hid

end Sum

section Queries

variable {subs : List OmMarketSubscription} {s : PairRun} {orgId productId : Nat}

theorem PairInv.getQty_public (h : PairInv subs s) (hsub : ⟨orgId, productId⟩ ∈ subs) (b : Bool)
    (side : UInt16) (price : Nat) : omMarketPublicGetQty s.publicWorker productId side price =
      if liveTotal s.live productId b price + liveTotal s.live productId (!b) price = 0 then
        .error .notFound
      else .ok (liveTotal s.live productId b price + liveTotal s.live productId (!b) price) := by
  obtain ⟨base, hpub⟩ := h.pub
  have hserved := h.served _ hsub
  have hsum : liveTotal s.live productId true price + liveTotal s.live productId false price =
      liveTotal s.live productId b price + liveTotal s.live productId (!b) price := by
    cases b
    · exact Nat.add_comm ..
    · rfl
  have hget := hpub.ladders.getQty productId price
  rw [servedTotal_of_served (served_hasSubs hserved), servedTotal_of_served (served_hasSubs hserved),
    hsum] at hget
  rw [omMarketPublicGetQty, hserved, hget]
  by_cases hzero : liveTotal s.live productId b price + liveTotal s.live productId (!b) price = 0
  · rw [if_pos hzero, if_pos hzero]
    rfl
  · rw [if_neg hzero, if_neg hzero]
    rfl

theorem PairInv.getQty_private (h : PairInv subs s) (hsub : ⟨orgId, productId⟩ ∈ subs) (b : Bool)
    (price : Nat) : omMarketWorkerGetQty s.worker orgId productId (omSide b) price =
      if liveTotal s.live productId b price = 0 then .error .notFound
      else .ok (liveTotal s.live productId b price) := by
  obtain ⟨i, hi⟩ := List.mem_iff_getElem?.mp hsub
  have hsubs := h.priv.index.subscribed hi
  have hbound := h.priv.bounded b price hsubs
  rw [getQty_eq h.priv.orders (h.priv.index.ladder hi),
    h.priv.viewerQty_dealAll h.dealable hsubs, Nat.mod_eq_of_lt (by unfold uint64Max at hbound; omega)]

end Queries

/-- The two queries of a subscribed product agree exactly where the other side has no volume: the
public query does not read its side. -/
theorem qty_agree_iff {publicProducts publicCapacity maxProducts slabCapacity : Nat}
    {serves : Nat → Bool} {subs : List OmMarketSubscription} {start : OmMarketWorker} {s : PairRun}
    (hserves : ∀ sub ∈ subs, sub.productId < publicProducts ∧ serves sub.productId = true)
    (hpublic : 0 < publicCapacity) (hrange : SubsInRange maxProducts subs) (hnodup : subs.Nodup)
    (hpos : 0 < slabCapacity) (hcapacity : slabCapacity < 2 ^ 32)
    (hinit : omMarketWorkerInit maxProducts subs slabCapacity dealAll = some start)
    (hrun : Runs pairStep pairOk
      ⟨omMarketPublicWorkerInit publicProducts publicCapacity serves, start, []⟩ s)
    {orgId productId : Nat} (hsub : ⟨orgId, productId⟩ ∈ subs) (isBid : Bool) (price : Nat) :
    omMarketPublicGetQty s.publicWorker productId (omSide isBid) price =
        omMarketWorkerGetQty s.worker orgId productId (omSide isBid) price ↔
      liveTotal s.live productId (!isBid) price = 0 := by
  have hstart : PairInv subs
      ⟨omMarketPublicWorkerInit publicProducts publicCapacity serves, start, []⟩ := by
    refine ⟨⟨_, publicInv_init serves hpublic⟩,
      privateInv_init hrange hnodup hpos hcapacity hinit, ?_, fun sub hsub => ?_⟩
    · cases (Option.ite_none_left_eq_some.mp hinit).2
      rfl
    · obtain ⟨hlt, hserve⟩ := hserves sub hsub
      unfold OmMarketPublicWorker.served omMarketPublicWorkerInit
      rw [if_neg (by dsimp only; omega), if_neg (by simp [hlt, hserve])]
  have h : PairInv subs s :=
    hrun.invariant (P := PairInv subs) hstart fun _ _ _ h hok hs => h.step hnodup hok hs
  rw [h.getQty_public hsub isBid, h.getQty_private hsub]
  constructor
  · intro heq
    split at heq
    · omega
    · split at heq
      · cases heq
      · have := Except.ok.inj heq
        omega
  · intro hother
    rw [hother, Nat.add_zero]

def oneBid : List PairAction := [.process (bidRecord 1 0)]

theorem qty_agree_iff_bid :
    ∃ s, Runs pairStep pairOk ⟨omMarketPublicWorkerInit 2 64 fun _ => true, twoLadders, []⟩ s ∧
      liveTotal s.live 0 true 100 = 5 ∧
      (omMarketPublicGetQty s.publicWorker 0 omSideBid 100 =
          omMarketWorkerGetQty s.worker 1 0 omSideBid 100 ↔
        liveTotal s.live 0 false 100 = 0) := by
  obtain ⟨s, hrun, htotal⟩ := exists_runs pairStep pairOk
    ⟨omMarketPublicWorkerInit 2 64 fun _ => true, twoLadders, []⟩ oneBid
    (fun s => liveTotal s.live 0 true 100 = 5) (by decide +kernel) (by decide +kernel)
  have hinit : omMarketWorkerInit 2 twoSubs 64 dealAll = some twoLadders := rfl
  exact ⟨s, hrun, htotal, qty_agree_iff (by decide) (by decide) (by decide) (by decide) (by decide)
    (by decide) hinit hrun (List.mem_cons_self ..) true 100⟩

/-- The asks at the price of the only bid: the public query finds the bid, the private one
nothing. -/
theorem qty_disagree_ask :
    ∃ s, Runs pairStep pairOk ⟨omMarketPublicWorkerInit 2 64 fun _ => true, twoLadders, []⟩ s ∧
      omMarketPublicGetQty s.publicWorker 0 omSideAsk 100 = .ok 5 ∧
      omMarketWorkerGetQty s.worker 1 0 omSideAsk 100 = .error .notFound :=
  exists_runs pairStep pairOk ⟨omMarketPublicWorkerInit 2 64 fun _ => true, twoLadders, []⟩ oneBid
    (fun s => omMarketPublicGetQty s.publicWorker 0 omSideAsk 100 = .ok 5 ∧
      omMarketWorkerGetQty s.worker 1 0 omSideAsk 100 = .error .notFound)
    (by decide +kernel) (by decide +kernel)

end VeloxMatch
