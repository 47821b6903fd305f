import VeloxMatch.PrivateLadder
import VeloxMatch.MarketExact

namespace VeloxMatch

open OmMarketWorker

structure PrivateRun where
  worker : OmMarketWorker
  live : List LiveOrder

variable (s : PrivateRun)

def privateRunStep : DeltaAction → Option PrivateRun
  | .process rec => some ⟨(omMarketWorkerProcess s.worker rec).2, liveStep s.live rec⟩
  | .clear orgId productId side =>
    (omMarketWorkerClearDeltas s.worker orgId productId side).map fun out => ⟨out.2, s.live⟩

def privateRunOk : DeltaAction → Prop
  | .process rec => (omMarketWorkerProcess s.worker rec).1 = .ok ∧ StreamOk s.live rec
  | .clear _ _ _ => True

instance : (a : DeltaAction) → Decidable (privateRunOk s a)
  | .process _ => inferInstanceAs (Decidable (_ ∧ _))
  | .clear .. => instDecidableTrue

def privateRunFits : DeltaAction → Prop
  | .process rec => s.worker.SlabFits rec
  | .clear _ _ _ => True

instance : (a : DeltaAction) → Decidable (privateRunFits s a)
  | .process _ => inferInstanceAs (Decidable (InsertFits ..))
  | .clear _ _ _ => inferInstanceAs (Decidable True)

section Run

variable {subs : List OmMarketSubscription} {worker worker' : OmMarketWorker}
  {live : List LiveOrder}

theorem PrivateInv.sameButDeltas (h : PrivateInv subs worker live)
    (hsame : SameButDeltas worker worker') : PrivateInv subs worker' live := by
  have hindex := h.index.of_sameTables hsame.sameTables
  rw [hsame] at hindex ⊢
  exact ⟨hindex, ⟨h.orders.listed, h.orders.stored⟩, h.view, h.volumes, h.ids, h.ladders, h.capacity,
    h.bounded⟩

theorem PrivateInv.step {s s' : PrivateRun} {a : DeltaAction} (h : PrivateInv subs s.worker s.live)
    (hnodup : subs.Nodup) (hok : privateRunOk s a) (hfits : privateRunFits s a)
    (hs : privateRunStep s a = some s') : PrivateInv subs s'.worker s'.live := by
  cases a with
  | process rec =>
    cases hs
    exact h.process hnodup (Prod.ext hok.1 rfl) hok.2 hfits
  | clear orgId productId side =>
    obtain ⟨out, hclear, rfl⟩ := Option.map_eq_some_iff.mp hs
    exact h.sameButDeltas (clearDeltas_same hclear)

end Run

section Qty

variable {subs : List OmMarketSubscription} {worker : OmMarketWorker} {live : List LiveOrder}
  {orgId productId ladder price : Nat} {side : UInt16}

theorem getQty_scratch (hfind : omMarketWorkerFindLadder worker orgId productId = some ladder) :
    omMarketWorkerGetQty worker orgId productId side price =
      if scratchQty worker orgId productId side price = 0 then .error .notFound
      else .ok (scratchQty worker orgId productId side price) := by
  unfold omMarketWorkerGetQty scratchQty
  simp only [hfind]
  refine congrArg (fun n => if n % 2 ^ 64 = 0 then Except.error OmError.notFound
    else .ok (n % 2 ^ 64)) (Finset.sum_congr rfl fun id _ => ?_)
  cases worker.globalOrders id with
  | none => rfl
  | some state =>
    dsimp only
    by_cases hside : (!state.active || state.side != side) = true
    · rw [if_pos hside, if_pos (by rw [hside, Bool.true_or])]
    · rw [if_neg hside]
      by_cases hprice : state.price = price
      · rw [if_pos hprice, if_neg (by simpa [hprice] using hside)]
      · rw [if_neg hprice, if_pos (by simp [hprice])]

theorem PrivateInv.live_of_stored (h : PrivateInv subs worker live) {id : Nat}
    {state : OmMarketOrderState} (hstate : worker.globalOrders id = some state) :
    liveAt live id = some (state.toLive id) ∧ worker.productHasSubs state.productId = true := by
  rcases h.cases id with ⟨state', hstate', -, hlive⟩ | ⟨hnone, -⟩
  · cases hstate.symm.trans hstate'
    exact hlive
  · cases hstate.symm.trans hnone

theorem PrivateInv.visible (h : PrivateInv subs worker live)
    (hpos : 0 < scratchQty worker orgId productId side price) :
    servedTotal worker.productHasSubs live productId (sideIsBid side) price ≠ 0 := by
  have hne : scratchQty worker orgId productId side price ≠ 0 := by omega
  unfold scratchQty at hne
  obtain ⟨id, hid, hterm⟩ := Finset.exists_ne_zero_of_sum_ne_zero fun hsum =>
    hne ((congrArg (· % 2 ^ 64) hsum).trans (Nat.zero_mod _))
  obtain ⟨state, hstate, hp⟩ := h.orders.listed hid
  obtain ⟨-, hactive, -, hside⟩ := h.orders.stored hstate
  simp only [hstate] at hterm
  split at hterm
  · exact absurd rfl hterm
  next hhere =>
  split at hterm
  · next hprice =>
    have hsame : state.side = side := by simpa [hactive] using hhere
    have hrest : state.remaining ≠ 0 := by
      intro hzero
      refine hterm ?_
      rw [omMarketComputeOrgQty, hzero, qtyFromDq_zero]
    obtain ⟨hat, hserved⟩ := h.live_of_stored hstate
    have hbid : sideIsBid side = state.isBid := by
      rw [← hsame]
      rfl
    have htotal := liveTotal_leave (p := productId) (b := sideIsBid side) (x := price) h.ids id
    rw [hat, Option.elim_some, hbid, ← hp, ← hprice] at htotal
    rw [← hp, ← hprice, hbid, servedTotal_of_served hserved, htotal]
    change _ + atPlace state.productId state.price state.isBid state.remaining _ _ _ ≠ 0
    rw [atPlace_self]
    omega
  · exact absurd rfl hterm

end Qty

def seenAndGone : List DeltaAction :=
  [.process (bidRecord 1 0), .process (.insert ⟨2, 101, 7, 7, 2, 0, 0, 0, 0, 0, [], []⟩),
    .process (.cancel ⟨1, 0, 0, 0⟩)]

section Wrap

def blindFn : OmMarketDealableFn := fun _ _ => 0

theorem fanOut_blind (price : Nat) (isBid : Bool) (rec : OmWalInsert) (idxs : List Nat)
    (worker : OmMarketWorker) :
    fanOut price isBid (insertChange blindFn rec) idxs worker = (.ok, worker) := by
  induction idxs with
  | nil => rfl
  | cons idx idxs ih =>
    rw [fanOut]
    cases worker.productLadderIndices idx <;> exact ih

variable {out : OmMarketLevelSlab × OmMarketLadder}

theorem processInsert_blind {worker : OmMarketWorker} {rec : OmWalInsert}
    (hdealable : worker.dealable = blindFn) (hprice : rec.price ≤ int64Max)
    (hvolume : rec.volRemain ≤ int64Max) (hsubs : worker.productHasSubs rec.productId = true)
    (hadd : omLadderAddQty worker.productSlab (worker.productLadders rec.productId) rec.price
      rec.volRemain (omIsBid rec.flags) = (.ok, out)) :
    worker.processInsert rec = (.ok, (worker.setLadder rec.productId out).addOrder rec) := by
  unfold OmMarketWorker.processInsert
  rw [if_neg (by omega), hsubs, Bool.not_true, if_neg Bool.false_ne_true, hadd, hdealable]
  exact fanOut_blind ..

/-- A private worker whose viewers may deal in nothing, after the bids at the prices below `n`. -/
structure PrivateFill (n : Nat) (s : PrivateRun) : Prop where
  stream : FillStream n s.live
  hasSubs : s.worker.productHasSubs 0 = true
  dealable : s.worker.dealable = blindFn

theorem PrivateFill.insert {n : Nat} {s : PrivateRun} (h : PrivateFill n s) (hn : n < 2 ^ 32)
    (hadd : omLadderAddQty s.worker.productSlab (s.worker.productLadders 0) n 1 true = (.ok, out)) :
    ∃ s', privateRunOk s (.process (.insert (fillRecord n))) ∧
      privateRunStep s (.process (.insert (fillRecord n))) = some s' ∧ PrivateFill (n + 1) s' ∧
      s'.worker.productSlab = out.1 ∧ s'.worker.productLadders 0 = out.2 := by
  obtain ⟨hstream, hnext⟩ := h.stream.insert
  have hinsert : omMarketWorkerProcess s.worker (.insert (fillRecord n)) =
      (.ok, (s.worker.setLadder 0 out).addOrder (fillRecord n)) :=
    processInsert_blind h.dealable (show n ≤ int64Max from hn.le.trans (by decide))
      (show 1 ≤ int64Max by decide) h.hasSubs (fillRecord_isBid n ▸ hadd)
  refine ⟨_, ⟨congrArg Prod.fst hinsert, hstream⟩, rfl, ?_⟩
  rw [hinsert]
  refine ⟨⟨hnext, h.hasSubs, h.dealable⟩, rfl, ?_⟩
  exact Function.update_self 0 out.2 s.worker.productLadders

end Wrap

end VeloxMatch
