import VeloxMatch.MarketDirty
import VeloxMatch.MarketMoves

namespace VeloxMatch

open OmMarketWorker Function

/-- The callback looks at nothing else of a record. -/
def DealablePure (dealable : OmMarketDealableFn) : Prop :=
  ∀ (rec rec' : OmWalInsert) (viewer : Nat), rec.orderId = rec'.orderId → rec.price = rec'.price →
    rec.volRemain = rec'.volRemain → rec.org = rec'.org → rec.flags = rec'.flags →
    rec.productId = rec'.productId → dealable rec viewer = dealable rec' viewer

/-- A new order, which the callback sees alike in its record and in the one made up from its
state. -/
def ReadsAlike (worker : OmMarketWorker) : OmWalRecord → Prop
  | .insert rec => worker.globalOrders rec.orderId = none ∧
      ∀ viewer, worker.dealable (fakeInsert (insertState rec) rec.orderId) viewer =
        worker.dealable rec viewer
  | _ => True

/-- The quantities of the viewers and the ladders change together, each ladder's side at one
price at most. -/
structure Moves (subs : List OmMarketSubscription) (worker worker' : OmMarketWorker) : Prop where
  tables : SameTables worker worker'
  orders : OrdersOk worker'
  changes : ∀ {l o p : Nat} (b : Bool), subs[l]? = some ⟨o, p⟩ → ∃ price change,
    SideChanges price change (worker.ladderDeltas l b) (worker'.ladderDeltas l b) ∧
    ∀ x, (viewerQty worker' o p (omSide b) x : Int) =
      viewerQty worker o p (omSide b) x + if x = price then change.getD 0 else 0

section Moves

variable {worker worker' : OmMarketWorker} {subs : List OmMarketSubscription}
  {price p id : Nat} {isBid : Bool} {change : Nat → Option Int}
  {state : OmMarketOrderState} {state' : Option OmMarketOrderState}

theorem Moves.refl (h : OrdersOk worker) : Moves subs worker worker where
  tables := rfl
  orders := h
  changes _ _ := ⟨0, none, rfl, fun x => by simp⟩

theorem stateQty_of_elsewhere {dealable : OmMarketDealableFn} {o p' x : Nat} {b : Bool}
    (hstate : ∀ s ∈ state', s.productId = p ∧ s.side = omSide isBid ∧ s.price = price)
    (hne : ¬(p' = p ∧ b = isBid ∧ x = price)) :
    stateQty dealable o p' (omSide b) x id state' = 0 := by
  cases state' with
  | none => rfl
  | some s =>
    obtain ⟨hp, hs, hx⟩ := hstate s rfl
    refine if_neg fun ⟨hp', hs', hx'⟩ => hne ⟨hp'.symm.trans hp, ?_, hx'.symm.trans hx⟩
    have hb := congrArg sideIsBid (hs'.symm.trans hs)
    rwa [sideIsBid_omSide, sideIsBid_omSide] at hb

theorem OrderMove.moves (h : OrderMove subs worker worker' p price isBid change id state')
    (horders : OrdersOk worker)
    (hold : ∀ s ∈ worker.globalOrders id, s.productId = p ∧ s.side = omSide isBid ∧ s.price = price)
    (hnew : ∀ s ∈ state', s.productId = p ∧ s.side = omSide isBid ∧ s.price = price)
    (hchange : ∀ o, (change o).getD 0 =
      (stateQty worker.dealable o p (omSide isBid) price id state' : Int) -
        stateQty worker.dealable o p (omSide isBid) price id (worker.globalOrders id)) :
    Moves subs worker worker' := by
  refine ⟨h.tables, h.orders, fun {l o p'} b hl => ⟨price, _, h.sides b hl, fun x => ?_⟩⟩
  rw [h.changes.viewerQty horders h.orders]
  by_cases hhere : p' = p ∧ b = isBid
  · simp only [if_pos hhere]
    obtain ⟨rfl, rfl⟩ := hhere
    by_cases hx : x = price
    · rw [if_pos hx, hx, hchange]
    · have hne : ¬(p' = p' ∧ b = b ∧ x = price) := fun h => hx h.2.2
      rw [if_neg hx, stateQty_of_elsewhere hnew hne, stateQty_of_elsewhere hold hne, Int.sub_self]
  · have hne : ¬(p' = p ∧ b = isBid ∧ x = price) := fun h => hhere ⟨h.1, h.2.1⟩
    simp only [if_neg hhere]
    rw [stateQty_of_elsewhere hnew hne, stateQty_of_elsewhere hold hne, Int.sub_self,
      Option.getD_none, ite_self]

theorem nonzero_getD (qty : Int) : (nonzero qty).getD 0 = qty := by
  unfold nonzero
  split
  · next h => exact h.symm
  · rfl

theorem stateQty_self (dealable : OmMarketDealableFn) (o : Nat)
    (hside : omSide state.isBid = state.side) :
    stateQty dealable o state.productId (omSide state.isBid) state.price id (some state) =
      omMarketComputeOrgQty dealable state id o :=
  if_pos ⟨rfl, hside.symm, rfl⟩

theorem insertChange_getD {rec : OmWalInsert} (h : ReadsAlike worker (.insert rec)) (o : Nat) :
    (insertChange worker.dealable rec o).getD 0 =
      (omMarketComputeOrgQty worker.dealable (insertState rec) rec.orderId o : Int) := by
  unfold insertChange omMarketComputeOrgQty qtyFromDq
  rw [h.2]
  split
  · rfl
  · simp [insertState]

theorem qtyFromDq_zero (volRemain dq : Nat) : qtyFromDq volRemain dq 0 = 0 := by
  unfold qtyFromDq
  split
  · rfl
  · rw [Nat.sub_zero, Nat.sub_eq_zero_iff_le]
    exact Nat.min_le_left ..

theorem stateQty_matched (dealable : OmMarketDealableFn) (o post : Nat)
    (hside : omSide state.isBid = state.side) :
    stateQty dealable o state.productId (omSide state.isBid) state.price id
        (matchedState state post) =
      qtyFromDq state.volRemain (dealable (fakeInsert state id) o) post := by
  unfold matchedState
  split
  · next hzero =>
    rw [hzero, qtyFromDq_zero]
    rfl
  · exact if_pos ⟨rfl, hside.symm, rfl⟩

/-- An accepted record moves the quantities of the viewers and the ladders together. -/
theorem process_moves {rec : OmWalRecord} (hindex : SubsIndex worker subs) (hnodup : subs.Nodup)
    (horders : OrdersOk worker) (hreads : ReadsAlike worker rec)
    (hok : omMarketWorkerProcess worker rec = (.ok, worker')) : Moves subs worker worker' := by
  have hplace : ∀ {id : Nat} {state : OmMarketOrderState}, worker.globalOrders id = some state →
      ∀ s ∈ worker.globalOrders id,
        s.productId = state.productId ∧ s.side = omSide state.isBid ∧ s.price = state.price := by
    intro id state hstate s hs
    cases hstate.symm.trans hs
    exact ⟨rfl, (horders.stored hstate).2.2.2.symm, rfl⟩
  cases rec with
  | insert r =>
    have hnone := hreads.1
    have hside := omSide_omIsBid r.flags
    rcases processInsert_cases hindex hnodup horders (by simp [hnone]) hok with ⟨-, rfl⟩ | hmove
    · exact .refl horders
    · refine hmove.moves horders (by simp [hnone]) ?_ fun o => ?_
      · rintro s ⟨rfl⟩
        exact ⟨rfl, hside.symm, rfl⟩
      · have hself := @stateQty_self r.orderId (insertState r) worker.dealable o hside
        rw [hnone, insertChange_getD hreads, ← hself]
        exact (Int.sub_zero _).symm
  | cancel r | deactivate r =>
    rcases processCancel_cases hindex hnodup horders hok with ⟨-, rfl⟩ | ⟨state, hstate, hmove⟩
    · exact .refl horders
    · refine hmove.moves horders (hplace hstate) nofun fun o => ?_
      rw [hstate, stateQty_self _ _ (horders.stored hstate).2.2.2, cancelChange, nonzero_getD]
      exact (Int.zero_sub _).symm
  | matched r =>
    rcases processMatch_cases hindex hnodup horders hok with ⟨-, rfl⟩ | ⟨state, hstate, -, hmove⟩
    · exact .refl horders
    · have hside := (horders.stored hstate).2.2.2
      refine hmove.moves horders (hplace hstate) (fun s hs => ?_) fun o => ?_
      · unfold matchedState at hs
        split at hs
        · cases hs
        · cases hs
          exact ⟨rfl, hside.symm, rfl⟩
      · rw [hstate, stateQty_self _ _ hside, stateQty_matched _ _ _ hside, matchChange,
          nonzero_getD]
        rfl
  | activate r =>
    rw [processActivate_eq horders hok]
    exact .refl horders
  | other =>
    cases hok
    exact .refl horders

end Moves

/-- A private worker, and for each side of each ladder the quantities its viewer had at the last
clear. -/
structure DeltaRun where
  worker : OmMarketWorker
  base : Nat → Bool → Nat → Nat

inductive DeltaAction where
  | process (rec : OmWalRecord)
  | clear (orgId productId : Nat) (side : UInt16)

def DeltaRun.rebase (s : DeltaRun) (ladder : Nat) (isBid : Bool) : Nat → Bool → Nat → Nat :=
  update s.base ladder (update (s.base ladder) isBid fun price =>
    reportedQty s.worker (s.worker.ladderOrg ladder) (s.worker.ladderProduct ladder)
      (omSide isBid) price)

def deltaStep (s : DeltaRun) : DeltaAction → Option DeltaRun
  | .process rec => some { s with worker := (omMarketWorkerProcess s.worker rec).2 }
  | .clear orgId productId side =>
    match omMarketWorkerClearDeltas s.worker orgId productId side,
      omMarketWorkerFindLadder s.worker orgId productId with
    | some (.ok, worker), some ladder => some ⟨worker, s.rebase ladder (sideIsBid side)⟩
    | some (_, worker), _ => some { s with worker := worker }
    | none, _ => none

/-- A record is accepted, and an INSERT does not take the id of a live order. -/
def deltaOk (s : DeltaRun) : DeltaAction → Prop
  | .process (.insert rec) => (omMarketWorkerProcess s.worker (.insert rec)).1 = .ok ∧
      s.worker.globalOrders rec.orderId = none
  | .process rec => (omMarketWorkerProcess s.worker rec).1 = .ok
  | .clear _ _ _ => True

instance (s : DeltaRun) : (a : DeltaAction) → Decidable (deltaOk s a)
  | .process (.insert _) => inferInstanceAs (Decidable (_ ∧ _))
  | .process (.cancel _) | .process (.matched _) | .process (.deactivate _)
  | .process (.activate _) | .process (.other ..) => inferInstanceAs (Decidable (_ = _))
  | .clear .. => instDecidableTrue

theorem deltaOk_process {s : DeltaRun} {rec : OmWalRecord} (hpure : DealablePure s.worker.dealable)
    (h : deltaOk s (.process rec)) :
    (omMarketWorkerProcess s.worker rec).1 = .ok ∧ ReadsAlike s.worker rec := by
  cases rec with
  | insert r => exact ⟨h.1, h.2, fun o => hpure _ _ o rfl rfl rfl rfl rfl rfl⟩
  | _ => exact ⟨h, trivial⟩

section Sides

variable {side side' : DeltaSide} {qty qty' base : Nat → Nat} {price : Nat} {change : Option Int}

theorem Tracks.sideChanges {ds : List Nat} (h : Tracks side qty base ds)
    (hle : ∀ x, qty x ≤ uint64Max) (hside : SideChanges price change side side')
    (hqty : ∀ x, (qty' x : Int) = qty x + if x = price then change.getD 0 else 0) :
    (∃ ds', Tracks side' qty' base ds') ∧ ∀ x, qty' x ≤ uint64Max := by
  have hupdate : ∀ q : Nat, (q : Int) = qty price + change.getD 0 →
      update qty price q = qty' := by
    intro q hq
    funext x
    have hx := hqty x
    rcases eq_or_ne x price with rfl | hne
    · rw [if_pos rfl] at hx
      rw [update_self]
      omega
    · rw [if_neg hne] at hx
      rw [update_of_ne hne]
      omega
  cases change with
  | none =>
    obtain rfl : qty = qty' := by
      rw [← hupdate (qty price) (by simp), update_eq_self]
    cases hside
    exact ⟨⟨ds, h⟩, hle⟩
  | some d =>
    obtain ⟨q, ds', hq, hbound, htracks⟩ := h.add hside
    obtain rfl := hupdate q hq
    refine ⟨⟨ds', htracks⟩, fun x => ?_⟩
    rcases eq_or_ne x price with rfl | hne
    · rw [update_self]
      exact hbound (hle x)
    · rw [update_of_ne hne]
      exact hle x

end Sides

structure SidesInv (subs : List OmMarketSubscription) (s : DeltaRun) : Prop where
  index : SubsIndex s.worker subs
  orders : OrdersOk s.worker
  tracks : ∀ {l o p : Nat} (b : Bool), subs[l]? = some ⟨o, p⟩ → ∃ ds,
    Tracks (s.worker.ladderDeltas l b) (viewerQty s.worker o p (omSide b)) (s.base l b) ds
  bounded : ∀ {l o p : Nat} (b : Bool), subs[l]? = some ⟨o, p⟩ → ∀ x,
    viewerQty s.worker o p (omSide b) x ≤ uint64Max

structure DeltaInv (subs : List OmMarketSubscription) (s : DeltaRun) : Prop
    extends SidesInv subs s where
  pure : DealablePure s.worker.dealable

section Steps

variable {subs : List OmMarketSubscription} {s s' : DeltaRun} {side : UInt16}
  {l o p orgId productId : Nat} {worker : OmMarketWorker}

theorem SidesInv.process (h : SidesInv subs s) (hnodup : subs.Nodup) {rec : OmWalRecord}
    (hok : (omMarketWorkerProcess s.worker rec).1 = .ok) (hreads : ReadsAlike s.worker rec) :
    SidesInv subs { s with worker := (omMarketWorkerProcess s.worker rec).2 } := by
  have hmoves : Moves subs s.worker (omMarketWorkerProcess s.worker rec).2 :=
    process_moves h.index hnodup h.orders hreads (Prod.ext hok rfl)
  have hsides : ∀ {l o p : Nat} (b : Bool), subs[l]? = some ⟨o, p⟩ →
      (∃ ds, Tracks ((omMarketWorkerProcess s.worker rec).2.ladderDeltas l b)
        (viewerQty (omMarketWorkerProcess s.worker rec).2 o p (omSide b)) (s.base l b) ds) ∧
      ∀ x, viewerQty (omMarketWorkerProcess s.worker rec).2 o p (omSide b) x ≤ uint64Max := by
    intro l o p b hl
    obtain ⟨ds, htracks⟩ := h.tracks b hl
    obtain ⟨price, change, hside, hqty⟩ := hmoves.changes b hl
    exact htracks.sideChanges (h.bounded b hl) hside hqty
  exact ⟨h.index.of_sameTables hmoves.tables, hmoves.orders,
    fun b hl => (hsides b hl).1, fun b hl => (hsides b hl).2⟩

theorem SidesInv.clearByLadder (h : SidesInv subs s) (side : UInt16) (hl : subs[l]? = some ⟨o, p⟩) :
    ∃ map, omMarketWorkerClearDeltasByLadder s.worker l side =
        some (.ok, s.worker.setDelta l (sideIsBid side) ⟨map, none⟩) ∧
      Tracks ⟨map, none⟩ (viewerQty s.worker o p (omSide (sideIsBid side)))
        (viewerQty s.worker o p (omSide (sideIsBid side))) [] := by
  obtain ⟨ds, htracks⟩ := h.tracks (sideIsBid side) hl
  obtain ⟨map, hclear, hcleared⟩ := htracks.clear
  refine ⟨map, ?_, hcleared⟩
  have hlt : l < s.worker.subscriptionCount := by
    rw [h.index.count]
    exact (List.getElem?_eq_some_iff.mp hl).1
  rw [omMarketWorkerClearDeltasByLadder, if_neg (Nat.not_le.mpr hlt)]
  simp only [hclear, Option.map_some]

theorem SidesInv.reportedQty_eq (h : SidesInv subs s) (b : Bool) (hl : subs[l]? = some ⟨o, p⟩)
    (x : Nat) : reportedQty s.worker o p (omSide b) x = viewerQty s.worker o p (omSide b) x :=
  VeloxMatch.reportedQty_eq h.orders (h.index.ladder hl) (h.bounded b hl x)

theorem SidesInv.rebase (h : SidesInv subs s) {b : Bool} {map : OmMarketDeltaMap}
    (hl : subs[l]? = some ⟨o, p⟩)
    (hcleared : Tracks ⟨map, none⟩ (viewerQty s.worker o p (omSide b))
      (viewerQty s.worker o p (omSide b)) []) :
    SidesInv subs ⟨s.worker.setDelta l b ⟨map, none⟩, s.rebase l b⟩ where
  index := h.index.of_sameTables rfl
  orders := ⟨h.orders.listed, h.orders.stored⟩
  tracks {l' o' p'} b' hl' := by
    change ∃ ds, Tracks (update s.worker.ladderDeltas l _ l' b') _
      (update s.base l _ l' b') ds
    rcases eq_or_ne l' l with rfl | hne
    · cases hl.symm.trans hl'
      rw [update_self, update_self]
      rcases eq_or_ne b' b with rfl | hne
      · rw [update_self, update_self]
        have hbase : (fun price => reportedQty s.worker (s.worker.ladderOrg l')
            (s.worker.ladderProduct l') (omSide b') price) =
              viewerQty s.worker o p (omSide b') := by
          obtain ⟨ho, hp⟩ := h.index.owner hl
          funext x
          rw [ho, hp, h.reportedQty_eq b' hl]
        rw [hbase]
        exact ⟨[], hcleared⟩
      · rw [update_of_ne hne, update_of_ne hne]
        exact h.tracks b' hl'
    · rw [update_of_ne hne, update_of_ne hne]
      exact h.tracks b' hl'
  bounded := h.bounded

theorem clearDeltasByLadder_outOfRange {ladder : Nat} (h : worker.subscriptionCount ≤ ladder) :
    omMarketWorkerClearDeltasByLadder worker ladder side = some (.nullParam, worker) :=
  if_pos h

theorem clearDeltas_same {out : OmError × OmMarketWorker}
    (h : omMarketWorkerClearDeltas worker orgId productId side = some out) :
    SameButDeltas worker out.2 := by
  unfold omMarketWorkerClearDeltas at h
  split at h
  · cases h
    rfl
  unfold omMarketWorkerClearDeltasByLadder at h
  split at h
  · cases h
    rfl
  obtain ⟨cleared, -, rfl⟩ := Option.map_eq_some_iff.mp h
  split <;> rfl

theorem deltaStep_clear (hs : deltaStep s (.clear orgId productId side) = some s') :
    SameButDeltas s.worker s'.worker := by
  unfold deltaStep at hs
  dsimp only at hs
  cases hclear : omMarketWorkerClearDeltas s.worker orgId productId side with
  | none =>
    rw [hclear] at hs
    cases hs
  | some out =>
    have hsame := clearDeltas_same hclear
    rw [hclear] at hs
    split at hs
    · next heq _ =>
      cases heq
      cases hs
      exact hsame
    · next heq _ =>
      cases heq
      cases hs
      exact hsame
    · cases hs

theorem SidesInv.clear (h : SidesInv subs s)
    (hs : deltaStep s (.clear orgId productId side) = some s') : SidesInv subs s' := by
  cases hfind : omMarketWorkerFindLadder s.worker orgId productId with
  | none =>
    simp only [deltaStep, omMarketWorkerClearDeltas, hfind] at hs
    cases hs
    exact h
  | some l =>
    by_cases hlt : l < subs.length
    · have hl : subs[l]? = some ⟨subs[l].orgId, subs[l].productId⟩ := List.getElem?_eq_getElem hlt
      obtain ⟨map, hclear, hcleared⟩ := h.clearByLadder side hl
      simp only [deltaStep, omMarketWorkerClearDeltas, hfind, hclear] at hs
      cases hs
      exact h.rebase hl hcleared
    · have hle : s.worker.subscriptionCount ≤ l := h.index.count ▸ Nat.not_lt.mp hlt
      simp only [deltaStep, omMarketWorkerClearDeltas, hfind,
        clearDeltasByLadder_outOfRange hle] at hs
      cases hs
      exact h

theorem DeltaInv.step (h : DeltaInv subs s) (hnodup : subs.Nodup) {a : DeltaAction}
    (hok : deltaOk s a) (hs : deltaStep s a = some s') : DeltaInv subs s' := by
  cases a with
  | process rec =>
    cases hs
    obtain ⟨hok, hreads⟩ := deltaOk_process h.pure hok
    have hdealable : (omMarketWorkerProcess s.worker rec).2.dealable = s.worker.dealable := by
      rw [process_sameTables s.worker rec]
    exact ⟨h.toSidesInv.process hnodup hok hreads, hdealable ▸ h.pure⟩
  | clear orgId productId side =>
    have hdealable : s'.worker.dealable = s.worker.dealable := by rw [deltaStep_clear hs]
    exact ⟨h.toSidesInv.clear hs, hdealable ▸ h.pure⟩

end Steps

theorem sidesInv_init {maxProducts slabCapacity : Nat} {subs : List OmMarketSubscription}
    {dealable : OmMarketDealableFn} {worker : OmMarketWorker}
    (hrange : SubsInRange maxProducts subs) (hnodup : subs.Nodup)
    (hinit : omMarketWorkerInit maxProducts subs slabCapacity dealable = some worker) :
    SidesInv subs ⟨worker, fun _ _ _ => 0⟩ ∧ worker.dealable = dealable := by
  have hindex := omMarketWorkerInit_index hrange hnodup hinit
  cases (Option.ite_none_left_eq_some.mp hinit).2
  exact ⟨⟨hindex, ⟨nofun, nofun⟩, fun _ _ => ⟨[], .empty⟩, fun _ _ _ => Nat.zero_le _⟩, rfl⟩

theorem dealAll_pure : DealablePure dealAll := fun _ _ _ _ _ hvol _ _ _ => hvol

def bidThenMatch : List DeltaAction :=
  [.process (bidRecord 1 0), .clear 1 0 omSideBid, .process (.matched ⟨1, 9, 100, 2, 0, 0⟩)]

end VeloxMatch
