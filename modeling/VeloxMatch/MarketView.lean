import VeloxMatch.MarketMoves

namespace VeloxMatch

open OmMarketWorker Function

/-- What a worker keeps for one subscription: the live orders of the product and the changes on
both sides of the ladder. -/
structure ViewerState where
  orders : Nat → Option OmMarketOrderState
  deltas : Bool → DeltaSide

def DeltaSide.record (side : DeltaSide) (price : Nat) : Option Int → DeltaSide
  | none => side
  | some d => (omMarketDeltaAdd side price d d true).2

namespace ViewerState

def empty : ViewerState := ⟨fun _ => none, fun _ => .empty⟩

def move (v : ViewerState) (orderId : Nat) (state : Option OmMarketOrderState) (price : Nat)
    (isBid : Bool) (change : Option Int) : ViewerState where
  orders := update v.orders orderId state
  deltas := update v.deltas isBid ((v.deltas isBid).record price change)

/-- What a record means to one subscription, whatever else its worker follows. -/
def process (dealable : OmMarketDealableFn) (org productId : Nat) (v : ViewerState) :
    OmWalRecord → ViewerState
  | .insert rec =>
    if rec.productId = productId then
      v.move rec.orderId (some (insertState rec)) rec.price (omIsBid rec.flags)
        (insertChange dealable rec org)
    else v
  | .cancel rec | .deactivate rec =>
    match v.orders rec.orderId with
    | none => v
    | some state =>
      v.move rec.orderId none state.price state.isBid (cancelChange dealable state rec.orderId org)
  | .matched rec =>
    match v.orders rec.makerId with
    | none => v
    | some state =>
      if state.remaining = 0 then v
      else
        let post := state.remaining - min rec.volume state.remaining
        v.move rec.makerId (matchedState state post) state.price state.isBid
          (matchChange dealable state rec.makerId post org)
  | .activate _ | .other _ _ => v

end ViewerState

variable (worker : OmMarketWorker)

def viewOf (ladder productId : Nat) : ViewerState where
  orders orderId := (worker.globalOrders orderId).filter (·.productId = productId)
  deltas := worker.ladderDeltas ladder

section View

variable {worker worker' : OmMarketWorker} {subs : List OmMarketSubscription}
  {p q price id l o : Nat} {isBid : Bool} {change : Nat → Option Int}
  {state : OmMarketOrderState} {state' : Option OmMarketOrderState}

theorem viewOf_orders_of_product (hstate : worker.globalOrders id = some state)
    (hp : state.productId = p) : (viewOf worker l p).orders id = some state := by
  simp [viewOf, hstate, hp]

theorem viewOf_orders_of_ne (h : ∀ s ∈ worker.globalOrders id, s.productId ≠ p) :
    (viewOf worker l p).orders id = none := by
  simpa [viewOf, Option.filter_eq_none_iff] using h

theorem SideChanges.eq {side side' : DeltaSide} {d : Option Int}
    (h : SideChanges price d side side') : side' = side.record price d := by
  cases d with
  | none => exact h
  | some d => exact (congrArg Prod.snd h).symm

theorem ChangesOrder.viewOf_orders (h : ChangesOrder worker worker' id state') :
    (viewOf worker' l p).orders =
      update (viewOf worker l p).orders id (state'.filter (·.productId = p)) := by
  funext other
  change (worker'.globalOrders other).filter _ = _
  rw [h.orders]
  rcases eq_or_ne other id with rfl | hne
  · rw [update_self, update_self]
  · rw [update_of_ne hne, update_of_ne hne]
    rfl

theorem OrderMove.viewOf_eq (h : OrderMove subs worker worker' p price isBid change id state')
    (hl : subs[l]? = some ⟨o, p⟩) (hnew : ∀ s ∈ state', s.productId = p) :
    viewOf worker' l p = (viewOf worker l p).move id state' price isBid (change o) := by
  have horders : (viewOf worker' l p).orders =
      update (viewOf worker l p).orders id state' := by
    rw [h.changes.viewOf_orders]
    congr 1
    cases state' with
    | none => rfl
    | some s => simp [hnew s rfl]
  have hdeltas : (viewOf worker' l p).deltas = update (viewOf worker l p).deltas isBid
      (((viewOf worker l p).deltas isBid).record price (change o)) := by
    funext b
    have hside := (h.sides b hl).eq
    rcases eq_or_ne b isBid with rfl | hne
    · rw [if_pos ⟨rfl, rfl⟩] at hside
      rw [update_self]
      exact hside
    · rw [if_neg fun hh => hne hh.2] at hside
      rw [update_of_ne hne]
      exact hside
  exact congrArg₂ ViewerState.mk horders hdeltas

theorem OrderMove.viewOf_eq_of_ne (h : OrderMove subs worker worker' q price isBid change id state')
    (hl : subs[l]? = some ⟨o, p⟩) (hne : p ≠ q)
    (hold : ∀ s ∈ worker.globalOrders id, s.productId = q) (hnew : ∀ s ∈ state', s.productId = q) :
    viewOf worker' l p = viewOf worker l p := by
  have horders : (viewOf worker' l p).orders = (viewOf worker l p).orders := by
    have hbefore : (viewOf worker l p).orders id = none :=
      viewOf_orders_of_ne fun s hs he => hne (he.symm.trans (hold s hs))
    have hafter : state'.filter (·.productId = p) = none := by
      rw [Option.filter_eq_none_iff]
      intro s hs
      simpa using fun he => hne (he.symm.trans (hnew s hs))
    rw [h.changes.viewOf_orders, hafter, ← hbefore, update_eq_self]
  have hdeltas : (viewOf worker' l p).deltas = (viewOf worker l p).deltas := by
    funext b
    have hside := (h.sides b hl).eq
    rw [if_neg fun hh => hne hh.1] at hside
    exact hside
  exact congrArg₂ ViewerState.mk horders hdeltas

theorem matchedState_product {post : Nat} : ∀ s ∈ matchedState state post,
    s.productId = state.productId := by
  intro s hs
  unfold matchedState at hs
  split at hs
  · cases hs
  · cases hs
    rfl

theorem viewOf_process {rec : OmWalRecord} (hindex : SubsIndex worker subs) (hnodup : subs.Nodup)
    (horders : OrdersOk worker)
    (hlive : ∀ r, rec = .insert r → ∀ s ∈ worker.globalOrders r.orderId, s.productId = r.productId)
    (hok : omMarketWorkerProcess worker rec = (.ok, worker')) (hl : subs[l]? = some ⟨o, p⟩) :
    SameTables worker worker' ∧ OrdersOk worker' ∧
      viewOf worker' l p = (viewOf worker l p).process worker.dealable o p rec := by
  have hown : ∀ {id : Nat} {state : OmMarketOrderState}, worker.globalOrders id = some state →
      ∀ s ∈ worker.globalOrders id, s.productId = state.productId := by
    intro id state hstate s hs
    cases hstate.symm.trans hs
    rfl
  cases rec with
  | insert r =>
    rcases processInsert_cases hindex hnodup horders (hlive r rfl) hok with ⟨hsubs, rfl⟩ | hmove
    · refine ⟨.refl _, horders, ?_⟩
      have hne : r.productId ≠ p := by
        rintro rfl
        rw [hindex.subscribed hl] at hsubs
        cases hsubs
      rw [ViewerState.process, if_neg hne]
    · refine ⟨hmove.tables, hmove.orders, ?_⟩
      have hnew : ∀ s ∈ some (insertState r), s.productId = r.productId := by
        rintro s ⟨rfl⟩
        rfl
      rcases eq_or_ne r.productId p with rfl | hne
      · rw [ViewerState.process, if_pos rfl]
        exact hmove.viewOf_eq hl hnew
      · rw [ViewerState.process, if_neg hne]
        exact hmove.viewOf_eq_of_ne hl hne.symm (hlive r rfl) hnew
  | cancel r | deactivate r =>
    rcases processCancel_cases hindex hnodup horders hok with ⟨hnone, rfl⟩ | ⟨state, hstate, hmove⟩
    · refine ⟨.refl _, horders, ?_⟩
      rw [ViewerState.process, viewOf_orders_of_ne (by simp [hnone])]
    · refine ⟨hmove.tables, hmove.orders, ?_⟩
      rcases eq_or_ne state.productId p with rfl | hne
      · rw [ViewerState.process, viewOf_orders_of_product hstate rfl]
        exact hmove.viewOf_eq hl nofun
      · rw [ViewerState.process,
          viewOf_orders_of_ne fun s hs => (hown hstate s hs).trans_ne hne]
        exact hmove.viewOf_eq_of_ne hl hne.symm (hown hstate) nofun
  | matched r =>
    rcases processMatch_cases hindex hnodup horders hok with
      ⟨hzero, rfl⟩ | ⟨state, hstate, hleft, hmove⟩
    · refine ⟨.refl _, horders, ?_⟩
      rw [ViewerState.process]
      split
      · rfl
      · next state hstate =>
        have hmem : state ∈ worker'.globalOrders r.makerId :=
          (Option.filter_eq_some_iff.mp hstate).1
        rw [if_pos (hzero state hmem)]
    · refine ⟨hmove.tables, hmove.orders, ?_⟩
      rcases eq_or_ne state.productId p with rfl | hne
      · rw [ViewerState.process, viewOf_orders_of_product hstate rfl]
        dsimp only
        rw [if_neg hleft]
        exact hmove.viewOf_eq hl matchedState_product
      · rw [ViewerState.process,
          viewOf_orders_of_ne fun s hs => (hown hstate s hs).trans_ne hne]
        exact hmove.viewOf_eq_of_ne hl hne.symm (hown hstate) matchedState_product
  | activate r =>
    rw [processActivate_eq horders hok]
    exact ⟨.refl _, horders, rfl⟩
  | other =>
    cases hok
    exact ⟨.refl _, horders, rfl⟩

end View

def processStream : OmMarketWorker → List OmWalRecord → Option OmMarketWorker
  | worker, [] => some worker
  | worker, rec :: rest =>
    match omMarketWorkerProcess worker rec with
    | (.ok, worker) => processStream worker rest
    | _ => none

/-- An INSERT meets no live order of its id in another product. -/
def IdApart : OmWalRecord → Prop
  | .insert rec => ∀ s ∈ worker.globalOrders rec.orderId, s.productId = rec.productId
  | _ => True

instance (rec : OmWalRecord) : Decidable (IdApart worker rec) := by
  induction rec using OmWalRecord.casesOn <;> dsimp only [IdApart] <;> infer_instance

def IdsApart : OmMarketWorker → List OmWalRecord → Prop
  | _, [] => True
  | worker, rec :: rest =>
    IdApart worker rec ∧ IdsApart (omMarketWorkerProcess worker rec).2 rest

instance decidableIdsApart : (worker : OmMarketWorker) → (stream : List OmWalRecord) →
    Decidable (IdsApart worker stream)
  | _, [] => inferInstanceAs (Decidable True)
  | worker, rec :: rest =>
    have := decidableIdsApart (omMarketWorkerProcess worker rec).2 rest
    inferInstanceAs (Decidable (IdApart worker rec ∧ _))

theorem viewOf_processStream {worker worker' : OmMarketWorker} {subs : List OmMarketSubscription}
    {l o p : Nat} {stream : List OmWalRecord} (hindex : SubsIndex worker subs)
    (hnodup : subs.Nodup) (horders : OrdersOk worker) (hids : IdsApart worker stream)
    (hrun : processStream worker stream = some worker') (hl : subs[l]? = some ⟨o, p⟩) :
    SameTables worker worker' ∧ OrdersOk worker' ∧
      viewOf worker' l p =
        stream.foldl (ViewerState.process worker.dealable o p) (viewOf worker l p) := by
  induction stream generalizing worker with
  | nil =>
    cases hrun
    exact ⟨.refl _, horders, rfl⟩
  | cons rec rest ih =>
    unfold processStream at hrun
    split at hrun
    · next mid hmid =>
      have hlive : ∀ r, rec = .insert r → ∀ s ∈ worker.globalOrders r.orderId,
          s.productId = r.productId := by
        rintro r rfl
        exact hids.1
      obtain ⟨htables, hmidOk, hview⟩ := viewOf_process hindex hnodup horders hlive hmid hl
      have hrest : IdsApart mid rest := by
        have h := hids.2
        rwa [hmid] at h
      obtain ⟨htables', horders', hview'⟩ :=
        ih (hindex.of_sameTables htables) hmidOk hrest hrun
      have hdealable : mid.dealable = worker.dealable := by rw [htables]
      refine ⟨htables.trans htables', horders', ?_⟩
      rw [hview', hview, hdealable, List.foldl_cons]
    · cases hrun

end VeloxMatch
