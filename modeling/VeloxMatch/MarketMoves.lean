import VeloxMatch.MarketFanOut

namespace VeloxMatch

open OmMarketWorker Function

def SameTables (worker worker' : OmMarketWorker) : Prop :=
  worker' = { worker with
    productSlab := worker'.productSlab
    productLadders := worker'.productLadders
    productOrderSets := worker'.productOrderSets
    globalOrders := worker'.globalOrders
    dirty := worker'.dirty
    ladderDeltas := worker'.ladderDeltas }

section Tables

variable {worker worker' : OmMarketWorker} {subs : List OmMarketSubscription}

theorem SubsIndex.of_sameTables (h : SubsIndex worker subs) (hsame : SameTables worker worker') :
    SubsIndex worker' subs := by
  rw [hsame]
  exact ⟨h.count, h.viewers, h.indices, h.ladder, h.hasSubs, h.subscribed, h.owner⟩

theorem SameButDeltas.sameTables (h : SameButDeltas worker worker') : SameTables worker worker' := by
  unfold SameTables
  rw [h]

theorem SameTables.refl (worker : OmMarketWorker) : SameTables worker worker := rfl

theorem SameTables.trans {worker'' : OmMarketWorker} (h : SameTables worker worker')
    (h' : SameTables worker' worker'') : SameTables worker worker'' := by
  unfold SameTables at h h' ⊢
  rw [h', h]

end Tables

/-- An order at one place changes, and the loop over the viewers records the change that each of
them sees. -/
structure OrderMove (subs : List OmMarketSubscription) (worker worker' : OmMarketWorker)
    (p price : Nat) (isBid : Bool) (change : Nat → Option Int) (id : Nat)
    (state : Option OmMarketOrderState) : Prop where
  tables : SameTables worker worker'
  orders : OrdersOk worker'
  changes : ChangesOrder worker worker' id state
  sides : ∀ {l o p' : Nat} (b : Bool), subs[l]? = some ⟨o, p'⟩ →
    SideChanges price (if p' = p ∧ b = isBid then change o else none)
      (worker.ladderDeltas l b) (worker'.ladderDeltas l b)

section Orders

variable {worker worker' : OmMarketWorker} {p id : Nat} {state : OmMarketOrderState}
  {state' : Option OmMarketOrderState}

theorem ChangesOrder.mem_sets (hc : ChangesOrder worker worker' id state') {other q : Nat}
    (hne : other ≠ id) : other ∈ worker'.productOrderSets q ↔ other ∈ worker.productOrderSets q := by
  have h := Finset.ext_iff.mp (hc.sets q) other
  rwa [Finset.mem_erase, Finset.mem_erase, and_iff_right hne, and_iff_right hne] at h

theorem OrdersOk.of_changesOrder (h : OrdersOk worker) (hc : ChangesOrder worker worker' id state')
    (hmax : worker'.maxProducts = worker.maxProducts)
    (hsets : ∀ q, id ∈ worker'.productOrderSets q ↔ ∃ s ∈ state', s.productId = q)
    (hnew : ∀ s ∈ state', s.active = true ∧ s.productId < worker.maxProducts ∧
      omSide s.isBid = s.side) : OrdersOk worker' where
  listed {q other} hother := by
    rw [hc.orders]
    rcases eq_or_ne other id with rfl | hne
    · obtain ⟨s, hs, hq⟩ := (hsets q).mp hother
      exact ⟨s, (update_self ..).trans hs, hq⟩
    · rw [update_of_ne hne]
      exact h.listed ((hc.mem_sets hne).mp hother)
  stored {other s} hs := by
    rw [hc.orders] at hs
    rw [hmax]
    rcases eq_or_ne other id with rfl | hne
    · rw [update_self] at hs
      exact ⟨(hsets _).mpr ⟨s, hs, rfl⟩, hnew s hs⟩
    · rw [update_of_ne hne] at hs
      obtain ⟨hmem, hrest⟩ := h.stored hs
      exact ⟨(hc.mem_sets hne).mpr hmem, hrest⟩

theorem OrdersOk.mem_iff (h : OrdersOk worker) (hstate : worker.globalOrders id = some state)
    (q : Nat) : id ∈ worker.productOrderSets q ↔ state.productId = q := by
  refine ⟨fun hid => ?_, fun hq => hq ▸ (h.stored hstate).1⟩
  obtain ⟨s, hs, hq⟩ := h.listed hid
  cases hstate.symm.trans hs
  exact hq

theorem erase_update_erase (sets : Nat → Finset Nat) (p id q : Nat) :
    (update sets p ((sets p).erase id) q).erase id = (sets q).erase id := by
  rcases eq_or_ne q p with rfl | hne
  · rw [update_self, Finset.erase_idem]
  · rw [update_of_ne hne]

theorem erase_update_insert (sets : Nat → Finset Nat) (p id q : Nat) :
    (update sets p (insert id (sets p)) q).erase id = (sets q).erase id := by
  rcases eq_or_ne q p with rfl | hne
  · rw [update_self, Finset.erase_insert_eq_erase]
  · rw [update_of_ne hne]

theorem changesOrder_evict (hsets : worker'.productOrderSets = (worker.evict p id).productOrderSets)
    (horders : worker'.globalOrders = (worker.evict p id).globalOrders)
    (hdealable : worker'.dealable = worker.dealable) : ChangesOrder worker worker' id none :=
  ⟨horders, fun _ => hsets ▸ erase_update_erase .., hdealable⟩

theorem OrdersOk.notMem_evict (h : OrdersOk worker) (hstate : worker.globalOrders id = some state)
    (q : Nat) : id ∉ (worker.evict state.productId id).productOrderSets q := by
  intro hid
  change id ∈ update worker.productOrderSets state.productId _ q at hid
  rcases eq_or_ne q state.productId with rfl | hne
  · rw [update_self] at hid
    exact Finset.notMem_erase _ _ hid
  · rw [update_of_ne hne] at hid
    exact hne ((h.mem_iff hstate q).mp hid).symm

end Orders

section Process

variable {worker worker' start mid : OmMarketWorker} {subs : List OmMarketSubscription}
  {price p id : Nat} {isBid : Bool} {change : Nat → Option Int}
  {state' : Option OmMarketOrderState}

theorem orderMove_of_fanOut (hindex : SubsIndex worker subs) (hnodup : subs.Nodup)
    (hp : p < worker.maxProducts) (hstart : SameTables worker start)
    (hdeltas : start.ladderDeltas = worker.ladderDeltas)
    (hfan : fanOut price isBid change (start.fanOutRange p) start = (.ok, mid))
    (hend : SameTables mid worker') (hdeltas' : worker'.ladderDeltas = mid.ladderDeltas)
    (horders : OrdersOk worker') (hchanges : ChangesOrder worker worker' id state') :
    OrderMove subs worker worker' p price isBid change id state' := by
  have hmax : start.maxProducts = worker.maxProducts := by rw [hstart]
  obtain ⟨hsame, hsides⟩ :=
    (hindex.of_sameTables hstart).fanOut_ok hnodup (hmax ▸ hp) hfan
  refine ⟨(hstart.trans hsame.sameTables).trans hend, horders, hchanges, fun {l o p'} b hl => ?_⟩
  have hside := hsides l o p' b hl
  rwa [hdeltas, ← hdeltas'] at hside

theorem thenDo_ok {σ : Type} {out : OmError × σ} {f : σ → σ} {s : σ}
    (h : thenDo out f = (.ok, s)) : ∃ mid, out = (.ok, mid) ∧ s = f mid := by
  unfold thenDo at h
  split at h
  · next mid =>
    cases h
    exact ⟨mid, rfl, rfl⟩
  · next hne =>
    obtain ⟨herr, -⟩ := Prod.mk.inj h
    exact absurd herr hne

theorem processInsert_cases {rec : OmWalInsert} (hindex : SubsIndex worker subs)
    (hnodup : subs.Nodup) (horders : OrdersOk worker)
    (hlive : ∀ s ∈ worker.globalOrders rec.orderId, s.productId = rec.productId)
    (hok : worker.processInsert rec = (.ok, worker')) :
    worker.productHasSubs rec.productId = false ∧ worker' = worker ∨
      OrderMove subs worker worker' rec.productId rec.price (omIsBid rec.flags)
        (insertChange worker.dealable rec) rec.orderId (some (insertState rec)) := by
  unfold processInsert at hok
  split at hok
  · cases hok
  split at hok
  · next hsubs =>
    cases hok
    exact .inl ⟨by simpa using hsubs, rfl⟩
  next hsubs =>
  have hp : rec.productId < worker.maxProducts := hindex.hasSubs (by simpa using hsubs)
  split at hok
  · next out _ =>
    have hstart : SameTables worker ((worker.setLadder rec.productId out).addOrder rec) := rfl
    have hsame := ((hindex.of_sameTables hstart).fanOut_ok hnodup hp hok).1
    have hsets : worker'.productOrderSets = update worker.productOrderSets rec.productId
        (insert rec.orderId (worker.productOrderSets rec.productId)) := by
      rw [hsame]
      rfl
    have hchanges : ChangesOrder worker worker' rec.orderId (some (insertState rec)) :=
      ⟨by rw [hsame]; rfl, fun q => hsets ▸ erase_update_insert .., by rw [hsame]; rfl⟩
    refine .inr (orderMove_of_fanOut hindex hnodup hp hstart rfl hok rfl rfl ?_ hchanges)
    refine horders.of_changesOrder hchanges (by rw [hsame]; rfl) (fun q => ?_) ?_
    · rw [hsets]
      rcases eq_or_ne q rec.productId with rfl | hne
      · rw [update_self]
        exact iff_of_true (Finset.mem_insert_self ..) ⟨_, rfl, rfl⟩
      · rw [update_of_ne hne]
        refine iff_of_false (fun hid => ?_) ?_
        · obtain ⟨s, hs, hq⟩ := horders.listed hid
          exact hne (hq.symm.trans (hlive s hs))
        · rintro ⟨s, ⟨rfl⟩, hq⟩
          exact hne hq.symm
    · rintro s ⟨rfl⟩
      exact ⟨rfl, hp, omSide_omIsBid rec.flags⟩
  · next hne _ =>
    obtain ⟨herr, -⟩ := Prod.mk.inj hok
    exact absurd herr hne

theorem processCancel_cases {rec : OmWalCancel} (hindex : SubsIndex worker subs)
    (hnodup : subs.Nodup) (horders : OrdersOk worker)
    (hok : worker.processCancel rec = (.ok, worker')) :
    worker.globalOrders rec.orderId = none ∧ worker' = worker ∨
      ∃ state, worker.globalOrders rec.orderId = some state ∧
        OrderMove subs worker worker' state.productId state.price state.isBid
          (cancelChange worker.dealable state rec.orderId) rec.orderId none := by
  unfold processCancel at hok
  split at hok
  · next hnone =>
    cases hok
    exact .inl ⟨hnone, rfl⟩
  next state hstate =>
  obtain ⟨-, hactive, hp, -⟩ := horders.stored hstate
  rw [hactive, Bool.not_true, if_neg Bool.false_ne_true] at hok
  obtain ⟨mid, hfan, rfl⟩ := thenDo_ok hok
  have hsame := (hindex.fanOut_ok hnodup hp hfan).1
  have hevict : ((mid.subLevel state state.remaining).evict state.productId
      rec.orderId).productOrderSets = (worker.evict state.productId rec.orderId).productOrderSets := by
    rw [hsame]
    rfl
  have hchanges : ChangesOrder worker ((mid.subLevel state state.remaining).evict state.productId
      rec.orderId) rec.orderId none :=
    changesOrder_evict hevict (by rw [hsame]; rfl) (by rw [hsame]; rfl)
  have horders' := horders.of_changesOrder hchanges (by rw [hsame]; rfl)
    (fun q => iff_of_false (hevict ▸ horders.notMem_evict hstate q) nofun) nofun
  exact .inr ⟨state, hstate, orderMove_of_fanOut hindex hnodup hp (.refl worker) rfl hfan rfl rfl
    horders' hchanges⟩

theorem processActivate_eq {rec : OmWalCancel} (horders : OrdersOk worker)
    (hok : worker.processActivate rec = (.ok, worker')) : worker' = worker := by
  unfold processActivate at hok
  split at hok
  · cases hok
    rfl
  next state hstate =>
  rw [(horders.stored hstate).2.1, Bool.true_or, if_pos rfl] at hok
  cases hok
  rfl

def matchedState (state : OmMarketOrderState) (post : Nat) : Option OmMarketOrderState :=
  if post = 0 then none else some { state with remaining := post }

theorem reduceOrder_tables (worker : OmMarketWorker) (state : OmMarketOrderState) (id post : Nat) :
    SameTables worker (worker.reduceOrder state id post) ∧
      (worker.reduceOrder state id post).ladderDeltas = worker.ladderDeltas := by
  unfold reduceOrder
  split <;> exact ⟨rfl, rfl⟩

theorem reduceOrder_changes {state : OmMarketOrderState} {id : Nat} (horders : OrdersOk worker)
    (hstate : worker.globalOrders id = some state) (post : Nat) :
    ChangesOrder worker (worker.reduceOrder state id post) id (matchedState state post) ∧
      OrdersOk (worker.reduceOrder state id post) := by
  unfold reduceOrder matchedState
  split
  · have hchanges : ChangesOrder worker (worker.evict state.productId id) id none :=
      changesOrder_evict rfl rfl rfl
    exact ⟨hchanges, horders.of_changesOrder hchanges rfl
      (fun q => iff_of_false (horders.notMem_evict hstate q) nofun) nofun⟩
  · have hchanges : ChangesOrder worker (worker.setOrder id (some { state with remaining := post }))
        id (some { state with remaining := post }) := ⟨rfl, fun _ => rfl, rfl⟩
    refine ⟨hchanges, horders.of_changesOrder hchanges rfl (fun q => ?_) ?_⟩
    · refine (horders.mem_iff hstate q).trans ⟨fun hq => ⟨_, rfl, hq⟩, ?_⟩
      rintro ⟨s, ⟨rfl⟩, hq⟩
      exact hq
    · rintro s ⟨rfl⟩
      exact (horders.stored hstate).2

theorem processMatch_cases {rec : OmWalMatch} (hindex : SubsIndex worker subs) (hnodup : subs.Nodup)
    (horders : OrdersOk worker) (hok : worker.processMatch rec = (.ok, worker')) :
    (∀ state ∈ worker.globalOrders rec.makerId, state.remaining = 0) ∧ worker' = worker ∨
      ∃ state, worker.globalOrders rec.makerId = some state ∧ state.remaining ≠ 0 ∧
        OrderMove subs worker worker' state.productId state.price state.isBid
          (matchChange worker.dealable state rec.makerId
            (state.remaining - min rec.volume state.remaining)) rec.makerId
          (matchedState state (state.remaining - min rec.volume state.remaining)) := by
  unfold processMatch at hok
  split at hok
  · cases hok
  split at hok
  · next hnone =>
    cases hok
    exact .inl ⟨by simp [hnone], rfl⟩
  next state hstate =>
  obtain ⟨-, hactive, hp, -⟩ := horders.stored hstate
  rw [hactive, Bool.not_true, Bool.false_or] at hok
  split at hok
  · next hzero =>
    cases hok
    exact .inl ⟨by simpa [hstate] using hzero, rfl⟩
  next hleft =>
  refine .inr ⟨state, hstate, by simpa using hleft, ?_⟩
  dsimp only at hok
  generalize hpost : state.remaining - min rec.volume state.remaining = post at hok
  obtain ⟨mid, hfan, rfl⟩ := thenDo_ok hok
  have hsame := (hindex.fanOut_ok hnodup hp hfan).1
  generalize hlevel : mid.subLevel state (min rec.volume state.remaining) = level
  have hmid : SameTables mid level ∧ level.ladderDeltas = mid.ladderDeltas ∧
      level.productOrderSets = worker.productOrderSets ∧
      level.globalOrders = worker.globalOrders ∧ level.dealable = worker.dealable ∧
      level.maxProducts = worker.maxProducts := by
    subst hlevel
    refine ⟨rfl, rfl, ?_⟩
    rw [hsame]
    exact ⟨rfl, rfl, rfl, rfl⟩
  obtain ⟨htables, hdeltas, hsets, hglobal, hdealable, hmax⟩ := hmid
  have hlevelOk : OrdersOk level :=
    ⟨by rw [hsets, hglobal]; exact horders.listed,
      by rw [hsets, hglobal, hmax]; exact horders.stored⟩
  obtain ⟨hchanges, horders'⟩ := reduceOrder_changes hlevelOk (hglobal ▸ hstate) post
  obtain ⟨htables', hdeltas'⟩ := reduceOrder_tables level state rec.makerId post
  have hchanges' : ChangesOrder worker (level.reduceOrder state rec.makerId post) rec.makerId
      (matchedState state post) :=
    ⟨hglobal ▸ hchanges.orders, fun q => hsets ▸ hchanges.sets q, hdealable ▸ hchanges.dealable⟩
  exact orderMove_of_fanOut hindex hnodup hp (.refl worker) rfl hfan (htables.trans htables')
    (hdeltas'.trans hdeltas) horders' hchanges'

theorem fanOut_sameTables (start : OmMarketWorker) (idxs : List Nat) :
    SameTables start (fanOut price isBid change idxs start).2 :=
  (fanOut_same rfl).sameTables

theorem thenDo_sameTables {out : OmError × OmMarketWorker} {f : OmMarketWorker → OmMarketWorker}
    (h : SameTables worker out.2) (hf : ∀ w, SameTables w (f w)) :
    SameTables worker (thenDo out f).2 := by
  unfold thenDo
  split
  · exact h.trans (hf _)
  · exact h

theorem process_sameTables (worker : OmMarketWorker) (rec : OmWalRecord) :
    SameTables worker (omMarketWorkerProcess worker rec).2 := by
  cases rec with
  | insert rec =>
    simp only [omMarketWorkerProcess, processInsert]
    split
    · exact .refl worker
    split
    · exact .refl worker
    split
    · exact fanOut_sameTables _ _
    · rfl
  | cancel rec | deactivate rec =>
    simp only [omMarketWorkerProcess, processCancel]
    split
    · exact .refl worker
    split
    · exact .refl worker
    · exact thenDo_sameTables (fanOut_sameTables _ _) fun _ => rfl
  | matched rec =>
    simp only [omMarketWorkerProcess, processMatch]
    split
    · exact .refl worker
    split
    · exact .refl worker
    split
    · exact .refl worker
    · exact thenDo_sameTables (fanOut_sameTables _ _) fun w => (reduceOrder_tables ..).1
  | activate rec =>
    simp only [omMarketWorkerProcess, processActivate]
    split
    · exact .refl worker
    split
    · exact .refl worker
    split
    · exact fanOut_sameTables _ _
    · rfl
  | other => exact .refl worker

end Process

end VeloxMatch
