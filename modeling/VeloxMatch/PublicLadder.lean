import VeloxMatch.MarketFull
import VeloxMatch.MarketMoves

namespace VeloxMatch

open OmMarketPublicWorker Function

/-- The volume of the live orders of the products that a public worker serves. -/
def servedTotal (serves : Nat → Bool) (live : List LiveOrder) (p : Nat) (b : Bool) (x : Nat) : Nat :=
  if serves p then liveTotal live p b x else 0

def OmMarketOrderState.toLive (state : OmMarketOrderState) (orderId : Nat) : LiveOrder :=
  ⟨orderId, state.productId, state.isBid, state.price, state.remaining⟩

def OmMarketPublicWorker.SlabFits (worker : OmMarketPublicWorker) (rec : OmWalRecord) : Prop :=
  InsertFits worker.productHasSubs worker.slab worker.ladders rec

instance (worker : OmMarketPublicWorker) (rec : OmWalRecord) : Decidable (worker.SlabFits rec) :=
  inferInstanceAs (Decidable (InsertFits ..))

/-- A public worker knows the live orders of its products that have volume, and no others. -/
structure PublicOrders (worker : OmMarketPublicWorker) (live : List LiveOrder) : Prop where
  view : ∀ id, ((worker.orders id).filter (·.remaining ≠ 0)).map (·.toLive id) =
    (liveAt live id).filter fun o => worker.productHasSubs o.productId = true ∧ o.remaining ≠ 0
  active : ∀ {id state}, worker.orders id = some state → state.remaining ≠ 0 → state.active = true

/-- A public worker that has processed the records behind `live`; the totals were `base` at the
last clear. -/
structure PublicInv (worker : OmMarketPublicWorker) (live : List LiveOrder)
    (base : Nat → Bool → Nat → Nat) : Prop where
  orders : PublicOrders worker live
  ids : (live.map (·.orderId)).Nodup
  ladders : LaddersShow worker.slab worker.ladders (servedTotal worker.productHasSubs live)
  deltas : ∀ {p} b x, worker.productHasSubs p = true →
    ((worker.deltas p b).entry x).delta = (liveTotal live p b x : Int) - base p b x
  inRange : ∀ {p}, worker.productHasSubs p = true → p < worker.maxProducts

section Deltas

variable {side side' : DeltaSide} {price : Nat} {d : Int}

theorem omMarketDeltaAdd_public (h : omMarketDeltaAdd side price d 0 false = (.ok, side')) (x : Nat) :
    (side'.entry x).delta = (side.entry x).delta + if x = price then d else 0 := by
  unfold omMarketDeltaAdd at h
  split at h
  · cases h
  split at h
  · next hzero =>
    cases h
    rw [hzero.1, ite_self, Int.add_zero]
  dsimp only at h
  split at h
  · cases h
  rw [if_neg Bool.false_ne_true] at h
  cases h
  rcases eq_or_ne x price with rfl | hne
  · rw [entry_set_self, if_pos rfl]
  · rw [entry_set_ne hne, if_neg hne, Int.add_zero]

theorem publicRecordChange_ok {worker worker' : OmMarketPublicWorker} {p : Nat} {b : Bool}
    (h : worker.recordChange p price b d = (.ok, worker')) :
    worker' = { worker with deltas := worker'.deltas, dirty := worker'.dirty } ∧
      ∀ p' b' x, ((worker'.deltas p' b').entry x).delta =
        ((worker.deltas p' b').entry x).delta + if p' = p ∧ b' = b ∧ x = price then d else 0 := by
  unfold recordChange at h
  split at h
  · dsimp only at h
    cases hadd : omMarketDeltaAdd (worker.deltas p b) price d 0 false with
    | mk err side =>
      simp only [hadd] at h
      split at h
      · cases h
        refine ⟨rfl, fun p' b' x => ?_⟩
        dsimp only
        rcases eq_or_ne p' p with rfl | hp
        · rcases eq_or_ne b' b with rfl | hb
          · rw [update_self, update_self, omMarketDeltaAdd_public hadd]
            simp
          · rw [update_self, update_of_ne hb]
            simp [hb]
        · rw [update_of_ne hp]
          simp [hp]
      · next hne =>
        obtain ⟨herr, -⟩ := Prod.mk.inj h
        exact absurd herr hne
  · cases h

end Deltas

theorem price_ne_uint64Max {price : Nat} (h : price ≤ int64Max) : price ≠ uint64Max := by
  unfold int64Max at h
  unfold uint64Max
  omega

theorem recordChange_takes {worker : OmMarketPublicWorker} {p price : Nat} {isBid : Bool} {d : Int}
    (hp : p < worker.maxProducts) (hprice : price ≤ int64Max)
    (h : ¬deltaOverflows ((worker.deltas p isBid).entry price) d) :
    (worker.recordChange p price isBid d).1 = .ok := by
  have hne := price_ne_uint64Max hprice
  have hadd : (omMarketDeltaAdd (worker.deltas p isBid) price d 0 false).1 = .ok := by
    unfold omMarketDeltaAdd
    rw [if_neg hne]
    split
    · rfl
    · dsimp only
      rw [if_neg h]
      rfl
  unfold recordChange
  rw [if_pos hp]
  dsimp only
  rw [hadd]

section Orders

variable {worker worker' : OmMarketPublicWorker} {live live' : List LiveOrder} {id : Nat}
  {state' : Option OmMarketOrderState}

theorem PublicOrders.cases (h : PublicOrders worker live) (id : Nat) :
    (∃ state, worker.orders id = some state ∧ state.active = true ∧ state.remaining ≠ 0 ∧
      liveAt live id = some (state.toLive id) ∧ worker.productHasSubs state.productId = true) ∨
    (∀ state, worker.orders id = some state → state.remaining = 0) ∧
      ∀ o, liveAt live id = some o → worker.productHasSubs o.productId = true → o.remaining = 0 := by
  have hview := h.view id
  by_cases hpos : ∃ state, worker.orders id = some state ∧ state.remaining ≠ 0
  · obtain ⟨state, hstate, hne⟩ := hpos
    rw [hstate, Option.filter_some_pos (by simpa using hne), Option.map_some] at hview
    obtain ⟨hat, hserved⟩ := Option.filter_eq_some_iff.mp hview.symm
    exact .inl ⟨state, hstate, h.active hstate hne, hne, hat, (of_decide_eq_true hserved).1⟩
  · have hzero : ∀ state, worker.orders id = some state → state.remaining = 0 :=
      fun state hstate => by_contra fun hne => hpos ⟨state, hstate, hne⟩
    refine .inr ⟨hzero, fun o ho hserved => by_contra fun hne => ?_⟩
    have hnone : (worker.orders id).filter (·.remaining ≠ 0) = none :=
      Option.filter_eq_none_iff.mpr fun state hstate => by simpa using hzero state hstate
    rw [hnone, ho, Option.filter_some_pos (by simpa using ⟨hserved, hne⟩)] at hview
    cases hview

theorem view_toLive {serves : Nat → Bool}
    (h : ∀ state, state' = some state → serves state.productId = true) :
    (state'.filter (·.remaining ≠ 0)).map (·.toLive id) =
      (state'.map (·.toLive id)).filter fun o => serves o.productId = true ∧ o.remaining ≠ 0 := by
  cases state' with
  | none => rfl
  | some state =>
    have hserved := h state rfl
    by_cases hzero : state.remaining = 0
    · simp [Option.filter, OmMarketOrderState.toLive, hzero]
    · simp [Option.filter, OmMarketOrderState.toLive, hzero, hserved]

theorem PublicOrders.update {o' : Option LiveOrder}
    (h : PublicOrders worker live) (hserves : worker'.productHasSubs = worker.productHasSubs)
    (horders : worker'.orders = update worker.orders id state')
    (hlive : liveAt live' = update (liveAt live) id o')
    (hview : (state'.filter (·.remaining ≠ 0)).map (·.toLive id) =
      o'.filter fun o => worker.productHasSubs o.productId = true ∧ o.remaining ≠ 0)
    (hactive : ∀ state, state' = some state → state.remaining ≠ 0 → state.active = true) :
    PublicOrders worker' live' where
  view id' := by
    rw [hserves, horders, hlive]
    rcases eq_or_ne id' id with rfl | hne
    · rw [update_self, update_self]
      exact hview
    · rw [update_of_ne hne, update_of_ne hne]
      exact h.view id'
  active {id' state} hstate hpos := by
    rw [horders] at hstate
    rcases eq_or_ne id' id with rfl | hne
    · rw [update_self] at hstate
      exact hactive state hstate hpos
    · rw [update_of_ne hne] at hstate
      exact h.active hstate hpos

end Orders

/-- One level and one order change, and the change is recorded. -/
structure PublicMove (worker worker' : OmMarketPublicWorker) (p x : Nat) (b : Bool) (d : Int)
    (out : OmMarketLevelSlab × OmMarketLadder) (id : Nat) (state : Option OmMarketOrderState) :
    Prop where
  serves : worker'.productHasSubs = worker.productHasSubs
  products : worker'.maxProducts = worker.maxProducts
  slab : worker'.slab = out.1
  ladders : worker'.ladders = update worker.ladders p out.2
  orders : worker'.orders = update worker.orders id state
  deltas : ∀ p' b' x', ((worker'.deltas p' b').entry x').delta =
    ((worker.deltas p' b').entry x').delta + if p' = p ∧ b' = b ∧ x' = x then d else 0

section Process

variable {worker worker' : OmMarketPublicWorker} {state : OmMarketOrderState} {rec : OmWalCancel}

theorem processInsert_move {rec : OmWalInsert} (hok : worker.processInsert rec = (.ok, worker')) :
    worker.productHasSubs rec.productId = false ∧ worker' = worker ∨
      worker.productHasSubs rec.productId = true ∧ ∃ out,
        omLadderAddQty worker.slab (worker.ladders rec.productId) rec.price rec.volRemain
          (omIsBid rec.flags) = (.ok, out) ∧
        PublicMove worker worker' rec.productId rec.price (omIsBid rec.flags) rec.volRemain out
          rec.orderId (some (insertState rec)) := by
  unfold processInsert at hok
  split at hok
  · cases hok
  split at hok
  · next hsubs =>
    cases hok
    exact .inl ⟨by simpa using hsubs, rfl⟩
  next hsubs =>
  dsimp only at hok
  split at hok
  · next out hadd =>
    obtain ⟨hsame, hdeltas⟩ := publicRecordChange_ok hok
    refine .inr ⟨by simpa using hsubs, out, hadd, ?_⟩
    rw [hsame]
    exact ⟨rfl, rfl, rfl, rfl, rfl, hdeltas⟩
  · next hne _ =>
    obtain ⟨herr, -⟩ := Prod.mk.inj hok
    exact absurd herr hne

theorem processInsert_takes {rec : OmWalInsert} {out : OmMarketLevelSlab × OmMarketLadder}
    (hprice : rec.price ≤ int64Max) (hvolume : rec.volRemain ≤ int64Max)
    (hp : rec.productId < worker.maxProducts)
    (hadd : omLadderAddQty worker.slab (worker.ladders rec.productId) rec.price rec.volRemain
      (omIsBid rec.flags) = (.ok, out))
    (hroom : ¬deltaOverflows ((worker.deltas rec.productId (omIsBid rec.flags)).entry rec.price)
      rec.volRemain) : (worker.processInsert rec).1 = .ok := by
  unfold processInsert
  rw [if_neg (by omega)]
  split
  · rfl
  · dsimp only [setOrder]
    rw [hadd]
    exact recordChange_takes hp hprice hroom

theorem passes_over (hzero : state.remaining = 0) :
    (!state.active || state.remaining == 0) = true := by
  rw [hzero, beq_self_eq_true, Bool.or_true]

theorem goes_on (hactive : state.active = true)
    (hne : state.remaining ≠ 0) : (!state.active || state.remaining == 0) = false := by
  rw [hactive, Bool.not_true, Bool.false_or]
  exact beq_false_of_ne hne

theorem processCancel_idle
    (hzero : ∀ state, worker.orders rec.orderId = some state → state.remaining = 0) :
    worker.processCancel rec = (.ok, worker) := by
  unfold processCancel
  split
  · rfl
  · next state hstate => rw [if_pos (passes_over (hzero state hstate))]

theorem processCancel_move
    (hstate : worker.orders rec.orderId = some state) (hactive : state.active = true)
    (hne : state.remaining ≠ 0) (hok : worker.processCancel rec = (.ok, worker')) :
    PublicMove worker worker' state.productId state.price state.isBid (-state.remaining)
      (omLadderSubQty worker.slab (worker.ladders state.productId) state.price state.remaining
        state.isBid) rec.orderId none := by
  unfold processCancel at hok
  rw [hstate] at hok
  dsimp only at hok
  rw [goes_on hactive hne, if_neg Bool.false_ne_true] at hok
  obtain ⟨mid, hmid, rfl⟩ := thenDo_ok hok
  obtain ⟨hsame, hdeltas⟩ := publicRecordChange_ok hmid
  rw [hsame]
  exact ⟨rfl, rfl, rfl, rfl, update_idem .., hdeltas⟩

theorem processMatch_idle {rec : OmWalMatch}
    (hzero : ∀ state, worker.orders rec.makerId = some state → state.remaining = 0)
    (hok : worker.processMatch rec = (.ok, worker')) : worker' = worker := by
  unfold processMatch at hok
  split at hok
  · cases hok
  split at hok
  · cases hok
    rfl
  · next state hstate =>
    rw [if_pos (passes_over (hzero state hstate))] at hok
    cases hok
    rfl

theorem processMatch_move {rec : OmWalMatch}
    (hstate : worker.orders rec.makerId = some state) (hactive : state.active = true)
    (hne : state.remaining ≠ 0) (hok : worker.processMatch rec = (.ok, worker')) :
    PublicMove worker worker' state.productId state.price state.isBid
      (-(min rec.volume state.remaining : Nat))
      (omLadderSubQty worker.slab (worker.ladders state.productId) state.price
        (min rec.volume state.remaining) state.isBid) rec.makerId
      (if state.remaining - min rec.volume state.remaining = 0 then none
        else some { state with remaining := state.remaining - min rec.volume state.remaining }) := by
  unfold processMatch at hok
  split at hok
  · cases hok
  rw [hstate] at hok
  dsimp only at hok
  rw [goes_on hactive hne, if_neg Bool.false_ne_true] at hok
  obtain ⟨mid, hmid, rfl⟩ := thenDo_ok hok
  obtain ⟨hsame, hdeltas⟩ := publicRecordChange_ok hmid
  rw [hsame]
  split
  · exact ⟨rfl, rfl, rfl, rfl, update_idem .., hdeltas⟩
  · exact ⟨rfl, rfl, rfl, rfl, rfl, hdeltas⟩

def SameProducts (worker worker' : OmMarketPublicWorker) : Prop :=
  worker'.productHasSubs = worker.productHasSubs ∧ worker'.maxProducts = worker.maxProducts

theorem recordChange_sameProducts (worker : OmMarketPublicWorker) (p price : Nat) (b : Bool)
    (d : Int) : SameProducts worker (worker.recordChange p price b d).2 := by
  unfold recordChange
  split
  · dsimp only
    split <;> exact ⟨rfl, rfl⟩
  · exact ⟨rfl, rfl⟩

theorem thenDo_sameProducts {out : OmError × OmMarketPublicWorker}
    {f : OmMarketPublicWorker → OmMarketPublicWorker} (h : SameProducts worker out.2)
    (hf : ∀ w, SameProducts w (f w)) : SameProducts worker (thenDo out f).2 := by
  unfold thenDo
  split
  · next w => exact ⟨(hf w).1.trans h.1, (hf w).2.trans h.2⟩
  · exact h

theorem publicProcess_sameProducts (worker : OmMarketPublicWorker) (rec : OmWalRecord) :
    SameProducts worker (omMarketPublicProcess worker rec).2 := by
  cases rec with
  | insert rec =>
    simp only [omMarketPublicProcess, processInsert]
    split
    · exact ⟨rfl, rfl⟩
    split
    · exact ⟨rfl, rfl⟩
    split
    · exact recordChange_sameProducts ..
    · exact ⟨rfl, rfl⟩
  | cancel rec | deactivate rec =>
    simp only [omMarketPublicProcess, processCancel]
    split
    · exact ⟨rfl, rfl⟩
    split
    · exact ⟨rfl, rfl⟩
    · exact thenDo_sameProducts (recordChange_sameProducts ..) fun _ => ⟨rfl, rfl⟩
  | matched rec =>
    simp only [omMarketPublicProcess, processMatch]
    split
    · exact ⟨rfl, rfl⟩
    split
    · exact ⟨rfl, rfl⟩
    split
    · exact ⟨rfl, rfl⟩
    · refine thenDo_sameProducts (recordChange_sameProducts ..) fun w => ?_
      split <;> exact ⟨rfl, rfl⟩
  | activate rec =>
    simp only [omMarketPublicProcess, processActivate]
    split
    · exact ⟨rfl, rfl⟩
    split
    · exact ⟨rfl, rfl⟩
    split
    · exact recordChange_sameProducts ..
    · exact ⟨rfl, rfl⟩
  | other => exact ⟨rfl, rfl⟩

theorem processActivate_idle {live : List LiveOrder}
    (h : PublicOrders worker live) : worker.processActivate rec = (.ok, worker) := by
  unfold processActivate
  split
  · rfl
  · next state hstate =>
    by_cases hzero : state.remaining = 0
    · rw [if_pos (by rw [hzero, beq_self_eq_true, Bool.or_true])]
    · rw [if_pos (by rw [h.active hstate hzero, Bool.true_or])]

end Process

end VeloxMatch
