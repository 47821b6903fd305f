import VeloxMatch.PrivateAtomic

namespace VeloxMatch

open OmMarketWorker Function

section Process

variable {worker worker' : OmMarketWorker} {id : Nat} {state' : Option OmMarketOrderState}

theorem ViewerTables.of_sameTables (h : ViewerTables worker) (hsame : SameTables worker worker') :
    ViewerTables worker' := by
  rw [hsame]
  exact ⟨h.indices, h.found, h.hasSubs⟩

/-- A stored order of a private worker, in any state that calls lead to. -/
def PrivateOrderSafe (worker : OmMarketWorker) (state : OmMarketOrderState) : Prop :=
  state.active = true ∧ state.price ≤ int64Max ∧ state.productId < worker.maxProducts

theorem PrivateSafe.update (h : PrivateSafe worker)
    (hsame : SameTables worker worker') (htracked : Tracked worker'.ladderDeltas)
    (horders : worker'.globalOrders = update worker.globalOrders id state')
    (hnew : ∀ state, state' = some state → PrivateOrderSafe worker state) : PrivateSafe worker' where
  tables := h.tables.of_sameTables hsame
  tracked := htracked
  orders {id' state} hstate := by
    have hmax : worker'.maxProducts = worker.maxProducts := by rw [hsame]
    rw [horders] at hstate
    rw [hmax]
    rcases eq_or_ne id' id with rfl | hne
    · rw [update_self] at hstate
      exact hnew state hstate
    · rw [update_of_ne hne] at hstate
      exact h.orders hstate

theorem PrivateSafe.same (h : PrivateSafe worker) (hsame : SameTables worker worker')
    (htracked : Tracked worker'.ladderDeltas) (horders : worker'.globalOrders = worker.globalOrders) :
    PrivateSafe worker' :=
  h.update hsame htracked (horders.trans (update_eq_self 0 _).symm)
    fun _ hstate => h.orders hstate

theorem Tracked.fanOut {price : Nat} {isBid : Bool} {change : Nat → Option Int} {idxs : List Nat}
    (h : Tracked worker.ladderDeltas) :
    Tracked (fanOut price isBid change idxs worker).2.ladderDeltas := by
  rw [fanOut_eq_recordMoves]
  exact h.recordMoves

theorem reduceOrder_orders (worker : OmMarketWorker) (state : OmMarketOrderState) (id post : Nat) :
    (worker.reduceOrder state id post).globalOrders =
      update worker.globalOrders id (matchedState state post) := by
  unfold reduceOrder matchedState
  split <;> rfl

theorem PrivateSafe.thenDo {out : OmError × OmMarketWorker} {f : OmMarketWorker → OmMarketWorker}
    (h : PrivateSafe worker) (hout : SameButDeltas worker out.2)
    (htracked : Tracked out.2.ladderDeltas) (hf : ∀ w, SameTables w (f w))
    (hdeltas : ∀ w, (f w).ladderDeltas = w.ladderDeltas)
    (horders : ∀ w, (f w).globalOrders = Function.update w.globalOrders id state')
    (hnew : ∀ state, state' = some state → PrivateOrderSafe worker state) :
    PrivateSafe (VeloxMatch.thenDo out f).2 := by
  have hkeep : out.2.globalOrders = worker.globalOrders := by rw [hout]
  have hmid := h.same hout.sameTables htracked hkeep
  unfold VeloxMatch.thenDo
  split
  · next w =>
    refine hmid.update (hf w) ?_ (horders w) fun state hstate => ?_
    · rw [hdeltas]
      exact htracked
    · have hmax : w.maxProducts = worker.maxProducts := by rw [show w = _ from hout]
      obtain ⟨hactive, hprice, hp⟩ := hnew state hstate
      exact ⟨hactive, hprice, hmax ▸ hp⟩
  · exact hmid

theorem PrivateSafe.process (h : PrivateSafe worker) (rec : OmWalRecord) :
    PrivateSafe (omMarketWorkerProcess worker rec).2 := by
  cases rec with
  | insert rec =>
    simp only [omMarketWorkerProcess, processInsert]
    split
    · exact h
    next hrange =>
    split
    · exact h
    next hsubs =>
    split
    · next out _ =>
      have hserved : worker.productHasSubs rec.productId = true := by simpa using hsubs
      obtain ⟨hprice, -⟩ := not_or.mp hrange
      have hstart : PrivateSafe ((worker.setLadder rec.productId out).addOrder rec) := by
        refine h.update rfl h.tracked rfl ?_
        rintro _ ⟨⟩
        exact ⟨rfl, Nat.not_lt.mp hprice, h.tables.hasSubs hserved⟩
      refine hstart.same (fanOut_sameTables _ _) hstart.tracked.fanOut ?_
      rw [show (fanOut _ _ _ _ _).2 = _ from fanOut_same rfl]
    · exact h.same rfl h.tracked rfl
  | cancel rec | deactivate rec =>
    simp only [omMarketWorkerProcess, processCancel]
    split
    · exact h
    split
    · exact h
    exact h.thenDo (fanOut_same rfl) h.tracked.fanOut (fun _ => rfl) (fun _ => rfl) (fun _ => rfl)
      (by simp)
  | matched rec =>
    simp only [omMarketWorkerProcess, processMatch]
    split
    · exact h
    split
    · exact h
    next state hstate =>
    split
    · exact h
    refine h.thenDo (fanOut_same rfl) h.tracked.fanOut (fun _ => (reduceOrder_tables ..).1)
      (fun _ => (reduceOrder_tables ..).2) (fun w => reduceOrder_orders ..) fun state' hstate' => ?_
    unfold matchedState at hstate'
    split at hstate'
    · cases hstate'
    · cases hstate'
      have hsafe : PrivateOrderSafe worker state := h.orders hstate
      exact hsafe
  | activate rec =>
    rw [show omMarketWorkerProcess worker (.activate rec) = _ from h.activate_ok rec]
    exact h
  | other => exact h

end Process

/-- The calls that change a private worker; those that name an organisation and a product are the
calls for their ladder. -/
inductive PrivateCall where
  | process (rec : OmWalRecord)
  | clearDeltas (ladder : Nat) (side : UInt16)
  | clearDirty (ladder : Nat)
  | compactDirty

variable (worker : OmMarketWorker)

def privateCallStep : PrivateCall → Option OmMarketWorker
  | .process rec => some (omMarketWorkerProcess worker rec).2
  | .clearDeltas ladder side =>
    (omMarketWorkerClearDeltasByLadder worker ladder side).map (·.2)
  | .clearDirty ladder => some (omMarketWorkerClearDirtyByLadder worker ladder).2
  | .compactDirty => some (omMarketWorkerCompactDirty worker)

def privateCallOk : PrivateCall → Prop
  | .process rec => (omMarketWorkerProcess worker rec).1 ≠ .slabFull
  | _ => True

instance : (c : PrivateCall) → Decidable (privateCallOk worker c)
  | .process _ => inferInstanceAs (Decidable (_ ≠ _))
  | .clearDeltas .. | .clearDirty _ | .compactDirty => instDecidableTrue

section Run

variable {worker worker' : OmMarketWorker}

theorem PrivateSafe.step {c : PrivateCall} (h : PrivateSafe worker)
    (hs : privateCallStep worker c = some worker') : PrivateSafe worker' := by
  cases c with
  | process rec =>
    cases hs
    exact h.process rec
  | clearDeltas ladder side =>
    obtain ⟨out, hclear, rfl⟩ := Option.map_eq_some_iff.mp hs
    unfold omMarketWorkerClearDeltasByLadder at hclear
    split at hclear
    · cases hclear
      exact h
    obtain ⟨qty, base, ds, htracks⟩ := h.tracked ladder (sideIsBid side)
    obtain ⟨map, hmap, hcleared⟩ := htracks.clear
    dsimp only at hclear
    rw [hmap] at hclear
    cases hclear
    exact h.same rfl (h.tracked.update hcleared ladder (sideIsBid side)) rfl
  | clearDirty ladder =>
    cases hs
    unfold omMarketWorkerClearDirtyByLadder
    split
    · exact h
    · exact h.same rfl h.tracked rfl
  | compactDirty =>
    cases hs
    exact h.same rfl h.tracked rfl

theorem privateSafe_init {maxProducts slabCapacity : Nat} {subs : List OmMarketSubscription}
    {dealable : OmMarketDealableFn} (_ : SubsInRange maxProducts subs)
    (hinit : omMarketWorkerInit maxProducts subs slabCapacity dealable = some worker) :
    PrivateSafe worker := by
  have htables := omMarketWorkerInit_viewers hinit
  cases (Option.ite_none_left_eq_some.mp hinit).2
  exact ⟨htables, fun _ _ => ⟨_, _, _, .empty⟩, nofun⟩

end Run

def hugeBid (orderId : Nat) : OmWalRecord :=
  .insert ⟨orderId, 100, int64Max, int64Max, 2, 0, 0, 0, 0, 0, [], []⟩

def highBid : OmWalRecord := .insert ⟨2, int64Max + 1, 5, 5, 2, 0, 0, 0, 0, 0, [], []⟩

end VeloxMatch
