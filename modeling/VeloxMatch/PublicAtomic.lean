import VeloxMatch.PublicLadder

namespace VeloxMatch

open Function OmMarketPublicWorker

structure SamePublicView (worker worker' : OmMarketPublicWorker) : Prop where
  qty : ∀ p side x, omMarketPublicGetQty worker' p side x = omMarketPublicGetQty worker p side x
  full : ∀ p side max,
    omMarketPublicCopyFull worker' p side max = omMarketPublicCopyFull worker p side max
  deltas : ∀ p side max,
    omMarketPublicCopyDeltas worker' p side max = omMarketPublicCopyDeltas worker p side max
  count : ∀ p side, omMarketPublicDeltaCount worker' p side = omMarketPublicDeltaCount worker p side
  dirty : ∀ p, omMarketPublicIsDirty worker' p = omMarketPublicIsDirty worker p

/-- A record that is refused changes nothing that can be seen. -/
def PublicWhole (worker : OmMarketPublicWorker) (rec : OmWalRecord) : Prop :=
  (omMarketPublicProcess worker rec).1 ≠ .ok →
    SamePublicView worker (omMarketPublicProcess worker rec).2

/-- The level of a price, if there is one, has room for a quantity. -/
def LevelTakes (slab : OmMarketLevelSlab) (ladder : OmMarketLadder) (price qty : Nat) : Prop :=
  match ladder.priceToSlot price with
  | none => True
  | some i => (slab.slots i).qty + qty ≤ uint64Max

instance (slab : OmMarketLevelSlab) (ladder : OmMarketLadder) (price qty : Nat) :
    Decidable (LevelTakes slab ladder price qty) := by
  unfold LevelTakes
  split <;> infer_instance

namespace OmMarketPublicWorker

/-- The level of an order loses `amount`, but the changes of its price have no room for it. -/
def OrderSplits (worker : OmMarketPublicWorker) (state : OmMarketOrderState) (amount : Nat) : Prop :=
  state.active = true ∧ (worker.ladders state.productId).priceToSlot state.price ≠ none ∧
    deltaOverflows ((worker.deltas state.productId state.isBid).entry state.price) (-amount)

/-- The level of the record's price changes, but the changes of the price have no room for it. -/
def Splits (worker : OmMarketPublicWorker) : OmWalRecord → Prop
  | .insert rec => rec.price ≤ int64Max ∧ rec.volRemain ≤ int64Max ∧
      worker.productHasSubs rec.productId = true ∧
      LevelTakes worker.slab (worker.ladders rec.productId) rec.price rec.volRemain ∧
      deltaOverflows ((worker.deltas rec.productId (omIsBid rec.flags)).entry rec.price)
        rec.volRemain
  | .cancel rec | .deactivate rec =>
    ∃ state, worker.orders rec.orderId = some state ∧ worker.OrderSplits state state.remaining
  | .matched rec => rec.volume ≤ int64Max ∧ ∃ state, worker.orders rec.makerId = some state ∧
      worker.OrderSplits state (min rec.volume state.remaining)
  | .activate _ | .other _ _ => False

end OmMarketPublicWorker

section Deltas

variable {side : DeltaSide} {x y : Nat}

theorem lookup_set_entry (h : side.map.lookup x ≠ none) (y : Nat) :
    (side.set x (side.entry x)).map.lookup y = side.map.lookup y := by
  rcases eq_or_ne y x with rfl | hne
  · obtain ⟨e, he⟩ := Option.ne_none_iff_exists'.mp h
    rw [entry_of_lookup he, he]
    exact AList.lookup_insert _
  · exact lookup_set_ne hne

theorem mem_entries_set_entry (h : side.map.lookup x ≠ none)
    (e : Sigma fun _ : Nat => OmMarketDeltaEntry) :
    e ∈ (side.set x (side.entry x)).map.entries ↔ e ∈ side.map.entries := by
  rw [← AList.mem_lookup_iff, lookup_set_entry h, AList.mem_lookup_iff]

theorem deltaOverflows_ne_zero {e : OmMarketDeltaEntry} {d : Int} (h : deltaOverflows e d) :
    d ≠ 0 := by
  unfold deltaOverflows at h
  omega

theorem lookup_of_overflows {d : Int} (h : deltaOverflows (side.entry x) d)
    (hlow : -(int64Max : Int) ≤ d) (hhigh : d ≤ int64Max) : side.map.lookup x ≠ none := by
  intro hnone
  have hentry : side.entry x = ⟨some 0, false, 0, 0⟩ := by
    rw [DeltaSide.entry, hnone]
    rfl
  unfold deltaOverflows at h
  rw [hentry] at h
  dsimp only at h
  omega

end Deltas

section Levels

variable {slab : OmMarketLevelSlab} {ladder : OmMarketLadder} {price qty : Nat} {isBid : Bool}
  {out : OmMarketLevelSlab × OmMarketLadder}

theorem priceToSlot_linkAfter (slab : OmMarketLevelSlab) (ladder : OmMarketLadder) (slot : Nat)
    (after : Option Nat) (isBid : Bool) :
    (omLadderLinkAfter slab ladder slot after isBid).2.priceToSlot = ladder.priceToSlot :=
  priceToSlot_setSide ..

theorem omLadderAddQty_seen (hqty : qty ≠ 0)
    (h : omLadderAddQty slab ladder price qty isBid = (.ok, out)) :
    omLadderGetQty out.1 out.2 price ≠ omLadderGetQty slab ladder price := by
  unfold omLadderAddQty at h
  rw [if_neg hqty] at h
  unfold omLadderGetQty
  split at h
  · next idx hidx =>
    split at h
    · cases h
    · cases h
      rw [hidx, Option.map_some, Option.map_some, OmMarketLevelSlab.slots_modify_self]
      intro heq
      have hqty' : (slab.slots idx).qty + qty = (slab.slots idx).qty := Option.some.inj heq
      omega
  · next hnone =>
    split at h
    · cases h
    · cases h
      rw [hnone, priceToSlot_linkAfter]
      dsimp only
      rw [update_self]
      exact nofun

theorem omLadderAddQty_refused {err : OmError}
    (h : omLadderAddQty slab ladder price qty isBid = (err, out)) (herr : err ≠ .ok)
    (hfull : err ≠ .slabFull) : out = (slab, ladder) ∧ ¬LevelTakes slab ladder price qty := by
  unfold omLadderAddQty at h
  split at h
  · cases h
    exact absurd rfl herr
  split at h
  · next idx hidx =>
    split at h
    · next hlt =>
      cases h
      refine ⟨rfl, fun htakes => ?_⟩
      rw [LevelTakes, hidx] at htakes
      dsimp only at htakes
      omega
    · cases h
      exact absurd rfl herr
  · split at h
    · cases h
      exact absurd rfl hfull
    · cases h
      exact absurd rfl herr

theorem omLadderAddQty_takes (h : omLadderAddQty slab ladder price qty isBid = (.ok, out))
    (hqty : qty ≠ 0) : LevelTakes slab ladder price qty := by
  unfold omLadderAddQty at h
  unfold LevelTakes
  rw [if_neg hqty] at h
  cases hidx : ladder.priceToSlot price with
  | none => trivial
  | some idx =>
    rw [hidx] at h
    dsimp only at h ⊢
    split at h
    · cases h
    · omega

theorem omLadderSubQty_seen (hqty : qty ≠ 0) (hlevel : ladder.priceToSlot price ≠ none) :
    omLadderGetQty (omLadderSubQty slab ladder price qty isBid).1
        (omLadderSubQty slab ladder price qty isBid).2 price ≠ omLadderGetQty slab ladder price := by
  obtain ⟨idx, hidx⟩ := Option.ne_none_iff_exists'.mp hlevel
  unfold omLadderSubQty omLadderGetQty
  rw [if_neg hqty, hidx]
  dsimp only
  split
  · dsimp only [omLadderUnlink]
    rw [update_self]
    exact nofun
  · dsimp only
    rw [hidx, Option.map_some, Option.map_some, OmMarketLevelSlab.slots_modify_self]
    intro heq
    have hqty' : (slab.slots idx).qty - qty = (slab.slots idx).qty := Option.some.inj heq
    omega

theorem omLadderSubQty_none (hlevel : ladder.priceToSlot price = none) :
    omLadderSubQty slab ladder price qty isBid = (slab, ladder) := by
  unfold omLadderSubQty
  split
  · rfl
  · rw [hlevel]

end Levels

/-- A stored order of a public worker, in any state that calls lead to. -/
structure PublicOrderSafe (worker : OmMarketPublicWorker) (state : OmMarketOrderState) : Prop where
  served : worker.productHasSubs state.productId = true
  price : state.price ≤ int64Max
  remaining : state.remaining ≤ int64Max
  active : state.active = true ∨ state.remaining = 0

structure PublicSafe (worker : OmMarketPublicWorker) : Prop where
  inRange : ∀ {p}, worker.productHasSubs p = true → p < worker.maxProducts
  orders : ∀ {id state}, worker.orders id = some state → PublicOrderSafe worker state

section Safe

variable {worker worker' : OmMarketPublicWorker} {id : Nat} {state' : Option OmMarketOrderState}

theorem PublicOrderSafe.same {state : OmMarketOrderState} (h : PublicOrderSafe worker state)
    (hsame : SameProducts worker worker') : PublicOrderSafe worker' state :=
  ⟨hsame.1 ▸ h.served, h.price, h.remaining, h.active⟩

theorem PublicSafe.same (h : PublicSafe worker) (hsame : SameProducts worker worker')
    (horders : worker'.orders = worker.orders) : PublicSafe worker' where
  inRange hp := hsame.2 ▸ h.inRange (hsame.1 ▸ hp)
  orders hstate := (h.orders (horders ▸ hstate)).same hsame

theorem PublicSafe.update (h : PublicSafe worker) (hsame : SameProducts worker worker')
    (horders : worker'.orders = update worker.orders id state')
    (hnew : ∀ state, state' = some state → PublicOrderSafe worker state) : PublicSafe worker' where
  inRange hp := hsame.2 ▸ h.inRange (hsame.1 ▸ hp)
  orders {id' state} hstate := by
    rw [horders] at hstate
    rcases eq_or_ne id' id with rfl | hne
    · rw [update_self] at hstate
      exact (hnew state hstate).same hsame
    · rw [update_of_ne hne] at hstate
      exact (h.orders hstate).same hsame

theorem recordChange_orders (worker : OmMarketPublicWorker) (p price : Nat) (b : Bool) (d : Int) :
    (worker.recordChange p price b d).2.orders = worker.orders := by
  unfold recordChange
  split
  · dsimp only
    split <;> rfl
  · rfl

def OrderUpdate (worker worker' : OmMarketPublicWorker) : Prop :=
  ∃ id state', worker'.orders = update worker.orders id state' ∧
    ∀ state, state' = some state → PublicOrderSafe worker state

theorem PublicSafe.orderUpdate_of_eq (h : PublicSafe worker)
    (horders : worker'.orders = worker.orders) : OrderUpdate worker worker' :=
  ⟨0, worker.orders 0, horders.trans (update_eq_self ..).symm, fun _ hs => h.orders hs⟩

theorem thenDo_orders {out : OmError × OmMarketPublicWorker}
    {f : OmMarketPublicWorker → OmMarketPublicWorker}
    (hout : out.2.orders = update worker.orders id state')
    (hf : ∀ w, (f w).orders = w.orders ∨ (f w).orders = update w.orders id none)
    (hnew : ∀ state, state' = some state → PublicOrderSafe worker state) :
    OrderUpdate worker (thenDo out f).2 := by
  unfold thenDo
  split
  · next w =>
    rcases hf w with hkeep | hdrop
    · exact ⟨id, state', hkeep.trans hout, hnew⟩
    · refine ⟨id, none, hdrop.trans ?_, nofun⟩
      rw [show w.orders = _ from hout, update_idem]
  · exact ⟨id, state', hout, hnew⟩

theorem PublicSafe.activate_ok (h : PublicSafe worker) (rec : OmWalCancel) :
    worker.processActivate rec = (.ok, worker) := by
  unfold processActivate
  split
  · rfl
  next state hstate =>
  refine if_pos ?_
  rcases (h.orders hstate).active with hactive | hzero
  · rw [hactive]
    rfl
  · simp [hzero]

theorem PublicSafe.process_orders (h : PublicSafe worker) (rec : OmWalRecord) :
    OrderUpdate worker (omMarketPublicProcess worker rec).2 := by
  cases rec with
  | insert rec =>
    simp only [omMarketPublicProcess, processInsert]
    split
    · exact h.orderUpdate_of_eq rfl
    next hrange =>
    split
    · exact h.orderUpdate_of_eq rfl
    next hsubs =>
    have hserved : worker.productHasSubs rec.productId = true := by simpa using hsubs
    have hnew : ∀ state, some (insertState rec) = some state →
        PublicOrderSafe worker state := by
      rintro _ ⟨⟩
      obtain ⟨hprice, hvol⟩ := not_or.mp hrange
      exact ⟨hserved, Nat.not_lt.mp hprice, Nat.not_lt.mp hvol, .inl rfl⟩
    split
    · exact ⟨rec.orderId, _, recordChange_orders .., hnew⟩
    · exact ⟨rec.orderId, _, rfl, hnew⟩
  | cancel rec | deactivate rec =>
    simp only [omMarketPublicProcess, processCancel]
    split
    · exact h.orderUpdate_of_eq rfl
    next state hstate =>
    split
    · exact h.orderUpdate_of_eq rfl
    refine thenDo_orders (recordChange_orders ..) (fun w => .inr rfl) ?_
    rintro _ ⟨⟩
    have hsafe := h.orders hstate
    exact ⟨hsafe.served, hsafe.price, Nat.zero_le _, .inr rfl⟩
  | matched rec =>
    simp only [omMarketPublicProcess, processMatch]
    split
    · exact h.orderUpdate_of_eq rfl
    split
    · exact h.orderUpdate_of_eq rfl
    next state hstate =>
    split
    · exact h.orderUpdate_of_eq rfl
    next hactive =>
    refine thenDo_orders (recordChange_orders ..) (fun w => ?_) ?_
    · split
      · exact .inr rfl
      · exact .inl rfl
    · rintro _ ⟨⟩
      have hsafe := h.orders hstate
      refine ⟨hsafe.served, hsafe.price, (Nat.sub_le ..).trans hsafe.remaining, .inl ?_⟩
      simp only [Bool.or_eq_true, not_or, Bool.not_eq_true, Bool.not_eq_false'] at hactive
      exact hactive.1
  | activate rec =>
    rw [omMarketPublicProcess, h.activate_ok]
    exact h.orderUpdate_of_eq rfl
  | other => exact h.orderUpdate_of_eq rfl

theorem PublicSafe.process (h : PublicSafe worker) (rec : OmWalRecord) :
    PublicSafe (omMarketPublicProcess worker rec).2 := by
  obtain ⟨id, state', horders, hnew⟩ := h.process_orders rec
  exact h.update (publicProcess_sameProducts worker rec) horders hnew

end Safe

section View

variable {worker worker' : OmMarketPublicWorker} {p price : Nat} {isBid : Bool}

theorem recordChange_overflows {d : Int} (hp : p < worker.maxProducts) (hprice : price ≤ int64Max)
    (h : deltaOverflows ((worker.deltas p isBid).entry price) d) :
    worker.recordChange p price isBid d =
      (.outOfRange, { worker with
        deltas := update worker.deltas p (update (worker.deltas p) isBid
          ((worker.deltas p isBid).set price ((worker.deltas p isBid).entry price))) }) := by
  have hne := price_ne_uint64Max hprice
  have hzero : ¬(d = 0 ∧ (0 : Int) = 0) := fun hz => deltaOverflows_ne_zero h hz.1
  have hadd : omMarketDeltaAdd (worker.deltas p isBid) price d 0 false =
      (.outOfRange, (worker.deltas p isBid).set price ((worker.deltas p isBid).entry price)) := by
    unfold omMarketDeltaAdd
    rw [if_neg hne, if_neg hzero]
    dsimp only
    rw [if_pos h]
  unfold recordChange
  rw [if_pos hp]
  dsimp only
  rw [hadd]

theorem samePublicView_refl (worker : OmMarketPublicWorker) : SamePublicView worker worker :=
  ⟨fun _ _ _ => rfl, fun _ _ _ => rfl, fun _ _ _ => rfl, fun _ _ => rfl, fun _ => rfl⟩

theorem SamePublicView.getQty (h : SamePublicView worker worker') (hsame : SameProducts worker worker')
    (hserved : worker.served p = .ok ()) (price : Nat) :
    omLadderGetQty worker'.slab (worker'.ladders p) price =
      omLadderGetQty worker.slab (worker.ladders p) price := by
  have hget := h.qty p 0 price
  unfold omMarketPublicGetQty served at hget
  unfold served at hserved
  rw [hsame.1, hsame.2, hserved] at hget
  generalize omLadderGetQty worker'.slab (worker'.ladders p) price = qty' at hget ⊢
  generalize omLadderGetQty worker.slab (worker.ladders p) price = qty at hget ⊢
  cases qty <;> cases qty' <;> cases hget <;> rfl

theorem samePublicView_of (hsame : SameProducts worker worker') (hslab : worker'.slab = worker.slab)
    (hladders : worker'.ladders = worker.ladders) (hdirty : worker'.dirty = worker.dirty)
    (hmem : ∀ p b e, e ∈ (worker'.deltas p b).map.entries ↔ e ∈ (worker.deltas p b).map.entries) :
    SamePublicView worker worker' := by
  have hlength : ∀ p b, (worker'.deltas p b).map.entries.length =
      (worker.deltas p b).map.entries.length := fun p b =>
    ((List.perm_ext_iff_of_nodup (AList.nodupKeys _).nodup (AList.nodupKeys _).nodup).mpr
      (hmem p b)).length_eq
  have hserved : ∀ p, worker'.served p = worker.served p := fun p => by
    rw [served, served, hsame.1, hsame.2]
  refine ⟨fun p side x => ?_, fun p side max => ?_, fun p side max => ?_, fun p side => ?_,
    fun p => ?_⟩
  · rw [omMarketPublicGetQty, omMarketPublicGetQty, hserved, hslab, hladders]
  · rw [omMarketPublicCopyFull, omMarketPublicCopyFull, hserved, hslab, hladders]
  · have hset : ∀ f : (Sigma fun _ : Nat => OmMarketDeltaEntry) → OmMarketDelta,
        ((worker'.deltas p (sideIsBid side)).map.entries.map f).toFinset =
          ((worker.deltas p (sideIsBid side)).map.entries.map f).toFinset := fun f => by
      ext e
      simp only [List.mem_toFinset, List.mem_map, hmem]
    rw [omMarketPublicCopyDeltas, omMarketPublicCopyDeltas, hserved]
    dsimp only
    rw [hlength, hset]
  · rw [omMarketPublicDeltaCount, omMarketPublicDeltaCount, hserved, hlength]
  · rw [omMarketPublicIsDirty, omMarketPublicIsDirty, hserved, hdirty]

theorem samePublicView_touch {d : Int} {orders : Nat → Option OmMarketOrderState}
    (h : deltaOverflows ((worker.deltas p isBid).entry price) d) (hlow : -(int64Max : Int) ≤ d)
    (hhigh : d ≤ int64Max) :
    SamePublicView worker { worker with
      deltas := update worker.deltas p (update (worker.deltas p) isBid
        ((worker.deltas p isBid).set price ((worker.deltas p isBid).entry price)))
      orders := orders } := by
  have hlookup := lookup_of_overflows h hlow hhigh
  exact samePublicView_of ⟨rfl, rfl⟩ rfl rfl rfl (forall_update_update
    (P := fun p b (side : DeltaSide) =>
      ∀ e, e ∈ side.map.entries ↔ e ∈ (worker.deltas p b).map.entries)
    (mem_entries_set_entry hlookup) fun _ _ _ => Iff.rfl)

theorem ladders_setLadder (out : OmMarketLevelSlab × OmMarketLadder) :
    (worker.setLadder p out).ladders p = out.2 :=
  update_self ..

theorem subLevel_none {state : OmMarketOrderState} {amount : Nat}
    (h : (worker.ladders state.productId).priceToSlot state.price = none) :
    worker.subLevel state amount = worker := by
  rw [subLevel, omLadderSubQty_none h, setLadder,
    update_eq_self]

end View

section Whole

variable {worker : OmMarketPublicWorker} {σ : Type} {id amount : Nat} {state : OmMarketOrderState}

theorem PublicSafe.served (h : PublicSafe worker) {p : Nat} (hp : worker.productHasSubs p = true) :
    worker.served p = .ok () := by
  unfold OmMarketPublicWorker.served
  rw [if_neg (Nat.not_le.mpr (h.inRange hp)), if_neg (by rw [hp]; decide)]

theorem thenDo_refused {out : OmError × σ} {f : σ → σ} (h : out.1 ≠ .ok) : thenDo out f = out := by
  obtain ⟨err, s⟩ := out
  cases err <;> first | rfl | exact absurd rfl h

theorem thenDo_fst (out : OmError × σ) (f : σ → σ) : (thenDo out f).1 = out.1 := by
  obtain ⟨err, s⟩ := out
  cases err <;> rfl

variable (h : PublicSafe worker)
include h

theorem PublicSafe.takeOff_iff (hstate : worker.orders id = some state)
    (hactive : state.active = true) (hamount : amount ≤ state.remaining)
    (state' : Option OmMarketOrderState) (f : OmMarketPublicWorker → OmMarketPublicWorker) :
    let out := thenDo (((worker.subLevel state amount).setOrder id state').recordChange
      state.productId state.price state.isBid (-amount)) f
    (out.1 ≠ .ok → SamePublicView worker out.2) ↔ ¬worker.OrderSplits state amount := by
  intro out
  have hsafe := h.orders hstate
  have hp := h.inRange hsafe.served
  by_cases hover : deltaOverflows ((worker.deltas state.productId state.isBid).entry state.price)
      (-amount)
  · have hrec := @recordChange_overflows
      ((worker.subLevel state amount).setOrder id state') _ _ _ _ hp hsafe.price hover
    have hout : out = _ := (thenDo_refused (by rw [hrec]; exact nofun)).trans hrec
    have hne : amount ≠ 0 := by
      have := deltaOverflows_ne_zero hover
      omega
    rw [hout]
    constructor
    · rintro hview ⟨-, hlevel, -⟩
      have hsame : omLadderGetQty (worker.subLevel state amount).slab
          ((worker.subLevel state amount).ladders state.productId) state.price = _ :=
        (hview nofun).getQty ⟨rfl, rfl⟩ (h.served hsafe.served) state.price
      rw [subLevel, ladders_setLadder] at hsame
      exact omLadderSubQty_seen hne hlevel hsame
    · intro hsplits _
      have hlevel : (worker.ladders state.productId).priceToSlot state.price = none := by
        by_contra hlevel
        exact hsplits ⟨hactive, hlevel, hover⟩
      have hbound : (amount : Int) ≤ int64Max := Int.ofNat_le.mpr (hamount.trans hsafe.remaining)
      rw [subLevel_none hlevel]
      exact samePublicView_touch hover (by omega) (by omega)
  · refine iff_of_true (fun herr => absurd ?_ herr) fun hsplits => hover hsplits.2.2
    exact (thenDo_fst ..).trans (recordChange_takes hp hsafe.price hover)

theorem PublicSafe.insert_iff (rec : OmWalInsert)
    (hfull : (worker.processInsert rec).1 ≠ .slabFull) :
    PublicWhole worker (.insert rec) ↔ ¬worker.Splits (.insert rec) := by
  unfold PublicWhole
  dsimp only [omMarketPublicProcess]
  unfold processInsert at hfull ⊢
  by_cases hrange : int64Max < rec.price ∨ int64Max < rec.volRemain
  · rw [if_pos hrange]
    refine iff_of_true (fun _ => samePublicView_refl worker) ?_
    rintro ⟨hprice, hvol, -⟩
    omega
  rw [if_neg hrange] at hfull ⊢
  obtain ⟨hprice, hvol⟩ := not_or.mp hrange
  by_cases hsubs : worker.productHasSubs rec.productId = true
  · rw [if_neg (by rw [hsubs]; decide)] at hfull ⊢
    dsimp only at hfull ⊢
    split
    · next out hadd =>
      by_cases hover : deltaOverflows
          ((worker.deltas rec.productId (omIsBid rec.flags)).entry rec.price) rec.volRemain
      · have hne : rec.volRemain ≠ 0 := Int.natCast_ne_zero.mp (deltaOverflows_ne_zero hover)
        have hrec := @recordChange_overflows ((worker.setOrder rec.orderId
          (some (insertState rec))).setLadder rec.productId out) _ _ _ _
          (h.inRange hsubs) (Nat.not_lt.mp hprice) hover
        rw [hrec]
        refine iff_of_false (fun hview => ?_) (not_not.mpr ⟨Nat.not_lt.mp hprice, Nat.not_lt.mp hvol,
          hsubs, omLadderAddQty_takes hadd hne, hover⟩)
        have hsame : omLadderGetQty (worker.setLadder rec.productId out).slab
            ((worker.setLadder rec.productId out).ladders rec.productId) rec.price = _ :=
          (hview nofun).getQty ⟨rfl, rfl⟩ (h.served hsubs) rec.price
        rw [ladders_setLadder] at hsame
        exact omLadderAddQty_seen hne hadd hsame
      · refine iff_of_true (fun herr => absurd ?_ herr) fun hsplits => hover hsplits.2.2.2.2
        exact @recordChange_takes ((worker.setOrder rec.orderId
          (some (insertState rec))).setLadder rec.productId out) _ _ _ _
          (h.inRange hsubs) (Nat.not_lt.mp hprice) hover
    · next err out herr hadd =>
      obtain ⟨rfl, hrefuses⟩ := omLadderAddQty_refused hadd herr fun he => hfull (by rw [hadd, he])
      refine iff_of_true (fun _ => ?_) fun hsplits => hrefuses hsplits.2.2.2.1
      refine samePublicView_of ⟨rfl, rfl⟩ rfl ?_ rfl fun _ _ _ => Iff.rfl
      exact update_eq_self ..
  · rw [if_pos (by simpa using hsubs)]
    exact iff_of_true (fun herr => absurd rfl herr) fun hsplits => hsubs hsplits.2.2.1

theorem PublicSafe.reduce_iff
    (hstate : worker.orders id = some state) (hamount : amount ≤ state.remaining)
    (state' : Option OmMarketOrderState) (f : OmMarketPublicWorker → OmMarketPublicWorker) :
    let out := if !state.active || state.remaining == 0 then (.ok, worker) else
      thenDo (((worker.subLevel state amount).setOrder id state').recordChange
        state.productId state.price state.isBid (-amount)) f
    (out.1 ≠ .ok → SamePublicView worker out.2) ↔ ¬worker.OrderSplits state amount := by
  intro out
  by_cases hidle : (!state.active || state.remaining == 0) = true
  · have hout : out = (.ok, worker) := if_pos hidle
    rw [hout]
    refine iff_of_true (fun herr => absurd rfl herr) fun ⟨hactive, _, hover⟩ => ?_
    have := deltaOverflows_ne_zero hover
    simp only [hactive, Bool.not_true, Bool.false_or, beq_iff_eq] at hidle
    omega
  · have hout : out = _ := if_neg hidle
    have hactive : state.active = true := by
      by_contra hinactive
      simp [hinactive] at hidle
    rw [hout]
    exact h.takeOff_iff hstate hactive hamount _ _

theorem PublicSafe.cancel_iff (rec : OmWalCancel) :
    ((worker.processCancel rec).1 ≠ .ok → SamePublicView worker (worker.processCancel rec).2) ↔
      ¬∃ state, worker.orders rec.orderId = some state ∧
        worker.OrderSplits state state.remaining := by
  unfold processCancel
  cases hstate : worker.orders rec.orderId with
  | none => exact iff_of_true (fun herr => absurd rfl herr) fun ⟨_, hsome, _⟩ => nomatch hsome
  | some state =>
    simp only [Option.some.injEq, exists_eq_left']
    exact h.reduce_iff hstate (Nat.le_refl _) _ _

theorem PublicSafe.match_iff (rec : OmWalMatch) :
    ((worker.processMatch rec).1 ≠ .ok → SamePublicView worker (worker.processMatch rec).2) ↔
      ¬(rec.volume ≤ int64Max ∧ ∃ state, worker.orders rec.makerId = some state ∧
        worker.OrderSplits state (min rec.volume state.remaining)) := by
  unfold processMatch
  by_cases hrange : int64Max < rec.volume
  · rw [if_pos hrange]
    exact iff_of_true (fun _ => samePublicView_refl worker) fun hsplits =>
      Nat.not_le.mpr hrange hsplits.1
  rw [if_neg hrange, and_iff_right (Nat.not_lt.mp hrange)]
  cases hstate : worker.orders rec.makerId with
  | none => exact iff_of_true (fun herr => absurd rfl herr) fun ⟨_, hsome, _⟩ => nomatch hsome
  | some state =>
    simp only [Option.some.injEq, exists_eq_left']
    exact h.reduce_iff hstate (Nat.min_le_right ..) _ _

theorem PublicSafe.whole_iff (rec : OmWalRecord)
    (hfull : (omMarketPublicProcess worker rec).1 ≠ .slabFull) :
    PublicWhole worker rec ↔ ¬worker.Splits rec := by
  cases rec with
  | insert rec => exact h.insert_iff rec hfull
  | cancel rec | deactivate rec => exact h.cancel_iff rec
  | matched rec => exact h.match_iff rec
  | activate rec =>
    refine iff_of_true (fun herr => absurd ?_ herr) id
    exact congrArg Prod.fst (h.activate_ok rec)
  | other => exact iff_of_true (fun herr => absurd rfl herr) id

end Whole

inductive PublicCall where
  | process (rec : OmWalRecord)
  | clearDeltas (productId : Nat) (side : UInt16)
  | clearDirty (productId : Nat)
  | compactDirty

def publicCallStep (worker : OmMarketPublicWorker) : PublicCall → Option OmMarketPublicWorker
  | .process rec => some (omMarketPublicProcess worker rec).2
  | .clearDeltas productId side => some (omMarketPublicClearDeltas worker productId side).2
  | .clearDirty productId => some (omMarketPublicClearDirty worker productId).2
  | .compactDirty => some (omMarketPublicCompactDirty worker)

def publicCallOk (worker : OmMarketPublicWorker) : PublicCall → Prop
  | .process rec => (omMarketPublicProcess worker rec).1 ≠ .slabFull
  | _ => True

instance (worker : OmMarketPublicWorker) : (c : PublicCall) → Decidable (publicCallOk worker c)
  | .process _ => inferInstanceAs (Decidable (_ ≠ _))
  | .clearDeltas .. | .clearDirty _ | .compactDirty => instDecidableTrue

theorem PublicSafe.step {worker worker' : OmMarketPublicWorker} {c : PublicCall}
    (h : PublicSafe worker) (hs : publicCallStep worker c = some worker') : PublicSafe worker' := by
  cases c with
  | process rec =>
    cases hs
    exact h.process rec
  | clearDeltas productId side =>
    cases hs
    unfold omMarketPublicClearDeltas
    split
    · exact h
    · exact h.same ⟨rfl, rfl⟩ rfl
  | clearDirty productId =>
    cases hs
    unfold omMarketPublicClearDirty
    split
    · exact h
    · exact h.same ⟨rfl, rfl⟩ rfl
  | compactDirty =>
    cases hs
    exact h.same ⟨rfl, rfl⟩ rfl

theorem publicSafe_init (maxProducts slabCapacity : Nat) (serves : Nat → Bool) :
    PublicSafe (omMarketPublicWorkerInit maxProducts slabCapacity serves) where
  inRange hp := by
    simp only [omMarketPublicWorkerInit, Bool.and_eq_true, decide_eq_true_eq] at hp
    exact hp.1
  orders := nofun

end VeloxMatch
