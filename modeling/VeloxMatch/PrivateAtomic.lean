import VeloxMatch.MarketTakes
import VeloxMatch.PrivateFull
import VeloxMatch.PublicAtomic

namespace VeloxMatch

open OmMarketWorker Function

structure SamePrivateView (worker worker' : OmMarketWorker) : Prop where
  qty : ∀ o p side x, omMarketWorkerGetQty worker' o p side x = omMarketWorkerGetQty worker o p side x
  full : ∀ o p side max,
    omMarketWorkerCopyFull worker' o p side max = omMarketWorkerCopyFull worker o p side max
  deltas : ∀ o p side max,
    omMarketWorkerCopyDeltas worker' o p side max = omMarketWorkerCopyDeltas worker o p side max
  count : ∀ o p side,
    omMarketWorkerDeltaCount worker' o p side = omMarketWorkerDeltaCount worker o p side
  dirty : ∀ o p, omMarketWorkerIsDirty worker' o p = omMarketWorkerIsDirty worker o p

/-- A record that is refused changes nothing that can be seen. -/
def PrivateWhole (worker : OmMarketWorker) (rec : OmWalRecord) : Prop :=
  (omMarketWorkerProcess worker rec).1 ≠ .ok →
    SamePrivateView worker (omMarketWorkerProcess worker rec).2

namespace OmMarketWorker

/-- Some viewer of an order has no room for its change, and another one before it has. -/
def ViewersSplit (worker : OmMarketWorker) (state : OmMarketOrderState)
    (change : Nat → Option Int) : Prop :=
  let ms := worker.moves change (worker.fanOutRange state.productId)
  ¬worker.AllTake state.price state.isBid ms ∧ ¬worker.FirstRefuses state.price state.isBid ms

abbrev insertMoves (worker : OmMarketWorker) (rec : OmWalInsert) : List (Nat × Int) :=
  worker.moves (insertChange worker.dealable rec) (worker.fanOutRange rec.productId)

/-- Part of what the record does is done when a viewer has no room for its change. -/
def Splits (worker : OmMarketWorker) : OmWalRecord → Prop
  | .insert rec => rec.price ≤ int64Max ∧ rec.volRemain ≤ int64Max ∧
      worker.productHasSubs rec.productId = true ∧
      LevelTakes worker.productSlab (worker.productLadders rec.productId) rec.price
        rec.volRemain ∧
      ¬worker.AllTake rec.price (omIsBid rec.flags) (worker.insertMoves rec)
  | .cancel rec | .deactivate rec => ∃ state, worker.globalOrders rec.orderId = some state ∧
      worker.ViewersSplit state (cancelChange worker.dealable state rec.orderId)
  | .matched rec => rec.volume ≤ int64Max ∧ ∃ state,
      worker.globalOrders rec.makerId = some state ∧
      worker.ViewersSplit state (matchChange worker.dealable state rec.makerId
        (state.remaining - min rec.volume state.remaining))
  | .activate _ | .other _ _ => False

end OmMarketWorker

section Lists

variable {side : DeltaSide} {qty base : Nat → Nat} {ds : List Nat}

theorem countDirty_eq (hlinks : SSeg (fun x => (side.entry x).nextDirty) ds)
    (hlisted : ∀ x ∈ ds, ∃ e, side.map.lookup x = some e ∧ e.dirty = true) {fuel : Nat}
    (hfuel : ds.length ≤ fuel) : countDirty side.map fuel (front ds none) = some (.ok ds.length) := by
  induction ds generalizing fuel with
  | nil => cases fuel <;> rfl
  | cons x ds ih =>
    cases fuel with
    | zero => cases hfuel
    | succ fuel =>
      obtain ⟨e, he, -⟩ := hlisted x List.mem_cons_self
      have hnext : e.nextDirty = front ds none := by
        rw [← entry_of_lookup he]
        exact hlinks.1
      have hrest := ih hlinks.2 (fun y hy => hlisted y (List.mem_cons_of_mem _ hy))
        (Nat.le_of_succ_le_succ hfuel)
      rw [front_cons, countDirty, he]
      dsimp only
      rw [hnext, hrest]
      rfl

theorem Tracks.count (h : Tracks side qty base ds) :
    countDirty side.map side.map.entries.length side.head = some (.ok ds.length) := by
  rw [h.head]
  exact countDirty_eq h.links h.listed h.length_le

theorem Tracks.touch (h : Tracks side qty base ds) (x : Nat) :
    Tracks (side.set x (side.entry x)) qty base ds where
  nodup := h.nodup
  head := h.head
  links := h.links.congr fun y _ => by rw [entry_set_entry]
  listed y hy := by
    obtain ⟨e, he, hdirty⟩ := h.listed y hy
    rcases eq_or_ne y x with rfl | hne
    · rw [entry_of_lookup he]
      exact ⟨e, AList.lookup_insert _, hdirty⟩
    · rw [lookup_set_ne hne]
      exact ⟨e, he, hdirty⟩
  unlisted y hy := by
    rw [entry_set_entry]
    exact h.unlisted y hy
  absQty y := by
    rw [entry_set_entry]
    exact h.absQty y
  delta y := by
    rw [entry_set_entry]
    exact h.delta y

end Lists

def Tracked (deltas : Nat → Bool → DeltaSide) : Prop :=
  ∀ l b, ∃ qty base ds, Tracks (deltas l b) qty base ds

section Tracked

variable {worker worker' : OmMarketWorker} {price l : Nat} {isBid : Bool}

theorem Tracked.update {deltas : Nat → Bool → DeltaSide} (h : Tracked deltas) {side : DeltaSide}
    {qty base : Nat → Nat} {ds : List Nat} (hside : Tracks side qty base ds) (l : Nat) (b : Bool) :
    Tracked (update deltas l (update (deltas l) b side)) :=
  forall_update_update (P := fun _ _ side => ∃ qty base ds, Tracks side qty base ds)
    ⟨qty, base, ds, hside⟩ h

theorem omMarketDeltaAdd_refused {side side' : DeltaSide} {d : Int} {err : OmError}
    (h : omMarketDeltaAdd side price d d true = (err, side')) (herr : err ≠ .ok) :
    side' = side ∨ side' = side.set price (side.entry price) := by
  unfold omMarketDeltaAdd at h
  split at h
  · cases h
    exact .inl rfl
  split at h
  · cases h
    exact absurd rfl herr
  dsimp only at h
  split at h
  · cases h
    exact .inr rfl
  rw [if_pos rfl] at h
  split at h
  · cases h
    exact .inr rfl
  · split at h <;> cases h <;> exact absurd rfl herr

theorem Tracked.recordChange (h : Tracked worker.ladderDeltas) (d : Int) :
    Tracked (worker.recordChange price isBid l d).2.ladderDeltas := by
  unfold OmMarketWorker.recordChange
  split
  · obtain ⟨qty, base, ds, hside⟩ := h l isBid
    split
    · next side hadd =>
      obtain ⟨q, ds', -, -, hside'⟩ := hside.add hadd
      exact h.update hside' l isBid
    · next err side herr hadd =>
      rcases omMarketDeltaAdd_refused hadd herr with rfl | rfl
      · exact h.update hside l isBid
      · exact h.update (hside.touch price) l isBid
  · exact h

theorem Tracked.recordMoves {ms : List (Nat × Int)} (h : Tracked worker.ladderDeltas) :
    Tracked (recordMoves price isBid ms worker).2.ladderDeltas := by
  induction ms generalizing worker with
  | nil => exact h
  | cons m ms ih =>
    have hmid := @Tracked.recordChange worker price m.1 isBid h m.2
    unfold recordMoves
    split
    · next mid hrec =>
      rw [hrec] at hmid
      exact ih hmid
    · next hrec =>
      rw [hrec] at hmid
      exact hmid

end Tracked

section View

variable {worker worker' : OmMarketWorker}

theorem samePrivateView_refl (worker : OmMarketWorker) : SamePrivateView worker worker :=
  ⟨fun _ _ _ _ => rfl, fun _ _ _ _ => rfl, fun _ _ _ _ => rfl, fun _ _ _ => rfl, fun _ _ => rfl⟩

theorem SamePrivateView.delta (h : SamePrivateView worker worker') {o p l : Nat}
    (hsame : SameButDeltas worker worker') (hfind : omMarketWorkerFindLadder worker o p = some l)
    (hl : l < worker.subscriptionCount) (ht : Tracked worker.ladderDeltas)
    (ht' : Tracked worker'.ladderDeltas) (b : Bool) (x : Nat) :
    ((worker'.ladderDeltas l b).entry x).delta = ((worker.ladderDeltas l b).entry x).delta := by
  obtain ⟨qty, base, ds, htracks⟩ := ht l b
  obtain ⟨qty', base', ds', htracks'⟩ := ht' l b
  have hfind' : omMarketWorkerFindLadder worker' o p = some l := by
    rw [hsame]
    exact hfind
  have hcount : worker'.subscriptionCount = worker.subscriptionCount := by rw [hsame]
  -- There is room for both lists, so both are copied.
  have hcopy := h.deltas o p (omSide b) (ds.length + ds'.length + 1)
  unfold omMarketWorkerCopyDeltas omMarketWorkerCopyDeltasByLadder at hcopy
  rw [if_neg (by omega), if_neg (by omega), hfind, hfind'] at hcopy
  dsimp only at hcopy
  rw [if_neg (by omega), if_neg (by omega), sideIsBid_omSide, htracks.copy, htracks'.copy,
    if_pos (by omega), if_pos (by omega)] at hcopy
  have hlists := Except.ok.inj hcopy
  obtain rfl : ds' = ds := by
    have hprices := congrArg (List.map (·.price)) hlists
    rwa [map_price_deltaEntries, map_price_deltaEntries] at hprices
  rw [htracks.delta, htracks'.delta]
  by_cases hx : x ∈ ds'
  · exact congrArg OmMarketDelta.delta (List.map_inj_left.mp hlists x hx)
  · rw [(htracks.unlisted x hx).2, (htracks'.unlisted x hx).2, Int.sub_self, Int.sub_self]

theorem samePrivateView_of (hsame : worker' = { worker with ladderDeltas := worker'.ladderDeltas })
    (hsides : ∀ l b, ∃ qty base ds, Tracks (worker.ladderDeltas l b) qty base ds ∧
      Tracks (worker'.ladderDeltas l b) qty base ds) : SamePrivateView worker worker' := by
  have hfind : ∀ o p, omMarketWorkerFindLadder
      { worker with ladderDeltas := worker'.ladderDeltas } o p =
      omMarketWorkerFindLadder worker o p := fun _ _ => rfl
  rw [hsame]
  refine ⟨fun _ _ _ _ => rfl, fun _ _ _ _ => rfl, fun o p side max => ?_, fun o p side => ?_,
    fun _ _ => rfl⟩
  · unfold omMarketWorkerCopyDeltas omMarketWorkerCopyDeltasByLadder
    rw [hfind]
    cases omMarketWorkerFindLadder worker o p with
    | none => rfl
    | some l =>
      obtain ⟨qty, base, ds, htracks, htracks'⟩ := hsides l (sideIsBid side)
      dsimp only
      rw [htracks.copy, htracks'.copy]
  · unfold omMarketWorkerDeltaCount
    rw [hfind]
    cases omMarketWorkerFindLadder worker o p with
    | none => rfl
    | some l =>
      obtain ⟨qty, base, ds, htracks, htracks'⟩ := hsides l (sideIsBid side)
      dsimp only
      rw [htracks.count, htracks'.count]

theorem samePrivateView_touch (h : Tracked worker.ladderDeltas) (l price : Nat) (isBid : Bool) :
    SamePrivateView worker (worker.setDelta l isBid ((worker.ladderDeltas l isBid).set price
      ((worker.ladderDeltas l isBid).entry price))) := by
  refine samePrivateView_of rfl (forall_update_update (P := fun k b side => ∃ qty base ds,
    Tracks (worker.ladderDeltas k b) qty base ds ∧ Tracks side qty base ds) ?_ fun k b => ?_)
  · obtain ⟨qty, base, ds, htracks⟩ := h l isBid
    exact ⟨qty, base, ds, htracks, htracks.touch price⟩
  · obtain ⟨qty, base, ds, htracks⟩ := h k b
    exact ⟨qty, base, ds, htracks, htracks⟩

end View

structure PrivateSafe (worker : OmMarketWorker) : Prop where
  tables : ViewerTables worker
  tracked : Tracked worker.ladderDeltas
  orders : ∀ {id state}, worker.globalOrders id = some state →
    state.active = true ∧ state.price ≤ int64Max ∧ state.productId < worker.maxProducts

section Loop

variable {worker : OmMarketWorker} {p price : Nat} {isBid : Bool} {change : Nat → Option Int}

theorem ViewerTables.viewer (h : ViewerTables worker) (hp : p < worker.maxProducts) {m : Nat × Int}
    (hm : m ∈ worker.moves change (worker.fanOutRange p)) :
    ∃ o, omMarketWorkerFindLadder worker o p = some m.1 ∧ change o = some m.2 := by
  obtain ⟨idx, hidx, hmove⟩ := List.mem_filterMap.mp hm
  obtain ⟨l, hl, hmap⟩ := Option.bind_eq_some_iff.mp hmove
  obtain ⟨d, hd, rfl⟩ := Option.map_eq_some_iff.mp hmap
  exact ⟨worker.productOrgs idx, (h.indices p hp idx hidx).symm.trans hl, hd⟩

theorem ViewerTables.moves_lt (h : ViewerTables worker) (hp : p < worker.maxProducts) :
    ∀ m ∈ worker.moves change (worker.fanOutRange p), m.1 < worker.subscriptionCount := by
  intro m hm
  obtain ⟨o, hfind, -⟩ := h.viewer hp hm
  exact h.found hfind

/-- The loop over the viewers comes first: it leaves all that can be seen, exactly if it ends
without an error or at its first change. -/
theorem PrivateSafe.fanOut_iff (h : PrivateSafe worker) (hp : p < worker.maxProducts)
    (hprice : price ≠ uint64Max) (hneg : ∀ o d, change o = some d → d < 0)
    (f : OmMarketWorker → OmMarketWorker) :
    let ms := worker.moves change (worker.fanOutRange p)
    let out := thenDo (fanOut price isBid change (worker.fanOutRange p) worker) f
    (out.1 ≠ .ok → SamePrivateView worker out.2) ↔
      ¬(¬worker.AllTake price isBid ms ∧ ¬worker.FirstRefuses price isBid ms) := by
  intro ms out
  have hlt : ∀ m ∈ ms, m.1 < worker.subscriptionCount := h.tables.moves_lt hp
  have hdown : ∀ m ∈ ms, m.2 < 0 := fun m hm => by
    obtain ⟨o, -, hd⟩ := h.tables.viewer hp hm
    exact hneg o m.2 hd
  have hway : OneWay ms := .inr fun m hm => (hdown m hm).le
  have hfan : fanOut price isBid change (worker.fanOutRange p) worker =
      recordMoves price isBid ms worker := fanOut_eq_recordMoves ..
  by_cases hall : worker.AllTake price isBid ms
  · refine iff_of_true (fun herr => absurd ?_ herr) fun hsplits => hsplits.1 hall
    exact (thenDo_fst ..).trans (hfan ▸ (recordMoves_ok_iff hway hprice hlt).mpr hall)
  have herr : (recordMoves price isBid ms worker).1 ≠ .ok :=
    mt (recordMoves_ok_iff hway hprice hlt).mp hall
  have hout : out = recordMoves price isBid ms worker := by
    rw [← hfan] at herr ⊢
    exact thenDo_refused herr
  rw [hout]
  cases hms : ms with
  | nil => exact absurd (hms ▸ nofun) hall
  | cons m rest =>
    have hmem : m ∈ ms := hms ▸ List.mem_cons_self
    by_cases htakes : Takes ((worker.ladderDeltas m.1 isBid).entry price) m.2
    · refine iff_of_false (fun hview => ?_) (not_not.mpr ⟨hms ▸ hall, ?_⟩)
      · obtain ⟨o, hfind, -⟩ := h.tables.viewer hp hmem
        rw [hms] at herr hway hlt
        refine recordMoves_first_taken hway hprice hlt (hdown m hmem).ne htakes ?_
        refine (hview herr).delta ?_ hfind (h.tables.found hfind) h.tracked h.tracked.recordMoves
          isBid price
        rw [← hms, ← hfan]
        exact fanOut_same rfl
      · rintro ⟨m', hm', hrefuses⟩
        cases hm'
        exact hrefuses htakes
    · refine iff_of_true (fun _ => ?_) fun hsplits => hsplits.2 ⟨m, rfl, htakes⟩
      rw [recordMoves_first_refuses hprice (hlt m hmem) htakes]
      exact samePrivateView_touch h.tracked ..

end Loop

section Changes

variable {dealable : OmMarketDealableFn} {state : OmMarketOrderState} {rec : OmWalInsert}
  {id post viewer : Nat} {d : Int}

theorem nonzero_eq_some {qty : Int} (h : nonzero qty = some d) : d = qty ∧ d ≠ 0 := by
  unfold nonzero at h
  split at h
  · cases h
  · next hne =>
    cases h
    exact ⟨rfl, hne⟩

theorem cancelChange_neg (h : cancelChange dealable state id viewer = some d) : d < 0 := by
  obtain ⟨hd, hne⟩ := nonzero_eq_some h
  omega

theorem qtyFromDq_mono {volRemain dq post remaining : Nat} (h : post ≤ remaining) :
    qtyFromDq volRemain dq post ≤ qtyFromDq volRemain dq remaining := by
  unfold qtyFromDq
  split
  · exact Nat.le_refl _
  · omega

theorem matchChange_neg (hpost : post ≤ state.remaining)
    (h : matchChange dealable state id post viewer = some d) : d < 0 := by
  obtain ⟨hd, hne⟩ := nonzero_eq_some h
  have := @qtyFromDq_mono state.volRemain (dealable (fakeInsert state id) viewer) _ _ hpost
  omega

theorem insertChange_eq_some (h : insertChange dealable rec viewer = some d) :
    dealable rec viewer ≠ 0 ∧ d = (min rec.volRemain (dealable rec viewer) : Nat) := by
  unfold insertChange at h
  split at h
  · cases h
  · next hne =>
    cases h
    exact ⟨hne, rfl⟩

end Changes

section Whole

variable {worker worker' : OmMarketWorker} {rec : OmWalInsert}

theorem PrivateSafe.cancel_iff (h : PrivateSafe worker) (rec : OmWalCancel) :
    ((worker.processCancel rec).1 ≠ .ok → SamePrivateView worker (worker.processCancel rec).2) ↔
      ¬∃ state, worker.globalOrders rec.orderId = some state ∧
        worker.ViewersSplit state (cancelChange worker.dealable state rec.orderId) := by
  unfold processCancel
  cases hstate : worker.globalOrders rec.orderId with
  | none => exact iff_of_true (fun herr => absurd rfl herr) fun ⟨_, hsome, _⟩ => nomatch hsome
  | some state =>
    obtain ⟨hactive, hprice, hp⟩ := h.orders hstate
    simp only [Option.some.injEq, exists_eq_left', hactive]
    exact h.fanOut_iff hp (price_ne_uint64Max hprice) (fun _ _ => cancelChange_neg) _

theorem PrivateSafe.match_iff (h : PrivateSafe worker) (rec : OmWalMatch) :
    ((worker.processMatch rec).1 ≠ .ok → SamePrivateView worker (worker.processMatch rec).2) ↔
      ¬(rec.volume ≤ int64Max ∧ ∃ state, worker.globalOrders rec.makerId = some state ∧
        worker.ViewersSplit state (matchChange worker.dealable state rec.makerId
          (state.remaining - min rec.volume state.remaining))) := by
  unfold processMatch
  by_cases hrange : int64Max < rec.volume
  · rw [if_pos hrange]
    exact iff_of_true (fun _ => samePrivateView_refl worker) fun hsplits =>
      Nat.not_le.mpr hrange hsplits.1
  rw [if_neg hrange, and_iff_right (Nat.not_lt.mp hrange)]
  cases hstate : worker.globalOrders rec.makerId with
  | none => exact iff_of_true (fun herr => absurd rfl herr) fun ⟨_, hsome, _⟩ => nomatch hsome
  | some state =>
    obtain ⟨hactive, hprice, hp⟩ := h.orders hstate
    have hiff := @PrivateSafe.fanOut_iff worker state.productId state.price state.isBid
      (matchChange worker.dealable state rec.makerId
        (state.remaining - min rec.volume state.remaining)) h hp (price_ne_uint64Max hprice)
      (fun _ _ => matchChange_neg (Nat.sub_le ..))
    simp only [Option.some.injEq, exists_eq_left', hactive, Bool.not_true, Bool.false_or,
      beq_iff_eq]
    by_cases hzero : state.remaining = 0
    · rw [if_pos hzero]
      refine iff_of_true (fun herr => absurd rfl herr) fun hsplits => hsplits.1 fun m hm => ?_
      obtain ⟨o, -, hd⟩ := h.tables.viewer hp hm
      obtain ⟨hd, hne⟩ := nonzero_eq_some hd
      rw [hzero, Nat.zero_sub, Int.sub_self] at hd
      exact absurd hd hne
    · rw [if_neg hzero]
      exact hiff _

theorem PrivateSafe.activate_ok (h : PrivateSafe worker) (rec : OmWalCancel) :
    worker.processActivate rec = (.ok, worker) := by
  unfold processActivate
  split
  · rfl
  next state hstate =>
  refine if_pos ?_
  rw [(h.orders hstate).1]
  rfl

def seenQty (dealable : OmMarketDealableFn) (o : Nat) (side : UInt16) (price orderId : Nat) :
    Option OmMarketOrderState → Nat
  | none => 0
  | some state =>
    if !state.active || state.side != side then 0
    else if state.price = price then omMarketComputeOrgQty dealable state orderId o
    else 0

theorem scratchQty_eq_seen (worker : OmMarketWorker) (o p : Nat) (side : UInt16) (price : Nat) :
    scratchQty worker o p side price = (∑ id ∈ worker.productOrderSets p,
      seenQty worker.dealable o side price id (worker.globalOrders id)) % 2 ^ 64 := by
  refine congrArg (· % 2 ^ 64) (Finset.sum_congr rfl fun id _ => ?_)
  cases worker.globalOrders id <;> rfl

theorem scratchQty_addOrder (hnew : worker.globalOrders rec.orderId = none) (o : Nat) : ∃ total,
      scratchQty worker o rec.productId (omGetSide rec.flags) rec.price = total % 2 ^ 64 ∧
      scratchQty (worker.addOrder rec) o rec.productId (omGetSide rec.flags) rec.price =
        (total + omMarketComputeOrgQty worker.dealable (insertState rec) rec.orderId o) %
          2 ^ 64 := by
  refine ⟨_, scratchQty_eq_seen .., (scratchQty_eq_seen ..).trans (congrArg (· % 2 ^ 64) ?_)⟩
  have hset : (worker.addOrder rec).productOrderSets rec.productId =
      insert rec.orderId ((worker.productOrderSets rec.productId).erase rec.orderId) := by
    refine (update_self ..).trans ?_
    ext id
    simp only [Finset.mem_insert, Finset.mem_erase]
    tauto
  have hself : seenQty worker.dealable o (omGetSide rec.flags) rec.price rec.orderId
      ((worker.addOrder rec).globalOrders rec.orderId) =
        omMarketComputeOrgQty worker.dealable (insertState rec) rec.orderId o := by
    have horder : (worker.addOrder rec).globalOrders rec.orderId = some (insertState rec) :=
      update_self ..
    rw [horder]
    simp [seenQty, insertState]
  have hzero : seenQty worker.dealable o (omGetSide rec.flags) rec.price rec.orderId
      (worker.globalOrders rec.orderId) = 0 := by rw [hnew, seenQty]
  have hrest := Finset.sum_erase (worker.productOrderSets rec.productId) (a := rec.orderId)
    (f := fun id => seenQty worker.dealable o (omGetSide rec.flags) rec.price id
      (worker.globalOrders id)) hzero
  rw [hset, Finset.sum_insert (Finset.notMem_erase _ _), ← hrest, Nat.add_comm]
  refine congrArg₂ (· + ·) (Finset.sum_congr rfl fun id hid => ?_) hself
  have horder : (worker.addOrder rec).globalOrders id = worker.globalOrders id :=
    update_of_ne (Finset.mem_erase.mp hid).1 ..
  rw [horder]
  rfl

theorem scratchQty_same (h : SameButDeltas worker worker') (o p : Nat) (side : UInt16) (x : Nat) :
    scratchQty worker' o p side x = scratchQty worker o p side x := by
  rw [h]
  rfl

theorem scratchQty_of_getQty {o p l l' : Nat} {side : UInt16} {x : Nat}
    (hfind : omMarketWorkerFindLadder worker o p = some l)
    (hfind' : omMarketWorkerFindLadder worker' o p = some l')
    (h : omMarketWorkerGetQty worker' o p side x = omMarketWorkerGetQty worker o p side x) :
    scratchQty worker' o p side x = scratchQty worker o p side x := by
  rw [getQty_scratch hfind, getQty_scratch hfind'] at h
  split at h
  · next hzero' =>
    split at h
    · next hzero => rw [hzero, hzero']
    · cases h
  · split at h
    · cases h
    · exact Except.ok.inj h

theorem PrivateSafe.insert_pos (h : PrivateSafe worker) {price : Nat}
    {isBid : Bool} (hp : rec.productId < worker.maxProducts)
    (hall : ¬worker.AllTake price isBid (worker.insertMoves rec)) : rec.volRemain ≠ 0 := by
  intro hzero
  refine hall fun m hm => ?_
  have hsum : ladderSum (worker.insertMoves rec) m.1 = 0 := by
    refine List.sum_eq_zero fun d hd => ?_
    obtain ⟨m', hm', rfl⟩ := List.mem_map.mp hd
    obtain ⟨o, -, hd⟩ := h.tables.viewer hp (List.mem_of_mem_filter hm')
    rw [(insertChange_eq_some hd).2, hzero, Nat.zero_min]
    rfl
  rw [hsum]
  exact takes_zero _

theorem PrivateSafe.insert_seen (h : PrivateSafe worker)
    {out : OmMarketLevelSlab × OmMarketLadder} (hp : rec.productId < worker.maxProducts)
    (hvol : rec.volRemain ≤ int64Max) (hreads : ReadsAlike worker (.insert rec))
    (hall : ¬worker.AllTake rec.price (omIsBid rec.flags) (worker.insertMoves rec))
    (hsame : SameButDeltas ((worker.setLadder rec.productId out).addOrder rec) worker') :
    ¬SamePrivateView worker worker' := by
  intro hview
  have hpos := h.insert_pos hp hall
  obtain ⟨m, hm, -⟩ : ∃ m ∈ worker.insertMoves rec, ¬Takes _ _ := by
    by_contra hnone
    exact hall fun m hm => not_not.mp fun htakes => hnone ⟨m, hm, htakes⟩
  obtain ⟨o, hfind, hd⟩ := h.tables.viewer hp hm
  obtain ⟨hdeals, -⟩ := insertChange_eq_some hd
  have hfind' : omMarketWorkerFindLadder worker' o rec.productId = some m.1 := by
    rw [hsame]
    exact hfind
  have hqty := scratchQty_of_getQty hfind hfind'
    (hview.qty o rec.productId (omGetSide rec.flags) rec.price)
  obtain ⟨total, hold, hnew⟩ := @scratchQty_addOrder (worker.setLadder rec.productId out) rec hreads.1 o
  have hold : scratchQty worker o rec.productId (omGetSide rec.flags) rec.price = total % 2 ^ 64 := hold
  rw [scratchQty_same hsame, hnew, hold] at hqty
  have hseen : omMarketComputeOrgQty (worker.setLadder rec.productId out).dealable
      (insertState rec) rec.orderId o = min rec.volRemain (worker.dealable rec o) := by
    unfold omMarketComputeOrgQty qtyFromDq
    change (if worker.dealable (fakeInsert (insertState rec) rec.orderId) o = 0 then 0 else
      min rec.volRemain (worker.dealable (fakeInsert (insertState rec) rec.orderId) o) -
        (rec.volRemain - rec.volRemain)) = _
    rw [hreads.2, if_neg hdeals, Nat.sub_self, Nat.sub_zero]
  rw [hseen] at hqty
  unfold int64Max at hvol
  omega

theorem PrivateSafe.insert_whole (h : PrivateSafe worker) (rec : OmWalInsert)
    (hfull : (worker.processInsert rec).1 ≠ .slabFull) :
    (¬worker.Splits (.insert rec) → PrivateWhole worker (.insert rec)) ∧
      (ReadsAlike worker (.insert rec) → PrivateWhole worker (.insert rec) →
        ¬worker.Splits (.insert rec)) := by
  unfold PrivateWhole
  dsimp only [omMarketWorkerProcess]
  unfold processInsert at hfull ⊢
  by_cases hrange : int64Max < rec.price ∨ int64Max < rec.volRemain
  · rw [if_pos hrange]
    refine ⟨fun _ _ => samePrivateView_refl worker, ?_⟩
    rintro - - ⟨hprice, hvol, -⟩
    omega
  rw [if_neg hrange] at hfull ⊢
  obtain ⟨hprice, hvol⟩ := not_or.mp hrange
  by_cases hsubs : worker.productHasSubs rec.productId = true
  · rw [if_neg (by rw [hsubs]; decide)] at hfull ⊢
    have hp := h.tables.hasSubs hsubs
    split
    · next out hadd =>
      have hok := @recordMoves_ok_iff ((worker.setLadder rec.productId out).addOrder rec) rec.price
        (omIsBid rec.flags) (worker.insertMoves rec) (.inl fun m hm => ?_)
        (price_ne_uint64Max (Nat.not_lt.mp hprice)) (h.tables.moves_lt hp)
      · have hfan : fanOut rec.price (omIsBid rec.flags) (insertChange worker.dealable rec)
            (worker.fanOutRange rec.productId) ((worker.setLadder rec.productId out).addOrder rec) =
              recordMoves rec.price (omIsBid rec.flags) (worker.insertMoves rec)
                ((worker.setLadder rec.productId out).addOrder rec) := fanOut_eq_recordMoves ..
        by_cases hall : worker.AllTake rec.price (omIsBid rec.flags) (worker.insertMoves rec)
        · refine ⟨fun _ herr => absurd ?_ herr, fun _ _ hsplits => hsplits.2.2.2.2 hall⟩
          rw [hfan]
          exact hok.mpr hall
        · refine ⟨fun hsplits => absurd ⟨Nat.not_lt.mp hprice, Nat.not_lt.mp hvol, hsubs,
            omLadderAddQty_takes hadd (h.insert_pos hp hall), hall⟩ hsplits, fun hreads hview _ => ?_⟩
          refine h.insert_seen hp (Nat.not_lt.mp hvol) hreads hall (fanOut_same rfl) (hview ?_)
          rw [hfan]
          exact mt hok.mp hall
      · obtain ⟨o, -, hd⟩ := h.tables.viewer hp hm
        rw [(insertChange_eq_some hd).2]
        exact Int.natCast_nonneg _
    · next err out herr hadd =>
      obtain ⟨rfl, hrefuses⟩ := omLadderAddQty_refused hadd herr fun he => hfull (by rw [hadd, he])
      refine ⟨fun _ _ => ?_, fun _ _ hsplits => hrefuses hsplits.2.2.2.1⟩
      rw [setLadder, update_eq_self]
      exact samePrivateView_refl worker
  · rw [if_pos (by simpa using hsubs)]
    exact ⟨fun _ herr => absurd rfl herr, fun _ _ hsplits => hsubs hsplits.2.2.1⟩

end Whole

end VeloxMatch
