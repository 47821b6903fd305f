import VeloxMatch.PrivateAtomic
import Mathlib.Algebra.Order.BigOperators.Group.Finset

namespace VeloxMatch

open OmMarketWorker

/-- The 64-bit numbers of an entry have room for a change; nothing is said about a quantity
below 0. -/
def HasRoom (e : OmMarketDeltaEntry) (d : Int) : Prop :=
  ¬deltaOverflows e d ∧ (e.absQty : Int) + d ≤ uint64Max

instance (e : OmMarketDeltaEntry) (d : Int) : Decidable (HasRoom e d) :=
  inferInstanceAs (Decidable (_ ∧ _))

theorem takes_of_room {e : OmMarketDeltaEntry} {d : Int} (hroom : HasRoom e d)
    (hqty : 0 ≤ (e.absQty : Int) + d) : Takes e d := by
  obtain ⟨hover, hle⟩ := hroom
  refine ⟨hover, ?_⟩
  unfold changedQty
  split
  · rw [if_neg (by omega)]
    rfl
  · rw [if_neg (by omega)]
    rfl

namespace OmMarketWorker

variable (worker : OmMarketWorker)

def ViewersRoom (productId price : Nat) (isBid : Bool) (change : Nat → Option Int) : Prop :=
  ∀ m ∈ worker.moves change (worker.fanOutRange productId),
    HasRoom ((worker.ladderDeltas m.1 isBid).entry price) m.2

instance (productId price : Nat) (isBid : Bool)
    (change : Nat → Option Int) : Decidable (worker.ViewersRoom productId price isBid change) :=
  inferInstanceAs (Decidable (∀ m ∈ _, _))

/-- No number that the record changes overflows, and there is memory for a new level. -/
def Fits : OmWalRecord → Prop
  | .insert rec => rec.price ≤ int64Max ∧ rec.volRemain ≤ int64Max ∧
      (worker.productHasSubs rec.productId = true →
        LevelTakes worker.productSlab (worker.productLadders rec.productId) rec.price
          rec.volRemain ∧
        ((worker.productLadders rec.productId).priceToSlot rec.price = none →
          (allocLevel worker.productSlab).1 ≠ none) ∧
        worker.ViewersRoom rec.productId rec.price (omIsBid rec.flags)
          (insertChange worker.dealable rec))
  | .cancel rec | .deactivate rec => ∀ state ∈ worker.globalOrders rec.orderId,
      worker.ViewersRoom state.productId state.price state.isBid
        (cancelChange worker.dealable state rec.orderId)
  | .matched rec => rec.volume ≤ int64Max ∧ ∀ state ∈ worker.globalOrders rec.makerId,
      worker.ViewersRoom state.productId state.price state.isBid
        (matchChange worker.dealable state rec.makerId
          (state.remaining - min rec.volume state.remaining))
  | .activate _ | .other _ _ => True

instance (rec : OmWalRecord) : Decidable (worker.Fits rec) := by
  induction rec using OmWalRecord.casesOn <;> dsimp only [Fits] <;> infer_instance

end OmMarketWorker

section Loop

variable {worker : OmMarketWorker} {subs : List OmMarketSubscription} {p price : Nat} {isBid : Bool}
  {change : Nat → Option Int}

theorem SubsIndex.move_viewer (h : SubsIndex worker subs) (hp : p < worker.maxProducts)
    {m : Nat × Int} (hm : m ∈ worker.moves change (worker.fanOutRange p)) :
    ∃ o, subs[m.1]? = some ⟨o, p⟩ ∧ change o = some m.2 := by
  obtain ⟨idx, hidx, hmove⟩ := List.mem_filterMap.mp hm
  obtain ⟨l, hl, hmap⟩ := Option.bind_eq_some_iff.mp hmove
  obtain ⟨d, hd, rfl⟩ := Option.map_eq_some_iff.mp hmap
  obtain ⟨l', hl', hsub⟩ := h.viewer hp hidx
  cases hl.symm.trans hl'
  exact ⟨_, hsub, hd⟩

theorem SubsIndex.nodup_moves (h : SubsIndex worker subs) (hnodup : subs.Nodup)
    (hp : p < worker.maxProducts) :
    ((worker.moves change (worker.fanOutRange p)).map (·.1)).Nodup := by
  have hladders := List.pairwise_map.mp (h.nodup_ladders hnodup hp)
  refine List.pairwise_map.mpr (hladders.filterMap _ ?_)
  intro i j hne m hm m' hm' heq
  obtain ⟨l, hl, hmap⟩ := Option.bind_eq_some_iff.mp hm
  obtain ⟨d, -, rfl⟩ := Option.map_eq_some_iff.mp hmap
  obtain ⟨l', hl', hmap'⟩ := Option.bind_eq_some_iff.mp hm'
  obtain ⟨d', -, rfl⟩ := Option.map_eq_some_iff.mp hmap'
  exact hne (hl.trans (hl'.trans (congrArg some heq).symm).symm)

theorem ladderSum_of_nodup {ms : List (Nat × Int)} (h : (ms.map (·.1)).Nodup) {m : Nat × Int}
    (hm : m ∈ ms) : ladderSum ms m.1 = m.2 := by
  induction ms with
  | nil => cases hm
  | cons m' ms ih =>
    obtain ⟨hnot, hrest⟩ := List.nodup_cons.mp h
    rcases List.mem_cons.mp hm with rfl | hm
    · rw [ladderSum_cons_self, ladderSum_of_notMem, Int.add_zero]
      exact fun m' hm' he => hnot (List.mem_map.mpr ⟨m', hm', he⟩)
    · rw [ladderSum_cons_ne, ih hrest hm]
      exact fun he => hnot (List.mem_map.mpr ⟨m, hm, he⟩)

theorem SubsIndex.fanOut_ok_of_room (h : SubsIndex worker subs) (hnodup : subs.Nodup)
    (hp : p < worker.maxProducts) (hprice : price ≠ uint64Max)
    (hway : OneWay (worker.moves change (worker.fanOutRange p)))
    (hroom : worker.ViewersRoom p price isBid change)
    (hqty : ∀ m ∈ worker.moves change (worker.fanOutRange p),
      0 ≤ (((worker.ladderDeltas m.1 isBid).entry price).absQty : Int) + m.2) :
    (fanOut price isBid change (worker.fanOutRange p) worker).1 = .ok := by
  rw [fanOut_eq_recordMoves, recordMoves_ok_iff hway hprice]
  · intro m hm
    rw [ladderSum_of_nodup (h.nodup_moves hnodup hp) hm]
    exact takes_of_room (hroom m hm) (hqty m hm)
  · intro m hm
    obtain ⟨o, hsub, -⟩ := h.move_viewer hp hm
    rw [h.count]
    exact (List.getElem?_eq_some_iff.mp hsub).1

end Loop

section Records

variable {subs : List OmMarketSubscription} {s : DeltaRun} {state : OmMarketOrderState}
  {id : Nat}

theorem SidesInv.seen_le (h : SidesInv subs s) (hstate : s.worker.globalOrders id = some state)
    {l o : Nat} (hl : subs[l]? = some ⟨o, state.productId⟩) :
    omMarketComputeOrgQty s.worker.dealable state id o ≤
      ((s.worker.ladderDeltas l state.isBid).entry state.price).absQty := by
  obtain ⟨ds, htracks⟩ := h.tracks state.isBid hl
  obtain ⟨hmem, -, -, hside⟩ := h.orders.stored hstate
  have hself := @stateQty_self id state s.worker.dealable o hside
  rw [htracks.absQty, ← hself, ← hstate]
  exact Finset.single_le_sum
    (f := fun id => stateQty s.worker.dealable o state.productId (omSide state.isBid) state.price
      id (s.worker.globalOrders id)) (fun _ _ => Nat.zero_le _) hmem

theorem SidesInv.reduce_ok (h : SidesInv subs s) (hnodup : subs.Nodup)
    (hstate : s.worker.globalOrders id = some state) (hprice : state.price ≤ int64Max)
    {change : Nat → Option Int}
    (hchange : ∀ o d, change o = some d → d < 0 ∧
      -(omMarketComputeOrgQty s.worker.dealable state id o : Int) ≤ d)
    (hroom : s.worker.ViewersRoom state.productId state.price state.isBid change) :
    (fanOut state.price state.isBid change (s.worker.fanOutRange state.productId) s.worker).1 =
      .ok := by
  obtain ⟨-, -, hp, -⟩ := h.orders.stored hstate
  refine h.index.fanOut_ok_of_room hnodup hp (price_ne_uint64Max hprice) (.inr fun m hm => ?_) hroom
    fun m hm => ?_
  · obtain ⟨o, -, hd⟩ := h.index.move_viewer hp hm
    exact (hchange o _ hd).1.le
  · obtain ⟨o, hl, hd⟩ := h.index.move_viewer hp hm
    have hle := h.seen_le hstate hl
    have := (hchange o _ hd).2
    omega

theorem SidesInv.cancel_ok (h : SidesInv subs s) (hnodup : subs.Nodup) (rec : OmWalCancel)
    (hprice : ∀ state ∈ s.worker.globalOrders rec.orderId, state.price ≤ int64Max)
    (hfits : s.worker.Fits (.cancel rec)) : (s.worker.processCancel rec).1 = .ok := by
  unfold processCancel
  cases hstate : s.worker.globalOrders rec.orderId with
  | none => rfl
  | some state =>
    dsimp only
    rw [(h.orders.stored hstate).2.1, Bool.not_true, if_neg Bool.false_ne_true, thenDo_fst]
    refine h.reduce_ok hnodup hstate (hprice state hstate) (fun o d hd => ?_) (hfits state hstate)
    exact ⟨cancelChange_neg hd, (nonzero_eq_some hd).1.ge⟩

theorem SidesInv.match_ok (h : SidesInv subs s) (hnodup : subs.Nodup) (rec : OmWalMatch)
    (hprice : ∀ state ∈ s.worker.globalOrders rec.makerId, state.price ≤ int64Max)
    (hfits : s.worker.Fits (.matched rec)) : (s.worker.processMatch rec).1 = .ok := by
  obtain ⟨hvolume, hroom⟩ := hfits
  unfold processMatch
  rw [if_neg (Nat.not_lt.mpr hvolume)]
  cases hstate : s.worker.globalOrders rec.makerId with
  | none => rfl
  | some state =>
    dsimp only
    split
    · rfl
    rw [thenDo_fst]
    refine h.reduce_ok hnodup hstate (hprice state hstate) (fun o d hd => ?_) (hroom state hstate)
    refine ⟨matchChange_neg (Nat.sub_le ..) hd, ?_⟩
    obtain ⟨hd, -⟩ := nonzero_eq_some hd
    unfold omMarketComputeOrgQty
    omega

theorem omLadderAddQty_ok {slab : OmMarketLevelSlab} {ladder : OmMarketLadder} {price qty : Nat}
    (isBid : Bool) (hlevel : LevelTakes slab ladder price qty)
    (hmemory : ladder.priceToSlot price = none → (allocLevel slab).1 ≠ none) :
    ∃ out, omLadderAddQty slab ladder price qty isBid = (.ok, out) := by
  unfold omLadderAddQty
  unfold LevelTakes at hlevel
  split
  · exact ⟨_, rfl⟩
  cases hslot : ladder.priceToSlot price with
  | some idx =>
    rw [hslot] at hlevel
    dsimp only at hlevel ⊢
    rw [if_neg (by omega)]
    exact ⟨_, rfl⟩
  | none =>
    dsimp only
    split
    · next heq =>
      rw [heq] at hmemory
      exact absurd rfl (hmemory hslot)
    · exact ⟨_, rfl⟩

theorem SidesInv.insert_ok (h : SidesInv subs s) (hnodup : subs.Nodup) (rec : OmWalInsert)
    (hfits : s.worker.Fits (.insert rec)) : (s.worker.processInsert rec).1 = .ok := by
  obtain ⟨hprice, hvolume, hserved⟩ := hfits
  unfold processInsert
  rw [if_neg (by omega)]
  split
  · rfl
  next hsubs =>
  have hsubs : s.worker.productHasSubs rec.productId = true := by simpa using hsubs
  have hp := h.index.hasSubs hsubs
  obtain ⟨hlevel, hmemory, hroom⟩ := hserved hsubs
  obtain ⟨out, hadd⟩ := omLadderAddQty_ok (omIsBid rec.flags) hlevel hmemory
  rw [hadd]
  dsimp only
  have hindex : SubsIndex ((s.worker.setLadder rec.productId out).addOrder rec) subs :=
    h.index.of_sameTables rfl
  have hpos : ∀ m ∈ s.worker.insertMoves rec, 0 ≤ m.2 := fun m hm => by
    obtain ⟨o, -, hd⟩ := h.index.move_viewer hp hm
    rw [(insertChange_eq_some hd).2]
    exact Int.natCast_nonneg _
  refine hindex.fanOut_ok_of_room hnodup hp (price_ne_uint64Max hprice) (.inl hpos) hroom
    fun m hm => ?_
  have := hpos m hm
  omega

end Records

end VeloxMatch
