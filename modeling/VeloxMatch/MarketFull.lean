import VeloxMatch.MarketTotals
import VeloxMatch.Runs

namespace VeloxMatch

open List

def scratchQty (worker : OmMarketWorker) (orgId productId : Nat) (side : UInt16) (price : Nat) :
    Nat :=
  (∑ orderId ∈ worker.productOrderSets productId,
    match worker.globalOrders orderId with
    | none => 0
    | some state =>
      if !state.active || state.side != side then 0
      else if state.price = price then
        OmMarketWorker.omMarketComputeOrgQty worker.dealable state orderId orgId
      else 0) % 2 ^ 64

/-- The walk over a side of a product's ladder, up to `max` levels with a quantity; `none` if it
does not end. -/
def copyVisible (slab : OmMarketLevelSlab) (qty : Nat → Nat) :
    Nat → Nat → Option Nat → Option (List OmMarketDelta)
  | _, 0, _ => some []
  | _, _ + 1, none => some []
  | 0, _ + 1, some _ => none
  | fuel + 1, max + 1, some idx =>
    let slot := slab.slots idx
    if 0 < qty slot.price then
      (copyVisible slab qty fuel max slot.q1Next).map
        (⟨slot.price, asInt64 (qty slot.price), qty slot.price⟩ :: ·)
    else copyVisible slab qty fuel (max + 1) slot.q1Next

/-- Slots have 32-bit numbers, so a walk that ends meets fewer levels between two that it copies. -/
def walkFuel (max : Nat) : Nat := (max + 1) * 2 ^ 32

/-- `om_market_worker_copy_full`; `none` if the walk does not end. -/
def omMarketWorkerCopyFull (worker : OmMarketWorker) (orgId productId : Nat) (side : UInt16)
    (max : Nat) : Option (Except OmError (List OmMarketDelta)) :=
  if max = 0 then some (.error .nullParam)
  else
    match omMarketWorkerFindLadder worker orgId productId with
    | none => some (.error .notSubscribed)
    | some _ =>
      (copyVisible worker.productSlab (scratchQty worker orgId productId side) (walkFuel max) max
        ((worker.productLadders productId).side (sideIsBid side)).head).map .ok

/-- The levels that a walk of `max` steps reads are in the slab. -/
def ReadsInside (slab : OmMarketLevelSlab) : Nat → Option Nat → Prop
  | 0, _ | _ + 1, none => True
  | max + 1, some idx => idx < slab.capacity ∧ ReadsInside slab max (slab.slots idx).q1Next

/-- A record that takes a new level finds room for it. -/
def InsertFits (hasSubs : Nat → Bool) (slab : OmMarketLevelSlab) (ladders : Nat → OmMarketLadder) :
    OmWalRecord → Prop
  | .insert rec => hasSubs rec.productId = true →
      LevelFits slab (ladders rec.productId) rec.price rec.volRemain
  | _ => True

instance (hasSubs : Nat → Bool) (slab : OmMarketLevelSlab) (ladders : Nat → OmMarketLadder)
    (rec : OmWalRecord) :
    Decidable (InsertFits hasSubs slab ladders rec) := by
  induction rec using OmWalRecord.casesOn <;> dsimp only [InsertFits] <;> infer_instance

def fullEntry (qty : Nat → Nat) (price : Nat) : OmMarketDelta :=
  ⟨price, asInt64 (qty price), qty price⟩

section Walk

variable {slab : OmMarketLevelSlab} {l : List Nat} {before : Option Nat} {qty : Nat → Nat}

theorem copyLevels_list
    (h : DSeg (fun i => (slab.slots i).q1Next) (fun i => (slab.slots i).q1Prev) before l none)
    (hqty : ∀ i ∈ l, (slab.slots i).qty = qty (slab.slots i).price) (max : Nat) :
    copyLevels slab max (front l none) =
      ((l.map fun i => (slab.slots i).price).take max).map (fullEntry qty) := by
  induction l generalizing before max with
  | nil => cases max <;> rfl
  | cons i l ih =>
    obtain ⟨-, hnext, hrest⟩ := h
    cases max with
    | zero => rfl
    | succ max =>
      have hi := hqty i mem_cons_self
      simp only [front_cons, copyLevels, map_cons, take_succ_cons, fullEntry] at hnext ⊢
      rw [hnext, ih hrest (fun j hj => hqty j (mem_cons_of_mem _ hj)), hi]

theorem readsInside_list
    (h : DSeg (fun i => (slab.slots i).q1Next) (fun i => (slab.slots i).q1Prev) before l none)
    (hlt : ∀ i ∈ l, i < slab.capacity) (max : Nat) : ReadsInside slab max (front l none) := by
  induction l generalizing before max with
  | nil => cases max <;> trivial
  | cons i l ih =>
    obtain ⟨-, hnext, hrest⟩ := h
    cases max with
    | zero => trivial
    | succ max =>
      refine ⟨hlt i mem_cons_self, ?_⟩
      rw [show (slab.slots i).q1Next = front l none from hnext]
      exact ih hrest (fun j hj => hlt j (mem_cons_of_mem _ hj)) max

theorem copyVisible_list
    (h : DSeg (fun i => (slab.slots i).q1Next) (fun i => (slab.slots i).q1Prev) before l none)
    {fuel : Nat} (hfuel : l.length ≤ fuel) (max : Nat) :
    copyVisible slab qty fuel max (front l none) =
      some ((((l.map fun i => (slab.slots i).price).filter (0 < qty ·)).take max).map
        (fullEntry qty)) := by
  induction l generalizing before max fuel with
  | nil => cases max <;> cases fuel <;> rfl
  | cons i l ih =>
    obtain ⟨-, hnext, hrest⟩ := h
    cases max with
    | zero => cases fuel <;> rfl
    | succ max =>
      cases fuel with
      | zero => cases hfuel
      | succ fuel =>
        have hle : l.length ≤ fuel := Nat.le_of_succ_le_succ hfuel
        simp only [front_cons, copyVisible, map_cons] at hnext ⊢
        rw [hnext]
        by_cases hpos : 0 < qty (slab.slots i).price
        · rw [if_pos hpos, ih hrest hle, filter_cons_of_pos (by simpa using hpos)]
          rfl
        · rw [if_neg hpos, ih hrest hle, filter_cons_of_neg (by simpa using hpos)]

end Walk

section Read

variable {slab : OmMarketLevelSlab} {ladders : Nat → OmMarketLadder}
  {total : Nat → Bool → Nat → Nat}

theorem LaddersShow.getQty (h : LaddersShow slab ladders total) (p x : Nat) :
    omLadderGetQty slab (ladders p) x =
      if total p true x + total p false x = 0 then none
      else some (total p true x + total p false x) := by
  obtain ⟨lists, free, h⟩ := h
  unfold omLadderGetQty
  cases hslot : (ladders p).priceToSlot x with
  | none =>
    have hzero := h.slot_none.mp hslot
    rw [hzero true, hzero false]
    rfl
  | some i =>
    obtain ⟨b, -, -, hqty, hne⟩ := h.slot_some hslot
    have hopposite := h.one_side hne
    have hsum : total p true x + total p false x = total p b x := by
      cases b
      · rw [show total p true x = 0 from hopposite, Nat.zero_add]
      · rw [show total p false x = 0 from hopposite, Nat.add_zero]
    rw [hsum, if_neg hne, Option.map_some, hqty]

theorem LaddersShow.readsInside (h : LaddersShow slab ladders total) (p : Nat) (b : Bool)
    (max : Nat) : ReadsInside slab max ((ladders p).side b).head := by
  obtain ⟨lists, free, h⟩ := h
  rw [(h.side p b).head]
  exact readsInside_list (h.side p b).links (fun _ hi => h.lt_capacity hi) max

theorem LaddersShow.prices (h : LaddersShow slab ladders total) (p : Nat) (b : Bool) :
    ∃ prices : List Nat, prices.Pairwise (fun x y => betterPrice b x y = true) ∧
      (∀ x, x ∈ prices ↔ total p b x ≠ 0) ∧ prices.length ≤ slab.capacity ∧
      (∀ max, copyLevels slab max ((ladders p).side b).head =
        (prices.take max).map (fullEntry (total p b))) ∧
      ∀ qty fuel max, prices.length ≤ fuel →
        copyVisible slab qty fuel max ((ladders p).side b).head =
          some (((prices.filter (0 < qty ·)).take max).map (fullEntry qty)) := by
  obtain ⟨lists, free, h⟩ := h
  have hside := h.side p b
  refine ⟨(lists p b).map fun i => (slab.slots i).price, pairwise_map.mpr hside.sorted,
    fun x => ?_, ?_, fun max => ?_, fun qty fuel max hfuel => ?_⟩
  · rw [mem_map]
    constructor
    · rintro ⟨i, hi, rfl⟩
      have := h.positive hi
      rw [h.qty hi] at this
      omega
    · exact h.shown
  · rw [length_map]
    have hsub : lists p b ⊆ range slab.capacity :=
      fun i hi => mem_range.mpr (h.lt_capacity hi)
    simpa using (subperm_of_subset hside.nodup hsub).length_le
  · rw [hside.head]
    exact copyLevels_list hside.links (fun i hi => h.qty hi) max
  · rw [hside.head]
    exact copyVisible_list hside.links (by simpa using hfuel) max

end Read

open OmMarketLevelSlab

section Best

variable {slab taken : OmMarketLevelSlab} {ladder : OmMarketLadder} {x q i : Nat}

/-- A bid above all the others becomes the head, in the slot that was allocated. -/
structure NewBest (taken : OmMarketLevelSlab) (ladder : OmMarketLadder) (x i : Nat)
    (out : OmMarketLevelSlab × OmMarketLadder) : Prop where
  capacity : out.1.capacity = taken.capacity
  head : (out.2.side true).head = some i
  price : (out.1.slots i).price = x
  map : out.2.priceToSlot = Function.update ladder.priceToSlot x (some i)
  free : ∀ {free}, FreeLevels taken free → FreeLevels out.1 free

theorem omLadderAddQty_best (hq : q ≠ 0) (hnone : ladder.priceToSlot x = none)
    (halloc : allocLevel slab = (some i, taken))
    (hhead : ∀ j, (ladder.side true).head = some j → j ≠ i ∧ (taken.slots j).price < x) :
    ∃ out, omLadderAddQty slab ladder x q true = (.ok, out) ∧ NewBest taken ladder x i out := by
  unfold omLadderAddQty
  rw [if_neg hq, hnone, halloc]
  dsimp only
  have hpos : omLadderFindInsertPos (taken.modify i fun s => { s with price := x, qty := q })
      { ladder with priceToSlot := Function.update ladder.priceToSlot x (some i) } x true =
        none := by
    unfold omLadderFindInsertPos
    change (match (ladder.side true).head with | none => none | some head => _) = none
    cases hj : (ladder.side true).head with
    | none => rfl
    | some j =>
      obtain ⟨hne, hlt⟩ := hhead j hj
      dsimp only
      rw [slots_modify_ne hne]
      exact if_pos (decide_eq_true hlt)
  have hin : LinksIn (taken.modify i fun s => { s with price := x, qty := q }) (linkBetween
      (taken.modify i fun s => { s with price := x, qty := q }) i none (ladder.side true).head)
      (i :: (ladder.side true).head.toList) :=
    linkBetween_linksIn (by simp) nofun fun y hy => by simp [hy]
  rw [hpos]
  refine ⟨_, rfl, hin.capacity, rfl, ?_, rfl, fun h => hin.free ?_⟩
  · refine (hin.price i).trans ?_
    rw [slots_modify_self]
  · exact h.congr rfl rfl rfl rfl fun _ _ => field_modify _ fun _ => rfl

end Best

/-- The bids at the prices below `n` have taken the first `n` slots of a slab. -/
structure LadderFilled (capacity n : Nat) (slab : OmMarketLevelSlab) (ladder : OmMarketLadder) :
    Prop where
  free : FreeLevels slab (List.range' n (capacity - n))
  capacity_eq : slab.capacity = capacity
  unlisted : ∀ x, n ≤ x → ladder.priceToSlot x = none
  best : ∀ j, (ladder.side true).head = some j → j < n ∧ (slab.slots j).price < n

theorem filled_init {capacity : Nat} (h : 0 < capacity) :
    LadderFilled capacity 0 (omMarketSlabInit capacity) .empty :=
  ⟨freeLevels_init h, rfl, fun _ _ => rfl, nofun⟩

section Fill

variable {capacity n : Nat} {slab : OmMarketLevelSlab} {ladder : OmMarketLadder}

theorem LadderFilled.add (h : LadderFilled capacity n slab ladder) (hn : n < capacity) :
    ∃ out, omLadderAddQty slab ladder n 1 true = (.ok, out) ∧
      LadderFilled capacity (n + 1) out.1 out.2 := by
  have hfree := h.free
  rw [show capacity - n = capacity - (n + 1) + 1 by omega, List.range'_succ] at hfree
  obtain ⟨taken, heq, hrest, hcapacity, hlevels⟩ := omMarketSlabAlloc_cons hfree
  have halloc : allocLevel slab = (some n, taken) := by rw [allocLevel, heq]
  have hhead : ∀ j, (ladder.side true).head = some j → j ≠ n ∧ (taken.slots j).price < n := by
    intro j hj
    obtain ⟨hlt, hprice⟩ := h.best j hj
    exact ⟨hlt.ne, (hlevels j hlt.ne).price ▸ hprice⟩
  obtain ⟨out, hadd, hbest⟩ :=
    omLadderAddQty_best Nat.one_ne_zero (h.unlisted n (Nat.le_refl n)) halloc hhead
  refine ⟨out, hadd, hbest.free hrest, ?_, fun x hx => ?_, fun j hj => ?_⟩
  · rw [hbest.capacity, hcapacity, h.capacity_eq]
  · rw [hbest.map, Function.update_of_ne (by omega)]
    exact h.unlisted x (by omega)
  · cases hbest.head.symm.trans hj
    exact ⟨Nat.lt_succ_self n, hbest.price.trans_lt (Nat.lt_succ_self n)⟩

/-- The addition after the last slot shrinks the slab and takes a slot behind its end. -/
theorem LadderFilled.wrap (h : LadderFilled (2 ^ 32 - 64) (2 ^ 32 - 64) slab ladder) :
    ∃ out, omLadderAddQty slab ladder (2 ^ 32 - 64) 1 true = (.ok, out) ∧
      out.1.capacity = 2 ^ 32 - 128 ∧ (out.2.side true).head = some (2 ^ 32 - 64) := by
  have hempty : FreeLevels slab [] := h.free
  have hcapacity := h.capacity_eq
  obtain ⟨taken, halloc, hshrunk, hlevels⟩ : ∃ taken,
      allocLevel slab = (some (2 ^ 32 - 64), taken) ∧ taken.capacity = 2 ^ 32 - 128 ∧
      ∀ j < 2 ^ 32 - 64, SameLevel (slab.slots j) (taken.slots j) := by
    -- the free slots are counted modulo 2 ^ 32
    have hcount : (omMarketSlabGrow slab).freeCount = 2 ^ 32 - 64 := by
      simp only [omMarketSlabGrow, hempty.count, hcapacity]
      rfl
    have hhead : (omMarketSlabGrow slab).q0Head = some (2 ^ 32 - 64) := by
      simp only [omMarketSlabGrow, show slab.q0Tail = none from hempty.tail, hcapacity]
      rfl
    rw [allocLevel, omMarketSlabAlloc_nil hempty]
    dsimp only
    rw [omMarketSlabAlloc, hcount, if_neg (by decide), hhead]
    refine ⟨_, rfl, ?_, fun j hj => ?_⟩
    · refine capacity_modifyAt.trans ?_
      change grownCapacity slab.capacity = _
      rw [hcapacity]
      rfl
    · dsimp only
      rw [slots_modify_ne hj.ne]
      exact (slots_omMarketSlabGrow (hcapacity ▸ hj)).trans
        (sameLevel_modifyAt fun _ => ⟨rfl, rfl, rfl, rfl⟩)
  obtain ⟨out, hadd, hbest⟩ := omLadderAddQty_best Nat.one_ne_zero (h.unlisted _ (Nat.le_refl _))
    halloc fun j hj => ⟨(h.best j hj).1.ne, (hlevels j (h.best j hj).1).price ▸ (h.best j hj).2⟩
  exact ⟨out, hadd, hbest.capacity.trans hshrunk, hbest.head⟩

end Fill

section Wrap

variable {σ ι : Type} {step : σ → ι → Option σ} {ok : σ → ι → Prop} {start : σ}
  (slab : σ → OmMarketLevelSlab) (ladder : σ → OmMarketLadder) (P : Nat → σ → Prop)
  (hadd : ∀ n < 2 ^ 32, ∀ s out, P n s →
    omLadderAddQty (slab s) (ladder s) n 1 true = (.ok, out) →
    ∃ a s', ok s a ∧ step s a = some s' ∧ P (n + 1) s' ∧ slab s' = out.1 ∧ ladder s' = out.2)
include hadd

theorem runs_fill {capacity : Nat} (hlt : capacity < 2 ^ 32) (hstart : P 0 start)
    (hfilled : LadderFilled capacity 0 (slab start) (ladder start)) : ∀ n ≤ capacity,
    ∃ s, Runs step ok start s ∧ P n s ∧ LadderFilled capacity n (slab s) (ladder s) := by
  intro n hn
  induction n with
  | zero => exact ⟨start, .start, hstart, hfilled⟩
  | succ n ih =>
    obtain ⟨s, hruns, hs, hfilled⟩ := ih (Nat.le_of_succ_le hn)
    obtain ⟨out, hout, hfilled⟩ := hfilled.add hn
    obtain ⟨a, s', hok, hstep, hs', hslab, hladder⟩ := hadd n (by omega) s out hs hout
    exact ⟨s', hruns.step a hok hstep, hs', by rw [hslab, hladder]; exact hfilled⟩

/-- Whatever adds the bids at the prices from 0 on to a ladder on a slab of `2 ^ 32 - 64` levels
gets to a level behind the end of the slab. -/
theorem runs_wrap (hstart : P 0 start)
    (hfilled : LadderFilled (2 ^ 32 - 64) 0 (slab start) (ladder start)) :
    ∃ s, Runs step ok start s ∧ (slab s).capacity = 2 ^ 32 - 128 ∧
      ((ladder s).side true).head = some (2 ^ 32 - 64) := by
  obtain ⟨s, hruns, hs, hfilled⟩ := runs_fill slab ladder P hadd (by decide) hstart hfilled
    (2 ^ 32 - 64) (Nat.le_refl _)
  obtain ⟨out, hout, hcapacity, hhead⟩ := hfilled.wrap
  obtain ⟨a, s', hok, hstep, -, hslab, hladder⟩ := hadd _ (by decide) s out hs hout
  exact ⟨s', hruns.step a hok hstep, hslab ▸ hcapacity, hladder ▸ hhead⟩

end Wrap

end VeloxMatch
