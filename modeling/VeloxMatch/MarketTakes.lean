import VeloxMatch.MarketFanOut
import Mathlib.Algebra.Ring.Int.Defs
import Mathlib.Algebra.Order.BigOperators.Group.List

namespace VeloxMatch

open OmMarketWorker Function List

def Takes (e : OmMarketDeltaEntry) (d : Int) : Prop :=
  ¬deltaOverflows e d ∧ (changedQty e.absQty d).isSome = true

instance (e : OmMarketDeltaEntry) (d : Int) : Decidable (Takes e d) :=
  inferInstanceAs (Decidable (_ ∧ _))

section Takes

variable {e e' : OmMarketDeltaEntry} {d s : Int}

theorem takes_zero (e : OmMarketDeltaEntry) : Takes e 0 :=
  ⟨by unfold deltaOverflows; omega, by simp [changedQty]⟩

theorem takes_of_pos (hd : 0 < d) :
    Takes e d ↔ e.delta + d ≤ int64Max ∧ (e.absQty : Int) + d ≤ uint64Max := by
  have hqty : (changedQty e.absQty d).isSome = true ↔ (e.absQty : Int) + d ≤ uint64Max := by
    unfold changedQty
    rw [if_neg (by omega)]
    split
    · exact iff_of_false nofun (by omega)
    · exact iff_of_true rfl (by omega)
  rw [Takes, hqty]
  unfold deltaOverflows
  omega

theorem takes_of_neg (hd : d < 0) :
    Takes e d ↔ -(int64Max : Int) - 1 ≤ e.delta + d ∧ 0 ≤ (e.absQty : Int) + d := by
  have hqty : (changedQty e.absQty d).isSome = true ↔ 0 ≤ (e.absQty : Int) + d := by
    unfold changedQty
    rw [if_pos hd]
    split
    · exact iff_of_false nofun (by omega)
    · exact iff_of_true rfl (by omega)
  rw [Takes, hqty]
  unfold deltaOverflows
  omega

theorem takes_left (hway : 0 ≤ d ∧ 0 ≤ s ∨ d ≤ 0 ∧ s ≤ 0) (h : Takes e (d + s)) : Takes e d := by
  rcases eq_or_ne d 0 with rfl | hd
  · exact takes_zero e
  rcases hway with ⟨hd', hs⟩ | ⟨hd', hs⟩
  · rw [takes_of_pos (by omega)] at h ⊢
    omega
  · rw [takes_of_neg (by omega)] at h ⊢
    omega

theorem takes_right (hway : 0 ≤ d ∧ 0 ≤ s ∨ d ≤ 0 ∧ s ≤ 0) (hdelta : e'.delta = e.delta + d)
    (hqty : (e'.absQty : Int) = e.absQty + d) (htakes : Takes e d) :
    Takes e' s ↔ Takes e (d + s) := by
  rcases eq_or_ne s 0 with rfl | hs
  · rw [Int.add_zero]
    exact iff_of_true (takes_zero e') htakes
  rcases hway with ⟨hd, hs'⟩ | ⟨hd, hs'⟩
  · rw [takes_of_pos (by omega), takes_of_pos (by omega)]
    omega
  · rw [takes_of_neg (by omega), takes_of_neg (by omega)]
    omega

end Takes

namespace OmMarketWorker

variable (worker : OmMarketWorker)

/-- The ladders that a loop over viewers changes, in its order, with the changes. -/
def moves (change : Nat → Option Int) (idxs : List Nat) : List (Nat × Int) :=
  idxs.filterMap fun idx => (worker.productLadderIndices idx).bind fun ladder =>
    (change (worker.productOrgs idx)).map (ladder, ·)

def ladderSum (ms : List (Nat × Int)) (ladder : Nat) : Int :=
  ((ms.filter (·.1 = ladder)).map (·.2)).sum

def AllTake (price : Nat) (isBid : Bool) (ms : List (Nat × Int)) : Prop :=
  ∀ m ∈ ms, Takes ((worker.ladderDeltas m.1 isBid).entry price) (ladderSum ms m.1)

instance (price : Nat) (isBid : Bool) (ms : List (Nat × Int)) :
    Decidable (worker.AllTake price isBid ms) :=
  inferInstanceAs (Decidable (∀ m ∈ ms, _))

def FirstRefuses (price : Nat) (isBid : Bool) (ms : List (Nat × Int)) : Prop :=
  ∃ m ∈ ms.head?, ¬Takes ((worker.ladderDeltas m.1 isBid).entry price) m.2

def recordMoves (price : Nat) (isBid : Bool) :
    List (Nat × Int) → OmMarketWorker → OmError × OmMarketWorker
  | [], worker => (.ok, worker)
  | m :: ms, worker =>
    match worker.recordChange price isBid m.1 m.2 with
    | (.ok, worker) => recordMoves price isBid ms worker
    | (err, worker) => (err, worker)

end OmMarketWorker

section Moves

variable {worker worker' : OmMarketWorker} {price : Nat} {isBid : Bool}
  {change : Nat → Option Int}

theorem moves_same (h : SameButDeltas worker worker') (idxs : List Nat) :
    worker'.moves change idxs = worker.moves change idxs := by
  rw [h]
  rfl

theorem fanOut_eq_recordMoves (idxs : List Nat) (worker : OmMarketWorker) :
    fanOut price isBid change idxs worker =
      recordMoves price isBid (worker.moves change idxs) worker := by
  induction idxs generalizing worker with
  | nil => rfl
  | cons idx idxs ih =>
    unfold fanOut OmMarketWorker.moves
    rw [filterMap_cons]
    cases hl : worker.productLadderIndices idx with
    | none => exact ih worker
    | some l =>
      cases hd : change (worker.productOrgs idx) with
      | none => exact ih worker
      | some d =>
        simp only [Option.bind_some, Option.map_some, recordMoves]
        cases hmid : worker.recordChange price isBid l d with
        | mk err mid =>
          cases err with
          | ok =>
            dsimp only
            rw [ih mid, moves_same (recordChange_same hmid)]
            rfl
          | _ => rfl

end Moves

theorem omMarketDeltaAdd_of_takes {side : DeltaSide} {price : Nat} {d : Int}
    (hprice : price ≠ uint64Max) (h : Takes (side.entry price) d) :
    ∃ side', omMarketDeltaAdd side price d d true = (.ok, side') ∧
      (side'.entry price).delta = (side.entry price).delta + d ∧
      ((side'.entry price).absQty : Int) = (side.entry price).absQty + d := by
  obtain ⟨hover, hsome⟩ := h
  obtain ⟨qty, hqty⟩ := Option.isSome_iff_exists.mp hsome
  have hsum := changedQty_eq hqty
  unfold omMarketDeltaAdd
  rw [if_neg hprice]
  split
  · next hzero =>
    rw [hzero.1, Int.add_zero, Int.add_zero]
    exact ⟨side, rfl, rfl, rfl⟩
  dsimp only
  rw [if_neg hover, if_pos rfl, hqty]
  dsimp only
  split
  · exact ⟨_, rfl, by rw [entry_set_self], by rw [entry_set_self]; exact hsum⟩
  · refine ⟨_, rfl, ?_, ?_⟩
    · exact congrArg OmMarketDeltaEntry.delta entry_set_self
    · exact (congrArg (fun e : OmMarketDeltaEntry => (e.absQty : Int)) entry_set_self).trans hsum

section Record

variable {worker worker' : OmMarketWorker} {price l : Nat} {isBid : Bool} {d : Int}

theorem ladderDeltas_setDelta (worker : OmMarketWorker) (l : Nat) (isBid : Bool) (side : DeltaSide) :
    (worker.setDelta l isBid side).ladderDeltas l isBid = side := by
  change update worker.ladderDeltas l _ l isBid = side
  rw [update_self, update_self]

theorem entry_set_entry (side : DeltaSide) (x y : Nat) :
    (side.set x (side.entry x)).entry y = side.entry y := by
  rcases eq_or_ne y x with rfl | hne
  · exact entry_set_self
  · exact entry_set_ne hne

theorem entry_touch (worker : OmMarketWorker) (l k : Nat) (isBid b : Bool) (price x : Nat) :
    ((worker.setDelta l isBid ((worker.ladderDeltas l isBid).set price
      ((worker.ladderDeltas l isBid).entry price))).ladderDeltas k b).entry x =
        (worker.ladderDeltas k b).entry x :=
  forall_update_update (P := fun k b (side : DeltaSide) =>
    side.entry x = (worker.ladderDeltas k b).entry x) (entry_set_entry ..) (fun _ _ => rfl) k b

theorem recordChange_of_takes (hl : l < worker.subscriptionCount) (hprice : price ≠ uint64Max)
    (h : Takes ((worker.ladderDeltas l isBid).entry price) d) :
    ∃ worker', worker.recordChange price isBid l d = (.ok, worker') ∧
      SameButDeltas worker worker' ∧
      ((worker'.ladderDeltas l isBid).entry price).delta =
        ((worker.ladderDeltas l isBid).entry price).delta + d ∧
      (((worker'.ladderDeltas l isBid).entry price).absQty : Int) =
        ((worker.ladderDeltas l isBid).entry price).absQty + d ∧
      ∀ k, k ≠ l → worker'.ladderDeltas k = worker.ladderDeltas k := by
  obtain ⟨side, hadd, hdelta, hqty⟩ := omMarketDeltaAdd_of_takes hprice h
  have hrec : worker.recordChange price isBid l d = (.ok, { worker.setDelta l isBid side with
      dirty := worker.dirty.mark l }) := by
    unfold recordChange
    rw [if_pos hl, hadd]
    rfl
  have hside := ladderDeltas_setDelta worker l isBid side
  refine ⟨_, hrec, rfl, ?_, ?_, fun k hk => update_of_ne hk ..⟩
  · exact (congrArg (fun s => (s.entry price).delta) hside).trans hdelta
  · exact (congrArg (fun s => ((s.entry price).absQty : Int)) hside).trans hqty

theorem recordChange_of_refuses (hl : l < worker.subscriptionCount) (hprice : price ≠ uint64Max)
    (h : ¬Takes ((worker.ladderDeltas l isBid).entry price) d) :
    worker.recordChange price isBid l d = (.outOfRange, worker.setDelta l isBid
      ((worker.ladderDeltas l isBid).set price ((worker.ladderDeltas l isBid).entry price))) := by
  have hzero : ¬(d = 0 ∧ d = 0) := by
    rintro ⟨rfl, -⟩
    exact h (takes_zero _)
  have hadd : omMarketDeltaAdd (worker.ladderDeltas l isBid) price d d true = (.outOfRange,
      (worker.ladderDeltas l isBid).set price ((worker.ladderDeltas l isBid).entry price)) := by
    unfold omMarketDeltaAdd
    rw [if_neg hprice, if_neg hzero]
    dsimp only
    split
    · rfl
    · next hover =>
      have hnone : changedQty ((worker.ladderDeltas l isBid).entry price).absQty d = none := by
        by_contra hsome
        exact h ⟨hover, Option.isSome_iff_ne_none.mpr hsome⟩
      rw [if_pos rfl, hnone]
  unfold recordChange
  rw [if_pos hl, hadd]

end Record

section Sum

variable {ms : List (Nat × Int)} {m : Nat × Int} {l : Nat}

theorem ladderSum_cons_self (ms : List (Nat × Int)) (m : Nat × Int) :
    ladderSum (m :: ms) m.1 = m.2 + ladderSum ms m.1 := by
  simp [ladderSum]

theorem ladderSum_cons_ne (h : l ≠ m.1) : ladderSum (m :: ms) l = ladderSum ms l := by
  simp [ladderSum, h.symm]

theorem ladderSum_of_notMem (h : ∀ m ∈ ms, m.1 ≠ l) : ladderSum ms l = 0 := by
  have hnil : ms.filter (·.1 = l) = [] := filter_eq_nil_iff.mpr fun m hm => by simpa using h m hm
  rw [ladderSum, hnil]
  rfl

def OneWay (ms : List (Nat × Int)) : Prop := (∀ m ∈ ms, 0 ≤ m.2) ∨ ∀ m ∈ ms, m.2 ≤ 0

theorem OneWay.tail (h : OneWay (m :: ms)) : OneWay ms :=
  h.imp (fun h => (forall_mem_cons.mp h).2) fun h => (forall_mem_cons.mp h).2

theorem OneWay.head (h : OneWay (m :: ms)) (l : Nat) :
    0 ≤ m.2 ∧ 0 ≤ ladderSum ms l ∨ m.2 ≤ 0 ∧ ladderSum ms l ≤ 0 := by
  refine h.imp (fun h => ?_) fun h => ?_
  · obtain ⟨hm, h⟩ := forall_mem_cons.mp h
    refine ⟨hm, sum_nonneg fun d hd => ?_⟩
    obtain ⟨m', hm', rfl⟩ := mem_map.mp hd
    exact h m' (mem_of_mem_filter hm')
  · obtain ⟨hm, h⟩ := forall_mem_cons.mp h
    refine ⟨hm, (sum_le_card_nsmul _ 0 fun d hd => ?_).trans_eq (nsmul_zero _)⟩
    obtain ⟨m', hm', rfl⟩ := mem_map.mp hd
    exact h m' (mem_of_mem_filter hm')

end Sum

section Run

variable {worker worker' : OmMarketWorker} {price : Nat} {isBid : Bool} {ms : List (Nat × Int)}
  {m : Nat × Int}

theorem allTake_iff : worker.AllTake price isBid ms ↔
    ∀ l, Takes ((worker.ladderDeltas l isBid).entry price) (ladderSum ms l) := by
  refine ⟨fun h l => ?_, fun h m _ => h m.1⟩
  by_cases hl : ∃ m ∈ ms, m.1 = l
  · obtain ⟨m, hm, rfl⟩ := hl
    exact h m hm
  · rw [ladderSum_of_notMem fun m hm he => hl ⟨m, hm, he⟩]
    exact takes_zero _

theorem recordMoves_cons_taken (h : worker.recordChange price isBid m.1 m.2 = (.ok, worker')) :
    recordMoves price isBid (m :: ms) worker = recordMoves price isBid ms worker' := by
  rw [recordMoves, h]

/-- The loop ends without an error exactly if every ladder has room for the sum of its changes. -/
theorem recordMoves_ok_iff (hway : OneWay ms) (hprice : price ≠ uint64Max)
    (hlt : ∀ m ∈ ms, m.1 < worker.subscriptionCount) :
    (recordMoves price isBid ms worker).1 = .ok ↔ worker.AllTake price isBid ms := by
  rw [allTake_iff]
  induction ms generalizing worker with
  | nil => exact iff_of_true rfl fun l => takes_zero _
  | cons m ms ih =>
    obtain ⟨hm, hlt⟩ := forall_mem_cons.mp hlt
    by_cases htakes : Takes ((worker.ladderDeltas m.1 isBid).entry price) m.2
    · obtain ⟨mid, hrec, hsame, hdelta, hqty, hother⟩ := recordChange_of_takes hm hprice htakes
      have hcount : mid.subscriptionCount = worker.subscriptionCount := by rw [hsame]
      rw [recordMoves_cons_taken hrec, ih hway.tail (by rwa [hcount])]
      refine forall_congr' fun l => ?_
      rcases eq_or_ne l m.1 with rfl | hne
      · rw [ladderSum_cons_self]
        exact takes_right (hway.head m.1) hdelta hqty htakes
      · rw [ladderSum_cons_ne hne, hother l hne]
    · refine iff_of_false ?_ fun h => htakes ?_
      · rw [recordMoves, recordChange_of_refuses hm hprice htakes]
        exact nofun
      · have hsum := h m.1
        rw [ladderSum_cons_self] at hsum
        exact takes_left (hway.head m.1) hsum

theorem recordMoves_first_refuses (hprice : price ≠ uint64Max) (hm : m.1 < worker.subscriptionCount)
    (h : ¬Takes ((worker.ladderDeltas m.1 isBid).entry price) m.2) :
    recordMoves price isBid (m :: ms) worker = (.outOfRange, worker.setDelta m.1 isBid
      ((worker.ladderDeltas m.1 isBid).set price
        ((worker.ladderDeltas m.1 isBid).entry price))) := by
  rw [recordMoves, recordChange_of_refuses hm hprice h]

theorem recordMoves_way (hprice : price ≠ uint64Max)
    (hlt : ∀ m ∈ ms, m.1 < worker.subscriptionCount) (l : Nat) :
    ((∀ m ∈ ms, 0 ≤ m.2) → ((worker.ladderDeltas l isBid).entry price).delta ≤
      (((recordMoves price isBid ms worker).2.ladderDeltas l isBid).entry price).delta) ∧
    ((∀ m ∈ ms, m.2 ≤ 0) → (((recordMoves price isBid ms worker).2.ladderDeltas l isBid).entry
      price).delta ≤ ((worker.ladderDeltas l isBid).entry price).delta) := by
  induction ms generalizing worker with
  | nil => exact ⟨fun _ => Int.le_refl _, fun _ => Int.le_refl _⟩
  | cons m ms ih =>
    obtain ⟨hm, hlt⟩ := forall_mem_cons.mp hlt
    by_cases htakes : Takes ((worker.ladderDeltas m.1 isBid).entry price) m.2
    · obtain ⟨mid, hrec, hsame, hdelta, -, hother⟩ := recordChange_of_takes hm hprice htakes
      have hcount : mid.subscriptionCount = worker.subscriptionCount := by rw [hsame]
      have hmid : ((mid.ladderDeltas l isBid).entry price).delta =
          ((worker.ladderDeltas l isBid).entry price).delta + if l = m.1 then m.2 else 0 := by
        rcases eq_or_ne l m.1 with rfl | hne
        · rw [if_pos rfl, hdelta]
        · rw [if_neg hne, hother l hne, Int.add_zero]
      obtain ⟨hup, hdown⟩ := ih (by rwa [hcount])
      rw [recordMoves_cons_taken hrec]
      refine ⟨fun h => ?_, fun h => ?_⟩
      · obtain ⟨hpos, h⟩ := forall_mem_cons.mp h
        have := hup h
        split at hmid <;> omega
      · obtain ⟨hneg, h⟩ := forall_mem_cons.mp h
        have := hdown h
        split at hmid <;> omega
    · rw [recordMoves_first_refuses hprice hm htakes, entry_touch]
      exact ⟨fun _ => Int.le_refl _, fun _ => Int.le_refl _⟩

theorem recordMoves_first_taken (hway : OneWay (m :: ms)) (hprice : price ≠ uint64Max)
    (hlt : ∀ m' ∈ m :: ms, m'.1 < worker.subscriptionCount) (hm : m.2 ≠ 0)
    (h : Takes ((worker.ladderDeltas m.1 isBid).entry price) m.2) :
    (((recordMoves price isBid (m :: ms) worker).2.ladderDeltas m.1 isBid).entry price).delta ≠
      ((worker.ladderDeltas m.1 isBid).entry price).delta := by
  obtain ⟨hlt', hlt⟩ := forall_mem_cons.mp hlt
  obtain ⟨mid, hrec, hsame, hdelta, -⟩ := recordChange_of_takes hlt' hprice h
  have hcount : mid.subscriptionCount = worker.subscriptionCount := by rw [hsame]
  rw [recordMoves_cons_taken hrec]
  obtain ⟨hup, hdown⟩ := @recordMoves_way mid price isBid ms hprice (by rwa [hcount]) m.1
  rcases hway with hway | hway
  · obtain ⟨hpos, hway⟩ := forall_mem_cons.mp hway
    have := hup hway
    omega
  · obtain ⟨hneg, hway⟩ := forall_mem_cons.mp hway
    have := hdown hway
    omega

end Run

end VeloxMatch
