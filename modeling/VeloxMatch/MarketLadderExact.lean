import VeloxMatch.MarketFull

namespace VeloxMatch

open OmMarketLevelSlab Function List

def plainInsertPos (slab : OmMarketLevelSlab) (ladder : OmMarketLadder) (price : Nat)
    (isBid : Bool) : Option Nat :=
  walkForward slab isBid price slab.capacity none (ladder.side isBid).head

/-- The ladders fill the slab: every slot is free or a level of one side of one ladder. -/
structure LaddersExact (slab : OmMarketLevelSlab) (ladders : Nat → OmMarketLadder)
    (total : Nat → Bool → Nat → Nat) (lists : Nat → Bool → List Nat) (free : List Nat) : Prop
    extends Ladders slab ladders total lists free where
  whole : ∀ {i}, i < slab.capacity → i ∈ free ∨ ∃ p b, i ∈ lists p b
  count : ∀ p b, ((ladders p).side b).count = (lists p b).length
  capacity_lt : slab.capacity < 2 ^ 32

theorem laddersExact_init {capacity : Nat} (hpos : 0 < capacity) (hlt : capacity < 2 ^ 32) :
    LaddersExact (omMarketSlabInit capacity) (fun _ => .empty) (fun _ _ _ => 0) (fun _ _ => [])
      (range' 0 capacity) := by
  refine ⟨⟨freeLevels_init hpos, fun p b => ?_, nofun, nofun, nofun, iff_of_false nofun nofun, nofun,
    nofun, fun hne => absurd rfl hne⟩, fun hi => ?_, fun p b => ?_, hlt⟩
  · have hside : OmMarketLadder.empty.side b = .empty := by cases b <;> rfl
    rw [hside]
    exact sideList_empty _ b
  · have hi : _ < capacity := hi
    exact .inl (mem_range'_1.mpr (by omega))
  · cases b <;> rfl

section Exact

variable {slab slab' : OmMarketLevelSlab} {ladders : Nat → OmMarketLadder}
  {total total' : Nat → Bool → Nat → Nat} {lists : Nat → Bool → List Nat} {free free' : List Nat}
  {p x q i : Nat} {b : Bool} {l : List Nat} {ladder : OmMarketLadder}
  {out : OmMarketLevelSlab × OmMarketLadder}

theorem LevelChange.length_new (c : LevelChange slab slab' ladders ladder lists free' p b x i q l)
    (hnodup : (lists p b).Nodup) (hi : i ∉ lists p b) (hq : q ≠ 0) :
    l.length = (lists p b).length + 1 := by
  have hperm : l.Perm (i :: lists p b) := by
    refine (perm_ext_iff_of_nodup c.side.nodup (nodup_cons.mpr ⟨hi, hnodup⟩)).mpr ?_
    intro j
    rw [c.mem, mem_cons]
    rcases eq_or_ne j i with rfl | hne
    · simp [hq]
    · simp [hne]
  rw [hperm.length_eq, length_cons]

theorem LevelChange.length_gone (c : LevelChange slab slab' ladders ladder lists free' p b x i 0 l)
    (hnodup : (lists p b).Nodup) (hi : i ∈ lists p b) : (lists p b).length = l.length + 1 := by
  have hgone : i ∉ l := fun hmem => by simpa using c.mem.mp hmem
  have hperm : (lists p b).Perm (i :: l) := by
    refine (perm_ext_iff_of_nodup hnodup (nodup_cons.mpr ⟨hgone, c.side.nodup⟩)).mpr ?_
    intro j
    rw [mem_cons, c.mem]
    rcases eq_or_ne j i with rfl | hne
    · simp [hi]
    · simp [hne]
  rw [hperm.length_eq, length_cons]

theorem count_linkAfter (slab : OmMarketLevelSlab) (ladder : OmMarketLadder) (i : Nat)
    (after : Option Nat) (b : Bool) :
    ((omLadderLinkAfter slab ladder i after b).2.side b).count =
      ((ladder.side b).count + 1) % 2 ^ 32 := by
  unfold omLadderLinkAfter
  dsimp only
  rw [side_setSide]

theorem count_unlink (slab : OmMarketLevelSlab) (ladder : OmMarketLadder) (i : Nat) (b : Bool) :
    ((omLadderUnlink slab ladder i b).2.side b).count =
      ((ladder.side b).count + (2 ^ 32 - 1)) % 2 ^ 32 := by
  unfold omLadderUnlink
  dsimp only
  rw [side_setSide]

variable (h : LaddersExact slab ladders total lists free)
include h

theorem LaddersExact.length_le (p : Nat) (b : Bool) : (lists p b).length ≤ slab.capacity := by
  have hsub : lists p b ⊆ range slab.capacity := fun i hi =>
    mem_range.mpr (h.lt_capacity hi)
  simpa using (subperm_of_subset (h.side p b).nodup hsub).length_le

/-- The search finds the place of every price that a walk from the head finds. -/
theorem LaddersExact.findInsertPos (p : Nat) (b : Bool) (price : Nat) :
    omLadderFindInsertPos slab (ladders p) price b = plainInsertPos slab (ladders p) price b := by
  have hside := h.side p b
  rw [omLadderFindInsertPos_eq hside (fun i hi => h.lt_capacity hi), plainInsertPos, hside.head]
  exact (walkForward_eq (a := []) hside (h.length_le p b)).symm

variable (hother : ∀ p' b' x', ¬(p' = p ∧ b' = b ∧ x' = x) → total' p' b' x' = total p' b' x')
include hother

theorem LaddersExact.changed (c : LevelChange slab slab' ladders ladder lists free' p b x i q l)
    (hself : total' p b x = q)
    (hcover : ∀ j, j < slab'.capacity → j ≠ i → j ∈ free' ∨ ∃ p b, j ∈ lists p b)
    (hgone : q = 0 → i ∈ free') (hcount : (ladder.side b).count = l.length)
    (hcapacity : slab'.capacity < 2 ^ 32) :
    LaddersExact slab' (update ladders p ladder) total' (setList lists p b l) free' := by
  refine ⟨h.toLadders.changed c hself hother, fun {j} hj => ?_, fun p' b' => ?_, hcapacity⟩
  · rcases eq_or_ne j i with rfl | hne
    · by_cases hq : q = 0
      · exact .inl (hgone hq)
      · exact .inr ⟨p, b, c.mem_setList.mpr (.inr ⟨rfl, hq, rfl, rfl⟩)⟩
    · refine (hcover j hj hne).imp_right ?_
      rintro ⟨p', b', hmem⟩
      exact ⟨p', b', c.mem_setList.mpr (.inl ⟨hmem, hne⟩)⟩
  · by_cases hplace : p' = p ∧ b' = b
    · obtain ⟨rfl, rfl⟩ := hplace
      rw [update_self, setList_self, hcount]
    · rw [setList_ne hplace, ← h.count p' b']
      rcases eq_or_ne p' p with rfl | hne
      · obtain rfl : b' = !b := Bool.eq_not_of_ne fun hb => hplace ⟨rfl, hb⟩
        rw [update_self, c.opposite]
      · rw [update_of_ne hne]

theorem LaddersExact.setQty (hi : i ∈ lists p b) (hprice : (slab.slots i).price = x) (hq : q ≠ 0)
    {f : OmMarketLevelSlot → OmMarketLevelSlot}
    (hf : f (slab.slots i) = { slab.slots i with qty := q }) (hself : total' p b x = q) :
    LaddersExact (slab.modify i f) (update ladders p (ladders p)) total'
      (setList lists p b (lists p b)) free :=
  h.changed hother (h.toLadders.setQty hi hprice hq hf) hself (fun _ hj _ => h.whole hj)
    (fun h0 => absurd h0 hq) (h.count p b) h.capacity_lt

theorem LaddersExact.newLevel (hnone : (ladders p).priceToSlot x = none) {taken : OmMarketLevelSlab}
    (htaken : LevelTaken slab taken free free' i) (hcovered : SlotsCovered slab taken free free' i)
    (hq : q ≠ 0)
    (hmap : { ladders p with
      priceToSlot := update (ladders p).priceToSlot x (some i) } = ladder)
    {filled : OmMarketLevelSlab}
    (hfilled : taken.modify i (fun s => { s with price := x, qty := q }) = filled)
    (hout : omLadderLinkAfter filled ladder i (omLadderFindInsertPos filled ladder x b) b = out)
    (hself : total' p b x = q) :
    ∃ l, LaddersExact out.1 (update ladders p out.2) total' (setList lists p b l) free' := by
  obtain ⟨l, c⟩ := h.toLadders.newLevel hnone htaken hq hfilled hmap hout
  have hcapacity : out.1.capacity = taken.capacity := by
    rw [← hout, capacity_omLadderLinkAfter, ← hfilled, capacity_modify]
  have hsmall : taken.capacity < 2 ^ 32 := by
    rcases hcovered.capacity with hsame | hgrown
    · exact hsame ▸ h.capacity_lt
    · exact hgrown ▸ grownCapacity_lt _
  have hnew : i ∉ lists p b := by
    intro hi
    rcases htaken.taken with hfree | hle
    · exact h.notFree hi hfree
    · exact Nat.not_le.mpr (h.lt_capacity hi) hle
  have hlength := c.length_new (h.side p b).nodup hnew hq
  have hle : l.length ≤ taken.capacity := by
    have hsub : l ⊆ range taken.capacity := fun j hj => by
      rw [mem_range]
      rcases c.mem.mp hj with ⟨hold, -⟩ | ⟨rfl, -⟩
      · exact Nat.lt_of_lt_of_le (h.lt_capacity hold) htaken.capacity
      · exact htaken.lt_capacity
    simpa using (subperm_of_subset c.side.nodup hsub).length_le
  have hside : ladder.side b = (ladders p).side b := by
    rw [← hmap]
    cases b <;> rfl
  refine ⟨l, h.changed hother c hself (fun j hj hne => ?_) (fun h0 => absurd h0 hq) ?_
    (hcapacity ▸ hsmall)⟩
  · rw [hcapacity] at hj
    rcases hcovered.cover j hj with he | hfree | ⟨hlt, hused⟩
    · exact absurd he hne
    · exact .inl hfree
    · exact .inr ((h.whole hlt).resolve_left hused)
  · rw [← hout, count_linkAfter, hside, h.count, hlength, Nat.mod_eq_of_lt (by omega)]

theorem LaddersExact.dropLevel (hi : i ∈ lists p b) (hprice : (slab.slots i).price = x)
    (hout : omLadderUnlink slab (ladders p) i b = out) (hself : total' p b x = 0) :
    ∃ l, LaddersExact (omMarketSlabFree out.1 i) (update ladders p
      { out.2 with priceToSlot := update out.2.priceToSlot x none }) total'
      (setList lists p b l) (i :: free) := by
  obtain ⟨l, c⟩ := h.toLadders.dropLevel hi hprice hout
  have hlength := c.length_gone (h.side p b).nodup hi
  have hle := h.length_le p b
  have hlt := h.capacity_lt
  have hcapacity : (omMarketSlabFree out.1 i).capacity = slab.capacity := by
    rw [capacity_omMarketSlabFree, ← hout, capacity_omLadderUnlink]
  refine ⟨l, h.changed hother c hself (fun j hj _ => ?_) (fun _ => mem_cons_self) ?_
    (hcapacity ▸ hlt)⟩
  · rw [hcapacity] at hj
    exact (h.whole hj).imp_left (mem_cons_of_mem i)
  · have hside : OmMarketLadder.side { out.2 with
        priceToSlot := update out.2.priceToSlot x none } b = out.2.side b := by
      cases b <;> rfl
    rw [hside, ← hout, count_unlink, h.count, hlength]
    omega

end Exact

def setTotal (total : Nat → Bool → Nat → Nat) (p : Nat) (b : Bool) (x q : Nat) :
    Nat → Bool → Nat → Nat :=
  fun p' b' x' => if p' = p ∧ b' = b ∧ x' = x then q else total p' b' x'

section Calls

variable {slab : OmMarketLevelSlab} {ladders : Nat → OmMarketLadder}
  {total : Nat → Bool → Nat → Nat} {lists : Nat → Bool → List Nat} {free : List Nat}
  {p x q : Nat} {b : Bool}

theorem setTotal_self : setTotal total p b x q p b x = q := if_pos ⟨rfl, rfl, rfl⟩

theorem setTotal_ne (p' : Nat) (b' : Bool) (x' : Nat) (h : ¬(p' = p ∧ b' = b ∧ x' = x)) :
    setTotal total p b x q p' b' x' = total p' b' x' := if_neg h

theorem setTotal_same (h : total p b x = q) : setTotal total p b x q = total := by
  funext p' b' x'
  by_cases hplace : p' = p ∧ b' = b ∧ x' = x
  · obtain ⟨rfl, rfl, rfl⟩ := hplace
    rw [setTotal_self, h]
  · rw [setTotal_ne p' b' x' hplace]

variable (h : LaddersExact slab ladders total lists free)
include h

theorem LaddersExact.slot_side {i : Nat} (hi : (ladders p).priceToSlot x = some i)
    (hopposite : total p (!b) x = 0) :
    i ∈ lists p b ∧ (slab.slots i).price = x ∧ (slab.slots i).qty = total p b x ∧
      total p b x ≠ 0 := by
  obtain ⟨b', hmem, hprice, hqty, hne⟩ := h.slot_some hi
  obtain rfl : b' = b := by
    by_contra hb
    exact hne (Bool.eq_not_of_ne hb ▸ hopposite)
  exact ⟨hmem, hprice, hqty, hne⟩

theorem LaddersExact.add (hopposite : total p (!b) x = 0) (hfits : LevelFits slab (ladders p) x q)
    {out : OmError × OmMarketLevelSlab × OmMarketLadder}
    (hout : omLadderAddQty slab (ladders p) x q b = out) :
    ∃ lists' free', LaddersExact out.2.1 (update ladders p out.2.2)
      (if out.1 = .ok then setTotal total p b x (total p b x + q) else total) lists' free' := by
  unfold omLadderAddQty at hout
  split at hout
  · next hq =>
    subst hout hq
    rw [if_pos rfl, update_eq_self, setTotal_same (Nat.add_zero _).symm]
    exact ⟨lists, free, h⟩
  next hq =>
  split at hout
  · next i hi =>
    obtain ⟨hmem, hprice, hqty, -⟩ := h.slot_side hi hopposite
    split at hout
    · subst hout
      rw [if_neg nofun, update_eq_self]
      exact ⟨lists, free, h⟩
    · subst hout
      rw [if_pos rfl]
      have hself : setTotal total p b x (total p b x + q) p b x = total p b x + q := setTotal_self
      exact ⟨_, _, h.setQty setTotal_ne (f := fun s => { s with qty := s.qty + q }) hmem hprice
        (by omega) (by rw [hqty]) hself⟩
  · next hnone =>
    obtain ⟨i, taken, free', halloc, htaken, hcovered⟩ :=
      allocLevel_taken h.freeLevels (hfits hq hnone)
    rw [halloc] at hout
    subst hout
    rw [if_pos rfl]
    have hzero : total p b x + q = q := by rw [h.slot_none.mp hnone, Nat.zero_add]
    obtain ⟨l, hexact⟩ := h.newLevel setTotal_ne hnone htaken hcovered hq rfl rfl rfl
      (setTotal_self.trans hzero)
    exact ⟨_, _, hexact⟩

theorem LaddersExact.sub (hopposite : total p (!b) x = 0) {out : OmMarketLevelSlab × OmMarketLadder}
    (hout : omLadderSubQty slab (ladders p) x q b = out) :
    ∃ lists' free', LaddersExact out.1 (update ladders p out.2)
      (setTotal total p b x (total p b x - q)) lists' free' := by
  unfold omLadderSubQty at hout
  split at hout
  · next hq =>
    subst hout hq
    rw [update_eq_self, setTotal_same (Nat.sub_zero _).symm]
    exact ⟨lists, free, h⟩
  next hq =>
  split at hout
  · next hnone =>
    subst hout
    have hzero := h.slot_none.mp hnone b
    rw [update_eq_self, setTotal_same (by omega)]
    exact ⟨lists, free, h⟩
  · next i hi =>
    obtain ⟨hmem, hprice, hqty, hne⟩ := h.slot_side hi hopposite
    split at hout
    · next hall =>
      subst hout
      obtain ⟨l, hexact⟩ := h.dropLevel setTotal_ne hmem hprice rfl
        (setTotal_self.trans (show total p b x - q = 0 by omega))
      exact ⟨_, _, hexact⟩
    · subst hout
      have hself : setTotal total p b x (total p b x - q) p b x = total p b x - q := setTotal_self
      exact ⟨_, _, h.setQty setTotal_ne (f := fun s => { s with qty := s.qty - q }) hmem hprice
        (by omega) (by rw [hqty]) hself⟩

end Calls

open LaddersExact

/-- Ladders over one slab, with the quantity that the calls have left at each price of each side. -/
structure LadderState where
  slab : OmMarketLevelSlab
  ladders : Nat → OmMarketLadder
  total : Nat → Bool → Nat → Nat

inductive LadderCall where
  | add (ladder price qty : Nat) (isBid : Bool)
  | sub (ladder price qty : Nat) (isBid : Bool)

def LadderState.start (capacity : Nat) : LadderState where
  slab := omMarketSlabInit capacity
  ladders := fun _ => .empty
  total := fun _ _ _ => 0

variable (s : LadderState)

/-- A failed addition leaves no quantity behind. -/
def LadderState.step : LadderCall → Option LadderState
  | .add p x q b =>
    let out := omLadderAddQty s.slab (s.ladders p) x q b
    some ⟨out.2.1, update s.ladders p out.2.2,
      if out.1 = .ok then setTotal s.total p b x (s.total p b x + q) else s.total⟩
  | .sub p x q b =>
    let out := omLadderSubQty s.slab (s.ladders p) x q b
    some ⟨out.1, update s.ladders p out.2, setTotal s.total p b x (s.total p b x - q)⟩

def LadderState.oneSided : LadderCall → Prop
  | .add p x _ b | .sub p x _ b => s.total p (!b) x = 0

instance : (call : LadderCall) → Decidable (s.oneSided call)
  | .add .. | .sub .. => inferInstanceAs (Decidable (_ = 0))

def LadderState.growthFits : LadderCall → Prop
  | .add p x q _ => LevelFits s.slab (s.ladders p) x q
  | .sub .. => True

instance : (call : LadderCall) → Decidable (s.growthFits call)
  | .add .. => inferInstanceAs (Decidable (LevelFits ..))
  | .sub .. => instDecidableTrue

/-- All that is said of the ladders and their slab, and that the hints do not change a search. -/
def LadderState.Exact : Prop :=
  (∃ lists free, LaddersExact s.slab s.ladders s.total lists free) ∧
    ∀ p b price, omLadderFindInsertPos s.slab (s.ladders p) price b =
      plainInsertPos s.slab (s.ladders p) price b

theorem LaddersExact.exact {s : LadderState} {lists : Nat → Bool → List Nat} {free : List Nat}
    (h : LaddersExact s.slab s.ladders s.total lists free) : s.Exact :=
  ⟨⟨lists, free, h⟩, h.findInsertPos⟩

theorem LadderState.Exact.step {s s' : LadderState} {call : LadderCall} (h : s.Exact)
    (hside : s.oneSided call) (hfits : s.growthFits call) (hs : s.step call = some s') :
    s'.Exact := by
  obtain ⟨⟨lists, free, h⟩, -⟩ := h
  cases call with
  | add p x q b =>
    cases hs
    obtain ⟨lists', free', h'⟩ := h.add hside hfits rfl
    exact exact h'
  | sub p x q b =>
    cases hs
    obtain ⟨lists', free', h'⟩ := h.sub hside rfl
    exact exact h'

/-- In every run of additions and subtractions the ladders are exact. -/
theorem ladders_exact {capacity : Nat} (hpos : 0 < capacity) (hlt : capacity < 2 ^ 32)
    {s : LadderState}
    (h : Runs LadderState.step (fun s call => s.oneSided call ∧ s.growthFits call)
      (.start capacity) s) : s.Exact :=
  h.invariant (P := LadderState.Exact) (exact (laddersExact_init hpos hlt))
    fun _ _ _ hs hok hstep => hs.step hok.1 hok.2 hstep

def sharedSlabCalls : List LadderCall :=
  [.add 0 10 5 true, .add 1 10 7 false, .add 1 12 1 false, .sub 0 10 5 true]

theorem ladders_exact_shared :
    ∃ s, runActions LadderState.step (.start 1) sharedSlabCalls = some s ∧ s.Exact := by
  have hok : ActionsOk LadderState.step (fun s call => s.oneSided call ∧ s.growthFits call)
      (.start 1) sharedSlabCalls := by decide
  obtain ⟨s, hs⟩ : ∃ s, runActions LadderState.step (.start 1) sharedSlabCalls = some s := ⟨_, rfl⟩
  exact ⟨s, hs, ladders_exact (by decide) (by decide) (runs_of_runActions hok hs)⟩

/-- The addition after the last slot of a slab of `2 ^ 32 - 64` links a level outside the slab. -/
theorem ladders_wrap : ∃ s, Runs LadderState.step LadderState.oneSided (.start (2 ^ 32 - 64)) s ∧
    s.slab.capacity = 2 ^ 32 - 128 ∧ ¬s.Exact := by
  obtain ⟨s, hruns, hcapacity, hhead⟩ : ∃ s, Runs LadderState.step LadderState.oneSided
      (.start (2 ^ 32 - 64)) s ∧ s.slab.capacity = 2 ^ 32 - 128 ∧
      ((s.ladders 0).side true).head = some (2 ^ 32 - 64) := by
    refine runs_wrap LadderState.slab (fun s => s.ladders 0)
      (fun _ s => ∀ x, s.total 0 false x = 0) (fun n _ s out hasks hout => ?_) (fun _ => rfl)
      (filled_init (by decide))
    refine ⟨.add 0 n 1 true, _, hasks n, rfl, ?_⟩
    dsimp only
    rw [hout, if_pos rfl]
    exact ⟨fun x => (setTotal_ne 0 false x (by simp)).trans (hasks x), rfl, update_self ..⟩
  refine ⟨s, hruns, hcapacity, ?_⟩
  rintro ⟨⟨lists, free, h⟩, -⟩
  have hside := (h.side 0 true).head
  rw [hhead] at hside
  have hlt := h.lt_capacity (front_mem hside.symm)
  omega

end VeloxMatch
