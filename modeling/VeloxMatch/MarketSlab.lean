import VeloxMatch.IntrusiveList
import VeloxMatch.MarketLadder
import Mathlib.Data.List.NodupEquivFin

namespace VeloxMatch

open List

namespace OmMarketLevelSlab

variable {slab : OmMarketLevelSlab} {i j : Nat} {idx : Option Nat}
  {f : OmMarketLevelSlot → OmMarketLevelSlot}

@[simp] theorem slots_modify_self : (slab.modify i f).slots i = f (slab.slots i) :=
  Function.update_self ..

theorem slots_modify_ne (h : j ≠ i) : (slab.modify i f).slots j = slab.slots j :=
  Function.update_of_ne h ..

theorem slots_modifyAt_some (h : idx = some j) :
    (slab.modifyAt idx f).slots j = f (slab.slots j) := by
  rw [h]
  exact slots_modify_self

theorem slots_modifyAt_ne (h : idx ≠ some j) : (slab.modifyAt idx f).slots j = slab.slots j := by
  cases idx with
  | none => rfl
  | some i => exact slots_modify_ne fun he => h (he ▸ rfl)

@[simp] theorem capacity_modify : (slab.modify i f).capacity = slab.capacity := rfl

@[simp] theorem capacity_modifyAt : (slab.modifyAt idx f).capacity = slab.capacity := by
  cases idx <;> rfl

@[simp] theorem q0Tail_modifyAt : (slab.modifyAt idx f).q0Tail = slab.q0Tail := by
  cases idx <;> rfl

@[simp] theorem freeCount_modifyAt : (slab.modifyAt idx f).freeCount = slab.freeCount := by
  cases idx <;> rfl

theorem field_modify {α : Type} (g : OmMarketLevelSlot → α) (h : ∀ s, g (f s) = g s) :
    g ((slab.modify i f).slots j) = g (slab.slots j) := by
  rcases eq_or_ne j i with rfl | hne
  · rw [slots_modify_self, h]
  · rw [slots_modify_ne hne]

theorem field_modifyAt {α : Type} (g : OmMarketLevelSlot → α) (h : ∀ s, g (f s) = g s) :
    g ((slab.modifyAt idx f).slots j) = g (slab.slots j) := by
  cases idx with
  | none => rfl
  | some i => exact field_modify g h

end OmMarketLevelSlab

open OmMarketLevelSlab

/-- What a ladder reads of a slot. -/
structure SameLevel (slot slot' : OmMarketLevelSlot) : Prop where
  next : slot'.q1Next = slot.q1Next
  back : slot'.q1Prev = slot.q1Prev
  price : slot'.price = slot.price
  qty : slot'.qty = slot.qty

theorem SameLevel.refl (slot : OmMarketLevelSlot) : SameLevel slot slot := ⟨rfl, rfl, rfl, rfl⟩

theorem SameLevel.trans {slot slot' slot'' : OmMarketLevelSlot} (h : SameLevel slot slot')
    (h' : SameLevel slot' slot'') : SameLevel slot slot'' :=
  ⟨h'.next.trans h.next, h'.back.trans h.back, h'.price.trans h.price, h'.qty.trans h.qty⟩

section Levels

variable {slab : OmMarketLevelSlab} {i j : Nat} {idx : Option Nat}
  {f : OmMarketLevelSlot → OmMarketLevelSlot}

theorem sameLevel_modify (h : ∀ s, SameLevel s (f s)) :
    SameLevel (slab.slots j) ((slab.modify i f).slots j) := by
  rcases eq_or_ne j i with rfl | hne
  · rw [slots_modify_self]
    exact h _
  · rw [slots_modify_ne hne]
    exact .refl _

theorem sameLevel_modifyAt (h : ∀ s, SameLevel s (f s)) :
    SameLevel (slab.slots j) ((slab.modifyAt idx f).slots j) := by
  cases idx with
  | none => exact .refl _
  | some i => exact sameLevel_modify h

end Levels

structure FreeLevels (slab : OmMarketLevelSlab) (free : List Nat) : Prop where
  head : slab.q0Head = front free none
  tail : slab.q0Tail = back none free
  links : SSeg (fun i => (slab.slots i).q0Next) free
  nodup : free.Nodup
  lt_capacity : ∀ i ∈ free, i < slab.capacity
  count : slab.freeCount = free.length

section Free

variable {slab slab' : OmMarketLevelSlab} {free : List Nat} {x : Nat}

theorem FreeLevels.congr (h : FreeLevels slab free) (hhead : slab'.q0Head = slab.q0Head)
    (htail : slab'.q0Tail = slab.q0Tail) (hcapacity : slab'.capacity = slab.capacity)
    (hcount : slab'.freeCount = slab.freeCount)
    (hnext : ∀ i ∈ free, (slab'.slots i).q0Next = (slab.slots i).q0Next) :
    FreeLevels slab' free where
  head := hhead.trans h.head
  tail := htail.trans h.tail
  links := h.links.congr hnext
  nodup := h.nodup
  lt_capacity i hi := hcapacity ▸ h.lt_capacity i hi
  count := hcount.trans h.count

theorem freeLevels_run {start stop : Nat} {before : Nat → Option Nat} (hlt : start < stop)
    (hhead : slab.q0Head = some start) (htail : slab.q0Tail = some (stop - 1))
    (hcapacity : slab.capacity = stop) (hcount : slab.freeCount = stop - start)
    (hslots : ∀ i, start ≤ i → i < stop → slab.slots i = freeLevelSlot i stop (before i)) :
    FreeLevels slab (range' start (stop - start)) := by
  have hlinks : ∀ n i, start ≤ i → i + n = stop →
      SSeg (fun i => (slab.slots i).q0Next) (range' i n) := by
    intro n
    induction n with
    | zero => exact fun _ _ _ => trivial
    | succ n ih =>
      intro i hi hn
      refine ⟨?_, ih (i + 1) (by omega) (by omega)⟩
      change (slab.slots i).q0Next = _
      rw [hslots i hi (by omega)]
      cases n with
      | zero => exact if_pos (by omega)
      | succ n => exact if_neg (by omega)
  obtain ⟨n, rfl⟩ : ∃ n, stop = start + (n + 1) := ⟨stop - start - 1, by omega⟩
  rw [Nat.add_sub_cancel_left] at hcount ⊢
  refine ⟨hhead, ?_, hlinks _ start (Nat.le_refl _) rfl, nodup_range', ?_, ?_⟩
  · rw [htail, range'_concat, back_concat, Nat.one_mul]
    rfl
  · intro i hi
    have := mem_range'_1.mp hi
    omega
  · rw [hcount, length_range']

theorem freeLevels_init {capacity : Nat} (h : 0 < capacity) :
    FreeLevels (omMarketSlabInit capacity) (range' 0 (capacity - 0)) :=
  freeLevels_run h rfl rfl rfl rfl fun _ _ _ => rfl

theorem omMarketSlabAlloc_nil (h : FreeLevels slab []) : omMarketSlabAlloc slab = (none, slab) :=
  if_pos h.count

theorem omMarketSlabAlloc_cons (h : FreeLevels slab (x :: free)) :
    ∃ slab', omMarketSlabAlloc slab = (some x, slab') ∧ FreeLevels slab' free ∧
      slab'.capacity = slab.capacity ∧
      ∀ i, i ≠ x → SameLevel (slab.slots i) (slab'.slots i) := by
  obtain ⟨hx, hnodup⟩ := nodup_cons.mp h.nodup
  have hcount : slab.freeCount = free.length + 1 := h.count
  have hnext : (slab.slots x).q0Next = front free none := h.links.1
  unfold omMarketSlabAlloc
  rw [if_neg (by omega), h.head]
  refine ⟨_, rfl, ?_, ?_, fun i hi => ?_⟩
  · refine ⟨hnext, ?_, h.links.2.congr fun i hi => ?_, hnodup, fun i hi => ?_, ?_⟩
    · dsimp only
      rw [hnext, h.tail]
      cases free with
      | nil => rfl
      | cons y free => rfl
    · have hne : i ≠ x := fun he => hx (he ▸ hi)
      dsimp only
      rw [slots_modify_ne hne]
      exact field_modifyAt OmMarketLevelSlot.q0Next fun _ => rfl
    · change i < (slab.modifyAt _ _).capacity
      rw [capacity_modifyAt]
      exact h.lt_capacity i (mem_cons_of_mem _ hi)
    · change (slab.modifyAt _ _).freeCount - 1 = _
      rw [freeCount_modifyAt, hcount, Nat.add_sub_cancel]
  · exact capacity_modifyAt
  · dsimp only
    rw [slots_modify_ne hi]
    exact sameLevel_modifyAt fun _ => ⟨rfl, rfl, rfl, rfl⟩

theorem slots_omMarketSlabGrow {i : Nat} (hi : i < slab.capacity) :
    SameLevel (slab.slots i) ((omMarketSlabGrow slab).slots i) := by
  have hkeep : (if slab.capacity ≤ i ∧ i < grownCapacity slab.capacity then
      freeLevelSlot i (grownCapacity slab.capacity)
        (if i = slab.capacity then slab.q0Tail else some (i - 1))
      else slab.slots i) = slab.slots i := if_neg fun h => Nat.not_le.mpr hi h.1
  have hsame : SameLevel _ ((omMarketSlabGrow slab).slots i) :=
    sameLevel_modifyAt fun _ => ⟨rfl, rfl, rfl, rfl⟩
  exact hkeep ▸ hsame

theorem grownCapacity_lt (capacity : Nat) : grownCapacity capacity < 2 ^ 32 := by
  unfold grownCapacity
  dsimp only
  split <;> exact Nat.mod_lt _ (by decide)

theorem lt_grownCapacity {capacity : Nat} (h : capacity < 2 ^ 32 - 64) :
    capacity < grownCapacity capacity := by
  unfold grownCapacity
  dsimp only
  split <;> omega

theorem omMarketSlabGrow_free (h : FreeLevels slab [])
    (hlt : slab.capacity < grownCapacity slab.capacity) :
    FreeLevels (omMarketSlabGrow slab)
      (range' slab.capacity (grownCapacity slab.capacity - slab.capacity)) := by
  have htail : slab.q0Tail = none := h.tail
  have hcount : slab.freeCount = 0 := h.count
  unfold omMarketSlabGrow
  dsimp only
  rw [htail]
  refine freeLevels_run hlt rfl rfl rfl ?_ fun i hi hi' => if_pos ⟨hi, hi'⟩
  have hlt' := grownCapacity_lt slab.capacity
  dsimp only
  omega

/-- A slot for a new level was free or is new; the other levels stay. -/
structure LevelTaken (slab slab' : OmMarketLevelSlab) (free free' : List Nat) (x : Nat) : Prop where
  freeLevels : FreeLevels slab' free'
  capacity : slab.capacity ≤ slab'.capacity
  lt_capacity : x < slab'.capacity
  notFree : x ∉ free'
  taken : x ∈ free ∨ slab.capacity ≤ x
  rest : ∀ i ∈ free', i ∈ free ∨ slab.capacity ≤ i
  levels : ∀ i, i < slab.capacity → i ≠ x → SameLevel (slab.slots i) (slab'.slots i)

theorem omMarketSlabAlloc_taken (h : FreeLevels slab (x :: free)) :
    ∃ slab', omMarketSlabAlloc slab = (some x, slab') ∧
      LevelTaken slab slab' (x :: free) free x ∧ slab'.capacity = slab.capacity := by
  obtain ⟨slab', halloc, hfree, hcapacity, hlevels⟩ := omMarketSlabAlloc_cons h
  refine ⟨slab', halloc, ⟨hfree, hcapacity.symm.le, ?_, (nodup_cons.mp h.nodup).1, ?_, ?_, ?_⟩,
    hcapacity⟩
  · exact hcapacity.symm ▸ h.lt_capacity x mem_cons_self
  · exact .inl mem_cons_self
  · exact fun i hi => .inl (mem_cons_of_mem _ hi)
  · exact fun i _ hi => hlevels i hi

/-- Every slot of the slab, which may have grown, is the one taken, free, or was in use. -/
structure SlotsCovered (slab slab' : OmMarketLevelSlab) (free free' : List Nat) (x : Nat) : Prop where
  capacity : slab'.capacity = slab.capacity ∨ slab'.capacity = grownCapacity slab.capacity
  cover : ∀ j, j < slab'.capacity → j = x ∨ j ∈ free' ∨ j < slab.capacity ∧ j ∉ free

theorem allocLevel_taken (h : FreeLevels slab free)
    (hfits : slab.freeCount = 0 → slab.capacity < 2 ^ 32 - 64) :
    ∃ x slab' free', allocLevel slab = (some x, slab') ∧ LevelTaken slab slab' free free' x ∧
      SlotsCovered slab slab' free free' x := by
  unfold allocLevel
  cases free with
  | cons y free =>
    obtain ⟨slab', heq, htaken, hcapacity⟩ := omMarketSlabAlloc_taken h
    refine ⟨y, slab', free, by rw [heq], htaken, .inl hcapacity, fun j hj => ?_⟩
    by_cases hmem : j ∈ y :: free
    · exact (mem_cons.mp hmem).imp_right .inl
    · exact .inr (.inr ⟨hcapacity ▸ hj, hmem⟩)
  | nil =>
    rw [omMarketSlabAlloc_nil h]
    dsimp only
    have hlt := lt_grownCapacity (hfits h.count)
    have hgrown := omMarketSlabGrow_free h hlt
    obtain ⟨n, hn⟩ : ∃ n, grownCapacity slab.capacity - slab.capacity = n + 1 :=
      ⟨grownCapacity slab.capacity - slab.capacity - 1, by omega⟩
    rw [hn, range'_succ] at hgrown
    obtain ⟨slab', heq, htaken, hcapacity⟩ := omMarketSlabAlloc_taken hgrown
    have hnew : slab'.capacity = grownCapacity slab.capacity := hcapacity
    refine ⟨_, slab', _, heq, ⟨htaken.freeLevels, by omega, htaken.lt_capacity, htaken.notFree,
      .inr (Nat.le_refl _), fun i hi => .inr ?_, fun i hi hne => ?_⟩, .inr hnew, fun j hj => ?_⟩
    · have := (mem_range'_1.mp hi).1
      omega
    · have hlt' : i < (omMarketSlabGrow slab).capacity := Nat.lt_trans hi hlt
      exact (slots_omMarketSlabGrow hi).trans (htaken.levels i hlt' hne)
    · rcases Nat.lt_trichotomy j slab.capacity with hold | rfl | hold
      · exact .inr (.inr ⟨hold, not_mem_nil⟩)
      · exact .inl rfl
      · exact .inr (.inl (mem_range'_1.mpr (by omega)))

theorem omMarketSlabFree_free (h : FreeLevels slab free) (hx : x < slab.capacity)
    (hnot : x ∉ free) :
    FreeLevels (omMarketSlabFree slab x) (x :: free) ∧
      (omMarketSlabFree slab x).capacity = slab.capacity ∧
      ∀ i, SameLevel (slab.slots i) ((omMarketSlabFree slab x).slots i) := by
  unfold omMarketSlabFree
  rw [if_neg (Nat.not_le.mpr hx)]
  dsimp only
  have hnext : ∀ i, (((slab.modify x fun slot =>
      { slot with q0Prev := none, q0Next := slab.q0Head }).modifyAt slab.q0Head fun slot =>
        { slot with q0Prev := some x }).slots i).q0Next =
          if i = x then slab.q0Head else (slab.slots i).q0Next := by
    intro i
    refine (field_modifyAt OmMarketLevelSlot.q0Next ?_).trans ?_
    · exact fun _ => rfl
    by_cases hi : i = x
    · rw [if_pos hi, hi, slots_modify_self]
    · rw [if_neg hi, slots_modify_ne hi]
  refine ⟨⟨rfl, ?_, ⟨?_, h.links.congr fun i hi => ?_⟩, nodup_cons.mpr ⟨hnot, h.nodup⟩, ?_, ?_⟩,
    capacity_modifyAt, fun i => ?_⟩
  · dsimp only
    rw [q0Tail_modifyAt, h.head]
    cases free with
    | nil => rfl
    | cons y free => exact h.tail
  · dsimp only
    rw [hnext, if_pos rfl, h.head]
  · have hne : i ≠ x := fun he => hnot (he ▸ hi)
    dsimp only
    rw [hnext, if_neg hne]
  · intro i hi
    change i < (OmMarketLevelSlab.modifyAt _ _ _).capacity
    rw [capacity_modifyAt]
    rcases mem_cons.mp hi with rfl | hi
    · exact hx
    · exact h.lt_capacity i hi
  · change (OmMarketLevelSlab.modifyAt _ _ _).freeCount + 1 = _
    rw [freeCount_modifyAt]
    exact congrArg (· + 1) h.count
  · refine SameLevel.trans ?_ (sameLevel_modifyAt ?_)
    · refine sameLevel_modify ?_
      exact fun _ => ⟨rfl, rfl, rfl, rfl⟩
    · exact fun _ => ⟨rfl, rfl, rfl, rfl⟩

end Free

section Capacity

variable (slab : OmMarketLevelSlab)

theorem capacity_omMarketSlabAlloc : (omMarketSlabAlloc slab).2.capacity = slab.capacity := by
  unfold omMarketSlabAlloc
  split
  · rfl
  · split
    · rfl
    · exact capacity_modifyAt

theorem capacity_allocLevel {slab : OmMarketLevelSlab} (h : slab.capacity ≤ 2 ^ 32) :
    (allocLevel slab).2.capacity ≤ 2 ^ 32 := by
  unfold allocLevel
  split
  · next heq =>
    have halloc := capacity_omMarketSlabAlloc slab
    rw [heq] at halloc
    exact halloc.trans_le h
  · rw [capacity_omMarketSlabAlloc]
    exact (grownCapacity_lt _).le

variable (ladder : OmMarketLadder)

theorem capacity_omLadderLinkAfter (slot : Nat) (after : Option Nat) (isBid : Bool) :
    (omLadderLinkAfter slab ladder slot after isBid).1.capacity = slab.capacity := by
  simp [omLadderLinkAfter]

theorem capacity_omLadderAddQty {slab : OmMarketLevelSlab} (h : slab.capacity ≤ 2 ^ 32)
    (ladder : OmMarketLadder) (price qty : Nat) (isBid : Bool) :
    (omLadderAddQty slab ladder price qty isBid).2.1.capacity ≤ 2 ^ 32 := by
  unfold omLadderAddQty
  split
  · exact h
  split
  · split <;> exact h
  · have halloc := capacity_allocLevel h
    split
    · next heq =>
      rw [heq] at halloc
      exact halloc
    · next heq =>
      rw [heq] at halloc
      dsimp only
      rw [capacity_omLadderLinkAfter]
      exact halloc

theorem capacity_omLadderUnlink (slot : Nat)
    (isBid : Bool) : (omLadderUnlink slab ladder slot isBid).1.capacity = slab.capacity := by
  simp [omLadderUnlink]

theorem capacity_omMarketSlabFree (idx : Nat) :
    (omMarketSlabFree slab idx).capacity = slab.capacity := by
  unfold omMarketSlabFree
  split
  · rfl
  · simp

theorem capacity_omLadderSubQty (price qty : Nat) (isBid : Bool) :
    (omLadderSubQty slab ladder price qty isBid).1.capacity = slab.capacity := by
  unfold omLadderSubQty
  split
  · rfl
  split
  · rfl
  split
  · exact (capacity_omMarketSlabFree ..).trans (capacity_omLadderUnlink ..)
  · rfl

end Capacity

end VeloxMatch
