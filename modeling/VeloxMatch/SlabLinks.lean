import VeloxMatch.Slab

namespace VeloxMatch

variable {s : OmDualSlab} {i j : Nat} {idx : Option Nat}

namespace OmDualSlab

variable (s : OmDualSlab) (q : OmQueue) (i : Nat)

@[simp] theorem next_setNext (v : Option Nat) (q' : OmQueue) (j : Nat) :
    (s.setNext q i v).next q' j = if j = i ∧ q' = q then v else s.next q' j := by
  by_cases hj : j = i
  · subst hj
    by_cases hq : q' = q
    · subst hq; simp [setNext, setNode, next]
    · simp [setNext, setNode, next, hq]
  · simp [setNext, setNode, next, hj]

@[simp] theorem prev_setNext (v : Option Nat) (q' : OmQueue) (j : Nat) :
    (s.setNext q i v).prev q' j = s.prev q' j := by
  by_cases hj : j = i
  · subst hj
    by_cases hq : q' = q
    · subst hq; simp [setNext, setNode, prev]
    · simp [setNext, setNode, prev, hq]
  · simp [setNext, setNode, prev, hj]

@[simp] theorem next_setPrev (v : Option Nat) (q' : OmQueue) (j : Nat) :
    (s.setPrev q i v).next q' j = s.next q' j := by
  by_cases hj : j = i
  · subst hj
    by_cases hq : q' = q
    · subst hq; simp [setPrev, setNode, next]
    · simp [setPrev, setNode, next, hq]
  · simp [setPrev, setNode, next, hj]

@[simp] theorem prev_setPrev (v : Option Nat) (q' : OmQueue) (j : Nat) :
    (s.setPrev q i v).prev q' j = if j = i ∧ q' = q then v else s.prev q' j := by
  by_cases hj : j = i
  · subst hj
    by_cases hq : q' = q
    · subst hq; simp [setPrev, setNode, prev]
    · simp [setPrev, setNode, prev, hq]
  · simp [setPrev, setNode, prev, hj]

variable (o : OmOrderFields)

@[simp] theorem next_setOrder (q' : OmQueue) (j : Nat) :
    (s.setOrder i o).next q' j = s.next q' j := by
  by_cases hj : j = i
  · subst hj; simp [setOrder, next]
  · simp [setOrder, next, hj]

@[simp] theorem prev_setOrder (q' : OmQueue) (j : Nat) :
    (s.setOrder i o).prev q' j = s.prev q' j := by
  by_cases hj : j = i
  · subst hj; simp [setOrder, prev]
  · simp [setOrder, prev, hj]

@[simp] theorem next_clearNodes (q' : OmQueue) (j : Nat) :
    (s.clearNodes i).next q' j = if j = i then none else s.next q' j := by
  by_cases hj : j = i
  · subst hj; simp [clearNodes, next, OmIntrusiveNode.null]
  · simp [clearNodes, next, hj]

@[simp] theorem prev_clearNodes (q' : OmQueue) (j : Nat) :
    (s.clearNodes i).prev q' j = if j = i then none else s.prev q' j := by
  by_cases hj : j = i
  · subst hj; simp [clearNodes, prev, OmIntrusiveNode.null]
  · simp [clearNodes, prev, hj]

@[simp] theorem order_setNode (node : OmIntrusiveNode) (j : Nat) :
    (s.setNode q i node).order j = s.order j := by
  by_cases hj : j = i
  · subst hj; simp [setNode, order]
  · simp [setNode, order, hj]

@[simp] theorem order_setNext (v : Option Nat) (j : Nat) :
    (s.setNext q i v).order j = s.order j := by simp [setNext]

@[simp] theorem order_setPrev (v : Option Nat) (j : Nat) :
    (s.setPrev q i v).order j = s.order j := by simp [setPrev]

@[simp] theorem order_setOrder (j : Nat) :
    (s.setOrder i o).order j = if j = i then o else s.order j := by
  by_cases hj : j = i
  · subst hj; simp [setOrder, order]
  · simp [setOrder, order, hj]

@[simp] theorem order_clearNodes (j : Nat) : (s.clearNodes i).order j = s.order j := by
  by_cases hj : j = i
  · subst hj; simp [clearNodes, order]
  · simp [clearNodes, order, hj]

@[simp] theorem capacity_setNext (v : Option Nat) : (s.setNext q i v).capacity = s.capacity := rfl

@[simp] theorem capacity_setPrev (v : Option Nat) : (s.setPrev q i v).capacity = s.capacity := rfl

/-- The parts of a slab that writes to links and order fields leave alone. -/
structure SameStore (s s' : OmDualSlab) : Prop where
  capacity : s'.capacity = s.capacity
  freeListIdx : s'.freeListIdx = s.freeListIdx
  used : s'.used = s.used
  auxMemory : s'.auxMemory = s.auxMemory
  auxFreeListIdx : s'.auxFreeListIdx = s.auxFreeListIdx
  config : s'.config = s.config
  nextOrderId : s'.nextOrderId = s.nextOrderId

theorem SameStore.refl : SameStore s s := ⟨rfl, rfl, rfl, rfl, rfl, rfl, rfl⟩

theorem SameStore.trans {s t u : OmDualSlab} (h : SameStore s t) (h' : SameStore t u) :
    SameStore s u :=
  ⟨h'.capacity.trans h.capacity, h'.freeListIdx.trans h.freeListIdx, h'.used.trans h.used,
    h'.auxMemory.trans h.auxMemory, h'.auxFreeListIdx.trans h.auxFreeListIdx,
    h'.config.trans h.config, h'.nextOrderId.trans h.nextOrderId⟩

theorem sameStore_setPrev (v : Option Nat) : SameStore s (s.setPrev q i v) :=
  ⟨rfl, rfl, rfl, rfl, rfl, rfl, rfl⟩

theorem sameStore_setOrder : SameStore s (s.setOrder i o) :=
  ⟨rfl, rfl, rfl, rfl, rfl, rfl, rfl⟩

end OmDualSlab

open OmDualSlab

@[simp] theorem omSlotFromIdx_none (s : OmDualSlab) : omSlotFromIdx s none = none := rfl

theorem omSlotFromIdx_some (h : i < s.capacity) :
    omSlotFromIdx s (some i) = some i := by simp [omSlotFromIdx, h]

theorem omSlotFromIdx_eq_some : omSlotFromIdx s idx = some j ↔ idx = some j ∧ j < s.capacity := by
  cases idx with
  | none => simp
  | some i =>
    simp only [omSlotFromIdx, Option.some.injEq]
    constructor
    · intro h
      split at h
      next hi =>
        cases h
        exact ⟨rfl, hi⟩
      next => cases h
    · rintro ⟨rfl, hi⟩
      rw [if_pos hi]

theorem eq_of_omSlotFromIdx (h : omSlotFromIdx s (some i) = some j) : i = j :=
  Option.some.inj (omSlotFromIdx_eq_some.mp h).1

theorem omSlotFromIdx_of_valid
    (h : ∀ i, idx = some i → i < s.capacity) : omSlotFromIdx s idx = idx := by
  cases idx with
  | none => rfl
  | some i => exact omSlotFromIdx_some (h i rfl)

/-- Links are written where `touched` says, and nothing else changes. -/
structure LinksFrame (touched : OmQueue → Nat → Prop) (s s' : OmDualSlab) : Prop where
  store : SameStore s s'
  order : ∀ j, s'.order j = s.order j
  next : ∀ {q j}, ¬touched q j → s'.next q j = s.next q j
  prev : ∀ {q j}, ¬touched q j → s'.prev q j = s.prev q j

section Frame

variable {touched : OmQueue → Nat → Prop} {s t u : OmDualSlab} {q : OmQueue} {i : Nat}
  {idx : Option Nat}

theorem LinksFrame.refl : LinksFrame touched s s :=
  ⟨SameStore.refl s, fun _ => rfl, fun _ => rfl, fun _ => rfl⟩

variable (h : LinksFrame touched s t)
include h

theorem LinksFrame.trans (h' : LinksFrame touched t u) : LinksFrame touched s u where
  store := h.store.trans h'.store
  order := fun j => (h'.order j).trans (h.order j)
  next := fun hj => (h'.next hj).trans (h.next hj)
  prev := fun hj => (h'.prev hj).trans (h.prev hj)

theorem LinksFrame.setNext (hi : touched q i) (v : Option Nat) :
    LinksFrame touched s (t.setNext q i v) := by
  refine h.trans ⟨⟨rfl, rfl, rfl, rfl, rfl, rfl, rfl⟩, fun _ => by simp, fun hj => ?_,
    fun _ => by simp⟩
  rw [next_setNext, if_neg]
  rintro ⟨rfl, rfl⟩
  exact hj hi

theorem LinksFrame.setPrev (hi : touched q i) (v : Option Nat) :
    LinksFrame touched s (t.setPrev q i v) := by
  refine h.trans ⟨sameStore_setPrev t q i v, fun _ => by simp, fun _ => by simp, fun hj => ?_⟩
  rw [prev_setPrev, if_neg]
  rintro ⟨rfl, rfl⟩
  exact hj hi

theorem LinksFrame.setNextOf (hi : ∀ i, idx = some i → touched q i)
    (v : Option Nat) : LinksFrame touched s (setNextOf t q idx v) := by
  unfold VeloxMatch.setNextOf
  split
  next => exact h
  next i hidx => exact h.setNext (hi i (omSlotFromIdx_eq_some.mp hidx).1) v

theorem LinksFrame.setPrevOf (hi : ∀ i, idx = some i → touched q i)
    (v : Option Nat) : LinksFrame touched s (setPrevOf t q idx v) := by
  unfold VeloxMatch.setPrevOf
  split
  next => exact h
  next i hidx => exact h.setPrev (hi i (omSlotFromIdx_eq_some.mp hidx).1) v

end Frame

section SetOf

variable (s : OmDualSlab) (q : OmQueue) (idx v : Option Nat)

@[simp] theorem capacity_setNextOf : (setNextOf s q idx v).capacity = s.capacity := by
  unfold setNextOf
  split <;> rfl

@[simp] theorem prev_setNextOf (q' : OmQueue) (j : Nat) :
    (setNextOf s q idx v).prev q' j = s.prev q' j := by
  unfold setNextOf
  split <;> simp

@[simp] theorem next_setPrevOf (q' : OmQueue) (j : Nat) :
    (setPrevOf s q idx v).next q' j = s.next q' j := by
  unfold setPrevOf
  split <;> simp

variable {s q idx v}

theorem next_setNextOf (h : ∀ i, idx = some i → i < s.capacity) (j : Nat) :
    (setNextOf s q idx v).next q j = if idx = some j then v else s.next q j := by
  unfold setNextOf
  rw [omSlotFromIdx_of_valid h]
  cases idx <;> simp [eq_comm]

theorem prev_setPrevOf (h : ∀ i, idx = some i → i < s.capacity) (j : Nat) :
    (setPrevOf s q idx v).prev q j = if idx = some j then v else s.prev q j := by
  unfold setPrevOf
  rw [omSlotFromIdx_of_valid h]
  cases idx <;> simp [eq_comm]

end SetOf

section Unlink

variable {s : OmDualSlab} {x : Nat} {q : OmQueue}

theorem omQueueUnlink_frame {touched : OmQueue → Nat → Prop} (hx : touched q x)
    (hp : ∀ i, s.prev q x = some i → touched q i) (hn : ∀ i, s.next q x = some i → touched q i) :
    LinksFrame touched s (omQueueUnlink s x q) := by
  simp only [omQueueUnlink]
  split
  next => exact .refl
  next => exact (((LinksFrame.refl.setNextOf hp _).setPrevOf hn _).setNext hx _).setPrev hx _

theorem omQueueUnlink_links (s : OmDualSlab) (x : Nat) (q : OmQueue) :
    LinksFrame (fun q' _ => q' = q) s (omQueueUnlink s x q) :=
  omQueueUnlink_frame rfl (fun _ _ => rfl) fun _ _ => rfl

@[simp] theorem order_omQueueUnlink (j : Nat) : (omQueueUnlink s x q).order j = s.order j :=
  (omQueueUnlink_links s x q).order j

theorem next_omQueueUnlink (hp : ∀ y, s.prev q x = some y → y < s.capacity) (j : Nat) :
    (omQueueUnlink s x q).next q j =
      if j = x then none else if s.prev q x = some j then s.next q x else s.next q j := by
  simp only [omQueueUnlink]
  split
  next h => by_cases hj : j = x <;> simp [hj, h.1, h.2]
  next h => simp [next_setNextOf hp]

theorem prev_omQueueUnlink (hn : ∀ y, s.next q x = some y → y < s.capacity) (j : Nat) :
    (omQueueUnlink s x q).prev q j =
      if j = x then none else if s.next q x = some j then s.prev q x else s.prev q j := by
  simp only [omQueueUnlink]
  split
  next h => by_cases hj : j = x <;> simp [hj, h.1, h.2]
  next h =>
    have hv : ∀ i, s.next q x = some i →
        i < (setNextOf s q (s.prev q x) (s.next q x)).capacity := by simpa using hn
    simp [prev_setPrevOf hv]

end Unlink

section LinkAfter

variable {s : OmDualSlab} {p x : Nat} {q : OmQueue}

theorem omQueueLinkAfter_frame {touched : OmQueue → Nat → Prop} (hp : touched q p)
    (hx : touched q x) (hn : ∀ i, s.next q p = some i → touched q i) :
    LinksFrame touched s (omQueueLinkAfter s p x q) :=
  (((LinksFrame.refl.setPrev hx _).setNext hx _).setNext hp _).setPrevOf hn _

theorem omQueueLinkAfter_links (s : OmDualSlab) (p x : Nat) (q : OmQueue) :
    LinksFrame (fun q' _ => q' = q) s (omQueueLinkAfter s p x q) :=
  omQueueLinkAfter_frame rfl rfl fun _ _ => rfl

@[simp] theorem order_omQueueLinkAfter (j : Nat) :
    (omQueueLinkAfter s p x q).order j = s.order j := (omQueueLinkAfter_links s p x q).order j

theorem next_omQueueLinkAfter (j : Nat) :
    (omQueueLinkAfter s p x q).next q j =
      if j = p then some x else if j = x then s.next q p else s.next q j := by
  simp [omQueueLinkAfter]

theorem prev_omQueueLinkAfter (hn : ∀ y, s.next q p = some y → y < s.capacity) (j : Nat) :
    (omQueueLinkAfter s p x q).prev q j =
      if s.next q p = some j then some x else if j = x then some p else s.prev q j := by
  simp only [omQueueLinkAfter]
  rw [prev_setPrevOf (by simpa using hn)]
  simp

end LinkAfter

section LinkBefore

variable {s : OmDualSlab} {n x : Nat} {q : OmQueue}

theorem omQueueLinkBefore_links (s : OmDualSlab) (n x : Nat) (q : OmQueue) :
    LinksFrame (fun q' _ => q' = q) s (omQueueLinkBefore s n x q) :=
  (((LinksFrame.refl.setNext rfl _).setPrev rfl _).setPrev rfl _).setNextOf (fun _ _ => rfl) _

theorem prev_omQueueLinkBefore (j : Nat) :
    (omQueueLinkBefore s n x q).prev q j =
      if j = n then some x else if j = x then s.prev q n else s.prev q j := by
  simp [omQueueLinkBefore]

theorem next_omQueueLinkBefore (hp : ∀ y, s.prev q n = some y → y < s.capacity) (j : Nat) :
    (omQueueLinkBefore s n x q).next q j =
      if s.prev q n = some j then some x else if j = x then some n else s.next q j := by
  simp only [omQueueLinkBefore]
  rw [next_setNextOf (by simpa using hp)]
  simp

end LinkBefore

end VeloxMatch
