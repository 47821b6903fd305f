import VeloxMatch.IntrusiveList
import VeloxMatch.SlabLinks

namespace VeloxMatch

open OmDualSlab List

variable {s s' : OmDualSlab} {free : List Nat} {x : Nat}

theorem decodeIdx_overwrite_encodeIdx {old : List UInt8} {idx : Option Nat} (hlen : 4 ≤ old.length)
    (h : ∀ i, idx = some i → i < 2 ^ 32 - 1) : decodeIdx (overwrite old (encodeIdx idx)) = idx := by
  have htake : (overwrite old (encodeIdx idx)).take 4 = encodeIdx idx := by
    have hle : (encodeIdx idx).length ≤ old.length := by simpa [encodeIdx] using hlen
    simpa [encodeIdx] using take_overwrite hle
  have hlt : idx.getD (2 ^ 32 - 1) < 256 ^ 4 := by
    cases idx with
    | none => simp
    | some i => have := h i rfl; simp; omega
  have hnat : leNat ((overwrite old (encodeIdx idx)).take 4) = idx.getD (2 ^ 32 - 1) := by
    rw [htake]
    exact leNat_leBytes_of_lt hlt
  simp only [decodeIdx, hnat]
  cases idx with
  | none => simp
  | some i => have := h i rfl; simp; omega

theorem four_le_auxSlotSize (config : OmSlabConfig) : 4 ≤ auxSlotSize config := by
  unfold auxSlotSize alignUp8
  split <;> omega

/-- Both free lists of the slab run through `free` in the same order. -/
structure FreeList (s : OmDualSlab) (free : List Nat) : Prop where
  head : s.freeListIdx = front free none
  auxHead : s.auxFreeListIdx = front free none
  links : SSeg (s.next .internalFree) free
  auxLinks : SSeg (fun i => decodeIdx (s.auxMemory i)) free
  nodup : free.Nodup
  lt_capacity : ∀ i ∈ free, i < s.capacity
  capacity_lt : s.capacity < 2 ^ 32
  auxLength : ∀ i, (s.auxMemory i).length = auxSlotSize s.config

theorem FreeList.frame (h : FreeList s free) (hcap : s'.capacity = s.capacity)
    (hhead : s'.freeListIdx = s.freeListIdx) (haux : s'.auxFreeListIdx = s.auxFreeListIdx)
    (hconfig : s'.config = s.config)
    (hnext : ∀ i ∈ free, s'.next .internalFree i = s.next .internalFree i)
    (hmem : ∀ i ∈ free, s'.auxMemory i = s.auxMemory i)
    (hlen : ∀ i, (s'.auxMemory i).length = (s.auxMemory i).length) : FreeList s' free where
  head := hhead.trans h.head
  auxHead := haux.trans h.auxHead
  links := h.links.congr hnext
  auxLinks := h.auxLinks.congr (fun i hi => by rw [hmem i hi])
  nodup := h.nodup
  lt_capacity := fun i hi => hcap ▸ h.lt_capacity i hi
  capacity_lt := hcap ▸ h.capacity_lt
  auxLength := fun i => by rw [hlen, hconfig, h.auxLength]

theorem FreeList.sameStore (h : FreeList s free) (hs : SameStore s s')
    (hnext : ∀ i, s'.next .internalFree i = s.next .internalFree i) : FreeList s' free :=
  h.frame hs.capacity hs.freeListIdx hs.auxFreeListIdx hs.config (fun i _ => hnext i)
    (fun i _ => by rw [hs.auxMemory]) (fun i => by rw [hs.auxMemory])

theorem omSlabAlloc_nil (h : FreeList s []) : omSlabAlloc s = (none, s) := by
  simp [omSlabAlloc, h.head]

/-- What `om_slab_alloc` does when the free lists start with `x`. -/
structure AllocSpec (s : OmDualSlab) (x : Nat) (s' : OmDualSlab) : Prop where
  capacity : s'.capacity = s.capacity
  config : s'.config = s.config
  order_same : ∀ j, j ≠ x → s'.order j = s.order j
  next_same : ∀ q j, j ≠ x → s'.next q j = s.next q j
  prev_same : ∀ q j, j ≠ x → s'.prev q j = s.prev q j
  next_null : ∀ q, s'.next q x = none
  prev_null : ∀ q, s'.prev q x = none

theorem omSlabAlloc_cons (h : FreeList s (x :: free)) :
    ∃ s', omSlabAlloc s = (some x, s') ∧ FreeList s' free ∧ AllocSpec s x s' := by
  have hx : x < s.capacity := h.lt_capacity x (by simp)
  have hidx : omSlotFromIdx s s.freeListIdx = some x := by
    rw [h.head]
    exact omSlotFromIdx_some hx
  have haux : s.auxFreeListIdx = some x := h.auxHead
  have hnot : x ∉ free := (nodup_cons.mp h.nodup).1
  refine ⟨_, by simp only [omSlabAlloc, hidx, haux, ne_eq, not_true_eq_false, ↓reduceIte]; rfl,
    ?_, ?_⟩
  · have hne : ∀ i ∈ free, i ≠ x := fun i hi he => hnot (he ▸ hi)
    refine
      { head := h.links.1
        auxHead := h.auxLinks.1
        links := h.links.2.congr ?_
        auxLinks := h.auxLinks.2.congr ?_
        nodup := (nodup_cons.mp h.nodup).2
        lt_capacity := fun i hi => h.lt_capacity i (by simp [hi])
        capacity_lt := h.capacity_lt
        auxLength := ?_ }
    · intro i hi
      simp [OmDualSlab.next, setAux, clearNodes, setOrder, hne i hi]
    · intro i hi
      simp [setAux, clearNodes, setOrder, hne i hi]
    · intro i
      by_cases hi : i = x
      · simp [setAux, clearNodes, setOrder, hi, h.auxLength]
      · simp [setAux, clearNodes, setOrder, hi, h.auxLength]
  · constructor <;> intros <;>
      simp_all [OmDualSlab.next, OmDualSlab.prev, order, setAux, clearNodes, setOrder,
        OmIntrusiveNode.null]

/-- What `om_slab_free` does to slot `x`. -/
structure FreeSpec (s : OmDualSlab) (x : Nat) (s' : OmDualSlab) : Prop where
  capacity : s'.capacity = s.capacity
  config : s'.config = s.config
  order_same : ∀ j, s'.order j = s.order j
  aux_same : ∀ j, j ≠ x → s'.auxMemory j = s.auxMemory j
  next_same : ∀ q j, j ≠ x → s'.next q j = s.next q j
  prev_same : ∀ q j, j ≠ x → s'.prev q j = s.prev q j

theorem omSlabFree_spec (s : OmDualSlab) (x : Nat) : FreeSpec s x (omSlabFree s x) where
  capacity := rfl
  config := rfl
  order_same := fun j => by
    change (((s.clearNodes x).setNext .internalFree x s.freeListIdx)).order j = s.order j
    simp
  aux_same := fun j hj => by
    change Function.update s.auxMemory x _ j = s.auxMemory j
    simp [hj]
  next_same := fun q j hj => by
    change ((s.clearNodes x).setNext .internalFree x s.freeListIdx).next q j = s.next q j
    simp [hj]
  prev_same := fun q j hj => by
    change ((s.clearNodes x).setNext .internalFree x s.freeListIdx).prev q j = s.prev q j
    simp [hj]

theorem omSlabFree_freeList (h : FreeList s free) (hx : x < s.capacity)
    (hnot : x ∉ free) : FreeList (omSlabFree s x) (x :: free) := by
  have hne : ∀ i ∈ free, i ≠ x := fun i hi he => hnot (he ▸ hi)
  have hspec := omSlabFree_spec s x
  have hsmall : ∀ i, s.auxFreeListIdx = some i → i < 2 ^ 32 - 1 := by
    intro i hi
    have hmem : i ∈ free := front_mem (h.auxHead ▸ hi)
    have := h.lt_capacity i hmem
    have := h.capacity_lt
    omega
  refine
    { head := rfl
      auxHead := rfl
      links := ⟨?_, h.links.congr fun i hi => hspec.next_same _ i (hne i hi)⟩
      auxLinks := ⟨?_, h.auxLinks.congr fun i hi => by rw [hspec.aux_same i (hne i hi)]⟩
      nodup := nodup_cons.mpr ⟨hnot, h.nodup⟩
      lt_capacity := ?_
      capacity_lt := h.capacity_lt
      auxLength := ?_ }
  · simp [omSlabFree, OmDualSlab.next, setAux, clearNodes, setNext, setNode, h.head]
  · have hlen : 4 ≤ (s.auxMemory x).length := by
      rw [h.auxLength]
      exact four_le_auxSlotSize _
    have hdec := decodeIdx_overwrite_encodeIdx hlen hsmall
    simpa [omSlabFree, setAux, clearNodes, setNext, setNode, h.auxHead] using hdec
  · intro i hi
    rcases mem_cons.mp hi with rfl | hi
    · exact hx
    · exact h.lt_capacity i hi
  · intro i
    by_cases hi : i = x
    · simp [omSlabFree, setAux, clearNodes, setNext, setNode, hi, h.auxLength]
    · rw [hspec.aux_same i hi, hspec.config, h.auxLength]

section Init

variable {s : OmDualSlab}

theorem range_succ_reverse (n : Nat) : (range (n + 1)).reverse = n :: (range n).reverse := by
  simp [range_succ]

theorem front_range_reverse (n : Nat) :
    front (range n).reverse none = if n = 0 then none else some (n - 1) := by
  cases n with
  | zero => rfl
  | succ n => rw [range_succ_reverse]; simp

/-- The first `n` rounds thread the slots below `n`, last one first, and touch nothing else. -/
structure ThreadedA (s : OmDualSlab) (n : Nat) (t : OmDualSlab) : Prop where
  head : t.freeListIdx = front (range n).reverse none
  links : SSeg (t.next .internalFree) (range n).reverse
  capacity : t.capacity = s.capacity
  auxMemory : t.auxMemory = s.auxMemory
  config : t.config = s.config

theorem foldl_initSlotA (hhead : s.freeListIdx = none) (n : Nat) :
    ThreadedA s n ((range n).foldl initSlotA s) := by
  induction n with
  | zero => exact ⟨hhead, trivial, rfl, rfl, rfl⟩
  | succ n ih =>
    rw [range_succ, foldl_append, foldl_cons, foldl_nil]
    generalize (range n).foldl initSlotA s = t at ih
    have hn : ∀ q j, (initSlotA t n).next q j =
        ((t.clearNodes n).setNext .internalFree n t.freeListIdx).next q j := fun _ _ => rfl
    refine ⟨by rw [range_succ_reverse]; rfl, ?_, ih.capacity, ih.auxMemory, ih.config⟩
    rw [range_succ_reverse]
    refine ⟨by rw [hn]; simp [ih.head], ih.links.congr ?_⟩
    intro i hi
    have hlt : i < n := by simpa using hi
    rw [hn]
    simp [Nat.ne_of_lt hlt]

/-- The same for slab B's list, whose rounds write the aux memory only. -/
structure ThreadedB (s : OmDualSlab) (n : Nat) (t : OmDualSlab) : Prop where
  links : SSeg (fun i => decodeIdx (t.auxMemory i)) (range n).reverse
  length : ∀ i, (t.auxMemory i).length = (s.auxMemory i).length
  rest : t = { s with auxMemory := t.auxMemory }

theorem foldl_initSlotB (hlen : ∀ i, 4 ≤ (s.auxMemory i).length) (n : Nat) (hn : n < 2 ^ 32) :
    ThreadedB s n ((range n).foldl initSlotB s) := by
  induction n with
  | zero => exact ⟨trivial, fun _ => rfl, rfl⟩
  | succ n ih =>
    rw [range_succ, foldl_append, foldl_cons, foldl_nil]
    replace ih := ih (by omega)
    generalize (range n).foldl initSlotB s = t at ih
    have hsame : ∀ i, i ≠ n → (initSlotB t n).auxMemory i = t.auxMemory i := by
      intro i hi
      simp [initSlotB, setAux, hi]
    have hat : (initSlotB t n).auxMemory n =
        overwrite (t.auxMemory n) (encodeIdx (if n = 0 then none else some (n - 1))) := by
      simp [initSlotB, setAux]
    refine ⟨?_, ?_, ?_⟩
    · rw [range_succ_reverse]
      refine ⟨?_, ih.links.congr fun i hi => by
        rw [hsame i (Nat.ne_of_lt (by simpa using hi))]⟩
      change decodeIdx ((initSlotB t n).auxMemory n) = _
      rw [hat, front_range_reverse]
      apply decodeIdx_overwrite_encodeIdx (by rw [ih.length]; exact hlen n)
      intro i hi
      split at hi
      next => simp at hi
      next => simp at hi; omega
    · intro i
      by_cases hi : i = n
      · rw [hi, hat, overwrite_length, ih.length]
      · rw [hsame i hi, ih.length]
    · conv_lhs => rw [ih.rest]
      conv_rhs => rw [ih.rest]
      rfl

/-- A fresh slab: every slot free. -/
structure InitSpec (config : OmSlabConfig) (s : OmDualSlab) : Prop where
  free : FreeList s (range config.totalSlots).reverse
  capacity : s.capacity = config.totalSlots
  config_eq : s.config = config
  nextOrderId : s.nextOrderId = 1

theorem omSlabInit_spec {config : OmSlabConfig} (h : config.totalSlots ≠ 0) :
    omSlabInit config = (.ok, some (freshSlab config)) ∧ InitSpec config (freshSlab config) := by
  refine ⟨by simp only [omSlabInit, h, ↓reduceIte], ?_⟩
  simp only [freshSlab]
  set zeroed : OmDualSlab :=
    { slots := fun _ => blankSlot config
      capacity := config.totalSlots
      freeListIdx := none
      used := 0
      auxMemory := fun _ => replicate (auxSlotSize config) 0
      auxFreeListIdx := none
      config := config
      nextOrderId := 0 } with hz
  have ha := foldl_initSlotA (s := zeroed) rfl config.totalSlots
  generalize (range config.totalSlots).foldl initSlotA zeroed = a at ha
  have hauxLen : ∀ i, (a.auxMemory i).length = auxSlotSize config := by
    intro i
    rw [ha.auxMemory]
    simp [hz]
  have hb := foldl_initSlotB (s := a)
    (fun i => by rw [hauxLen]; exact four_le_auxSlotSize config) config.totalSlots
    config.totalSlots_lt
  generalize (range config.totalSlots).foldl initSlotB a = b at hb
  have hslots : b.slots = a.slots := by rw [hb.rest]
  have hnext : ∀ q j, b.next q j = a.next q j := fun q j => by simp only [OmDualSlab.next, hslots]
  have hcap : b.capacity = config.totalSlots := by rw [hb.rest]; exact ha.capacity
  have hconf : b.config = config := by rw [hb.rest]; exact ha.config
  refine ⟨?_, hcap, hconf, rfl⟩
  refine
    { head := by rw [← ha.head, hb.rest]
      auxHead := by rw [front_range_reverse]; simp [h]
      links := ha.links.congr fun i _ => hnext _ i
      auxLinks := hb.links
      nodup := nodup_reverse.mpr nodup_range
      lt_capacity := ?_
      capacity_lt := by change b.capacity < 2 ^ 32; rw [hcap]; exact config.totalSlots_lt
      auxLength := fun i => by
        change (b.auxMemory i).length = auxSlotSize b.config
        rw [hb.length, hauxLen, hconf] }
  intro i hi
  change i < b.capacity
  rw [hcap]
  simpa using hi

end Init

end VeloxMatch
