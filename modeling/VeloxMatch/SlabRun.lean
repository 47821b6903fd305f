import VeloxMatch.Runs
import VeloxMatch.SlabFree

namespace VeloxMatch

open OmDualSlab List

structure SlabState where
  slab : OmDualSlab
  allocated : List Nat

/-- The calls, and what a user may write into a slot that is theirs: the mandatory fields and the
user data, the nodes of Q1 to Q3, and the aux data. -/
inductive SlabAction where
  | alloc
  | free (slot : Nat)
  | writeOrder (slot : Nat) (fields : OmOrderFields)
  | writeNode (slot : Nat) (q : OmQueue) (node : OmIntrusiveNode)
  | writeAux (slot : Nat) (bytes : List UInt8)

namespace SlabState

def start (slab : OmDualSlab) : SlabState := ⟨slab, []⟩

def step (s : SlabState) : SlabAction → Option SlabState
  | .alloc =>
    match omSlabAlloc s.slab with
    | (none, slab) => some ⟨slab, s.allocated⟩
    | (some slot, slab) => some ⟨slab, slot :: s.allocated⟩
  | .free slot =>
    if slot ∈ s.allocated then some ⟨omSlabFree s.slab slot, s.allocated.erase slot⟩ else none
  | .writeOrder slot fields =>
    if slot ∈ s.allocated then some { s with slab := s.slab.setOrder slot fields } else none
  | .writeNode slot q node =>
    if slot ∈ s.allocated ∧ q ≠ .internalFree then
      some { s with slab := s.slab.setNode q slot node }
    else none
  | .writeAux slot bytes =>
    if slot ∈ s.allocated then some { s with slab := s.slab.setAux slot bytes } else none

end SlabState

structure SlabInv (config : OmSlabConfig) (s : SlabState) (free : List Nat) : Prop where
  freeList : FreeList s.slab free
  mem_free : ∀ i, i ∈ free ↔ i < config.totalSlots ∧ i ∉ s.allocated
  lt_total : ∀ i ∈ s.allocated, i < config.totalSlots
  nodup : s.allocated.Nodup
  used : s.slab.used = s.allocated.length
  capacity : s.slab.capacity = config.totalSlots
  config_eq : s.slab.config = config

theorem omSlabAlloc_clears {s s' : OmDualSlab} {x : Nat} {free : List Nat}
    (h : FreeList s (x :: free)) (halloc : omSlabAlloc s = (some x, s')) :
    s'.auxMemory x = replicate (auxSlotSize s.config) 0 ∧ s'.used = s.used + 1 := by
  have hidx : omSlotFromIdx s s.freeListIdx = some x := by
    rw [h.head]
    exact omSlotFromIdx_some (h.lt_capacity x mem_cons_self)
  unfold omSlabAlloc at halloc
  rw [hidx] at halloc
  have haux : s.auxFreeListIdx = some x := h.auxHead
  dsimp only at halloc
  rw [if_neg (not_not.mpr haux)] at halloc
  obtain ⟨-, rfl⟩ := Prod.mk.inj halloc
  refine ⟨?_, rfl⟩
  change Function.update s.auxMemory x
    (overwrite (s.auxMemory x) (replicate (auxSlotSize s.config) 0)) x = _
  rw [Function.update_self, overwrite, length_replicate, ← h.auxLength x, drop_length,
    append_nil, take_replicate, Nat.min_self]

theorem foldl_used {f : OmDualSlab → Nat → OmDualSlab} (hf : ∀ s i, (f s i).used = s.used)
    (l : List Nat) (s : OmDualSlab) : (l.foldl f s).used = s.used := by
  induction l generalizing s with
  | nil => rfl
  | cons i l ih => exact (ih (f s i)).trans (hf s i)

variable (config : OmSlabConfig)

theorem freshSlab_used : (freshSlab config).used = 0 := by
  refine (foldl_used ?_ _ _).trans (foldl_used ?_ _ _)
  · exact fun _ _ => rfl
  · exact fun _ _ => rfl

namespace SlabInv

variable {config : OmSlabConfig} {s s' : SlabState} {free : List Nat} {x : Nat}

theorem start (h : config.totalSlots ≠ 0) :
    SlabInv config (SlabState.start (freshSlab config)) (range config.totalSlots).reverse := by
  obtain ⟨-, hspec⟩ := omSlabInit_spec h
  refine ⟨hspec.free, fun i => ?_, nofun, nodup_nil, freshSlab_used config, hspec.capacity,
    hspec.config_eq⟩
  simp [SlabState.start]

theorem write (h : SlabInv config s free) (hx : x ∈ s.allocated) {slab : OmDualSlab}
    (hcapacity : slab.capacity = s.slab.capacity) (hhead : slab.freeListIdx = s.slab.freeListIdx)
    (haux : slab.auxFreeListIdx = s.slab.auxFreeListIdx) (hconfig : slab.config = s.slab.config)
    (hused : slab.used = s.slab.used)
    (hnext : ∀ i, i ≠ x → slab.next .internalFree i = s.slab.next .internalFree i)
    (hmem : ∀ i, i ≠ x → slab.auxMemory i = s.slab.auxMemory i)
    (hlength : (slab.auxMemory x).length = (s.slab.auxMemory x).length) :
    SlabInv config { s with slab := slab } free := by
  have hne : ∀ i ∈ free, i ≠ x := fun i hi he => ((h.mem_free i).mp hi).2 (he ▸ hx)
  refine ⟨?_, h.mem_free, h.lt_total, h.nodup, hused.trans h.used, hcapacity.trans h.capacity,
    hconfig.trans h.config_eq⟩
  refine h.freeList.frame hcapacity hhead haux hconfig (fun i hi => hnext i (hne i hi))
    (fun i hi => hmem i (hne i hi)) fun i => ?_
  rcases eq_or_ne i x with rfl | hi
  · exact hlength
  · rw [hmem i hi]

theorem giveBack (h : SlabInv config s free) (hx : x ∈ s.allocated) :
    SlabInv config ⟨omSlabFree s.slab x, s.allocated.erase x⟩ (x :: free) := by
  have hlt := h.lt_total x hx
  have hnot : x ∉ free := fun hmem => ((h.mem_free x).mp hmem).2 hx
  refine ⟨omSlabFree_freeList h.freeList (h.capacity ▸ hlt) hnot, fun i => ?_,
    fun i hi => h.lt_total i (mem_of_mem_erase hi), h.nodup.erase x, ?_, h.capacity, h.config_eq⟩
  · rw [mem_cons, h.mem_free, h.nodup.mem_erase_iff]
    constructor
    · rintro (rfl | ⟨hi, hmem⟩)
      · exact ⟨hlt, fun he => he.1 rfl⟩
      · exact ⟨hi, fun he => hmem he.2⟩
    · rintro ⟨hi, hmem⟩
      rcases eq_or_ne i x with rfl | hne
      · exact .inl rfl
      · exact .inr ⟨hi, fun he => hmem ⟨hne, he⟩⟩
  · change s.slab.used - 1 = _
    rw [h.used, length_erase_of_mem hx]

theorem alloc (h : SlabInv config s (x :: free)) {slab : OmDualSlab}
    (halloc : omSlabAlloc s.slab = (some x, slab)) :
    SlabInv config ⟨slab, x :: s.allocated⟩ free := by
  obtain ⟨_, heq, hfree, hspec⟩ := omSlabAlloc_cons h.freeList
  obtain rfl : _ = slab := (Prod.mk.inj (heq.symm.trans halloc)).2
  obtain ⟨hlt, hnew⟩ := (h.mem_free x).mp mem_cons_self
  have hx : x ∉ free := (nodup_cons.mp h.freeList.nodup).1
  refine ⟨hfree, fun i => ?_, ?_, nodup_cons.mpr ⟨hnew, h.nodup⟩, ?_,
    hspec.capacity.trans h.capacity, hspec.config.trans h.config_eq⟩
  · have hmem := h.mem_free i
    rw [mem_cons] at hmem ⊢
    constructor
    · intro hi
      obtain ⟨hlt, hnot⟩ := hmem.mp (.inr hi)
      exact ⟨hlt, not_or.mpr ⟨fun he => hx (he ▸ hi), hnot⟩⟩
    · rintro ⟨hlt, hnot⟩
      obtain ⟨hne, hnot⟩ := not_or.mp hnot
      exact (hmem.mpr ⟨hlt, hnot⟩).resolve_left hne
  · exact forall_mem_cons.mpr ⟨hlt, h.lt_total⟩
  · rw [(omSlabAlloc_clears h.freeList halloc).2, h.used, length_cons]

theorem step (h : SlabInv config s free) {a : SlabAction} (hs : s.step a = some s') :
    ∃ free', SlabInv config s' free' := by
  cases a with
  | alloc =>
    unfold SlabState.step at hs
    cases free with
    | nil =>
      rw [omSlabAlloc_nil h.freeList] at hs
      cases hs
      exact ⟨[], h⟩
    | cons x free =>
      obtain ⟨slab, halloc, -⟩ := omSlabAlloc_cons h.freeList
      rw [halloc] at hs
      cases hs
      exact ⟨free, h.alloc halloc⟩
  | free slot =>
    obtain ⟨hslot, hs⟩ := Option.ite_none_right_eq_some.mp hs
    cases hs
    exact ⟨_, h.giveBack hslot⟩
  | writeOrder slot fields =>
    obtain ⟨hslot, hs⟩ := Option.ite_none_right_eq_some.mp hs
    cases hs
    exact ⟨free, h.write hslot rfl rfl rfl rfl rfl
      (fun i hi => by simp [OmDualSlab.next, setOrder, hi]) (fun _ _ => rfl) rfl⟩
  | writeNode slot q node =>
    obtain ⟨⟨hslot, -⟩, hs⟩ := Option.ite_none_right_eq_some.mp hs
    cases hs
    exact ⟨free, h.write hslot rfl rfl rfl rfl rfl
      (fun i hi => by simp [OmDualSlab.next, setNode, hi]) (fun _ _ => rfl) rfl⟩
  | writeAux slot bytes =>
    obtain ⟨hslot, hs⟩ := Option.ite_none_right_eq_some.mp hs
    cases hs
    exact ⟨free, h.write hslot rfl rfl rfl rfl rfl (fun _ _ => rfl)
      (fun i hi => Function.update_of_ne hi ..) (by simp [setAux])⟩

end SlabInv

/-- What `om_slab_alloc` returns: a slot that is not handed out, cleared, if there is one. -/
structure AllocatesFree (config : OmSlabConfig) (allocated : List Nat)
    (out : Option Nat × OmDualSlab) : Prop where
  none_iff : out.1 = none ↔ ∀ i, i < config.totalSlots → i ∈ allocated
  fresh : ∀ x, out.1 = some x → x < config.totalSlots ∧ x ∉ allocated
  aux : ∀ x, out.1 = some x → out.2.auxMemory x = replicate (auxSlotSize config) 0
  links : ∀ x, out.1 = some x → ∀ q, out.2.next q x = none ∧ out.2.prev q x = none

theorem SlabInv.allocatesFree {config : OmSlabConfig} {s : SlabState} {free : List Nat}
    (h : SlabInv config s free) : AllocatesFree config s.allocated (omSlabAlloc s.slab) := by
  cases free with
  | nil =>
    rw [omSlabAlloc_nil h.freeList]
    refine ⟨iff_of_true rfl fun i hi => ?_, nofun, nofun, nofun⟩
    by_contra hnot
    exact not_mem_nil ((h.mem_free i).mpr ⟨hi, hnot⟩)
  | cons x free =>
    obtain ⟨slab, halloc, -, hspec⟩ := omSlabAlloc_cons h.freeList
    have hx := (h.mem_free x).mp mem_cons_self
    have haux := (omSlabAlloc_clears h.freeList halloc).1
    rw [h.config_eq] at haux
    rw [halloc]
    refine ⟨iff_of_false nofun fun hall => hx.2 (hall x hx.1), ?_, ?_, ?_⟩
    · rintro _ ⟨rfl⟩
      exact hx
    · rintro _ ⟨rfl⟩
      exact haux
    · rintro _ ⟨rfl⟩ q
      exact ⟨hspec.next_null q, hspec.prev_null q⟩

/-- No size that `om_slab_init` computes overflows. -/
def SizesFit : Prop :=
  config.userDataSize + 71 < 2 ^ 64 ∧ config.auxDataSize + 7 < 2 ^ 64 ∧
    slotSize config * config.totalSlots < 2 ^ 64 ∧ auxSlotSize config * config.totalSlots < 2 ^ 64

instance : Decidable (SizesFit config) :=
  inferInstanceAs (Decidable (_ ∧ _ ∧ _ ∧ _))

/-- The first `width` bytes of all slots are in the arena and apart from each other, so that slots
can be read and written one by one. -/
def SlotsApart (slots size arena width : Nat) : Prop :=
  ∀ i < slots, i * size + width ≤ arena ∧ ∀ j < slots, i < j → i * size + width ≤ j * size

theorem slotsApart_of_fit {slots size width : Nat} (hwidth : width ≤ size)
    (hfit : size * slots < 2 ^ 64) : SlotsApart slots size (size * slots % 2 ^ 64) width := by
  have hnext : ∀ i j, i < j → i * size + width ≤ j * size := fun i j hij =>
    calc i * size + width ≤ i * size + size := Nat.add_le_add_left hwidth _
      _ = (i + 1) * size := (Nat.succ_mul i size).symm
      _ ≤ j * size := Nat.mul_le_mul_right size hij
  intro i hi
  rw [Nat.mod_eq_of_lt hfit, Nat.mul_comm size]
  exact ⟨hnext i slots hi, fun j _ => hnext i j⟩

/-- Whatever is allocated, freed and written, the two free lists of a slab are one list of the
slots that are not handed out. -/
theorem slab_lists_agree (hslots : 0 < config.totalSlots) (hfit : SizesFit config) :
    SlotsApart config.totalSlots (slotSize config) (arenaSize config) (64 + config.userDataSize) ∧
    SlotsApart config.totalSlots (auxSlotSize config) (auxBlockSize config)
      (max 4 config.auxDataSize) ∧
    ∃ slab, omSlabInit config = (.ok, some slab) ∧
      ∀ s, Runs SlabState.step anyAction (SlabState.start slab) s →
        (∃ free, FreeList s.slab free ∧
          ∀ i, i ∈ free ↔ i < config.totalSlots ∧ i ∉ s.allocated) ∧
        s.allocated.Nodup ∧ s.slab.used = s.allocated.length ∧
        AllocatesFree config s.allocated (omSlabAlloc s.slab) := by
  have hne : config.totalSlots ≠ 0 := by omega
  obtain ⟨huser, haux, harena, hblock⟩ := hfit
  have hwidth : 64 + config.userDataSize ≤ slotSize config := by
    unfold slotSize alignUp8
    omega
  have hauxWidth : max 4 config.auxDataSize ≤ auxSlotSize config := by
    refine max_le (four_le_auxSlotSize config) ?_
    unfold auxSlotSize alignUp8
    split <;> omega
  refine ⟨slotsApart_of_fit hwidth harena, slotsApart_of_fit hauxWidth hblock, freshSlab config,
    (omSlabInit_spec hne).1, fun s hruns => ?_⟩
  have hinv : ∃ free, SlabInv config s free := by
    refine hruns.invariant (P := fun s => ∃ free, SlabInv config s free) ⟨_, SlabInv.start hne⟩ ?_
    rintro _ _ _ ⟨free, h⟩ - hs
    exact h.step hs
  obtain ⟨free, h⟩ := hinv
  exact ⟨⟨free, h.freeList, h.mem_free⟩, h.nodup, h.used, h.allocatesFree⟩

def pairSlabConfig : OmSlabConfig := ⟨3, 5, 2, by decide⟩

def pairSlabActions : List SlabAction :=
  [.alloc, .alloc, .writeAux 0 [1, 2, 3, 4, 5], .writeNode 1 .timeFifo ⟨some 7, some 8⟩, .free 1,
    .free 0]

theorem slab_lists_agree_pair :
    ∃ s, Runs SlabState.step anyAction (SlabState.start (freshSlab pairSlabConfig)) s ∧
      s.slab.freeListIdx = some 0 ∧ s.slab.used = s.allocated.length ∧
        AllocatesFree pairSlabConfig s.allocated (omSlabAlloc s.slab) := by
  obtain ⟨-, -, slab, hinit, hall⟩ := slab_lists_agree pairSlabConfig (by decide) (by decide)
  obtain ⟨s, hruns, hhead⟩ := exists_runs SlabState.step anyAction
    (SlabState.start (freshSlab pairSlabConfig)) pairSlabActions
    (fun s => s.slab.freeListIdx = some 0) (by decide) (by decide)
  obtain rfl : freshSlab pairSlabConfig = slab :=
    Option.some.inj (Prod.mk.inj ((omSlabInit_spec (by decide)).1.symm.trans hinit)).2
  obtain ⟨-, -, hused, halloc⟩ := hall s hruns
  exact ⟨s, hruns, hhead, hused, halloc⟩

/-- Slab A as bytes: the arena, and the memory behind it. -/
structure OmSlabA where
  memory : Nat → UInt8
  capacity : Nat
  slotSize : Nat
  freeListIdx : Option Nat

namespace OmSlabA

def store (a : OmSlabA) (offset : Nat) (bytes : List UInt8) : OmSlabA :=
  { a with memory := fun k => if offset ≤ k then bytes.getD (k - offset) (a.memory k) else a.memory k }

/-- The four bytes of a slot's `queue_nodes[0].next_idx`. -/
def q0Next (a : OmSlabA) (i : Nat) : Option Nat :=
  decodeIdx ((range 4).map fun k => a.memory (i * a.slotSize + 32 + k))

/-- The nodes of a slot: the Q0 link, and seven null indices. -/
def initSlot (a : OmSlabA) (i : Nat) : OmSlabA :=
  { a.store (i * a.slotSize + 32) (encodeIdx a.freeListIdx ++ replicate 28 255) with
    freeListIdx := some i }

def init (config : OmSlabConfig) : OmSlabA :=
  (range config.totalSlots).foldl initSlot
    ⟨fun _ => 0, config.totalSlots, VeloxMatch.slotSize config, none⟩

/-- The stores of `om_slab_alloc` into a slot: zeros up to the flags, then null indices. -/
def alloc (a : OmSlabA) : Option Nat × OmSlabA :=
  match a.freeListIdx.filter (· < a.capacity) with
  | none => (none, a)
  | some idx =>
    (some idx, { a.store (idx * a.slotSize) (replicate 28 0 ++ replicate 36 255) with
      freeListIdx := a.q0Next idx })

end OmSlabA

def overlapConfig : OmSlabConfig := ⟨2 ^ 64 - 40, 0, 2, by decide⟩

/-- Slots of 24 bytes overlap: taking slot 1 zeroes the link of slot 0, and the free list runs in a
circle. -/
theorem slab_list_circular : slotSize overlapConfig = 24 ∧
    ∃ a, (OmSlabA.init overlapConfig).alloc = (some 1, a) ∧ a.freeListIdx = some 0 ∧
      a.q0Next 0 = some 0 :=
  ⟨by decide, _, rfl, by decide, by decide⟩

end VeloxMatch
