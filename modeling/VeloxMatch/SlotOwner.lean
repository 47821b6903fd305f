import VeloxMatch.SlotActivation

namespace VeloxMatch

open SearchTree

/-- Every slot is on the free list, named by one entry or held by the client, and only one of
these. -/
structure SlotsOwned (s : EngineState) (free : List Nat) : Prop where
  owner : ∀ x < s.book.slab.capacity, x ∈ free ∨ Referenced s.book x ∨ x ∈ s.held
  free_unreferenced : ∀ x ∈ free, ¬ Referenced s.book x
  free_not_held : ∀ x ∈ free, x ∉ s.held
  held_unreferenced : ∀ x ∈ s.held, ¬ Referenced s.book x
  entry_unique : ∀ id id' x p p', s.book.orderHashmap id = some ⟨x, p⟩ →
    s.book.orderHashmap id' = some ⟨x, p'⟩ → id = id'

def OwnedOk (s : EngineState) (op : Op) : Prop := EngineOk s op ∧ ActivationOk s op

instance (s : EngineState) (op : Op) : Decidable (OwnedOk s op) :=
  inferInstanceAs (Decidable (_ ∧ _))

theorem SSeg.unique {α : Type} {next : α → Option α} {l l' : List α} (h : SSeg next l)
    (h' : SSeg next l') (hfront : front l none = front l' none) : l = l' := by
  induction l generalizing l' with
  | nil =>
    cases l' with
    | nil => rfl
    | cons y l' => cases hfront
  | cons x l ih =>
    cases l' with
    | nil => cases hfront
    | cons y l' =>
      cases Option.some.inj hfront
      rw [ih h.2 h'.2 (h.1.symm.trans h'.1)]

theorem FreeList.unique {s : OmDualSlab} {free free' : List Nat} (h : FreeList s free)
    (h' : FreeList s free') : free = free' :=
  h.links.unique h'.links (h.head.symm.trans h'.head)

theorem FreeList.freeSlot_iff {s : OmDualSlab} {free : List Nat} {x : Nat} (h : FreeList s free) :
    FreeSlot s x ↔ x ∈ free :=
  ⟨fun ⟨_, h', hx⟩ => h.unique h' ▸ hx, fun hx => ⟨free, h, hx⟩⟩

/-- Who has a slot; between calls no activation is one of them. -/
inductive SlotOwner (s : EngineState) (x : Nat) : Prop where
  | free : FreeSlot s.book.slab x → SlotOwner s x
  | entry : Referenced s.book x → SlotOwner s x
  | client : x ∈ s.held → SlotOwner s x
  | activation : activatedSlot s.call = some x → SlotOwner s x

structure OwnerInv (s : EngineState) : Prop where
  owner : ∀ x < s.book.slab.capacity, SlotOwner s x
  entries : EntriesOk s.book
  activation : ∀ f, s.call = some (.matching f true) → Insertable s.book f.productId f.taker

section Run

variable {K : Kavl} {op : Op} {s s' : EngineState} {levels levels' : Levels} {free free' : List Nat}
  {x : Nat} {f : MatchFrame}

/-- A slot with an owner has one after the step, or it was the slot of an activated order. -/
theorem Effect.owner (he : Effect K op s levels free s'.call s'.view levels' free')
    (hinv : EngineInv s levels free) (hinv' : EngineInv s' levels' free') (h : OwnerInv s)
    (hx : x < s'.book.slab.capacity) : SlotOwner s' x ∨ activatedSlot s.call = some x := by
  have hfree : x ∈ free' → SlotOwner s' x :=
    fun hx => .free (hinv'.book.freeList.freeSlot_iff.mpr hx)
  rw [he.capacity] at hx
  cases h.owner x hx with
  | free hx =>
    rcases he.free_goes (hinv.book.freeList.freeSlot_iff.mp hx) with hx | hx
    · exact Or.inl (hfree hx)
    · exact Or.inl (.client hx)
  | entry hx =>
    rcases (he.entries hinv).referenced hx with hx | hx | hx
    · exact Or.inl (.entry hx)
    · exact Or.inl (hfree hx)
    · exact Or.inl (.activation hx)
  | client hx =>
    rcases he.held_goes hx with hx | hx | hx
    · exact Or.inl (.client hx)
    · exact Or.inl (hfree hx)
    · exact Or.inl (.entry hx)
  | activation hx => exact Or.inr hx

theorem tickSide_not_matching {f : SideFrame} {f' : MatchFrame} :
    (tickSide K s f).call ≠ some (.matching f' true) := by
  unfold tickSide
  repeat' split
  all_goals
    intro h
    cases h

theorem engineStep_busy {call : Call} (hcall : s.call = some call) (hop : op ≠ .tick) :
    engineStep K s op = s := by
  cases op with
  | tick => exact absurd rfl hop
  | _ => cases call <;> simp only [engineStep, hcall]

theorem engineStep_activating {call : Call} (hcall : s.call = some call)
    (h : (engineStep K s op).call = some (.matching f true)) :
    ∃ f', s.call = some (.matching f' true) := by
  by_cases hop : op = .tick
  · subst hop
    cases call with
    | matching f' activating =>
      simp only [engineStep, hcall, tickMatch] at h
      generalize (matchStep K s.engine f').2 = next at h
      cases next with
      | running f'' =>
        cases h
        exact ⟨f', hcall⟩
      | returned rc => cases h.symm.trans afterMatch_returned.1
    | cancelSide f' =>
      simp only [engineStep, hcall] at h
      exact absurd h tickSide_not_matching
  · exact ⟨f, engineStep_busy hcall hop ▸ h⟩

theorem OwnerInv.activates (h : OwnerInv s) (hinv : EngineInv s levels free)
    (hno : ∀ f, s.call ≠ some (.matching f true))
    (hcall : (engineStep K s op).call = some (.matching f true)) :
    Insertable (engineStep K s op).book f.productId f.taker := by
  cases hbefore : s.call with
  | some call =>
    obtain ⟨f', hf'⟩ := engineStep_activating hbefore hcall
    exact absurd hf' (hno f')
  | none =>
    obtain ⟨id, w, hentry, hbook⟩ := engineStep_activates hbefore hcall
    obtain ⟨hproduct, horg, hzero⟩ := h.entries _ _ hentry
    have hid := (hinv.book.entry hentry).1
    rw [hbook, Insertable, order_setStatus, if_pos rfl]
    refine ⟨hproduct, horg, hid.trans_ne hzero, ?_⟩
    exact (congrArg _ hid).trans (Function.update_self ..)

theorem OwnerInv.tick (h : OwnerInv s) (hinv : EngineInv s levels free)
    (hinv' : EngineInv (engineStep K s .tick) levels' free')
    (he : Effect K .tick s levels free (engineStep K s .tick).call (engineStep K s .tick).view
      levels' free')
    (hcall : s.call = some (.matching f true)) (hok : ActivationOk s .tick) :
    OwnerInv (engineStep K s .tick) := by
  have hmove := hinv.activation_tick (K := K) hcall (h.activation f hcall) hok
  refine ⟨fun x hx => ?_, he.entriesOk hinv h.entries, fun f' hcall' => ?_⟩
  · rcases he.owner hinv hinv' h hx with hx | hx
    · exact hx
    · rw [hcall] at hx
      cases hx
      cases hmove with
      | running hcall' htaker _ =>
        refine .activation ?_
        rw [hcall', activatedSlot, htaker]
      | returned _ hslot => exact hslot.elim .entry .free
  · cases hmove with
    | running hcall'' _ hins =>
      cases hcall'.symm.trans hcall''
      exact hins
    | returned hnone _ => cases hcall'.symm.trans hnone

theorem OwnerInv.step (h : OwnerInv s) (hinv : EngineInv s levels free)
    (hinv' : EngineInv (engineStep K s op) levels' free')
    (he : Effect K op s levels free (engineStep K s op).call (engineStep K s op).view levels' free')
    (hok : OwnedOk s op) : OwnerInv (engineStep K s op) := by
  by_cases hex : ∃ f, s.call = some (.matching f true)
  · obtain ⟨f, hcall⟩ := hex
    by_cases hop : op = .tick
    · subst hop
      exact h.tick hinv hinv' he hcall hok.2
    · rw [engineStep_busy hcall hop]
      exact h
  · have hno : ∀ f, s.call ≠ some (.matching f true) := fun f hf => hex ⟨f, hf⟩
    refine ⟨fun x hx => ?_, he.entriesOk hinv h.entries, fun f => h.activates hinv hno⟩
    rcases he.owner hinv hinv' h hx with hx | hx
    · exact hx
    · obtain ⟨f, hf, -⟩ := activatedSlot_eq_some hx
      exact absurd hf (hno f)

theorem held_tick (hx : x ∉ s.held) : x ∉ (engineStep K s .tick).held := by
  cases hcall : s.call with
  | none => simpa only [engineStep, hcall] using hx
  | some call =>
    cases call with
    | matching f activating =>
      simp only [engineStep, hcall, tickMatch]
      generalize matchStep K s.engine f = r
      obtain ⟨e, next⟩ := r
      cases next with
      | running => exact hx
      | returned rc =>
        simp only [afterMatch, finishMatch, handOver]
        split <;> split <;>
          first | exact hx | exact fun h => hx (List.mem_of_mem_erase h)
    | cancelSide f =>
      simp only [engineStep, hcall, tickSide]
      repeat' split
      all_goals exact hx

theorem held_activate {id : Nat} (hcall : s.call = none) :
    (engineStep K s (.activate id)).held = s.held := by
  simp only [engineStep, hcall, startMatch]
  repeat' split
  all_goals rfl

theorem held_ticks {n : Nat} (hx : x ∉ s.held) :
    x ∉ (runOps K s (List.replicate n .tick)).held := by
  induction n generalizing s with
  | zero => exact hx
  | succ n ih => exact ih (held_tick hx)

theorem ownerInv_start {config : OmSlabConfig} {wal : Option OmWalHandle} {maxProducts maxOrg : Nat}
    (h0 : config.totalSlots ≠ 0) (callbacks : OmEngineCallbacks) :
    OwnerInv (.start (freshBook (freshSlab config) wal maxProducts maxOrg) callbacks) := by
  have hspec := (omSlabInit_spec h0).2
  refine ⟨fun x hx => .free ⟨_, hspec.free, ?_⟩, ?_, ?_⟩
  · simpa using hspec.capacity ▸ hx
  · intro id entry hentry
    cases hentry
  · intro f hcall
    cases hcall

theorem EngineInv.slotsOwned (h : EngineInv s levels free) (howner : OwnerInv s)
    (hcall : s.call = none) : SlotsOwned s free where
  owner := fun x hx => by
    cases howner.owner x hx with
    | free hx => exact Or.inl (h.book.freeList.freeSlot_iff.mp hx)
    | entry hx => exact Or.inr (Or.inl hx)
    | client hx => exact Or.inr (Or.inr hx)
    | activation hx =>
      rw [hcall] at hx
      cases hx
  free_unreferenced := fun x hx ⟨id, p, hentry⟩ => (h.book.entry hentry).2.2.1 hx
  free_not_held := fun x hx hheld => (h.held.spare x hheld).not_free hx
  held_unreferenced := fun x hx ⟨id, p, hentry⟩ => (h.held.spare x hx).unbooked _ _ hentry rfl
  entry_unique := fun id id' x p p' hentry hentry' => h.book.entry_unique hentry hentry' rfl

end Run

section Reached

variable {K : Kavl} {config : OmSlabConfig} {wal : Option OmWalHandle}
  {maxProducts maxOrg : Nat} {ctx : OmOrderbookContext} {callbacks : OmEngineCallbacks}
  {s : EngineState} (hinit : omOrderbookInit config wal maxProducts maxOrg = (.ok, some ctx))
  (h : Reach K OwnedOk (.start ctx callbacks) s)
include hinit h

theorem Reach.ownerInv :
    ∃ levels free, EngineInv s levels free ∧ OwnerInv s ∧
      s.book.slab.capacity = config.totalSlots :=
  have h0 := (omOrderbookInit_ok hinit).1
  Reach.effects (Q := fun s _ _ => OwnerInv s ∧ s.book.slab.capacity = config.totalSlots) hinit h
    (fun _ _ hok => hok.1.opOk) ⟨ownerInv_start h0 callbacks, (omSlabInit_spec h0).2.capacity⟩
    fun _ _ _ _ _ _ hok hinv hinv' he howner =>
      ⟨howner.1.step hinv hinv' he hok, he.capacity.trans howner.2⟩

/-- In a run whose activations are neither refused by `pre_booked` nor cut off by the log, every
slot has one owner between calls, and an activation ends with the slot booked or free. -/
theorem slots_owned (hcall : s.call = none) :
    (∃ free, FreeList s.book.slab free ∧ SlotsOwned s free) ∧
    ∀ id x p n, s.book.orderHashmap id = some ⟨x, p⟩ →
      Allowed K OwnedOk s (.activate id :: List.replicate n .tick) →
      (runOps K s (.activate id :: List.replicate n .tick)).call = none →
      Referenced (runOps K s (.activate id :: List.replicate n .tick)).book x ∨
        FreeSlot (runOps K s (.activate id :: List.replicate n .tick)).book.slab x := by
  obtain ⟨levels, free, hinv, howner, hcap⟩ := h.ownerInv hinit
  refine ⟨⟨free, hinv.book.freeList, hinv.slotsOwned howner hcall⟩, ?_⟩
  intro id x p n hentry hallowed hcall'
  obtain ⟨levels', free', -, howner', hcap'⟩ := (hallowed.reach K h).ownerInv hinit
  have hheld : x ∉ s.held := fun hx => (hinv.held.spare x hx).unbooked _ _ hentry rfl
  have hlt : x < (runOps K s (.activate id :: List.replicate n .tick)).book.slab.capacity := by
    rw [hcap', ← hcap]
    exact (hinv.book.entry hentry).2.1
  cases howner'.owner x hlt with
  | free hx => exact Or.inr hx
  | entry hx => exact Or.inl hx
  | client hx =>
    refine absurd hx ?_
    refine held_ticks ?_
    rw [held_activate hcall]
    exact hheld
  | activation hx =>
    rw [hcall'] at hx
    cases hx

end Reached

def parkOps : List Op := restOps ++ [.deactivate 1]

theorem slots_owned_small :
    (∃ free, FreeList (runOps plainOps smallEngine parkOps).book.slab free ∧
      SlotsOwned (runOps plainOps smallEngine parkOps) free) ∧
    (Referenced (runOps plainOps (runOps plainOps smallEngine parkOps)
        [.activate 1, .tick, .tick]).book 2 ∨
      FreeSlot (runOps plainOps (runOps plainOps smallEngine parkOps)
        [.activate 1, .tick, .tick]).book.slab 2) := by
  have hreach : Reach plainOps OwnedOk smallEngine
      (runOps plainOps smallEngine parkOps) :=
    Allowed.reach _ (by decide +kernel) .start
  have howned := slots_owned smallEngine_init hreach (by decide +kernel)
  exact ⟨howned.1, howned.2 1 2 0 2 (by decide +kernel) (by decide +kernel) (by decide +kernel)⟩

/-- `pre_booked` agrees when it is asked first and refuses from then on. -/
def onceBooked : OmEngineCallbacks :=
  { noCallbacks with preBooked := some fun events _ => events.isEmpty }

def onceEngine : EngineState :=
  .start (freshBook (freshSlab smallConfig) none 1 1) onceBooked

def refusedState : EngineState :=
  runOps plainOps onceEngine (parkOps ++ [.activate 1, .tick, .tick])

/-- The slot of an activated order that `pre_booked` refuses belongs to nobody. -/
theorem slot_lost :
    Reach plainOps EngineOk onceEngine refusedState ∧ refusedState.call = none ∧
    ¬ ∃ free, FreeList refusedState.book.slab free ∧ SlotsOwned refusedState free := by
  have hreach : Reach plainOps EngineOk onceEngine refusedState :=
    Allowed.reach _ (by decide +kernel) .start
  refine ⟨hreach, by decide +kernel, ?_⟩
  rintro ⟨free, hfree, howned⟩
  obtain ⟨levels, free', hinv⟩ := hreach.engineInv smallEngine_init fun _ _ => EngineOk.opOk
  rcases howned.owner 2 (by decide +kernel) with hx | ⟨id, p, hentry⟩ | hx
  · have hlist : free = [1, 0] := by
      refine hfree.links.unique ?_ (hfree.head.symm.trans (by decide +kernel))
      exact ⟨by decide +kernel, by decide +kernel, trivial⟩
    rw [hlist] at hx
    exact absurd hx (by decide)
  · have hone : (refusedState.book.slab.order 2).orderId = 1 := by decide +kernel
    have hnone : refusedState.book.orderHashmap 1 = none := by decide +kernel
    have hid : id = 1 := (hinv.book.entry hentry).1.symm.trans hone
    rw [hid, hnone] at hentry
    cases hentry
  · exact absurd hx (by decide +kernel)

end VeloxMatch
