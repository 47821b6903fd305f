import VeloxMatch.EffectFacts

namespace VeloxMatch

open Levels

/-- Each level lists its slots in the order in which they were booked; `bookings` lists all
bookings, latest first. -/
structure InOrder (levels : Levels) (bookings : List Nat) : Prop where
  booked : ∀ {p b i}, i ∈ queueOf (levels p b) → i ∈ bookings
  fifo : ∀ {p b l}, l ∈ levels p b →
    l.slots.Pairwise fun x y => bookings.idxOf y < bookings.idxOf x

section Levels

variable {price : Nat → Nat} {isBid : Bool} {x : Nat} {l : Level}

theorem mem_placeInto {ls : List Level} (h : l ∈ placeInto price isBid x ls) :
    l ∈ ls ∨ l.slots = [x] ∨ ∃ m ∈ ls, l.slots = m.slots ++ [x] := by
  induction ls with
  | nil =>
    simp only [placeInto, List.mem_singleton] at h
    exact Or.inr (Or.inl (by simp [h, Level.slots]))
  | cons m ls ih =>
    unfold placeInto at h
    split at h
    next =>
      rcases List.mem_cons.mp h with rfl | h
      · exact Or.inr (Or.inr ⟨m, by simp, by simp [Level.slots]⟩)
      · exact Or.inl (by simp [h])
    next =>
      split at h
      next =>
        rcases List.mem_cons.mp h with rfl | h
        · exact Or.inl (by simp)
        · rcases ih h with h | h | ⟨k, hk, h⟩
          · exact Or.inl (by simp [h])
          · exact Or.inr (Or.inl h)
          · exact Or.inr (Or.inr ⟨k, by simp [hk], h⟩)
      next =>
        rcases List.mem_cons.mp h with rfl | h
        · exact Or.inr (Or.inl (by simp [Level.slots]))
        · exact Or.inl h

theorem mem_dropFrom {ls : List Level} (h : l ∈ dropFrom x ls) :
    ∃ m ∈ ls, l.slots.Sublist m.slots := by
  induction ls with
  | nil => simp [dropFrom] at h
  | cons m ls ih =>
    unfold dropFrom at h
    split at h
    next =>
      split at h
      next => exact ⟨l, by simp [h], List.Sublist.refl _⟩
      next y rest hr =>
        rcases List.mem_cons.mp h with rfl | h
        · exact ⟨m, by simp, by simp [Level.slots, hr]⟩
        · exact ⟨l, by simp [h], List.Sublist.refl _⟩
    next =>
      split at h
      next =>
        rcases List.mem_cons.mp h with rfl | h
        · exact ⟨m, by simp, List.erase_sublist.cons_cons _⟩
        · exact ⟨l, by simp [h], List.Sublist.refl _⟩
      next =>
        rcases List.mem_cons.mp h with rfl | h
        · exact ⟨l, by simp, List.Sublist.refl _⟩
        · obtain ⟨k, hk, hsub⟩ := ih h
          exact ⟨k, by simp [hk], hsub⟩

end Levels

section InOrder

variable {ctx : OmOrderbookContext} {levels : Levels} {free bookings : List Nat}
  {x productId p : Nat} {b isBid : Bool} {l : Level}

theorem mem_drop_level
    (h : l ∈ levels.drop productId isBid x p b) : ∃ m ∈ levels p b, l.slots.Sublist m.slots := by
  by_cases hpb : p = productId ∧ b = isBid
  · obtain ⟨rfl, rfl⟩ := hpb
    rw [drop, set_self] at h
    exact mem_dropFrom h
  · rw [drop, set_other hpb] at h
    exact ⟨l, h, List.Sublist.refl _⟩

theorem mem_place_level (h : l ∈ levels.place ctx productId x p b) :
    l ∈ levels p b ∨ l.slots = [x] ∨ ∃ m ∈ levels p b, l.slots = m.slots ++ [x] := by
  by_cases hpb : p = productId ∧ b = omIsBid (ctx.slab.order x).flags
  · obtain ⟨rfl, rfl⟩ := hpb
    rw [place, set_self] at h
    exact mem_placeInto h
  · rw [place, set_other hpb] at h
    exact Or.inl h

theorem InOrder.drop (h : InOrder levels bookings) (hbook : BookInv ctx levels free)
    (hx : x ∈ queueOf (levels productId isBid)) :
    InOrder (levels.drop productId isBid x) bookings where
  booked := fun hi => h.booked ((mem_drop hbook hx).mp hi).1
  fifo := fun hl => by
    obtain ⟨m, hm, hsub⟩ := mem_drop_level hl
    exact (h.fifo hm).sublist hsub

theorem InOrder.place (h : InOrder levels bookings) (hx : ∀ p b, x ∉ queueOf (levels p b)) :
    InOrder (levels.place ctx productId x) (x :: bookings) where
  booked := fun hi => by
    rcases mem_place.mp hi with ⟨rfl, -, -⟩ | hi
    · simp
    · exact List.mem_cons_of_mem x (h.booked hi)
  fifo := fun {p b l} hl => by
    -- every other slot moves one place away from the front of `bookings`
    have hshift : ∀ m ∈ levels p b, ∀ i ∈ m.slots,
        (x :: bookings).idxOf i = bookings.idxOf i + 1 := by
      intro m hm i hi
      have hne : x ≠ i := fun he => hx p b (mem_queueOf.mpr ⟨m, hm, he ▸ hi⟩)
      rw [List.idxOf_cons_ne _ hne]
    have hold : ∀ m ∈ levels p b,
        m.slots.Pairwise fun i j => (x :: bookings).idxOf j < (x :: bookings).idxOf i := by
      intro m hm
      refine (h.fifo hm).imp_of_mem fun {i j} hi hj hij => ?_
      rw [hshift m hm i hi, hshift m hm j hj]
      omega
    rcases mem_place_level hl with hm | hs | ⟨m, hm, hs⟩
    · exact hold l hm
    · rw [hs]
      exact List.pairwise_singleton _ _
    · rw [hs]
      refine List.pairwise_append.mpr ⟨hold m hm, List.pairwise_singleton _ _, ?_⟩
      intro i hi j hj
      rw [List.mem_singleton] at hj
      rw [hj, List.idxOf_cons_self, hshift m hm i hi]
      omega

end InOrder

/-- Every deactivated slot outside the free list and the client's hands is known by its id. -/
def ParkedKnown (ctx : OmOrderbookContext) (free held : List Nat) : Prop :=
  ∀ x, x < ctx.slab.capacity → x ∉ free → x ∉ held → Deactivated ctx x →
    ∃ p, ctx.orderHashmap (ctx.slab.order x).orderId = some ⟨x, p⟩

open SearchTree

/-- What the order book represents: per product and side the levels of `SideShape`, every
level in order of insertion, every resting order in one chain, and a hash map that holds
exactly the resting and the deactivated orders. -/
structure Representation (s : EngineState) (levels : Levels) (free : List Nat) : Prop where
  book : BookInv s.book levels free
  order : InOrder levels s.engine.bookings
  parked : ParkedKnown s.book free s.held

section Step

variable {K : Kavl} {op : Op} {s s' : EngineState} {levels levels' : Levels} {free free' : List Nat}
  {call : Option Call} {v : View}

theorem Effect.inOrder (he : Effect K op s levels free call v levels' free')
    (hbook : BookInv s.book levels free) (h : InOrder levels s.engine.bookings) :
    InOrder levels' v.bookings := by
  cases he with
  | place hun => exact h.place fun p b => hbook.not_resting hun p b
  | remove both _ hm | cancel hm | park hm => exact h.drop hbook hm
  | quiet | alloc | release | write | submit | empty | note | reduce | unpark | unparkUsed
  | noteDead | cancelDead => exact h

theorem Effect.parkedKnown (he : Effect K op s levels free s'.call s'.view levels' free')
    (hinv : EngineInv s levels free) (h : ParkedKnown s.book free s.held)
    (hinv' : EngineInv s' levels' free' := by assumption) : ParkedKnown s'.book free' s'.held := by
  intro x hlt hfree' hheld' hd
  suffices hx : Referenced s'.book x by
    obtain ⟨id, p, hentry⟩ := hx
    exact ⟨p, (hinv'.book.entry hentry).1 ▸ hentry⟩
  by_cases hfree : x ∈ free
  · exact absurd (he.free_goes hfree) (not_or.mpr ⟨hfree', hheld'⟩)
  by_cases hheld : x ∈ s.held
  · exact ((he.held_goes hheld).resolve_left hheld').resolve_left hfree'
  -- an order that was deactivated before keeps its entry: an activated one is active
  have hstays : Referenced s.book x → Referenced s'.book x := by
    intro hx
    rcases (he.entries hinv).referenced hx with hx | hx | hx
    · exact hx
    · exact absurd hx hfree'
    · obtain ⟨f, hcall, rfl⟩ := activatedSlot_eq_some hx
      exact absurd hd (hinv'.matching hcall).1.taker.active
  rcases he.orderAt hfree hheld with ⟨v, hv⟩ | ⟨status, hs, rfl | ⟨hhash, p, b, hmem⟩⟩
  · change omGetStatus (s'.view.book.slab.order x).flags = _ at hd
    rw [hv] at hd
    obtain ⟨p, hentry⟩ := h x (he.capacity ▸ hlt) hfree hheld hd
    exact hstays ⟨_, p, hentry⟩
  · change omGetStatus (s'.view.book.slab.order x).flags = _ at hd
    rw [hs, omGetStatus_omSetStatus] at hd
    exact absurd hd (by decide)
  · exact ⟨_, p, hhash ▸ (hinv.book.resting hmem).1⟩

end Step

section Start

variable {config : OmSlabConfig} {wal : Option OmWalHandle} {maxProducts maxOrg : Nat}
  {ctx : OmOrderbookContext}

theorem omOrderbookInit_ok (h : omOrderbookInit config wal maxProducts maxOrg = (.ok, some ctx)) :
    config.totalSlots ≠ 0 ∧ ctx = freshBook (freshSlab config) wal maxProducts maxOrg := by
  unfold omOrderbookInit at h
  split at h
  next => cases h
  next =>
    by_cases h0 : config.totalSlots = 0
    · simp [omSlabInit, h0] at h
    · rw [(omSlabInit_spec h0).1] at h
      cases h
      exact ⟨h0, rfl⟩

variable (h0 : config.totalSlots ≠ 0)
include h0

theorem bookInv_freshBook :
    BookInv (freshBook (freshSlab config) wal maxProducts maxOrg) (fun _ _ => [])
      (List.range config.totalSlots).reverse where
  sides := fun p b => by cases b <;> exact SideShape.empty _ _
  disjoint := by simp [queueOf]
  freeList := (omSlabInit_spec h0).2.free
  resting := by simp [queueOf]
  entry := by simp [freshBook]

theorem engineInv_start (callbacks : OmEngineCallbacks) :
    EngineInv (.start (freshBook (freshSlab config) wal maxProducts maxOrg) callbacks)
      (fun _ _ => []) (List.range config.totalSlots).reverse :=
  ⟨bookInv_freshBook h0, ⟨List.nodup_nil, by simp [EngineState.start]⟩, trivial⟩

theorem representation_start (callbacks : OmEngineCallbacks) :
    Representation (.start (freshBook (freshSlab config) wal maxProducts maxOrg) callbacks)
      (fun _ _ => []) (List.range config.totalSlots).reverse where
  book := bookInv_freshBook h0
  order := ⟨by simp [queueOf], by simp⟩
  parked := by
    intro x hx hfree
    have hcap := (omSlabInit_spec h0).2.capacity
    exact absurd (by simpa using hcap ▸ hx) hfree

end Start

/-- What holds of a fresh engine and is kept by every effect holds in every state of a run. -/
theorem Reach.effects {K : Kavl} {ok : EngineState → Op → Prop} {config : OmSlabConfig}
    {wal : Option OmWalHandle} {maxProducts maxOrg : Nat} {ctx : OmOrderbookContext}
    {callbacks : OmEngineCallbacks} {s : EngineState} {Q : EngineState → Levels → List Nat → Prop}
    (hinit : omOrderbookInit config wal maxProducts maxOrg = (.ok, some ctx))
    (h : Reach K ok (.start ctx callbacks) s) (hok : ∀ s op, ok s op → OpOk s op)
    (hstart : Q (.start (freshBook (freshSlab config) wal maxProducts maxOrg) callbacks)
      (fun _ _ => []) (List.range config.totalSlots).reverse)
    (hstep : ∀ s op levels free levels' free', ok s op → EngineInv s levels free →
      EngineInv (engineStep K s op) levels' free' →
      Effect K op s levels free (engineStep K s op).call (engineStep K s op).view levels' free' →
      Q s levels free → Q (engineStep K s op) levels' free') :
    ∃ levels free, EngineInv s levels free ∧ Q s levels free := by
  obtain ⟨h0, rfl⟩ := omOrderbookInit_ok hinit
  refine Reach.invariant (P := fun s => ∃ levels free, EngineInv s levels free ∧ Q s levels free)
    K h ⟨_, _, engineInv_start h0 callbacks, hstart⟩ ?_
  rintro s op ⟨levels, free, hinv, hq⟩ hop
  obtain ⟨levels', free', hinv', he⟩ := engineStep_stepped (K := K) hinv (hok s op hop)
  exact ⟨levels', free', hinv', hstep s op _ _ _ _ hop hinv hinv' he hq⟩

/-- In every run whose clients cancel a deactivated order only when at most one order rests at
its price, the book keeps its representation. -/
theorem representation_of_reach {K : Kavl} {config : OmSlabConfig} {wal : Option OmWalHandle}
    {maxProducts maxOrg : Nat} {ctx : OmOrderbookContext} {callbacks : OmEngineCallbacks}
    {s : EngineState} (hinit : omOrderbookInit config wal maxProducts maxOrg = (.ok, some ctx))
    (h : Reach K OpOk (.start ctx callbacks) s) : ∃ levels free, Representation s levels free := by
  have h0 := (omOrderbookInit_ok hinit).1
  obtain ⟨levels, free, -, hrep⟩ := Reach.effects hinit h (fun _ _ hok => hok)
    (representation_start h0 callbacks) fun s op levels free levels' free' _ hinv hinv' he hrep =>
      ⟨hinv'.book, he.inOrder hinv.book hrep.order, he.parkedKnown hinv hrep.parked⟩
  exact ⟨levels, free, hrep⟩

/-- Three slots, one product and one organisation, without callbacks and without a log. -/
def smallConfig : OmSlabConfig := ⟨0, 0, 3, by decide⟩

def noCallbacks : OmEngineCallbacks := ⟨none, none, false, false, false, false, false, false⟩

def smallEngine : EngineState :=
  .start (freshBook (freshSlab smallConfig) none 1 1) noCallbacks

theorem smallEngine_init {wal : Option OmWalHandle} {org : Nat} :
    omOrderbookInit smallConfig wal 1 (org + 1) =
      (.ok, some (freshBook (freshSlab smallConfig) wal 1 (org + 1))) :=
  rfl

def unitOrder (id price : Nat) (isBid : Bool) : Submission where
  order :=
    { price := price, volume := 1, volumeRemain := 1, org := 0
      flags := if isBid then omSideBid else omSideAsk, orderId := id, data := [] }
  aux := []

def loneCancelOps : List Op :=
  [.alloc, .write 2 (unitOrder 1 10 true), .insert 0 2, .deactivate 1,
    .alloc, .write 1 (unitOrder 2 10 true), .insert 0 1, .cancel 1]

theorem representation_of_reach_small :
    omOrderbookInit smallConfig none 1 1 =
      (.ok, some (freshBook (freshSlab smallConfig) none 1 1)) ∧
    Reach plainOps OpOk smallEngine
      (runOps plainOps smallEngine loneCancelOps) ∧
    ∃ levels free,
      Representation (runOps plainOps smallEngine loneCancelOps) levels free := by
  have hreach : Reach plainOps OpOk smallEngine
      (runOps plainOps smallEngine loneCancelOps) :=
    Allowed.reach _ (by decide +kernel) .start
  exact ⟨smallEngine_init, hreach, representation_of_reach smallEngine_init hreach⟩

def deadCancelOps : List Op :=
  [.alloc, .write 2 (unitOrder 1 10 true), .insert 0 2, .deactivate 1,
    .alloc, .write 1 (unitOrder 2 10 true), .insert 0 1,
    .alloc, .write 0 (unitOrder 3 10 true), .insert 0 0, .cancel 1]

theorem SideShape.tail_marked {s : OmDualSlab} {tree : PriceTree} {isBid : Bool}
    {levels : List Level} {head next : Nat} (h : SideShape s (some head) tree isBid levels)
    (hnext : s.next .timeFifo head = some next) : s.prev .timeFifo head ≠ none := by
  cases levels with
  | nil => cases h.head_eq
  | cons l ls =>
    have hl : head = l.head := Option.some.inj h.head_eq
    subst hl
    obtain ⟨hprev, hfirst, -⟩ := h.queues l (by simp)
    rw [hprev, Level.tailMark, ne_eq, back_eq_none_iff]
    rintro hrest
    rw [hrest, hnext] at hfirst
    cases hfirst

/-- The cancel clears the tail mark of a level that the order is not part of. -/
theorem representation_lost :
    omOrderbookInit smallConfig none 1 1 =
      (.ok, some (freshBook (freshSlab smallConfig) none 1 1)) ∧
    Reach plainOps ClientOk smallEngine
      (runOps plainOps smallEngine deadCancelOps) ∧
    ¬ ∃ levels free,
      Representation (runOps plainOps smallEngine deadCancelOps) levels free := by
  refine ⟨rfl, Allowed.reach _ (by decide +kernel) .start, ?_⟩
  rintro ⟨levels, free, hrep⟩
  have hside := hrep.book.sides 0 true
  have hhead : (runOps plainOps smallEngine deadCancelOps).book.head 0 true = some 1 := by
    decide +kernel
  have hnext : (runOps plainOps smallEngine deadCancelOps).book.slab.next .timeFifo 1 =
      some 0 := by decide +kernel
  have hprev : (runOps plainOps smallEngine deadCancelOps).book.slab.prev .timeFifo 1 =
      none := by decide +kernel
  rw [OmOrderbookContext.Side, hhead] at hside
  exact hside.tail_marked hnext hprev

end VeloxMatch
