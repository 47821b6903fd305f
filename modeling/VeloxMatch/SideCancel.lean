import VeloxMatch.OrgCancel
import VeloxMatch.CancelEffects

namespace VeloxMatch

open SearchTree Level Levels

/-- What the loops over a side work on: how they cancel the order in a slot, and whom they tell. -/
structure Canceller (K : Kavl) (σ : Type) where
  book : σ → OmOrderbookContext
  cancel : σ → Nat → Bool × σ
  told : σ → List OmEvent
  note : σ → OmOrderFields → List OmEvent
  cancel_book : ∀ s x, ((cancel s x).1, book (cancel s x).2) =
    omOrderbookCancel K (book s) ((book s).slab.order x).orderId
  cancel_told : ∀ s x, told (cancel s x).2 = told s ++ note s ((book s).slab.order x)
  note_cancel : ∀ s x, note (cancel s x).2 = note s

namespace Canceller

variable {K : Kavl} {σ : Type} (c : Canceller K σ)

def ordersLoop : Nat → σ → Option Nat → Nat → Option (Nat × σ)
  | 0, _, _, _ => none
  | fuel + 1, s, orderIdx, cancelled =>
    match omSlotFromIdx (c.book s).slab orderIdx with
    | none => some (cancelled, s)
    | some order =>
      let nextOrderIdx := (c.book s).slab.next .timeFifo order
      let r := c.cancel s order
      ordersLoop fuel r.2 nextOrderIdx (if r.1 then cancelled + 1 else cancelled)

def levelsLoop : Nat → σ → Option Nat → Nat → Option (Nat × σ)
  | 0, _, _, _ => none
  | fuel + 1, s, levelIdx, cancelled =>
    match omSlotFromIdx (c.book s).slab levelIdx with
    | none => some (cancelled, s)
    | some level =>
      let nextLevelIdx := (c.book s).slab.next .priceLadder level
      match c.ordersLoop (fuel + 1) s (some level) cancelled with
      | none => none
      | some (cancelled, s) => levelsLoop fuel s nextLevelIdx cancelled

def cancelProductSide (fuel : Nat) (s : σ) (productId : Nat) (isBid : Bool) : Option (Nat × σ) :=
  if (c.book s).maxProducts ≤ productId then some (0, s)
  else c.levelsLoop fuel s ((c.book s).head productId isBid) 0

end Canceller

def bookCanceller (K : Kavl) : Canceller K OmOrderbookContext where
  book := id
  cancel := fun ctx order => omOrderbookCancel K ctx (ctx.order order).orderId
  told := fun _ => []
  note := fun _ _ => []
  cancel_book := fun _ _ => rfl
  cancel_told := fun _ _ => rfl
  note_cancel := fun _ _ => rfl

def engineCanceller (K : Kavl) : Canceller K OmEngine where
  book := OmEngine.orderbook
  cancel := fun e order =>
    let e := e.emit e.callbacks.onCancel (.onCancel (e.order order))
    let r := omOrderbookCancel K e.orderbook (e.order order).orderId
    (r.1, { e with orderbook := r.2 })
  told := OmEngine.events
  note := fun e o => if e.callbacks.onCancel then [.onCancel o] else []
  cancel_book := fun e x => by simp only [orderbook_emit, order_emit]; rfl
  cancel_told := fun e x => by
    cases h : e.callbacks.onCancel <;> simp [OmEngine.emit, OmEngine.order]
  note_cancel := fun e x => by simp only [callbacks_emit]

def omOrderbookCancelProductSide (K : Kavl) (fuel : Nat) (ctx : OmOrderbookContext)
    (productId : Nat) (isBid : Bool) : Option (Nat × OmOrderbookContext) :=
  (bookCanceller K).cancelProductSide fuel ctx productId isBid

def omEngineCancelProductSide (K : Kavl) (fuel : Nat) (e : OmEngine) (productId : Nat)
    (isBid : Bool) : Option (Nat × OmEngine) :=
  (engineCanceller K).cancelProductSide fuel e productId isBid

theorem Levels.set_set (levels : Levels) (p : Nat) (b : Bool) (ls ls' : List Level) :
    (levels.set p b ls).set p b ls' = levels.set p b ls' := by
  funext p' b'
  simp only [set]
  split <;> rfl

variable {levels : Levels} {p : Nat}

theorem Levels.set_same {b : Bool} {ls : List Level}
    (h : levels p b = ls) : levels.set p b ls = levels := by
  funext p' b'
  simp only [set]
  split
  next he => rw [he.1, he.2, h]
  next => rfl

/-- The log after the records of the cancels of these slots, in this order. -/
def cancelsLogged (s : OmDualSlab) (p : Nat) (slots : List Nat) (w : OmWalHandle) : OmWalHandle :=
  slots.foldl (fun w x => cancelLogged w (s.order x).orderId x p) w

theorem book_log_cancel {ctx : OmOrderbookContext} (h : Working ctx.wal) (id x p : Nat) :
    ctx.log (fun w => omWalCancel w id x p) =
      (true, { ctx with wal := ctx.wal.map fun w => cancelLogged w id x p }) := by
  unfold OmOrderbookContext.log
  split
  next hw => rw [hw, Option.map_none, ← hw]
  next w hw =>
    have ha : w.accepts w.attempts = true := h w (by rw [hw]; rfl) _
    simp only [omWalCancel, OmWalHandle.append, ha, ↓reduceIte, hw, Option.map_some, cancelLogged]

theorem Working.cancelLogged {wal : Option OmWalHandle} (h : Working wal) (id x p : Nat) :
    Working (wal.map fun w => cancelLogged w id x p) := by
  intro w' hw' n
  obtain ⟨w, hw, rfl⟩ := Option.map_eq_some_iff.mp hw'
  exact h w hw n

theorem ofSlots_slots_append (l : Level) (ls : List Level) :
    ofSlots l.slots ++ ls = l :: ls := rfl

namespace Canceller

variable {K : Kavl} {σ : Type} {c : Canceller K σ} {s s' s'' : σ} {levels levels' levels'' : Levels}
  {free slots slots' : List Nat} {p x : Nat} {b : Bool} {post : List Level}

/-- The orders of these slots were cancelled, one after the other, and nothing else happened. -/
structure CancelledInOrder (c : Canceller K σ) (p : Nat) (slots : List Nat) (s : σ)
    (levels : Levels) (s' : σ) (levels' : Levels) : Prop where
  told : c.told s' = c.told s ++ slots.flatMap fun x => c.note s ((c.book s).slab.order x)
  note : c.note s' = c.note s
  logged : (c.book s').wal = (c.book s).wal.map (cancelsLogged (c.book s).slab p slots)
  working : Working (c.book s').wal
  without : Without (c.book s) levels slots (c.book s') levels'

theorem CancelledInOrder.refl (hwal : Working (c.book s).wal) :
    CancelledInOrder c p [] s levels s levels where
  told := by simp
  note := rfl
  logged := by
    cases (c.book s).wal <;> rfl
  working := hwal
  without := Without.refl _ _

theorem CancelledInOrder.trans (h : CancelledInOrder c p slots s levels s' levels')
    (h' : CancelledInOrder c p slots' s' levels' s'' levels'') :
    CancelledInOrder c p (slots ++ slots') s levels s'' levels'' where
  told := by
    simp only [h'.told, h.told, h.note, h.without.order, List.flatMap_append, List.append_assoc]
  note := h'.note.trans h.note
  logged := by
    rw [h'.logged, h.logged, Option.map_map]
    congr 1
    funext w
    simp only [Function.comp_apply, cancelsLogged, List.foldl_append, h.without.order]
  working := h'.working
  without := h.without.trans h'.without

variable (h : BookInv (c.book s) levels free) (hwal : Working (c.book s).wal)
include h hwal

theorem cancel_first {rest : List Nat} (hlevels : levels p b = ofSlots (x :: rest) ++ post) :
    (c.cancel s x).1 = true ∧
      BookInv (c.book (c.cancel s x).2) (levels.set p b (ofSlots rest ++ post)) (x :: free) ∧
      CancelledInOrder c p [x] s levels (c.cancel s x).2
        (levels.set p b (ofSlots rest ++ post)) := by
  have hx : x ∈ queueOf (levels p b) := by simp [hlevels]
  have hdrop : levels.drop p b x = levels.set p b (ofSlots rest ++ post) := by
    have hnodup := (h.sides p b).nodup
    rw [hlevels] at hnodup
    have hfirst : dropFrom x (ofSlots (x :: rest) ++ post) = ofSlots rest ++ post :=
      @dropFrom_cursor [] post [] rest x hnodup
    rw [drop, hlevels, hfirst]
  obtain ⟨ctx, hrun, hbook, hkept, hhash⟩ := omOrderbookCancel_spec K h hx
    (book_log_cancel hwal ((c.book s).slab.order x).orderId x p)
  have hstep := (c.cancel_book s x).trans hrun
  have hctx : c.book (c.cancel s x).2 = ctx := congrArg Prod.snd hstep
  have hwithout := without_cancel h hx hkept.order hhash
  rw [hdrop] at hbook hwithout
  refine ⟨congrArg Prod.fst hstep, hctx ▸ hbook, ?_⟩
  exact
    { told := by rw [c.cancel_told]; simp
      note := c.note_cancel s x
      logged := by rw [hctx, hkept.wal]; rfl
      working := by rw [hctx, hkept.wal]; exact hwal.cancelLogged _ _ _
      without := hctx ▸ hwithout }

theorem ordersLoop_spec {todo : List Nat}
    (hlevels : levels p b = ofSlots todo ++ post) (count : Nat) :
    ∃ s' free',
      (∀ fuel, todo.length < fuel →
        c.ordersLoop fuel s (front todo none) count = some (count + todo.length, s')) ∧
      BookInv (c.book s') (levels.set p b post) free' ∧
      CancelledInOrder c p todo s levels s' (levels.set p b post) := by
  induction todo generalizing s levels free count with
  | nil =>
    have hsame : levels.set p b post = levels := set_same hlevels
    rw [hsame]
    refine ⟨s, free, fun fuel hfuel => ?_, h, .refl hwal⟩
    obtain ⟨n, rfl⟩ := Nat.exists_eq_succ_of_ne_zero (Nat.ne_of_gt hfuel)
    rfl
  | cons x rest ih =>
    obtain ⟨hran, hbook, hdone⟩ := cancel_first h hwal hlevels
    obtain ⟨s', free', hloop, hbook', hrest⟩ :=
      ih hbook hdone.working (set_self ..) (count + 1)
    rw [set_set] at hbook' hrest
    refine ⟨s', free', fun fuel hfuel => ?_, hbook', hdone.trans hrest⟩
    have hlt : x < (c.book s).slab.capacity :=
      (h.sides p b).lt_capacity x (by simp [hlevels])
    have hnext : (c.book s).slab.next .timeFifo x = front rest none := by
      have hq := (h.sides p b).queues ⟨x, rest⟩ (by simp [hlevels, ofSlots])
      exact hq.2.1
    cases fuel with
    | zero => cases hfuel
    | succ n =>
      simp only [ordersLoop, front_cons, omSlotFromIdx_some hlt, hran, hnext, ↓reduceIte,
        hloop n (Nat.lt_of_succ_lt_succ hfuel), List.length_cons, Nat.add_assoc, Nat.add_comm 1]

theorem levelsLoop_spec {ls : List Level} (hlevels : levels p b = ls) (count : Nat) :
    ∃ s' free',
      (∀ fuel, (queueOf ls).length < fuel →
        c.levelsLoop fuel s (front (ls.map head) none) count =
          some (count + (queueOf ls).length, s')) ∧
      BookInv (c.book s') (levels.set p b []) free' ∧
      CancelledInOrder c p (queueOf ls) s levels s' (levels.set p b []) := by
  induction ls generalizing s levels free count with
  | nil =>
    rw [set_same hlevels]
    refine ⟨s, free, fun fuel hfuel => ?_, h, .refl hwal⟩
    obtain ⟨n, rfl⟩ := Nat.exists_eq_succ_of_ne_zero (Nat.ne_of_gt hfuel)
    rfl
  | cons l ls ih =>
    obtain ⟨s₁, free₁, horders, hbook₁, hdone⟩ :=
      ordersLoop_spec (p := p) (b := b) h hwal (hlevels.trans (ofSlots_slots_append l ls).symm) count
    obtain ⟨s', free', hloop, hbook', hrest⟩ :=
      ih hbook₁ hdone.working (set_self ..) (count + l.slots.length)
    rw [set_set] at hbook' hrest
    have hqueue : queueOf (l :: ls) = l.slots ++ queueOf ls := rfl
    rw [hqueue]
    refine ⟨s', free', fun fuel hfuel => ?_, hbook', hdone.trans hrest⟩
    have hside := h.sides p b
    rw [hlevels] at hside
    have hlt : l.head < (c.book s).slab.capacity :=
      hside.lt_capacity _ (head_mem_queueOf (by simp))
    have hnext : (c.book s).slab.next .priceLadder l.head = front (ls.map head) none :=
      hside.ladder.2.1
    have hpos : 0 < l.slots.length := by simp [Level.slots]
    rw [List.length_append] at hfuel ⊢
    cases fuel with
    | zero => cases hfuel
    | succ n =>
      have hlevel := horders (n + 1) (by omega)
      rw [Level.slots, front_cons] at hlevel
      simp only [levelsLoop, List.map_cons, front_cons, omSlotFromIdx_some hlt, hnext, hlevel]
      have hrun := hloop n (by omega)
      rw [Nat.add_assoc] at hrun
      exact hrun

end Canceller

/-- One side of a product was emptied, and the rest of the book is as it was. -/
structure SideEmptied (ctx : OmOrderbookContext) (levels : Levels) (p : Nat) (b : Bool)
    (ctx' : OmOrderbookContext) : Prop where
  head : ctx'.head p b = none
  tree : ctx'.priceRoots (priceRoot p b) = .leaf
  order : ∀ i, ctx'.slab.order i = ctx.slab.order i
  hash : ∀ id entry, ctx'.orderHashmap id = some entry ↔
    ctx.orderHashmap id = some entry ∧ entry.slotIdx ∉ queueOf (levels p b)
  logged : ctx'.wal = ctx.wal.map (cancelsLogged ctx.slab p (queueOf (levels p b)))
  levels : ∃ free, BookInv ctx' (levels.set p b []) free

theorem SideShape.nothing {s : OmDualSlab} {head : Option Nat} {tree : PriceTree} {isBid : Bool}
    (h : SideShape s head tree isBid []) : head = none ∧ tree = .leaf := by
  refine ⟨h.head_eq, ?_⟩
  cases tree with
  | leaf => rfl
  | node left key value right =>
    obtain ⟨l, hl, -⟩ := (h.tree_mem key value).mp (by simp [toList])
    cases hl

/-- The side of a product is emptied by either version: they return the number of its orders. -/
theorem Canceller.cancelProductSide_spec {K : Kavl} {σ : Type} (c : Canceller K σ) {s : σ}
    {free : List Nat} (h : BookInv (c.book s) levels free)
    (hp : p < (c.book s).maxProducts) (hwal : Working (c.book s).wal) (b : Bool) :
    ∃ s', (∀ fuel, (queueOf (levels p b)).length < fuel →
        c.cancelProductSide fuel s p b = some ((queueOf (levels p b)).length, s')) ∧
      SideEmptied (c.book s) levels p b (c.book s') ∧
      c.told s' = c.told s ++
        (queueOf (levels p b)).flatMap fun x => c.note s ((c.book s).slab.order x) := by
  obtain ⟨s', free', hloop, hbook, hdone⟩ :=
    levelsLoop_spec (p := p) (b := b) h hwal rfl 0
  have hside := hbook.sides p b
  rw [set_self] at hside
  refine ⟨s', fun fuel hfuel => ?_, ?_, hdone.told⟩
  · rw [cancelProductSide, if_neg (by omega), (h.sides p b).head_eq, hloop fuel hfuel, Nat.zero_add]
  · exact ⟨hside.nothing.1, hside.nothing.2, hdone.without.order, hdone.without.hash, hdone.logged,
      free', hbook⟩

/-- Both versions of the cancel of a side are exact on every book that has its shape. -/
theorem cancel_product_side_exact {K : Kavl} {e : OmEngine} {levels : Levels} {free : List Nat}
    {p : Nat} (h : BookInv e.orderbook levels free) (hp : p < e.orderbook.maxProducts)
    (hwal : Working e.orderbook.wal) (b : Bool) :
    (∃ ctx', (∀ fuel, (queueOf (levels p b)).length < fuel →
        omOrderbookCancelProductSide K fuel e.orderbook p b =
          some ((queueOf (levels p b)).length, ctx')) ∧
      SideEmptied e.orderbook levels p b ctx') ∧
    ∃ e', (∀ fuel, (queueOf (levels p b)).length < fuel →
        omEngineCancelProductSide K fuel e p b = some ((queueOf (levels p b)).length, e')) ∧
      SideEmptied e.orderbook levels p b e'.orderbook ∧
      e'.events = e.events ++ if e.callbacks.onCancel then
        (queueOf (levels p b)).map fun x => .onCancel (e.order x) else [] := by
  obtain ⟨ctx', hrun, hempty, -⟩ := (bookCanceller K).cancelProductSide_spec h hp hwal b
  obtain ⟨e', hrun', hempty', htold⟩ :=
    (engineCanceller K).cancelProductSide_spec (s := e) h hp hwal b
  refine ⟨⟨ctx', hrun, hempty⟩, e', hrun', hempty', htold.trans ?_⟩
  simp only [engineCanceller]
  cases e.callbacks.onCancel with
  | false => simp
  | true => exact congrArg _ List.map_eq_flatMap.symm

def threeBidsOps : List Op :=
  [.alloc, .write 2 (unitOrder 1 10 true), .insert 0 2,
    .alloc, .write 1 (unitOrder 2 11 true), .insert 0 1,
    .alloc, .write 0 (unitOrder 3 10 true), .insert 0 0]

theorem cancel_product_side_exact_small :
    ∃ levels free,
      BookInv (runOps plainOps loggedEngine threeBidsOps).book levels free ∧
      (∃ ctx', (∀ fuel, (queueOf (levels 0 true)).length < fuel →
          omOrderbookCancelProductSide plainOps fuel
            (runOps plainOps loggedEngine threeBidsOps).book 0 true =
              some ((queueOf (levels 0 true)).length, ctx')) ∧
        SideEmptied (runOps plainOps loggedEngine threeBidsOps).book levels 0 true ctx') ∧
      (omEngineCancelProductSide plainOps 4
        (runOps plainOps loggedEngine threeBidsOps).engine 0 true).map Prod.fst =
          some 3 := by
  have hreach : Reach plainOps OpOk loggedEngine
      (runOps plainOps loggedEngine threeBidsOps) :=
    Allowed.reach _ (by decide +kernel) .start
  obtain ⟨levels, free, hinv⟩ := hreach.engineInv smallEngine_init fun _ _ hok => hok
  have haccepts : (runOps plainOps loggedEngine threeBidsOps).book.wal.map
      OmWalHandle.accepts = some fun _ => true := rfl
  have hwal : Working (runOps plainOps loggedEngine threeBidsOps).book.wal := by
    intro w hw n
    rw [Option.mem_def.mp hw] at haccepts
    rw [Option.some.inj haccepts]
  exact ⟨levels, free, hinv.book,
    (cancel_product_side_exact hinv.book (by decide +kernel) hwal true).1, by decide +kernel⟩

open EngineState List

section Ticks

variable {K : Kavl} {e e' : OmEngine} {s : EngineState} {f : SideFrame} {fuel count count' : Nat}

theorem runOps_ticks {n m : Nat} :
    runOps K s (replicate (n + m) .tick) =
      runOps K (runOps K s (replicate n .tick)) (replicate m .tick) := by
  induction n generalizing s with
  | zero => rw [Nat.zero_add]; rfl
  | succ n ih =>
    rw [Nat.succ_add]
    exact ih

variable {idx : Option Nat}

theorem ordersLoop_ticks (nextLevelIdx : Option Nat)
    (h : (engineCanceller K).ordersLoop fuel e idx count = some (count', e')) :
    ∃ n, runOps K
        { s with
          engine := e
          call := some (.cancelSide { f with cancelled := count, pc := .orders nextLevelIdx idx }) }
        (replicate n .tick) =
      { s with
        engine := e'
        call := some (.cancelSide { f with cancelled := count', pc := .levels nextLevelIdx }) } := by
  induction fuel generalizing e idx count with
  | zero => cases h
  | succ fuel ih =>
    simp only [Canceller.ordersLoop] at h
    split at h
    next hslot =>
      cases h
      refine ⟨1, ?_⟩
      have hslot' : omSlotFromIdx e'.orderbook.slab idx = none := hslot
      simp only [replicate, runOps, engineStep, tickSide, book, hslot']
    next order hslot =>
      have hslot' : omSlotFromIdx e.orderbook.slab idx = some order := hslot
      obtain ⟨n, hn⟩ := ih h
      refine ⟨n + 1, ?_⟩
      simp only [replicate, runOps, engineStep, tickSide, book, hslot']
      exact hn

theorem levelsLoop_ticks (hf : f.thenAsks = false)
    (h : (engineCanceller K).levelsLoop fuel e idx count = some (count', e')) :
    ∃ n, runOps K
        { s with
          engine := e
          call := some (.cancelSide { f with cancelled := count, pc := .levels idx }) }
        (replicate n .tick) = { s with engine := e', call := none } := by
  induction fuel generalizing e idx count with
  | zero => cases h
  | succ fuel ih =>
    simp only [Canceller.levelsLoop] at h
    split at h
    next hslot =>
      cases h
      refine ⟨1, ?_⟩
      have hslot' : omSlotFromIdx e'.orderbook.slab idx = none := hslot
      simp only [replicate, runOps, engineStep, tickSide, book, hslot', hf,
        Bool.false_eq_true, ↓reduceIte]
    next level hslot =>
      have hslot' : omSlotFromIdx e.orderbook.slab idx = some level := hslot
      split at h
      next => cases h
      next count₁ e₁ horders =>
        obtain ⟨n, hn⟩ := ordersLoop_ticks (s := s) (f := f)
          (e.orderbook.slab.next .priceLadder level) horders
        obtain ⟨m, hm⟩ := ih h
        refine ⟨1 + (n + m), ?_⟩
        rw [runOps_ticks, runOps_ticks]
        simp only [replicate, runOps, engineStep, tickSide, book, hslot']
        rw [hn]
        exact hm

theorem omEngineCancelProductSide_ticks {p : Nat} {b : Bool} (hcall : s.call = none)
    (h : omEngineCancelProductSide K fuel s.engine p b = some (count, e')) :
    ∃ n, runOps K s (.cancelProductSide p b :: replicate n .tick) =
      { s with engine := e', call := none } := by
  unfold omEngineCancelProductSide Canceller.cancelProductSide at h
  by_cases hp : s.engine.orderbook.maxProducts ≤ p
  · cases (if_pos hp).symm.trans h
    refine ⟨0, ?_⟩
    simp only [replicate, runOps, engineStep, hcall, book, hp, ↓reduceIte]
    rw [← hcall]
  · obtain ⟨n, hn⟩ := levelsLoop_ticks (s := s) (f := ⟨p, b, false, 0, .levels none⟩) rfl
      ((if_neg hp).symm.trans h)
    refine ⟨n, ?_⟩
    simp only [runOps, engineStep, hcall, book, hp, ↓reduceIte, startSide]
    exact hn

end Ticks

end VeloxMatch
