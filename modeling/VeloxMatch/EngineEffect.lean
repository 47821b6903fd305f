import VeloxMatch.MatchInv

namespace VeloxMatch

open OmOrderbookContext OmWalHandle

variable {r : OmWalHandle → OmWalRecord} {ctx c : OmOrderbookContext} {e e' : OmEngine}

/-- One record more; without a log nothing is written. -/
def Appended (w w' : Option OmWalHandle) (r : OmWalHandle → OmWalRecord) : Prop :=
  (w = none ∧ w' = none) ∨ ∃ h, w = some h ∧ h.accepts h.attempts = true ∧
    w' = some { h with records := h.records ++ [r h], attempts := h.attempts + 1 }

def Unlogged (w w' : Option OmWalHandle) : Prop :=
  w' = w ∨ ∃ h, w = some h ∧ w' = some { h with attempts := h.attempts + 1 }

theorem log_accepted (h : ctx.log (fun w => w.append (r w)) = (true, c)) :
    ∃ w, c = { ctx with wal := w } ∧ Appended ctx.wal w r := by
  unfold log at h
  split at h
  next hw =>
    cases h
    exact ⟨none, by rw [← hw], Or.inl ⟨hw, rfl⟩⟩
  next w hw =>
    by_cases ha : w.accepts w.attempts = true
    · simp only [append, ha, ↓reduceIte, Prod.mk.injEq, true_and] at h
      exact ⟨_, h.symm, Or.inr ⟨w, hw, ha, rfl⟩⟩
    · simp [append, ha] at h

theorem Appended.log {w : Option OmWalHandle} (h : Appended ctx.wal w r) :
    (ctx.log fun w => w.append (r w)).1 = true := by
  unfold OmOrderbookContext.log
  rcases h with ⟨hw, -⟩ | ⟨h, hw, ha, -⟩
  · rw [hw]
  · simp only [hw, append, ha, ↓reduceIte]

theorem log_refused (h : ctx.log (fun w => w.append (r w)) = (false, c)) :
    ∃ w, c = { ctx with wal := w } ∧ Unlogged ctx.wal w := by
  unfold log at h
  split at h
  next => cases h
  next w hw =>
    by_cases ha : w.accepts w.attempts = true
    · simp [append, ha] at h
    · simp only [append, ha, Bool.false_eq_true, ↓reduceIte, Prod.mk.injEq,
        true_and] at h
      exact ⟨_, h.symm, Or.inr ⟨w, hw, rfl⟩⟩

theorem engine_log_accepted (h : e.log (fun w => w.append (r w)) = (true, e')) :
    ∃ w, e' = { e with orderbook := { e.orderbook with wal := w } } ∧
      Appended e.orderbook.wal w r := by
  simp only [OmEngine.log] at h
  cases hlog : e.orderbook.log (fun w => w.append (r w)) with
  | mk ok c =>
    rw [hlog] at h
    cases h
    obtain ⟨w, rfl, happ⟩ := log_accepted hlog
    exact ⟨w, rfl, happ⟩

theorem engine_log_refused (h : e.log (fun w => w.append (r w)) = (false, e')) :
    ∃ w, e' = { e with orderbook := { e.orderbook with wal := w } } ∧
      Unlogged e.orderbook.wal w := by
  simp only [OmEngine.log] at h
  cases hlog : e.orderbook.log (fun w => w.append (r w)) with
  | mk ok c =>
    rw [hlog] at h
    cases h
    obtain ⟨w, rfl, happ⟩ := log_refused hlog
    exact ⟨w, rfl, happ⟩

section Insert

variable {K : Kavl} {ctx ctx' : OmOrderbookContext} {levels : Levels} {free : List Nat} {p x : Nat}

structure Booked (ctx : OmOrderbookContext) (p x : Nat) (w : Option OmWalHandle)
    (ctx' : OmOrderbookContext) : Prop where
  product : p < ctx.maxProducts
  org : (ctx.slab.order x).org < ctx.maxOrg
  id_ne_zero : (ctx.slab.order x).orderId ≠ 0
  fresh : ctx.orderHashmap (ctx.slab.order x).orderId = none
  logged : Appended ctx.wal w (insertRecord ctx.slab x p)
  kept : Kept { ctx with wal := w } ctx' x
  hash : ctx'.orderHashmap =
    Function.update ctx.orderHashmap (ctx.slab.order x).orderId (some ⟨x, p⟩)

/-- The checks of `om_orderbook_insert`, before it appends. -/
def Insertable (ctx : OmOrderbookContext) (p x : Nat) : Prop :=
  p < ctx.maxProducts ∧ (ctx.slab.order x).org < ctx.maxOrg ∧ (ctx.slab.order x).orderId ≠ 0 ∧
    ctx.orderHashmap (ctx.slab.order x).orderId = none

theorem omOrderbookInsert_cases {rc : OmError} (h : omOrderbookInsert K ctx p x = (rc, ctx')) :
    (rc = .ok ∧ Insertable ctx p x ∧ ∃ w,
      ctx.log (fun w => omWalInsert w ctx.slab x p) = (true, { ctx with wal := w }) ∧
      ctx' = linkIntoOrg (linkIntoLevel K (withEntry { ctx with wal := w } p x) p x) p x) ∨
    (rc ≠ .ok ∧ ∃ w, ctx' = { ctx with wal := w } ∧ Unlogged ctx.wal w) := by
  unfold omOrderbookInsert at h
  dsimp only [OmOrderbookContext.order] at h
  split at h
  next =>
    cases h
    exact Or.inr ⟨by simp, ctx.wal, rfl, Or.inl rfl⟩
  next hguard =>
    split at h
    next =>
      cases h
      exact Or.inr ⟨by simp, ctx.wal, rfl, Or.inl rfl⟩
    next hid =>
      split at h
      next c hlog =>
        cases h
        exact Or.inr ⟨by simp, log_refused hlog⟩
      next c hlog =>
        cases h
        obtain ⟨w, rfl⟩ := log_rest hlog
        simp only [not_or, Nat.not_le] at hguard
        exact Or.inl ⟨rfl, ⟨hguard.1, hguard.2.1, hguard.2.2, not_not.mp hid⟩, w, hlog, rfl⟩

theorem omOrderbookInsert_accepted (h : omOrderbookInsert K ctx p x = (.ok, ctx')) :
    Insertable ctx p x ∧ ∃ w,
      ctx.log (fun w => omWalInsert w ctx.slab x p) = (true, { ctx with wal := w }) ∧
      ctx' = linkIntoOrg (linkIntoLevel K (withEntry { ctx with wal := w } p x) p x) p x :=
  ((omOrderbookInsert_cases h).resolve_right fun hfailed => hfailed.1 rfl).2

theorem omOrderbookInsert_booked (h : BookInv ctx levels free) (hx : Spare ctx free x)
    (hact : ¬ Deactivated ctx x) (hins : omOrderbookInsert K ctx p x = (.ok, ctx')) :
    ∃ w, Booked ctx p x w ctx' ∧ BookInv ctx' (levels.place ctx p x) free := by
  obtain ⟨⟨hp, ho, h0, hid⟩, w, hlog, -⟩ := omOrderbookInsert_accepted hins
  obtain ⟨c', hrun, hbook, hkept, -, hhash⟩ := omOrderbookInsert_spec K h hx.unbooked
    hx.not_free hx.lt_capacity hact hp ho h0 hid hlog
  cases hins.symm.trans hrun
  obtain ⟨w, hw, happ⟩ := log_accepted hlog
  rw [hw] at hkept
  exact ⟨w, ⟨hp, ho, h0, hid, happ, hkept, hhash⟩, hbook⟩

theorem omOrderbookInsert_failed {rc : OmError} (hrc : rc ≠ .ok)
    (hins : omOrderbookInsert K ctx p x = (rc, ctx')) :
    ∃ w, ctx' = { ctx with wal := w } ∧ Unlogged ctx.wal w :=
  ((omOrderbookInsert_cases hins).resolve_left fun hok => hrc hok.1).2

end Insert

/-- What is left alone when slot `x` and the entry of `id` go. -/
structure Left (ctx ctx' : OmOrderbookContext) (id x : Nat) : Prop where
  kept : Kept ctx ctx' x
  hash : ctx'.orderHashmap = Function.update ctx.orderHashmap id none

def MatchPc.pending : MatchPc → Option Nat
  | .remove _ _ maker _ _ => some maker
  | _ => none

def Call.pending : Call → Option Nat
  | .matching f _ => f.pc.pending
  | .cancelSide _ => none

/-- The part of a state that the effects of a step are stated about. -/
@[ext]
structure View where
  book : OmOrderbookContext
  callbacks : OmEngineCallbacks
  trace : List LifeEvent
  bookings : List Nat
  held : List Nat
  pending : Option Nat

def EngineState.view (s : EngineState) : View where
  book := s.book
  callbacks := s.engine.callbacks
  trace := s.engine.trace
  bookings := s.engine.bookings
  held := s.held
  pending := s.call.bind Call.pending

def Op.Cancels (op : Op) (id : Nat) : Prop := op = .cancel id ∨ op = .bookCancel id

/-- The organisations known of the levels are as they were, or a traversal by
`om_orderbook_first_other_org` that found no other one has noted the taker's. -/
def Relearned (s : EngineState) (known : Nat → Option Nat) : Prop :=
  known = s.book.knownOrg ∨ ∃ f activating levelPrice nextLevelIdx head,
    s.call = some (.matching f activating) ∧ f.pc = .scan levelPrice nextLevelIdx head none ∧
    known = Function.update s.book.knownOrg head (some (s.book.slab.order f.taker).org)

/-- Everything one operation or one step of a call does to a book with these levels. -/
inductive Effect (K : Kavl) (op : Op) (s : EngineState) (levels : Levels) (free : List Nat)
    (call : Option Call) : View → Levels → List Nat → Prop where
  | quiet (w : Option OmWalHandle) (known : Nat → Option Nat) : Unlogged s.book.wal w →
      Relearned s known → Effect K op s levels free call
        { s.view with book := { s.book with wal := w, knownOrg := known } } levels free
  | alloc {x : Nat} {rest : List Nat} {slab : OmDualSlab} : free = x :: rest →
      AllocSpec s.book.slab x slab → Effect K op s levels free call
        { s.view with
          book := { s.book with slab := slab }
          trace := s.engine.trace ++ [.cleared x]
          held := x :: s.held } levels rest
  | release {x : Nat} : Unbooked s.book x → x ∉ free → x < s.book.slab.capacity →
      Effect K op s levels free call
        { s.view with
          book := { s.book with slab := omSlabFree s.book.slab x }
          held := s.held.erase x } levels (x :: free)
  | write {x : Nat} {order : Submission} : x ∈ s.held → Effect K op s levels free call
      { s.view with book := writeSlot s.book x order, trace := s.engine.trace ++ [.cleared x] }
      levels free
  | submit {p x : Nat} {excludeSameOrg : Bool} : op = .submit p x excludeSameOrg → x ∈ s.held →
      (call = none ∨ ∃ f, call = some (.matching f false) ∧ f.taker = x ∧ f.productId = p ∧
        f.excludeSameOrg = excludeSameOrg) → Effect K op s levels free call
      { s.view with trace := s.engine.trace ++ [.submitted x (s.book.slab.order x).volumeRemain] }
      levels free
  | empty {p maker : Nat} {b : Bool} : maker ∈ queueOf (levels p b) → s.view.pending = none →
      (s.book.slab.order maker).volumeRemain = 0 →
      Effect K op s levels free call { s.view with pending := some maker } levels free
  | note {p maker : Nat} {b : Bool} {w : Option OmWalHandle} : maker ∈ queueOf (levels p b) →
      s.view.pending = none →
      Appended s.book.wal w
        (fun h => .cancel ⟨(s.book.slab.order maker).orderId, h.now, maker, p⟩) →
      Effect K op s levels free call
        { s.view with book := { s.book with wal := w }, pending := some maker } levels free
  | reduce {f : MatchFrame} {activating : Bool} {levelPrice maker qty : Nat}
      {w : Option OmWalHandle} : s.call = some (.matching f activating) →
      maker ∈ queueOf (levels f.productId (!f.takerIsBid)) →
      (s.book.slab.order maker).price = levelPrice → s.view.pending = none → 0 < qty →
      qty ≤ (s.book.slab.order maker).volumeRemain →
      qty ≤ (s.book.slab.order f.taker).volumeRemain →
      Appended s.book.wal w (fun _ => .matched (matchRecord s.engine f levelPrice maker qty)) →
      Effect K op s levels free call
        { s.view with
          book := withVolume (withVolume { s.book with wal := w } maker
            ((s.book.slab.order maker).volumeRemain - qty)) f.taker
            ((s.book.slab.order f.taker).volumeRemain - qty)
          trace := s.engine.trace ++ [.traded maker f.taker qty]
          pending := if (s.book.slab.order maker).volumeRemain = qty then some maker else none }
        levels free
  | remove {f : MatchFrame} {activating : Bool} {p maker : Nat} {b : Bool}
      {ctx : OmOrderbookContext} (both : Bool) : s.call = some (.matching f activating) →
      maker ∈ queueOf (levels p b) → s.view.pending = some maker →
      omOrderbookRemoveSlot K s.book p maker = (true, ctx) →
      Left s.book ctx (s.book.slab.order maker).orderId maker → Effect K op s levels free call
        { s.view with
          book := if both then withVolume ctx f.taker 0 else ctx
          trace := if both then s.engine.trace ++ [.forfeited f.taker] else s.engine.trace
          pending := none } (levels.drop p b maker) (maker :: free)
  | place {p x : Nat} {w : Option OmWalHandle} {ctx : OmOrderbookContext} : Unbooked s.book x →
      x ∉ free → x < s.book.slab.capacity → ¬ Deactivated s.book x →
      ((s.call = none ∧ op = .insert p x) ∨ ∃ f activating,
        s.call = some (.matching f activating) ∧ f.pc = .book ∧ f.productId = p ∧ f.taker = x) →
      omOrderbookInsert K s.book p x = (.ok, ctx) → Booked s.book p x w ctx →
      Effect K op s levels free call
        { s.view with book := ctx, bookings := x :: s.engine.bookings, held := s.held.erase x }
        (levels.place s.book p x) free
  | cancel {p x : Nat} {b : Bool} {w : Option OmWalHandle} {ctx : OmOrderbookContext} :
      x ∈ queueOf (levels p b) → s.view.pending = none →
      Appended s.book.wal w (fun h => .cancel ⟨(s.book.slab.order x).orderId, h.now, x, p⟩) →
      ((s.call = none ∧ op = .cancel (s.book.slab.order x).orderId ∧
          omOrderbookRemoveSlot K { s.book with wal := w } p x = (true, ctx)) ∨
        omOrderbookCancel K s.book (s.book.slab.order x).orderId = (true, ctx)) →
      Left { s.book with wal := w } ctx (s.book.slab.order x).orderId x →
      Effect K op s levels free call { s.view with book := ctx } (levels.drop p b x) (x :: free)
  | park {p x : Nat} {b : Bool} {w : Option OmWalHandle} {ctx : OmOrderbookContext} :
      x ∈ queueOf (levels p b) → s.view.pending = none →
      Appended s.book.wal w (fun h => .deactivate ⟨(s.book.slab.order x).orderId, h.now, x, p⟩) →
      omOrderbookUnlinkSlot K { s.book with wal := w } p x = (true, ctx) →
      Kept { s.book with wal := w } ctx x → ctx.orderHashmap = s.book.orderHashmap →
      Effect K op s levels free call
        { s.view with book := setStatus ctx x omStatusDeactivated } (levels.drop p b x) free
  | unpark {id p x : Nat} {w : Option OmWalHandle} {f : MatchFrame} :
      s.book.orderHashmap id = some ⟨x, p⟩ → Deactivated s.book x → s.view.pending = none →
      Appended s.book.wal w (fun h => .activate ⟨id, h.now, x, p⟩) →
      call = some (.matching f true) → f.taker = x → Effect K op s levels free call
        { s.view with
          book := setStatus (withoutEntry { s.book with wal := w } id) x omStatusNew } levels free
  | unparkUsed {id p x : Nat} (w : Option OmWalHandle) (ctx : OmOrderbookContext) :
      s.book.orderHashmap id = some ⟨x, p⟩ → Deactivated s.book x →
      (s.book.slab.order x).volumeRemain = 0 →
      ctx = setStatus (withoutEntry { s.book with wal := w } id) x omStatusNew →
      Effect K op s levels free call
        { s.view with book := { ctx with slab := omSlabFree ctx.slab x } } levels (x :: free)
  | noteDead {id p x : Nat} {w : Option OmWalHandle} : op.Cancels id →
      s.book.orderHashmap id = some ⟨x, p⟩ → Deactivated s.book x →
      Effect K op s levels free call { s.view with book := { s.book with wal := w } } levels free
  | cancelDead {id p x : Nat} {w : Option OmWalHandle} {ctx : OmOrderbookContext} :
      op.Cancels id → s.book.orderHashmap id = some ⟨x, p⟩ → Deactivated s.book x →
      (omOrderbookRemoveSlot K { s.book with wal := w } p x = (true, ctx) ∨
        omOrderbookCancel K s.book id = (true, ctx)) →
      Left { s.book with wal := w } ctx id x →
      Effect K op s levels free call { s.view with book := ctx } levels (x :: free)

theorem Effect.at {K : Kavl} {op : Op} {s : EngineState} {levels levels' : Levels}
    {free free' : List Nat} {call : Option Call} {v v' : View}
    (h : Effect K op s levels free call v levels' free') (hv : v' = v) :
    Effect K op s levels free call v' levels' free' :=
  hv ▸ h

end VeloxMatch
