import VeloxMatch.Engine

namespace VeloxMatch

/-- Where `om_engine_cancel_product_side` stands: at the head of the loop over levels or of
the loop over the orders of one level. -/
inductive SidePc where
  | levels (levelIdx : Option Nat)
  | orders (nextLevelIdx orderIdx : Option Nat)
  deriving DecidableEq, Repr

/-- `thenAsks` is set while `om_engine_cancel_product` works on the bids. -/
structure SideFrame where
  productId : Nat
  isBid : Bool
  thenAsks : Bool
  cancelled : Nat
  pc : SidePc
  deriving DecidableEq, Repr

inductive Call where
  | matching (frame : MatchFrame) (activating : Bool)
  | cancelSide (frame : SideFrame)
  deriving DecidableEq, Repr

/-- `held` are the slots the client has taken from the slab and that no order entry names. -/
structure EngineState where
  engine : OmEngine
  held : List Nat
  call : Option Call

/-- What a client writes into a slot before it hands it over. -/
structure Submission where
  order : OmOrderFields
  aux : List UInt8
  deriving DecidableEq, Repr

inductive Op where
  | alloc
  | release (slot : Nat)
  | write (slot : Nat) (order : Submission)
  | submit (productId slot : Nat) (excludeSameOrg : Bool)
  | insert (productId slot : Nat)
  | cancel (orderId : Nat)
  | bookCancel (orderId : Nat)
  | deactivate (orderId : Nat)
  | activate (orderId : Nat)
  | cancelProductSide (productId : Nat) (isBid : Bool)
  | cancelProduct (productId : Nat)
  | tick
  deriving DecidableEq, Repr

namespace EngineState

def start (ctx : OmOrderbookContext) (callbacks : OmEngineCallbacks) : EngineState where
  engine := ⟨ctx, callbacks, [], [], []⟩
  held := []
  call := none

def book (s : EngineState) : OmOrderbookContext := s.engine.orderbook

def note (s : EngineState) (event : LifeEvent) : EngineState :=
  { s with engine := { s.engine with trace := s.engine.trace ++ [event] } }

def setBook (s : EngineState) (ctx : OmOrderbookContext) : EngineState :=
  { s with engine := { s.engine with orderbook := ctx } }

end EngineState

def writeSlot (ctx : OmOrderbookContext) (slot : Nat) (order : Submission) : OmOrderbookContext :=
  { ctx with slab := (ctx.slab.setOrder slot order.order).setAux slot order.aux }

/-- The end of a call that was matching: `om_engine_activate` frees a taker that is used up. -/
def finishMatch (s : EngineState) (f : MatchFrame) (activating : Bool) (rc : OmError) :
    EngineState :=
  let s := { s with call := none }
  if activating = true ∧ rc = .ok ∧ (s.engine.order f.taker).volumeRemain = 0 then
    s.setBook { s.book with slab := omSlabFree s.book.slab f.taker }
  else s

def handOver (s : EngineState) (f : MatchFrame) (rc : OmError) : EngineState :=
  if rc = .ok ∧ f.pc = .book ∧
      s.book.orderHashmap (s.engine.order f.taker).orderId = some ⟨f.taker, f.productId⟩ then
    { s with held := s.held.erase f.taker }
  else s

def afterMatch (s : EngineState) (f : MatchFrame) (activating : Bool) : MatchNext → EngineState
  | .running f' => { s with call := some (.matching f' activating) }
  | .returned rc => finishMatch (handOver s f rc) f activating rc

section Ops

variable (K : Kavl)

variable (s : EngineState)

def tickMatch (f : MatchFrame) (activating : Bool) : EngineState :=
  let r := matchStep K s.engine f
  afterMatch { s with engine := r.1 } f activating r.2

def startSide (productId : Nat) (isBid thenAsks : Bool) (cancelled : Nat) : EngineState :=
  { s with call := some (.cancelSide
      { productId := productId
        isBid := isBid
        thenAsks := thenAsks
        cancelled := cancelled
        pc := .levels (s.book.head productId isBid) }) }

def tickSide (f : SideFrame) : EngineState :=
  match f.pc with
  | .levels levelIdx =>
    match omSlotFromIdx s.book.slab levelIdx with
    | none =>
      if f.thenAsks then startSide s f.productId false false f.cancelled
      else { s with call := none }
    | some level =>
      let pc := SidePc.orders (s.book.slab.next .priceLadder level) (some level)
      { s with call := some (.cancelSide { f with pc := pc }) }
  | .orders nextLevelIdx orderIdx =>
    match omSlotFromIdx s.book.slab orderIdx with
    | none => { s with call := some (.cancelSide { f with pc := .levels nextLevelIdx }) }
    | some order =>
      let nextOrderIdx := s.book.slab.next .timeFifo order
      let e := s.engine.emit s.engine.callbacks.onCancel (.onCancel (s.engine.order order))
      let r := omOrderbookCancel K e.orderbook (e.order order).orderId
      let f := { f with
        cancelled := if r.1 then f.cancelled + 1 else f.cancelled
        pc := .orders nextLevelIdx nextOrderIdx }
      { s with engine := { e with orderbook := r.2 }, call := some (.cancelSide f) }

def omEngineCancel (e : OmEngine) (orderId : Nat) : Bool × OmEngine :=
  match e.orderbook.orderHashmap orderId with
  | none => (false, e)
  | some entry =>
    match omSlotFromIdx e.slab (some entry.slotIdx) with
    | none => (false, e)
    | some order =>
      match e.log (fun w => omWalCancel w orderId entry.slotIdx entry.productId) with
      | (false, e) => (false, e)
      | (true, e) =>
        let e := e.emit e.callbacks.onCancel (.onCancel (e.order order))
        let r := omOrderbookRemoveSlot K e.orderbook entry.productId order
        (r.1, { e with orderbook := r.2 })

def omEngineDeactivate (e : OmEngine) (orderId : Nat) : Bool × OmEngine :=
  match e.orderbook.orderHashmap orderId with
  | none => (false, e)
  | some entry =>
    match omSlotFromIdx e.slab (some entry.slotIdx) with
    | none => (false, e)
    | some order =>
      if omGetStatus (e.order order).flags = omStatusDeactivated then (false, e)
      else
        match e.log (fun w => omWalDeactivate w orderId entry.slotIdx entry.productId) with
        | (false, e) => (false, e)
        | (true, e) =>
          match omOrderbookUnlinkSlot K e.orderbook entry.productId order with
          | (false, ctx) => (false, { e with orderbook := ctx })
          | (true, ctx) => (true, { e with orderbook := setStatus ctx order omStatusDeactivated })

/-- The part of `om_engine_activate` before it matches: the product and the slot to match. -/
def activatePrepare (e : OmEngine) (orderId : Nat) : Option (Nat × Nat) × OmEngine :=
  match e.orderbook.orderHashmap orderId with
  | none => (none, e)
  | some entry =>
    match omSlotFromIdx e.slab (some entry.slotIdx) with
    | none => (none, e)
    | some order =>
      if omGetStatus (e.order order).flags ≠ omStatusDeactivated then (none, e)
      else
        match e.log (fun w => omWalActivate w orderId entry.slotIdx entry.productId) with
        | (false, e) => (none, e)
        | (true, e) =>
          (some (entry.productId, order),
            { e with orderbook := setStatus (withoutEntry e.orderbook orderId) order omStatusNew })

def startMatch (productId slot : Nat) (excludeSameOrg activating : Bool) : EngineState :=
  match matchStart s.engine productId slot excludeSameOrg with
  | .running f => { s with call := some (.matching f activating) }
  | .returned _ =>
    -- a taker without volume: `om_engine_activate` frees it
    if activating then s.setBook { s.book with slab := omSlabFree s.book.slab slot } else s

/-- Calls do not overlap: while one is in progress only its next step is taken. -/
def engineStep (op : Op) : EngineState :=
  match s.call, op with
  | some (.matching f activating), .tick => tickMatch K s f activating
  | some (.cancelSide f), .tick => tickSide K s f
  | some _, _ => s
  | none, .tick => s
  | none, .alloc =>
    match omSlabAlloc s.book.slab with
    | (none, _) => s
    | (some slot, slab) =>
      { (s.setBook { s.book with slab := slab }).note (.cleared slot) with held := slot :: s.held }
  | none, .release slot =>
    if slot ∈ s.held then
      { s.setBook { s.book with slab := omSlabFree s.book.slab slot } with
        held := s.held.erase slot }
    else s
  | none, .write slot order =>
    if slot ∈ s.held then (s.setBook (writeSlot s.book slot order)).note (.cleared slot) else s
  | none, .submit productId slot excludeSameOrg =>
    if slot ∈ s.held then
      let s := s.note (.submitted slot (s.engine.order slot).volumeRemain)
      startMatch s productId slot excludeSameOrg false
    else s
  | none, .insert productId slot =>
    if slot ∈ s.held then
      match omOrderbookInsert K s.book productId slot with
      | (.ok, ctx) =>
        let e := { s.engine with orderbook := ctx, bookings := slot :: s.engine.bookings }
        { s with engine := e, held := s.held.erase slot }
      | (_, ctx) => s.setBook ctx
    else s
  | none, .cancel orderId => { s with engine := (omEngineCancel K s.engine orderId).2 }
  | none, .bookCancel orderId => s.setBook (omOrderbookCancel K s.book orderId).2
  | none, .deactivate orderId => { s with engine := (omEngineDeactivate K s.engine orderId).2 }
  | none, .activate orderId =>
    match activatePrepare s.engine orderId with
    | (none, e) => { s with engine := e }
    | (some (productId, slot), e) => startMatch { s with engine := e } productId slot false true
  | none, .cancelProductSide productId isBid =>
    if s.book.maxProducts ≤ productId then s else startSide s productId isBid false 0
  | none, .cancelProduct productId =>
    if s.book.maxProducts ≤ productId then s else startSide s productId true true 0

/-- The states a run reaches when every operation meets `ok` in the state it is taken in. -/
inductive Reach (ok : EngineState → Op → Prop) (start : EngineState) : EngineState → Prop where
  | start : Reach ok start start
  | step {s : EngineState} (op : Op) : Reach ok start s → ok s op → Reach ok start (engineStep K s op)

def runOps : EngineState → List Op → EngineState
  | s, [] => s
  | s, op :: ops => runOps (engineStep K s op) ops

def Allowed (ok : EngineState → Op → Prop) : EngineState → List Op → Prop
  | _, [] => True
  | s, op :: ops => ok s op ∧ Allowed ok (engineStep K s op) ops

instance decidableAllowed (ok : EngineState → Op → Prop) [∀ s op, Decidable (ok s op)] :
    (s : EngineState) → (ops : List Op) → Decidable (Allowed K ok s ops)
  | _, [] => inferInstanceAs (Decidable True)
  | s, op :: ops =>
    have := decidableAllowed ok (engineStep K s op) ops
    inferInstanceAs (Decidable (ok s op ∧ Allowed K ok (engineStep K s op) ops))

theorem Allowed.reach {ok : EngineState → Op → Prop} {start s : EngineState} {ops : List Op}
    (h : Allowed K ok s ops) (hs : Reach K ok start s) : Reach K ok start (runOps K s ops) := by
  induction ops generalizing s with
  | nil => exact hs
  | cons op ops ih => exact ih h.2 (hs.step op h.1)

/-- What holds at the start and is kept by every allowed operation holds in every state. -/
theorem Reach.invariant {ok : EngineState → Op → Prop} {start s : EngineState}
    {P : EngineState → Prop} (h : Reach K ok start s) (hstart : P start)
    (hstep : ∀ s op, P s → ok s op → P (engineStep K s op)) : P s := by
  induction h with
  | start => exact hstart
  | step op _ hok ih => exact hstep _ op ih hok

end Ops

end VeloxMatch
