import VeloxMatch.MatchTurn

namespace VeloxMatch

open OmOrderbookContext

/-- Two books that differ at most in the organisations known of the levels. -/
def SameButKnown (ctx ctx' : OmOrderbookContext) : Prop :=
  ctx' = { ctx with knownOrg := ctx'.knownOrg }

section Book

variable {ctx ctx' : OmOrderbookContext} {K : Kavl} {p x : Nat} {isBid : Bool}

theorem sameButKnown_iff : SameButKnown ctx ctx' ↔ ∃ known, ctx' = { ctx with knownOrg := known } :=
  ⟨fun h => ⟨_, h⟩, fun ⟨_, h⟩ => by rw [h]; rfl⟩

theorem findPriceLevel_known (ctx : OmOrderbookContext) (known : Nat → Option Nat) :
    findPriceLevelWithInsertionPoint { ctx with knownOrg := known } =
      findPriceLevelWithInsertionPoint ctx :=
  rfl

variable (h : SameButKnown ctx ctx')
include h

theorem SameButKnown.log (append : OmWalHandle → Bool × OmWalHandle) :
    (ctx'.log append).1 = (ctx.log append).1 ∧
      SameButKnown (ctx.log append).2 (ctx'.log append).2 := by
  obtain ⟨known, rfl⟩ := sameButKnown_iff.mp h
  unfold log
  dsimp only
  split <;> exact ⟨rfl, rfl⟩

theorem SameButKnown.head : ctx'.head p isBid = ctx.head p isBid := by
  rw [h]
  rfl

theorem SameButKnown.removePriceLevel (level : Nat) :
    SameButKnown (removePriceLevel K ctx p level isBid) (removePriceLevel K ctx' p level isBid) := by
  have hhead : ctx'.head p isBid = ctx.head p isBid := h.head
  obtain ⟨known, rfl⟩ := sameButKnown_iff.mp h
  simp only [VeloxMatch.removePriceLevel, SameButKnown, hhead]
  split <;> rfl

theorem SameButKnown.promoteNext (level next : Nat) :
    SameButKnown (promoteNext K ctx p isBid level next) (promoteNext K ctx' p isBid level next) := by
  have hhead : (pricePromote K ctx' p isBid level next).head p isBid =
      (pricePromote K ctx p isBid level next).head p isBid := h.head
  obtain ⟨known, rfl⟩ := sameButKnown_iff.mp h
  simp only [VeloxMatch.promoteNext, SameButKnown, hhead]
  split <;> rfl

theorem SameButKnown.unlinkFromLevel :
    Option.Rel SameButKnown (unlinkFromLevel K ctx p x) (unlinkFromLevel K ctx' p x) := by
  obtain ⟨known, rfl⟩ := sameButKnown_iff.mp h
  unfold VeloxMatch.unlinkFromLevel
  dsimp only [order]
  rw [findPriceLevel_known ctx known]
  cases (findPriceLevelWithInsertionPoint ctx p (ctx.slab.order x).price
      (omIsBid (ctx.slab.order x).flags)).1 with
  | none => exact .none
  | some head =>
    dsimp only
    split
    next =>
      cases ctx.slab.next .timeFifo x with
      | none => exact .some (h.removePriceLevel head)
      | some next => exact .some (h.promoteNext head next)
    next => exact .some rfl

theorem SameButKnown.removeSlot :
    SameButKnown (omOrderbookRemoveSlot K ctx p x).2 (omOrderbookRemoveSlot K ctx' p x).2 := by
  have hrel := h.unlinkFromLevel (K := K) (p := p) (x := x)
  unfold omOrderbookRemoveSlot
  generalize VeloxMatch.unlinkFromLevel K ctx p x = c at hrel
  generalize VeloxMatch.unlinkFromLevel K ctx' p x = c' at hrel
  cases hrel with
  | none => exact h
  | some hc =>
    obtain ⟨known, rfl⟩ := sameButKnown_iff.mp hc
    rfl

theorem SameButKnown.insertOrderAt (after : Option Nat) :
    SameButKnown (insertOrderAt ctx p isBid x after) (insertOrderAt ctx' p isBid x after) := by
  have hhead : ctx'.head p isBid = ctx.head p isBid := h.head
  obtain ⟨known, rfl⟩ := sameButKnown_iff.mp h
  unfold VeloxMatch.insertOrderAt
  rw [hhead]
  cases after with
  | none => cases ctx.head p isBid <;> rfl
  | some after => rfl

theorem SameButKnown.forget {c c' : Prop} [Decidable c] [Decidable c']
    (known known' : Nat → Option Nat) :
    SameButKnown (if c then { ctx with knownOrg := known } else ctx)
      (if c' then { ctx' with knownOrg := known' } else ctx') := by
  obtain ⟨k, rfl⟩ := sameButKnown_iff.mp h
  by_cases hc : c <;> by_cases hc' : c' <;> simp only [hc, hc', ↓reduceIte] <;> rfl

theorem SameButKnown.linkIntoLevel :
    SameButKnown (linkIntoLevel K ctx p x) (linkIntoLevel K ctx' p x) := by
  have hnew : ∀ after, SameButKnown
      (VeloxMatch.insertOrderAt ctx p (omIsBid (ctx.slab.order x).flags) x after)
      (VeloxMatch.insertOrderAt ctx' p (omIsBid (ctx.slab.order x).flags) x after) :=
    h.insertOrderAt
  obtain ⟨known, rfl⟩ := sameButKnown_iff.mp h
  unfold VeloxMatch.linkIntoLevel
  dsimp only [order]
  rw [findPriceLevel_known ctx known]
  cases findPriceLevelWithInsertionPoint ctx p (ctx.slab.order x).price
      (omIsBid (ctx.slab.order x).flags) with
  | mk level after =>
    cases level with
    | none =>
      obtain ⟨known', hknown⟩ := sameButKnown_iff.mp (hnew after)
      dsimp only
      rw [hknown]
      rfl
    | some head =>
      have happ : SameButKnown (appendToTimeQueue ctx head x)
          (appendToTimeQueue { ctx with knownOrg := known } head x) := rfl
      exact happ.forget _ _

theorem SameButKnown.linkIntoOrg : SameButKnown (linkIntoOrg ctx p x) (linkIntoOrg ctx' p x) := by
  obtain ⟨known, rfl⟩ := sameButKnown_iff.mp h
  by_cases hin : p < ctx.maxProducts ∧ (ctx.order x).org < ctx.maxOrg
  · have hin' : p < ctx.maxProducts ∧
        (order { ctx with knownOrg := known } x).org < ctx.maxOrg := hin
    simp only [VeloxMatch.linkIntoOrg, if_pos hin, if_pos hin']
    rfl
  · have hin' : ¬ (p < ctx.maxProducts ∧
        (order { ctx with knownOrg := known } x).org < ctx.maxOrg) := hin
    simp only [VeloxMatch.linkIntoOrg, if_neg hin, if_neg hin']
    rfl

theorem SameButKnown.insert :
    (omOrderbookInsert K ctx' p x).1 = (omOrderbookInsert K ctx p x).1 ∧
      SameButKnown (omOrderbookInsert K ctx p x).2 (omOrderbookInsert K ctx' p x).2 := by
  obtain ⟨known, rfl⟩ := sameButKnown_iff.mp h
  obtain ⟨hok, hlog⟩ := h.log fun w => omWalInsert w ctx.slab x p
  unfold omOrderbookInsert
  dsimp only [order]
  split
  next => exact ⟨rfl, rfl⟩
  next =>
    split
    next => exact ⟨rfl, rfl⟩
    next =>
      generalize ctx.log _ = r at hok hlog ⊢
      generalize OmOrderbookContext.log { ctx with knownOrg := known } _ = r' at hok hlog ⊢
      obtain ⟨ok, c⟩ := r
      obtain ⟨ok', c'⟩ := r'
      obtain rfl : ok' = ok := hok
      obtain ⟨known', rfl⟩ := sameButKnown_iff.mp hlog
      cases ok' with
      | false => exact ⟨rfl, hlog⟩
      | true =>
        refine ⟨rfl, SameButKnown.linkIntoOrg (SameButKnown.linkIntoLevel ?_)⟩
        rfl

theorem SameButKnown.withVolume (i volume : Nat) :
    SameButKnown (withVolume ctx i volume) (withVolume ctx' i volume) := by
  obtain ⟨known, rfl⟩ := sameButKnown_iff.mp h
  rfl

end Book

open OmEngineCallbacks OmEvent

def unlimited : UInt64 := 0xFFFFFFFFFFFFFFFF

variable (callbacks : OmEngineCallbacks)

/-- The call reaches the user: a filter has kept the other calls of `can_match` to itself. -/
def OmEngineCallbacks.hears : OmEvent → Bool
  | .canMatch maker taker _ => callbacks.canMatch.isSome && decide (maker.org ≠ taker.org)
  | _ => true

/-- What the user has heard of when the filter came in after `base` calls. -/
def OmEngineCallbacks.heard (base : Nat) (events : List OmEvent) : List OmEvent :=
  events.take base ++ (events.drop base).filter callbacks.hears

/-- A `can_match` that answers 0 for makers of the taker's organisation and asks the user about
the others. -/
def OmEngineCallbacks.filter (base : Nat) (events : List OmEvent)
    (maker taker : OmOrderFields) : UInt64 :=
  if maker.org = taker.org then 0
  else
    match callbacks.canMatch with
    | some canMatch => canMatch (callbacks.heard base events) maker taker
    | none => unlimited

def OmEngineCallbacks.filtering (base : Nat) : OmEngineCallbacks where
  canMatch := some (callbacks.filter base)
  preBooked := callbacks.preBooked.map fun preBooked events => preBooked (callbacks.heard base events)
  onMatch := callbacks.onMatch
  onDeal := callbacks.onDeal
  onFilled := callbacks.onFilled
  onBooked := callbacks.onBooked
  onCancel := callbacks.onCancel
  onDecrementCancel := callbacks.onDecrementCancel

/-- The second engine has the first one's user behind the filter, and is the same up to the
organisations known of the levels. -/
structure Mirrors (callbacks : OmEngineCallbacks) (base : Nat) (e e' : OmEngine) : Prop where
  user : e.callbacks = callbacks
  filter : e'.callbacks = callbacks.filtering base
  base_le : base ≤ e'.events.length
  events : e.events = callbacks.heard base e'.events
  book : SameButKnown e.orderbook e'.orderbook
  trace : e'.trace = e.trace
  bookings : e'.bookings = e.bookings

def MatchFrame.plain (f : MatchFrame) : MatchFrame := { f with excludeSameOrg := false }

@[simp] theorem MatchFrame.taker_plain (f : MatchFrame) : f.plain.taker = f.taker := rfl

def MatchNext.plain : MatchNext → MatchNext
  | .running f => .running f.plain
  | .returned rc => .returned rc

structure StepMirrors (callbacks : OmEngineCallbacks) (base : Nat) (r r' : OmEngine × MatchNext) :
    Prop where
  engine : Mirrors callbacks base r.1 r'.1
  next : r'.2 = r.2.plain

section Mirror

variable {callbacks : OmEngineCallbacks} {base : Nat} {e e' : OmEngine} {f : MatchFrame}
  {levelPrice maker qty : Nat} {nextLevelIdx nextMakerIdx idx : Option Nat} {event : OmEvent}
  {K : Kavl}

theorem heard_append {events : List OmEvent} (h : base ≤ events.length) (event : OmEvent) :
    callbacks.heard base (events ++ [event]) =
      callbacks.heard base events ++ if callbacks.hears event then [event] else [] := by
  rw [heard, heard, List.take_append_of_le_length h,
    List.drop_append_of_le_length h, List.filter_append, List.append_assoc, List.filter_singleton]
  cases callbacks.hears event <;> rfl

section Reads

variable (h : Mirrors callbacks base e e')
include h

theorem Mirrors.slab : e'.slab = e.slab := by
  rw [OmEngine.slab, h.book]
  rfl

theorem Mirrors.order (i : Nat) : e'.order i = e.order i := by
  rw [OmEngine.order, h.book]
  rfl

theorem Mirrors.emit (registered : Bool) (hevent : callbacks.hears event = true) :
    Mirrors callbacks base (e.emit registered event) (e'.emit registered event) := by
  cases registered with
  | false => exact h
  | true =>
    refine ⟨h.user, h.filter, h.base_le.trans (by simp [OmEngine.emit]), ?_, h.book, h.trace,
      h.bookings⟩
    simp only [OmEngine.emit, ↓reduceIte, h.events]
    rw [heard_append h.base_le, if_pos hevent]

theorem Mirrors.hide (hevent : callbacks.hears event = false) :
    Mirrors callbacks base e (e'.emit true event) := by
  refine ⟨h.user, h.filter, h.base_le.trans (by simp [OmEngine.emit]), ?_, h.book, h.trace,
    h.bookings⟩
  simp only [OmEngine.emit, ↓reduceIte, h.events]
  rw [heard_append h.base_le, hevent]
  simp

theorem Mirrors.setBook {c c' : OmOrderbookContext} (hc : SameButKnown c c') :
    Mirrors callbacks base { e with orderbook := c } { e' with orderbook := c' } :=
  ⟨h.user, h.filter, h.base_le, h.events, hc, h.trace, h.bookings⟩

theorem Mirrors.log (append : OmWalHandle → Bool × OmWalHandle) :
    (e'.log append).1 = (e.log append).1 ∧
      Mirrors callbacks base (e.log append).2 (e'.log append).2 :=
  ⟨(h.book.log append).1, h.setBook (h.book.log append).2⟩

theorem Mirrors.setVolumeRemain (i volume : Nat) :
    Mirrors callbacks base (e.setVolumeRemain i volume) (e'.setVolumeRemain i volume) :=
  h.setBook (h.book.withVolume i volume)

theorem Mirrors.reduceBoth :
    Mirrors callbacks base (reduceBoth e f maker qty).1 (reduceBoth e' f.plain maker qty).1 ∧
      (VeloxMatch.reduceBoth e' f.plain maker qty).2 = (VeloxMatch.reduceBoth e f maker qty).2.plain := by
  refine ⟨?_, rfl⟩
  have hboth : Mirrors callbacks base
      ((e.setVolumeRemain maker ((e.order maker).volumeRemain - qty)).setVolumeRemain f.taker
        (f.takerRemaining - qty))
      ((e'.setVolumeRemain maker ((e.order maker).volumeRemain - qty)).setVolumeRemain f.taker
        (f.takerRemaining - qty)) := (h.setVolumeRemain _ _).setVolumeRemain _ _
  simp only [VeloxMatch.reduceBoth, h.order]
  exact ⟨hboth.user, hboth.filter, hboth.base_le, hboth.events, hboth.book,
    congrArg (· ++ [LifeEvent.traded maker f.taker qty]) h.trace, h.bookings⟩

end Reads

theorem Mirrors.ite {c c' : Prop} [Decidable c] [Decidable c'] {e1 e1' : OmEngine} (hc : c' ↔ c)
    (h : Mirrors callbacks base e e') (h1 : Mirrors callbacks base e1 e1') :
    Mirrors callbacks base (if c then e else e1) (if c' then e' else e1') := by
  by_cases h0 : c
  · rw [if_pos h0, if_pos (hc.mpr h0)]
    exact h
  · rw [if_neg h0, if_neg fun h => h0 (hc.mp h)]
    exact h1

theorem Mirrors.tell (h : Mirrors callbacks base e e') {registered registered' : Bool}
    {event' : OmEvent} (hregistered : registered' = registered) (hevent : event' = event)
    (hhears : callbacks.hears event = true) :
    Mirrors callbacks base (e.emit registered event) (e'.emit registered' event') := by
  rw [hregistered, hevent]
  exact h.emit registered hhears

theorem Mirrors.registered (h : Mirrors callbacks base e e') :
    e'.callbacks.onMatch = e.callbacks.onMatch ∧ e'.callbacks.onDeal = e.callbacks.onDeal ∧
      e'.callbacks.onFilled = e.callbacks.onFilled ∧ e'.callbacks.onBooked = e.callbacks.onBooked ∧
      e'.callbacks.onCancel = e.callbacks.onCancel ∧
      e'.callbacks.onDecrementCancel = e.callbacks.onDecrementCancel := by
  rw [h.filter, h.user]
  exact ⟨rfl, rfl, rfl, rfl, rfl, rfl⟩

theorem Mirrors.decrementEffect (h : Mirrors callbacks base e e') :
    Mirrors callbacks base (decrementEffect e f maker qty).1
      (decrementEffect e' f.plain maker qty).1 := by
  have h1 : Mirrors callbacks base (VeloxMatch.reduceBoth e f maker qty).1
      (VeloxMatch.reduceBoth e' f.plain maker qty).1 := h.reduceBoth.1
  exact h1.tell h1.registered.2.2.2.2.2
    (congrArg₂ (onDecrementCancel · · qty) (h1.order maker) (h1.order f.taker)) rfl

theorem Mirrors.dealEffect (h : Mirrors callbacks base e e') :
    Mirrors callbacks base (dealEffect e f levelPrice maker qty).1
      (dealEffect e' f.plain levelPrice maker qty).1 := by
  have h1 : Mirrors callbacks base (VeloxMatch.reduceBoth e f maker qty).1
      (VeloxMatch.reduceBoth e' f.plain maker qty).1 := h.reduceBoth.1
  have h2 := h1.tell h1.registered.1
    (congrArg (onMatch · levelPrice qty) (h1.order maker)) rfl
  have h3 := h2.tell h2.registered.1
    (congrArg (onMatch · levelPrice qty) (h2.order f.taker)) rfl
  have h4 := h3.tell h3.registered.2.1
    (congrArg₂ (onDeal · · levelPrice qty) (h3.order maker) (h3.order f.taker)) rfl
  have hvolume := congrArg OmOrderFields.volumeRemain (h4.order maker)
  have h5 := h4.tell h4.registered.2.2.1 (congrArg OmEvent.onFilled (h4.order maker)) rfl
  exact Mirrors.ite ⟨hvolume.symm.trans, hvolume.trans⟩ h5 h4

theorem Mirrors.afterReduce {r r' : OmEngine × MatchFrame} (h : Mirrors callbacks base r.1 r'.1)
    (hf : r'.2 = r.2.plain) :
    StepMirrors callbacks base (afterReduce levelPrice nextLevelIdx maker nextMakerIdx r)
      (afterReduce levelPrice nextLevelIdx maker nextMakerIdx r') := by
  refine ⟨h, ?_⟩
  simp only [VeloxMatch.afterReduce, hf, h.order]
  rfl

theorem Mirrors.logged (h : Mirrors callbacks base e e') (append : OmWalHandle → Bool × OmWalHandle)
    {go go' : OmEngine → OmEngine × MatchNext}
    (hgo : ∀ {e e'}, Mirrors callbacks base e e' → StepMirrors callbacks base (go e) (go' e')) :
    StepMirrors callbacks base
      (match e.log append with
        | (false, e) => (e, .returned .walWrite)
        | (true, e) => go e)
      (match e'.log append with
        | (false, e) => (e, .returned .walWrite)
        | (true, e) => go' e) := by
  obtain ⟨hok, hlog⟩ := h.log append
  generalize e.log append = r at hok hlog
  generalize e'.log append = r' at hok hlog
  obtain ⟨ok, c⟩ := r
  obtain ⟨ok', c'⟩ := r'
  obtain rfl : ok' = ok := hok
  cases ok' with
  | false => exact ⟨hlog, rfl⟩
  | true => exact hgo hlog

theorem Mirrors.matchRecord (h : Mirrors callbacks base e e') :
    matchRecord e' f.plain levelPrice maker qty = matchRecord e f levelPrice maker qty := by
  simp only [VeloxMatch.matchRecord, h.order]
  rfl

theorem Mirrors.decrementStep (h : Mirrors callbacks base e e') :
    StepMirrors callbacks base (decrementStep e f levelPrice nextLevelIdx maker nextMakerIdx qty)
      (decrementStep e' f.plain levelPrice nextLevelIdx maker nextMakerIdx qty) := by
  unfold VeloxMatch.decrementStep
  rw [h.matchRecord]
  exact h.logged _ fun h => h.decrementEffect.afterReduce rfl

theorem Mirrors.dealStep (h : Mirrors callbacks base e e') :
    StepMirrors callbacks base (dealStep e f levelPrice nextLevelIdx maker nextMakerIdx qty)
      (dealStep e' f.plain levelPrice nextLevelIdx maker nextMakerIdx qty) := by
  unfold VeloxMatch.dealStep
  rw [h.matchRecord]
  split
  next => exact ⟨h, rfl⟩
  next => exact h.logged _ fun h => h.dealEffect.afterReduce rfl

theorem Mirrors.cancelMakerStep (h : Mirrors callbacks base e e') (both : Bool) :
    StepMirrors callbacks base
      (cancelMakerStep e f levelPrice nextLevelIdx maker nextMakerIdx both)
      (cancelMakerStep e' f.plain levelPrice nextLevelIdx maker nextMakerIdx both) := by
  unfold VeloxMatch.cancelMakerStep
  rw [h.order]
  refine h.logged _ fun h => ⟨?_, rfl⟩
  refine h.tell h.registered.2.2.2.2.1 ?_ rfl
  rw [h.order]

def answerStep (e : OmEngine) (f : MatchFrame) (levelPrice : Nat) (nextLevelIdx : Option Nat)
    (maker : Nat) (nextMakerIdx : Option Nat) (allowed : UInt64) : OmEngine × MatchNext :=
  let matchable := min f.takerRemaining (e.order maker).volumeRemain
  if allowed = omCanMatchCancelMaker ∨ allowed = omCanMatchCancelBoth then
    VeloxMatch.cancelMakerStep e f levelPrice nextLevelIdx maker nextMakerIdx
      (decide (allowed = omCanMatchCancelBoth))
  else if allowed = omCanMatchDecrementCancel then
    VeloxMatch.decrementStep e f levelPrice nextLevelIdx maker nextMakerIdx matchable
  else if allowed = 0 then (e, f.goto (.makers levelPrice nextLevelIdx nextMakerIdx))
  else VeloxMatch.dealStep e f levelPrice nextLevelIdx maker nextMakerIdx
    (min allowed.toNat matchable)

theorem askStep_some {canMatch : List OmEvent → OmOrderFields → OmOrderFields → UInt64}
    (h : e.callbacks.canMatch = some canMatch) :
    askStep e f levelPrice nextLevelIdx maker nextMakerIdx =
      answerStep (e.emit true (.canMatch (e.order maker) (e.order f.taker)
        (canMatch e.events (e.order maker) (e.order f.taker)))) f levelPrice nextLevelIdx maker
        nextMakerIdx (canMatch e.events (e.order maker) (e.order f.taker)) := by
  simp only [askStep, h]
  rfl

theorem Mirrors.answerStep (h : Mirrors callbacks base e e') (allowed : UInt64) :
    StepMirrors callbacks base (answerStep e f levelPrice nextLevelIdx maker nextMakerIdx allowed)
      (answerStep e' f.plain levelPrice nextLevelIdx maker nextMakerIdx allowed) := by
  unfold VeloxMatch.answerStep
  rw [h.order]
  dsimp only
  split
  next => exact h.cancelMakerStep _
  next =>
    split
    next => exact h.decrementStep
    next =>
      split
      next => exact ⟨h, rfl⟩
      next => exact h.dealStep

theorem answerStep_zero : answerStep e f levelPrice nextLevelIdx maker nextMakerIdx 0 =
    (e, f.goto (.makers levelPrice nextLevelIdx nextMakerIdx)) := rfl

theorem answerStep_unlimited (h : f.takerRemaining < 2 ^ 64) :
    answerStep e f levelPrice nextLevelIdx maker nextMakerIdx unlimited =
      dealStep e f levelPrice nextLevelIdx maker nextMakerIdx
        (min f.takerRemaining (e.order maker).volumeRemain) := by
  have hmin : min unlimited.toNat (min f.takerRemaining (e.order maker).volumeRemain) =
      min f.takerRemaining (e.order maker).volumeRemain := by
    have hmax : unlimited.toNat = 2 ^ 64 - 1 := rfl
    omega
  rw [← hmin]
  rfl

theorem Mirrors.canMatch (h : Mirrors callbacks base e e') :
    e'.callbacks.canMatch = some (callbacks.filter base) := by
  rw [h.filter]
  rfl

theorem Mirrors.askStep_own (h : Mirrors callbacks base e e')
    (horg : (e.order maker).org = (e.order f.taker).org) :
    ∃ e1, askStep e' f.plain levelPrice nextLevelIdx maker nextMakerIdx =
        (e1, f.plain.goto (.makers levelPrice nextLevelIdx nextMakerIdx)) ∧
      Mirrors callbacks base e e1 := by
  have hanswer : callbacks.filter base e'.events (e.order maker) (e.order f.taker) = 0 :=
    if_pos horg
  rw [askStep_some h.canMatch]
  simp only [h.order, MatchFrame.taker_plain, hanswer, answerStep_zero]
  refine ⟨_, rfl, h.hide ?_⟩
  simp [hears, horg]

theorem Mirrors.askStep_other (h : Mirrors callbacks base e e')
    (horg : (e.order maker).org ≠ (e.order f.taker).org) (hbound : f.takerRemaining < 2 ^ 64) :
    StepMirrors callbacks base (askStep e f levelPrice nextLevelIdx maker nextMakerIdx)
      (askStep e' f.plain levelPrice nextLevelIdx maker nextMakerIdx) := by
  rw [askStep_some h.canMatch]
  simp only [h.order, MatchFrame.taker_plain]
  cases hcan : callbacks.canMatch with
  | none =>
    have hanswer : callbacks.filter base e'.events (e.order maker) (e.order f.taker) =
        unlimited := by simp only [OmEngineCallbacks.filter, if_neg horg, hcan]
    have hnone : e.callbacks.canMatch = none := by rw [h.user, hcan]
    have hhidden : Mirrors callbacks base e
        (e'.emit true (.canMatch (e.order maker) (e.order f.taker) unlimited)) :=
      h.hide (by simp [hears, hcan])
    rw [hanswer, answerStep_unlimited (f := f.plain) hbound, hhidden.order]
    simp only [askStep, hnone]
    exact hhidden.dealStep
  | some canMatch =>
    have hanswer : callbacks.filter base e'.events (e.order maker) (e.order f.taker) =
        canMatch e.events (e.order maker) (e.order f.taker) := by
      simp only [OmEngineCallbacks.filter, if_neg horg, hcan, h.events]
    have hsome : e.callbacks.canMatch = some canMatch := by rw [h.user, hcan]
    rw [hanswer, askStep_some hsome]
    refine (h.emit true ?_).answerStep _
    simp [hears, hcan, horg]

theorem makersStep_ask (hr : f.takerRemaining ≠ 0) (hslot : omSlotFromIdx e.slab idx = some maker)
    (hother : ¬ (f.excludeSameOrg = true ∧ (e.order maker).org = (e.order f.taker).org))
    (hvolume : (e.order maker).volumeRemain ≠ 0) :
    makersStep e f levelPrice nextLevelIdx idx =
      askStep e f levelPrice nextLevelIdx maker (e.slab.next .timeFifo maker) := by
  simp only [makersStep, if_neg hr, hslot, if_neg hother, if_neg hvolume]

variable (h : Mirrors callbacks base e e')
include h

theorem Mirrors.makersStep (hother : ∀ maker, omSlotFromIdx e.slab idx = some maker →
      (e.order maker).org ≠ (e.order f.taker).org) (hbound : f.takerRemaining < 2 ^ 64) :
    StepMirrors callbacks base (makersStep e f levelPrice nextLevelIdx idx)
      (makersStep e' f.plain levelPrice nextLevelIdx idx) := by
  by_cases h0 : f.takerRemaining = 0
  · have h0' : f.plain.takerRemaining = 0 := h0
    simp only [VeloxMatch.makersStep, if_pos h0, if_pos h0']
    exact ⟨h, rfl⟩
  · have h0' : f.plain.takerRemaining ≠ 0 := h0
    cases hs : omSlotFromIdx e.slab idx with
    | none =>
      simp only [VeloxMatch.makersStep, if_neg h0, if_neg h0', h.slab, hs]
      exact ⟨h, rfl⟩
    | some maker =>
      have horg := hother maker hs
      have hplain : ¬ (f.plain.excludeSameOrg = true ∧
        (e'.order maker).org = (e'.order f.plain.taker).org) := fun hx => Bool.false_ne_true hx.1
      by_cases hv : (e.order maker).volumeRemain = 0
      · have hv' : (e'.order maker).volumeRemain = 0 := by rw [h.order, hv]
        simp only [VeloxMatch.makersStep, if_neg h0, if_neg h0', h.slab, hs, if_neg hplain,
          if_neg fun hx : f.excludeSameOrg = true ∧ _ => horg hx.2, if_pos hv, if_pos hv']
        exact ⟨h, rfl⟩
      · have hv' : (e'.order maker).volumeRemain ≠ 0 := by rwa [h.order]
        rw [makersStep_ask h0 hs (fun hx => horg hx.2) hv,
          makersStep_ask h0' (by rw [h.slab, hs]) hplain hv', h.slab]
        exact h.askStep_other horg hbound

theorem Mirrors.removeStep (both : Bool) :
    StepMirrors callbacks base
      (removeStep K e f levelPrice nextLevelIdx maker nextMakerIdx both)
      (removeStep K e' f.plain levelPrice nextLevelIdx maker nextMakerIdx both) := by
  have hremoved := h.setBook (h.book.removeSlot (K := K) (p := f.productId) (x := maker))
  cases both with
  | false => exact ⟨hremoved, rfl⟩
  | true =>
    have hzero := hremoved.setVolumeRemain f.taker 0
    refine ⟨⟨hzero.user, hzero.filter, hzero.base_le, hzero.events, hzero.book,
      congrArg (· ++ [LifeEvent.forfeited f.taker]) h.trace, h.bookings⟩, rfl⟩

theorem Mirrors.insertTaker :
    StepMirrors callbacks base (insertTaker K e f) (insertTaker K e' f.plain) := by
  obtain ⟨hrc, hbook⟩ := h.book.insert (K := K) (p := f.productId) (x := f.taker)
  have hplain : (omOrderbookInsert K e'.orderbook f.plain.productId f.plain.taker) =
      omOrderbookInsert K e'.orderbook f.productId f.taker := rfl
  unfold VeloxMatch.insertTaker
  rw [hplain]
  generalize omOrderbookInsert K e.orderbook f.productId f.taker = r at hrc hbook
  generalize omOrderbookInsert K e'.orderbook f.productId f.taker = r' at hrc hbook
  obtain ⟨rc, c⟩ := r
  obtain ⟨rc', c'⟩ := r'
  obtain rfl : rc' = rc := hrc
  have hset := h.setBook hbook
  cases rc' with
  | ok =>
    have hbooked : Mirrors callbacks base
        { e with orderbook := c, bookings := f.taker :: e.bookings }
        { e' with orderbook := c', bookings := f.taker :: e'.bookings } :=
      ⟨h.user, h.filter, h.base_le, h.events, hbook, h.trace, by rw [h.bookings]⟩
    exact ⟨hbooked.tell hbooked.registered.2.2.2.1
      (congrArg OmEvent.onBooked (hbooked.order f.taker)) rfl, rfl⟩
  | _ => exact ⟨hset, rfl⟩

theorem Mirrors.bookStep : StepMirrors callbacks base (bookStep K e f) (bookStep K e' f.plain) := by
  unfold VeloxMatch.bookStep
  rw [h.filter, h.user]
  cases hpre : callbacks.preBooked with
  | none =>
    simp only [filtering, hpre, Option.map_none]
    exact h.insertTaker
  | some preBooked =>
    simp only [filtering, hpre, Option.map_some, ← h.events, h.order,
      MatchFrame.taker_plain]
    generalize preBooked e.events (e.order f.taker) = answer
    have htold : Mirrors callbacks base (e.emit true (.preBooked (e.order f.taker) answer))
        (e'.emit true (.preBooked (e.order f.taker) answer)) := h.emit true rfl
    cases answer with
    | true => exact htold.insertTaker
    | false =>
      exact ⟨htold.tell htold.registered.2.2.2.2.1
        (congrArg OmEvent.onCancel (htold.order f.taker)) rfl, rfl⟩

end Mirror

end VeloxMatch
