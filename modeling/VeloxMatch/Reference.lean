import VeloxMatch.Engine

namespace VeloxMatch

/-- What is to happen between the current maker and the taker. A reduction that is not a
`decrement` is a deal. -/
inductive Verdict where
  | pass
  | cancel (both : Bool)
  | reduce (decrement : Bool) (qty : Nat)
  deriving DecidableEq, Repr

/-- How an answer of `can_match` is read when the two orders could trade `matchable`. -/
def verdictOf (answer : UInt64) (matchable : Nat) : Verdict :=
  if answer = omCanMatchCancelMaker then .cancel false
  else if answer = omCanMatchCancelBoth then .cancel true
  else if answer = omCanMatchDecrementCancel then .reduce true matchable
  else if answer = 0 then .pass
  else .reduce false (min answer.toNat matchable)

variable (callbacks : OmEngineCallbacks)

def askMaker (events : List OmEvent) (maker taker : OmOrderFields) : List OmEvent × Verdict :=
  let matchable := min taker.volumeRemain maker.volumeRemain
  match callbacks.canMatch with
  | none => (events, .reduce false matchable)
  | some canMatch =>
    let answer := canMatch events maker taker
    (events ++ [.canMatch maker taker answer], verdictOf answer matchable)

def notify (registered : Bool) (event : OmEvent) (events : List OmEvent) : List OmEvent :=
  if registered then events ++ [event] else events

def notifyReduced (decrement : Bool) (maker taker : OmOrderFields) (qty : Nat)
    (events : List OmEvent) : List OmEvent :=
  if decrement then
    notify callbacks.onDecrementCancel (.onDecrementCancel maker taker qty) events
  else
    let events := notify callbacks.onMatch (.onMatch maker maker.price qty) events
    let events := notify callbacks.onMatch (.onMatch taker maker.price qty) events
    let events := notify callbacks.onDeal (.onDeal maker taker maker.price qty) events
    if maker.volumeRemain = 0 then notify callbacks.onFilled (.onFilled maker) events else events

def OmOrderFields.lessBy (o : OmOrderFields) (qty : Nat) : OmOrderFields :=
  { o with volumeRemain := o.volumeRemain - qty }

/-- The taker after it met the makers, and the makers that still rest. -/
structure Taken where
  events : List OmEvent
  taker : OmOrderFields
  makers : List OmOrderFields

def Taken.keep (maker : OmOrderFields) (r : Taken) : Taken :=
  { r with makers := maker :: r.makers }

def matchMakers (callbacks : OmEngineCallbacks) (events : List OmEvent) (taker : OmOrderFields) :
    List OmOrderFields → Taken
  | [] => ⟨events, taker, []⟩
  | maker :: makers =>
    if taker.volumeRemain = 0 then ⟨events, taker, maker :: makers⟩
    else
      let asked := askMaker callbacks events maker taker
      match asked.2 with
      | .pass => (matchMakers callbacks asked.1 taker makers).keep maker
      | .cancel both =>
        let events := notify callbacks.onCancel (.onCancel maker) asked.1
        if both then ⟨events, { taker with volumeRemain := 0 }, makers⟩
        else matchMakers callbacks events taker makers
      | .reduce decrement qty =>
        -- a reduction by nothing would be asked for again without end
        if qty = 0 then (matchMakers callbacks asked.1 taker makers).keep maker
        else
          let events := notifyReduced callbacks decrement (maker.lessBy qty) (taker.lessBy qty) qty
            asked.1
          if (maker.lessBy qty).volumeRemain = 0 then
            matchMakers callbacks events (taker.lessBy qty) makers
          else matchMakers callbacks events (taker.lessBy qty) (maker.lessBy qty :: makers)
termination_by makers => (makers.length, taker.volumeRemain)
decreasing_by
  all_goals simp_wf
  all_goals first
    | exact Prod.Lex.left _ _ (by omega)
    | exact Prod.Lex.right _ (by simp only [OmOrderFields.lessBy]; omega)

section Makers

variable {callbacks : OmEngineCallbacks} {events : List OmEvent} {taker maker : OmOrderFields}
  {makers : List OmOrderFields} {decrement : Bool} {qty : Nat}

theorem matchMakers_nil : matchMakers callbacks events taker [] = ⟨events, taker, []⟩ := by
  rw [matchMakers]

theorem matchMakers_exhausted (h : taker.volumeRemain = 0) :
    matchMakers callbacks events taker makers = ⟨events, taker, makers⟩ := by
  cases makers with
  | nil => rw [matchMakers]
  | cons maker makers => rw [matchMakers, if_pos h]

theorem matchMakers_pass (h : taker.volumeRemain ≠ 0)
    (hv : (askMaker callbacks events maker taker).2 = .pass) :
    matchMakers callbacks events taker (maker :: makers) =
      (matchMakers callbacks (askMaker callbacks events maker taker).1 taker makers).keep maker := by
  rw [matchMakers, if_neg h]
  simp only [hv]

theorem matchMakers_cancel {both : Bool} (h : taker.volumeRemain ≠ 0)
    (hv : (askMaker callbacks events maker taker).2 = .cancel both) :
    matchMakers callbacks events taker (maker :: makers) =
      matchMakers callbacks (notify callbacks.onCancel (.onCancel maker)
        (askMaker callbacks events maker taker).1)
        (if both then { taker with volumeRemain := 0 } else taker) makers := by
  rw [matchMakers, if_neg h]
  simp only [hv]
  cases both with
  | false => rfl
  | true =>
    simp only [↓reduceIte]
    rw [matchMakers_exhausted rfl]

theorem matchMakers_reduce (h : taker.volumeRemain ≠ 0)
    (hv : (askMaker callbacks events maker taker).2 = .reduce decrement qty) (hq : qty ≠ 0) :
    matchMakers callbacks events taker (maker :: makers) =
      matchMakers callbacks (notifyReduced callbacks decrement (maker.lessBy qty)
        (taker.lessBy qty) qty (askMaker callbacks events maker taker).1) (taker.lessBy qty)
        (if (maker.lessBy qty).volumeRemain = 0 then makers else maker.lessBy qty :: makers) := by
  rw [matchMakers, if_neg h]
  simp only [hv, if_neg hq]
  split <;> rfl

theorem askMaker_reduce_ne_zero (ht : taker.volumeRemain ≠ 0) (hm : maker.volumeRemain ≠ 0)
    (hv : (askMaker callbacks events maker taker).2 = .reduce decrement qty) : qty ≠ 0 := by
  have hmin : min taker.volumeRemain maker.volumeRemain ≠ 0 := by omega
  unfold askMaker at hv
  split at hv
  next => cases hv; exact hmin
  next canMatch _ =>
    simp only [verdictOf] at hv
    split at hv
    next => cases hv
    next =>
      split at hv
      next => cases hv
      next =>
        split at hv
        next => cases hv; exact hmin
        next =>
          split at hv
          next => cases hv
          next hne =>
            cases hv
            have hn : (canMatch events maker taker).toNat ≠ 0 := fun h0 =>
              hne (UInt64.toNat_inj.mp h0)
            omega

end Makers

structure Outcome where
  events : List OmEvent
  taker : OmOrderFields
  own : List OmOrderFields
  opposite : List OmOrderFields

def bookRest (r : Taken) (own opposite : List OmOrderFields) : Outcome :=
  if r.taker.volumeRemain = 0 then ⟨r.events, r.taker, own, opposite⟩
  else
    let answer := (callbacks.preBooked.map fun ask => ask r.events r.taker).getD true
    let events := notify callbacks.preBooked.isSome (.preBooked r.taker answer) r.events
    if answer then
      ⟨notify callbacks.onBooked (.onBooked r.taker) events, r.taker,
        enqueue (omIsBid r.taker.flags) r.taker own, opposite⟩
    else ⟨notify callbacks.onCancel (.onCancel r.taker) events, r.taker, own, opposite⟩

def reaches (taker maker : OmOrderFields) : Bool :=
  ¬ better (omIsBid taker.flags) maker.price taker.price

def matchReference (events : List OmEvent) (taker : OmOrderFields)
    (own opposite : List OmOrderFields) : Outcome :=
  let r := matchMakers callbacks events taker (opposite.takeWhile (reaches taker))
  bookRest callbacks r own (r.makers ++ opposite.dropWhile (reaches taker))

end VeloxMatch
