import VeloxMatch.MatchTurn

namespace VeloxMatch

open SameBook Turn

/-- A call of `om_engine_match` that can book what is left of its taker. -/
structure PlainMatch (e : OmEngine) (f : MatchFrame) (levels : Levels) (free : List Nat) :
    Prop where
  inv : MatchInv e f levels free
  plain : f.excludeSameOrg = false
  working : Working e.orderbook.wal
  bookable : Insertable e.orderbook f.productId f.taker
  stocked : ∀ i ∈ queueOf (levels f.productId (!f.takerIsBid)), (e.order i).volumeRemain ≠ 0

/-- `engine_match` at the head of the loop over the makers of a level: `pre` and `visited` were
passed, `todo` and `post` are to come. -/
structure Meeting (e : OmEngine) (f : MatchFrame) (levels : Levels) (free : List Nat)
    (pre : List Level) (visited todo : List Nat) (post : List Level) : Prop
    extends PlainMatch e f levels free where
  standing : ∃ levelPrice nextLevelIdx idx, f.pc = .makers levelPrice nextLevelIdx idx ∧
    Cursor (levels f.productId (!f.takerIsBid)) pre visited todo post nextLevelIdx idx ∧
    ∀ i ∈ visited ++ todo, (e.order i).price = levelPrice

section Meeting

variable {K : Kavl} {e e' : OmEngine} {f : MatchFrame} {levels levels' : Levels}
  {free free' : List Nat} {pre post : List Level} {visited todo : List Nat} {m remaining : Nat}
  {both : Bool}

/-- What `can_match` is asked about the current maker, and what it answers. -/
def MatchFrame.asked (f : MatchFrame) (e : OmEngine) (m : Nat) : List OmEvent × Verdict :=
  askMaker e.callbacks e.events (e.order m) (e.order f.taker)

variable (h : Meeting e f levels free pre visited (m :: todo) post)
include h

theorem Meeting.resting : m ∈ queueOf (levels f.productId (!f.takerIsBid)) := by
  obtain ⟨lp, nl, idx, -, hcur, -⟩ := h.standing
  exact hcur.mem_queueOf (by simp)

theorem Meeting.ne_taker : m ≠ f.taker :=
  h.inv.resting_ne_taker h.resting

theorem Meeting.atMaker (hr : f.takerRemaining ≠ 0) :
    ∃ levelPrice nextLevelIdx, AtMaker e f levelPrice nextLevelIdx (some m) m ∧
      Cursor (levels f.productId (!f.takerIsBid)) pre visited (m :: todo) post nextLevelIdx
        (some m) ∧
      (∀ i ∈ visited ++ m :: todo, (e.order i).price = levelPrice) ∧
      e.slab.next .timeFifo m = front todo none ∧
      matchStep K e f = askStep e f levelPrice nextLevelIdx m (front todo none) := by
  obtain ⟨lp, nl, idx, hpc, hcur, hprice⟩ := h.standing
  have hidx : idx = some m := hcur.idx_eq
  subst hidx
  have hlt : m < e.slab.capacity := h.inv.side.lt_capacity m h.resting
  have hslot : omSlotFromIdx e.slab (some m) = some m := omSlotFromIdx_some hlt
  obtain ⟨todo', htodo, hnext⟩ := hcur.some_slot h.inv.side hslot
  cases htodo
  have hvol := h.stocked m h.resting
  refine ⟨lp, nl, ⟨hpc, hslot, hr, hvol⟩, hcur, hprice, hnext, ?_⟩
  simp only [matchStep, hpc, makersStep, hr, hslot, h.plain, hvol, hnext, Bool.false_eq_true,
    false_and, ↓reduceIte]

theorem Meeting.next {pc : MatchPc} {visited' todo' : List Nat}
    (ht : Turn f.productId (!f.takerIsBid) f.taker m e levels e' levels')
    (hinv : MatchInv e' { f with takerRemaining := remaining, pc := pc } levels' free')
    (hsub : ∀ i ∈ queueOf (levels' f.productId (!f.takerIsBid)),
      i ∈ queueOf (levels f.productId (!f.takerIsBid)) ∧
        (i = m → (e'.order m).volumeRemain ≠ 0))
    (hstanding : ∃ levelPrice nextLevelIdx idx, pc = .makers levelPrice nextLevelIdx idx ∧
      Cursor (levels' f.productId (!f.takerIsBid)) pre visited' todo' post nextLevelIdx idx ∧
      ∀ i ∈ visited' ++ todo', (e'.order i).price = levelPrice) :
    Meeting e' { f with takerRemaining := remaining, pc := pc } levels' free' pre visited' todo'
      post where
  inv := hinv
  plain := h.plain
  working := ht.working h.working
  bookable := ht.insertable h.bookable
  stocked := fun i hi => by
    obtain ⟨hold, hm⟩ := hsub i hi
    by_cases him : i = m
    · rw [him]
      exact hm him
    · rw [ht.order i him (h.inv.resting_ne_taker hold)]
      exact h.stocked i hold
  standing := hstanding

theorem Meeting.pass (hr : f.takerRemaining ≠ 0) (hv : (f.asked e m).2 = .pass) :
    ∃ pc, Steps K e (.running f) { e with events := (f.asked e m).1 }
        (.running { f with takerRemaining := f.takerRemaining, pc := pc }) ∧
      Turn f.productId (!f.takerIsBid) f.taker m e levels { e with events := (f.asked e m).1 }
        levels ∧
      Meeting { e with events := (f.asked e m).1 }
        { f with takerRemaining := f.takerRemaining, pc := pc } levels free pre (visited ++ [m])
        todo post := by
  obtain ⟨lp, nl, hat, hcur, hprice, hnext, hstep⟩ := h.atMaker (K := K) hr
  have hv' : (askMaker e.callbacks e.events (e.order m) (e.order f.taker)).2 = .pass := hv
  simp only [askStep_eq e f lp nl m _ h.inv.taker.remaining, hv'] at hstep
  have ht : Turn f.productId (!f.takerIsBid) f.taker m e levels
      { e with events := (f.asked e m).1 } levels :=
    sameBook (refl _) rfl id fun _ _ _ => rfl
  refine ⟨.makers lp nl (front todo none), .step hstep (.refl _ _), ht, h.next ht ?_ ?_ ?_⟩
  · have hcan : e.callbacks.canMatch ≠ none := by
      intro hnone
      simp [MatchFrame.asked, askMaker, hnone] at hv
    have hs := h.inv.standing
    rw [hat.pc] at hs
    refine MatchInv.goto h.inv (refl _) rfl rfl ?_
    rw [← hnext]
    exact Walk.standing (Walk.pass hat.slot (Or.inr hcan)) h.inv.side hs
  · exact fun i hi => ⟨hi, fun _ => h.stocked m h.resting⟩
  · exact ⟨lp, nl, _, rfl, hcur.advance, fun i hi => hprice i (by simpa using hi)⟩

theorem Meeting.remove {e1 : OmEngine} {f1 : MatchFrame} {levelPrice : Nat}
    {nextLevelIdx : Option Nat}
    (hcur : Cursor (levels f.productId (!f.takerIsBid)) pre visited (m :: todo) post nextLevelIdx
      (some m))
    (hprice : ∀ i ∈ visited ++ m :: todo, (e.order i).price = levelPrice)
    (ht : Turn f.productId (!f.takerIsBid) f.taker m e levels e1 levels)
    (hf1 : f1 = { f with
      takerRemaining := remaining
      pc := .remove levelPrice nextLevelIdx m (front todo none) both })
    (hinv : MatchInv e1 f1 levels free) :
    ∃ e' remaining' pc, matchStep K e1 f1 =
        (e', .running { f with takerRemaining := remaining', pc := pc }) ∧
      Turn f.productId (!f.takerIsBid) f.taker m e levels e'
        (levels.drop f.productId (!f.takerIsBid) m) ∧
      Meeting e' { f with takerRemaining := remaining', pc := pc }
        (levels.drop f.productId (!f.takerIsBid) m) (m :: free) pre visited todo post ∧
      e'.events = e1.events ∧
      e'.order f.taker = if both then { e1.order f.taker with volumeRemain := 0 }
        else e1.order f.taker := by
  subst hf1
  obtain ⟨hmem, ctx, hrun, hkept, hhash, hinv'⟩ := hinv.remove (K := K) rfl
  have hleft : Turn f.productId (!f.takerIsBid) f.taker m e1 levels
      { e1 with orderbook := ctx } (levels.drop f.productId (!f.takerIsBid) m) :=
    left hinv.book hmem ⟨hkept, hhash⟩ rfl rfl
  set e' : OmEngine := { e1 with
    orderbook := if both then withVolume ctx f.taker 0 else ctx
    trace := if both then e1.trace ++ [.forfeited f.taker] else e1.trace } with he'
  have hend : Turn f.productId (!f.takerIsBid) f.taker m { e1 with orderbook := ctx }
      (levels.drop f.productId (!f.takerIsBid) m) e'
      (levels.drop f.productId (!f.takerIsBid) m) := by
    cases both with
    | false => exact sameBook (refl _) rfl id fun _ _ _ => rfl
    | true =>
      refine sameBook (withVolume_sameBook ctx f.taker 0) rfl id fun i _ hi => ?_
      change (withVolume ctx f.taker 0).slab.order i = ctx.slab.order i
      rw [order_withVolume, if_neg hi]
  have hall := (ht.trans hleft).trans hend
  refine ⟨e', _, _, ?_, hall, h.next hall hinv' ?_ ?_, rfl, ?_⟩
  · simp only [matchStep]
    exact removeStep_eq hrun
  · intro i hi
    obtain ⟨hold, hne⟩ := (mem_drop h.inv.book h.resting).mp hi
    exact ⟨hold, fun he => absurd he hne⟩
  · have hcur' : Cursor (levels.drop f.productId (!f.takerIsBid) m f.productId (!f.takerIsBid)) pre
        visited todo post nextLevelIdx (front todo none) := by
      rw [Levels.drop, Levels.set_self]
      exact hcur.drop h.inv.side.nodup
    refine ⟨levelPrice, nextLevelIdx, _, rfl, hcur', fun i hi => ?_⟩
    obtain ⟨hold, hne⟩ := (mem_drop h.inv.book h.resting).mp (hcur'.mem_queueOf hi)
    rw [hall.order i hne (h.inv.resting_ne_taker hold)]
    exact hprice i (List.mem_append.mpr ((List.mem_append.mp hi).imp_right (.tail m)))
  · cases both with
    | false => exact hkept.order _
    | true =>
      change (withVolume ctx f.taker 0).slab.order f.taker = _
      rw [order_withVolume, if_pos rfl, hkept.order]
      rfl

theorem Meeting.cancel (hr : f.takerRemaining ≠ 0) (hv : (f.asked e m).2 = .cancel both) :
    ∃ e' remaining pc, Steps K e (.running f) e'
        (.running { f with takerRemaining := remaining, pc := pc }) ∧
      Turn f.productId (!f.takerIsBid) f.taker m e levels e'
        (levels.drop f.productId (!f.takerIsBid) m) ∧
      Meeting e' { f with takerRemaining := remaining, pc := pc }
        (levels.drop f.productId (!f.takerIsBid) m) (m :: free) pre visited todo post ∧
      e'.events = notify e.callbacks.onCancel (.onCancel (e.order m)) (f.asked e m).1 ∧
      e'.order f.taker = if both then { e.order f.taker with volumeRemain := 0 }
        else e.order f.taker := by
  obtain ⟨lp, nl, hat, hcur, hprice, hnext, hstep⟩ := h.atMaker (K := K) hr
  have hv' : (askMaker e.callbacks e.events (e.order m) (e.order f.taker)).2 = .cancel both := hv
  simp only [askStep_eq e f lp nl m _ h.inv.taker.remaining, hv'] at hstep
  set e0 : OmEngine := { e with events := (f.asked e m).1 } with he0
  obtain ⟨w, hlog, hw⟩ := log_working (e := e0) h.working
    (fun h => .cancel ⟨(e0.order m).orderId, h.now, m, f.productId⟩)
  set e1 : OmEngine := { e0 with orderbook := { e0.orderbook with wal := w } } with he1
  have hstep1 : matchStep K e f = (e1.emit e1.callbacks.onCancel (.onCancel (e1.order m)),
      .running { f with
        takerRemaining := f.takerRemaining, pc := .remove lp nl m (front todo none) both }) := by
    rw [hstep]
    change cancelMakerStep e0 f lp nl m _ both = _
    unfold cancelMakerStep omWalCancel
    rw [hlog]
    rfl
  have ht : Turn f.productId (!f.takerIsBid) f.taker m e levels
      (e1.emit e1.callbacks.onCancel (.onCancel (e1.order m))) levels := by
    rw [emit_eq]
    exact sameBook (setWal _ w) rfl (fun _ => hw) fun _ _ _ => rfl
  have hinv := h.inv.cancelMaker hat ⟨_, rfl⟩ hlog
    ((OnlyEvents.refl e1).emit e1.callbacks.onCancel (.onCancel (e1.order m))) both
  rw [hnext] at hinv
  obtain ⟨e', remaining, pc, hstep2, hturn, hmeet, hevents, htaker⟩ :=
    h.remove (K := K) hcur hprice ht rfl hinv
  refine ⟨e', remaining, pc, .step hstep1 (.step hstep2 (.refl _ _)), hturn, hmeet, ?_, ?_⟩
  · rw [hevents, emit_eq]
    rfl
  · rw [htaker, emit_eq]
    rfl

theorem Meeting.reduce {decrement : Bool} {qty : Nat}
    (hr : f.takerRemaining ≠ 0) (hv : (f.asked e m).2 = .reduce decrement qty) (hq : qty ≠ 0) :
    ∃ e' remaining pc levels' free' todo', Steps K e (.running f) e'
        (.running { f with takerRemaining := remaining, pc := pc }) ∧
      Turn f.productId (!f.takerIsBid) f.taker m e levels e' levels' ∧
      Meeting e' { f with takerRemaining := remaining, pc := pc } levels' free' pre visited todo'
        post ∧
      e'.events = notifyReduced e.callbacks decrement ((e.order m).lessBy qty)
        ((e.order f.taker).lessBy qty) qty (f.asked e m).1 ∧
      e'.order f.taker = (e.order f.taker).lessBy qty ∧
      if ((e.order m).lessBy qty).volumeRemain = 0 then todo' = todo
      else todo' = m :: todo ∧ e'.order m = (e.order m).lessBy qty := by
  obtain ⟨lp, nl, hat, hcur, hprice, hnext, hstep⟩ := h.atMaker (K := K) hr
  have hv' : (askMaker e.callbacks e.events (e.order m) (e.order f.taker)).2 =
    .reduce decrement qty := hv
  simp only [askStep_eq e f lp nl m _ h.inv.taker.remaining, hv'] at hstep
  set e0 : OmEngine := { e with events := (f.asked e m).1 } with he0
  obtain ⟨w, hlog, hw⟩ := log_working (e := e0) h.working
    (fun _ => .matched (matchRecord e0 f lp m qty))
  set e1 : OmEngine := { e0 with orderbook := { e0.orderbook with wal := w } } with he1
  have heffect := reduceEffect_eq e1 f lp m h.ne_taker h.inv.taker.remaining
    (hprice m (by simp)) decrement qty
  set e2 : OmEngine := { (reduceBoth e1 f m qty).1 with
    events := notifyReduced e1.callbacks decrement ((e1.order m).lessBy qty)
      ((e1.order f.taker).lessBy qty) qty e1.events } with he2
  have hmaker : e2.order m = (e.order m).lessBy qty := by
    change (reduceBoth e1 f m qty).1.order m = _
    rw [order_reduceBoth e1 f h.ne_taker, if_neg h.ne_taker, if_pos rfl]
    rfl
  have htaker : e2.order f.taker = (e.order f.taker).lessBy qty := by
    change (reduceBoth e1 f m qty).1.order f.taker = _
    rw [order_reduceBoth e1 f h.ne_taker, if_pos rfl, ← h.inv.taker.remaining]
    rfl
  have hstep1 : matchStep K e f = (e2, .running { f with
      takerRemaining := f.takerRemaining - qty
      pc := if ((e.order m).lessBy qty).volumeRemain = 0 then
          .remove lp nl m (front todo none) false
        else .makers lp nl (some m) }) := by
    rw [hstep]
    cases decrement with
    | true =>
      change decrementStep e0 f lp nl m _ qty = _
      unfold decrementStep omWalMatch
      rw [hlog]
      change afterReduce lp nl m _ (decrementEffect e1 f m qty) = _
      rw [if_pos rfl] at heffect
      rw [heffect, afterReduce, hmaker]
      rfl
    | false =>
      change dealStep e0 f lp nl m _ qty = _
      unfold dealStep omWalMatch
      rw [if_neg hq, hlog]
      change afterReduce lp nl m _ (dealEffect e1 f lp m qty) = _
      rw [if_neg Bool.false_ne_true] at heffect
      rw [heffect, afterReduce, hmaker]
      rfl
  have hs : SameBook e.orderbook e2.orderbook :=
    (setWal _ w).trans (reduceBoth_sameBook e1 f m qty)
  have ht : Turn f.productId (!f.takerIsBid) f.taker m e levels e2 levels := by
    refine sameBook hs rfl (fun _ => hw) fun i him hix => ?_
    change (reduceBoth e1 f m qty).1.order i = _
    rw [order_reduceBoth e1 f h.ne_taker, if_neg hix, if_neg him]
    rfl
  have hev : OnlyEvents (reduceBoth e1 f m qty).1 e2 := ⟨_, rfl⟩
  have hinv := h.inv.reduce hat ⟨_, rfl⟩ hlog hev
  rw [show (reduceBoth e1 f m qty).1.order m = (e.order m).lessBy qty from hmaker, hnext] at hinv
  by_cases hzero : ((e.order m).lessBy qty).volumeRemain = 0
  · rw [if_pos hzero] at hstep1 hinv
    obtain ⟨e', remaining, pc, hstep2, hturn, hmeet, hevents, htaker'⟩ :=
      h.remove (K := K) hcur hprice ht rfl hinv
    refine ⟨e', remaining, pc, _, _, todo, .step hstep1 (.step hstep2 (.refl _ _)), hturn, hmeet,
      hevents, ?_, ?_⟩
    · rw [htaker', if_neg Bool.false_ne_true, htaker]
    · rw [if_pos hzero]
  · rw [if_neg hzero] at hstep1 hinv
    refine ⟨e2, _, _, levels, free, m :: todo, .step hstep1 (.refl _ _), ht, h.next ht hinv ?_ ?_,
      rfl, htaker, ?_⟩
    · exact fun i hi => ⟨hi, fun _ => by rw [hmaker]; exact hzero⟩
    · exact ⟨lp, nl, _, rfl, hcur, fun i hi => (hs.price i).trans (hprice i hi)⟩
    · rw [if_neg hzero]
      exact ⟨rfl, hmaker⟩

end Meeting

/-- A match of order `x` on product `p` has led from `e` to `e'` with the reference's outcome;
other products and the deactivated orders are as before. -/
structure Matched (e : OmEngine) (levels : Levels) (p : Nat) (isBid : Bool) (x : Nat) (r : Outcome)
    (e' : OmEngine) (levels' : Levels) (free' : List Nat) : Prop where
  book : BookInv e'.orderbook levels' free'
  own : restingOrders e'.orderbook levels' p isBid = r.own
  opposite : restingOrders e'.orderbook levels' p (!isBid) = r.opposite
  others : ∀ p' b, p' ≠ p →
    restingOrders e'.orderbook levels' p' b = restingOrders e.orderbook levels p' b
  parked : ∀ id entry, e.orderbook.orderHashmap id = some entry →
    Deactivated e.orderbook entry.slotIdx →
    e'.orderbook.orderHashmap id = some entry ∧ e'.order entry.slotIdx = e.order entry.slotIdx
  taker : e'.order x = r.taker
  events : e'.events = r.events

def Finishes (K : Kavl) (e : OmEngine) (next : MatchNext) (levels : Levels) (p : Nat) (isBid : Bool)
    (x : Nat) (r : Outcome) : Prop :=
  ∃ fuel e' levels' free', engineMatchLoop K fuel e next = some (e', .ok) ∧
    Matched e levels p isBid x r e' levels' free'

section Turn

variable {K : Kavl} {p x m : Nat} {opp isBid : Bool} {e e1 : OmEngine} {levels levels1 : Levels}
  {free : List Nat} {next next1 : MatchNext} {r : Outcome}

theorem Turn.restingOrders_eq (ht : Turn p opp x m e levels e1 levels1)
    (hinv : BookInv e.orderbook levels free) (hx : Unbooked e.orderbook x)
    (hm : m ∈ queueOf (levels p opp)) {p' : Nat} {b : Bool} (hne : ¬(p' = p ∧ b = opp)) :
    restingOrders e1.orderbook levels1 p' b = restingOrders e.orderbook levels p' b := by
  apply restingOrders_congr (ht.sides p' b hne)
  intro i hi
  apply ht.order i
  · rintro rfl
    exact hne (hinv.disjoint hi hm)
  · rintro rfl
    exact hinv.not_resting hx p' b hi

theorem Finishes.turn (h : Finishes K e1 next1 levels1 p isBid x r)
    (hsteps : Steps K e next e1 next1) (ht : Turn p (!isBid) x m e levels e1 levels1)
    (hinv : BookInv e.orderbook levels free) (hx : Unbooked e.orderbook x)
    (hm : m ∈ queueOf (levels p (!isBid))) : Finishes K e next levels p isBid x r := by
  obtain ⟨fuel, e', levels', free', hrun, hmatch⟩ := h
  obtain ⟨fuel', hrun'⟩ := hsteps.loop hrun
  refine ⟨fuel', e', levels', free', hrun',
    { hmatch with
      others := fun p' b hne =>
        (hmatch.others p' b hne).trans (ht.restingOrders_eq hinv hx hm fun he => hne he.1)
      parked := fun id entry he hd => ?_ }⟩
  have hne : entry.slotIdx ≠ m := by
    rintro rfl
    exact (hinv.resting hm).2 hd
  have horder : e1.order entry.slotIdx = e.order entry.slotIdx := ht.order _ hne (hx id entry he)
  have hd1 : Deactivated e1.orderbook entry.slotIdx := by
    rw [Deactivated, show e1.orderbook.slab.order entry.slotIdx = _ from horder]
    exact hd
  obtain ⟨hhash, ho⟩ := hmatch.parked id entry (ht.known id entry he hne) hd1
  exact ⟨hhash, ho.trans horder⟩

theorem Finishes.step {f : MatchFrame} (h : Finishes K e next1 levels p isBid x r)
    (hstep : matchStep K e f = (e, next1)) : Finishes K e (.running f) levels p isBid x r := by
  obtain ⟨fuel, e', levels', free', hrun, hmatch⟩ := h
  obtain ⟨fuel', hrun'⟩ := (Steps.step hstep (.refl _ _)).loop hrun
  exact ⟨fuel', e', levels', free', hrun', hmatch⟩

end Turn

section Book

variable {K : Kavl} {e : OmEngine} {f : MatchFrame} {levels : Levels} {free : List Nat}
  {events : List OmEvent} (h : MatchInv e f levels free)
include h

theorem finishes_insertTaker {e1 : OmEngine} (hw : Working e.orderbook.wal)
    (hb : Insertable e.orderbook f.productId f.taker) (he1 : e1 = { e with events := events })
    (hstep : matchStep K e f = insertTaker K e1 f) :
    Finishes K e (.running f) levels f.productId f.takerIsBid f.taker
      ⟨notify e.callbacks.onBooked (.onBooked (e.order f.taker)) events, e.order f.taker,
        enqueue f.takerIsBid (e.order f.taker)
          (restingOrders e.orderbook levels f.productId f.takerIsBid),
        restingOrders e.orderbook levels f.productId (!f.takerIsBid)⟩ := by
  subst he1
  obtain ⟨w, hlog, -⟩ := book_log_working hw
    (insertRecord e.orderbook.slab f.taker f.productId)
  obtain ⟨ctx, hrun, hbook, hkept, -, hhash⟩ := omOrderbookInsert_spec K h.book
    h.taker.spare.unbooked h.taker.spare.not_free h.taker.spare.lt_capacity h.taker.active hb.1
    hb.2.1 hb.2.2.1 hb.2.2.2 hlog
  have hside : omIsBid (e.orderbook.slab.order f.taker).flags = f.takerIsBid := h.taker.isBid
  have horder : ∀ i, ctx.slab.order i = e.order i := hkept.order
  have hstep' : matchStep K e f = ({ e with
      orderbook := ctx
      events := notify e.callbacks.onBooked (.onBooked (e.order f.taker)) events
      bookings := f.taker :: e.bookings }, .returned .ok) := by
    simp only [hstep, insertTaker, hrun, emit_eq, OmEngine.order, hkept.order]
  obtain ⟨fuel, hfuel⟩ := (Steps.step hstep' (.refl _ _)).returned
  refine ⟨fuel, _, _, free, hfuel, hbook, ?_, ?_, ?_, ?_, horder _, rfl⟩
  · rw [← hside]
    exact (List.map_congr_left fun i _ => horder i).trans (restingOrders_place h.book)
  · apply restingOrders_congr (place_other ?_) fun i _ => horder i
    rw [hside]
    simp
  · exact fun p' b hne => restingOrders_congr (place_other fun he => hne he.1) fun i _ => horder i
  · intro id entry he hd
    refine ⟨?_, horder _⟩
    change ctx.orderHashmap id = _
    rw [hhash, Function.update_of_ne]
    · exact he
    · rintro rfl
      rw [hb.2.2.2] at he
      cases he

theorem finishes_asIs (hstep : matchStep K e f = ({ e with events := events }, .returned .ok)) :
    Finishes K e (.running f) levels f.productId f.takerIsBid f.taker
      ⟨events, e.order f.taker, restingOrders e.orderbook levels f.productId f.takerIsBid,
        restingOrders e.orderbook levels f.productId (!f.takerIsBid)⟩ := by
  obtain ⟨fuel, hfuel⟩ := (Steps.step hstep (.refl _ _)).returned
  exact ⟨fuel, _, levels, free, hfuel, h.book, rfl, rfl, fun _ _ _ => rfl,
    fun _ _ he _ => ⟨he, rfl⟩, rfl, rfl⟩

theorem finishes_book (hpc : f.pc = .book) (hw : Working e.orderbook.wal)
    (hb : Insertable e.orderbook f.productId f.taker) (makers : List OmOrderFields) :
    Finishes K e (.running f) levels f.productId f.takerIsBid f.taker
      (bookRest e.callbacks ⟨e.events, e.order f.taker, makers⟩
        (restingOrders e.orderbook levels f.productId f.takerIsBid)
        (restingOrders e.orderbook levels f.productId (!f.takerIsBid))) := by
  have hside : omIsBid (e.order f.taker).flags = f.takerIsBid := h.taker.isBid
  simp only [bookRest, if_neg (h.volume_of_book hpc), hside]
  cases hp : e.callbacks.preBooked with
  | none =>
    have hsame : e = { e with events := e.events } := rfl
    refine finishes_insertTaker h hw hb hsame ?_
    simp only [matchStep, hpc, bookStep, hp]
  | some ask =>
    simp only [Option.map_some, Option.getD_some, Option.isSome_some]
    cases ha : ask e.events (e.order f.taker) with
    | true =>
      refine finishes_insertTaker h hw hb rfl ?_
      simp only [matchStep, hpc, bookStep, hp, ha, emit_eq, ↓reduceIte]
    | false =>
      refine finishes_asIs h ?_
      simp only [matchStep, hpc, bookStep, hp, ha, emit_eq, Bool.false_eq_true, ↓reduceIte]
      rfl

end Book

end VeloxMatch
