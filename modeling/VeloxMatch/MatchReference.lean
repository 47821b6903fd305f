import VeloxMatch.MatchMeeting
import VeloxMatch.VolumeLedger

namespace VeloxMatch

open Level SearchTree Walk List

def meetOutcome (e : OmEngine) (f : MatchFrame) (levels : Levels) (pre : List Level)
    (visited todo : List Nat) (post : List Level) : Outcome :=
  let behind := (queueOf post).map e.order
  let r := matchMakers e.callbacks e.events (e.order f.taker)
    (todo.map e.order ++ behind.takeWhile (reaches (e.order f.taker)))
  bookRest e.callbacks r (restingOrders e.orderbook levels f.productId f.takerIsBid)
    ((queueOf pre ++ visited).map e.order ++ r.makers ++
      behind.dropWhile (reaches (e.order f.taker)))

section Loop

variable {K : Kavl} {e e' : OmEngine} {f : MatchFrame} {levels levels' : Levels}
  {free : List Nat} {pre post : List Level} {visited todo : List Nat} {m : Nat}

theorem Meeting.queue_eq (h : Meeting e f levels free pre visited todo post) :
    restingOrders e.orderbook levels f.productId (!f.takerIsBid) =
      (queueOf pre ++ visited).map e.order ++ todo.map e.order ++ (queueOf post).map e.order := by
  obtain ⟨lp, nl, idx, -, hcur, -⟩ := h.standing
  rw [restingOrders, hcur.levels_eq]
  simp only [queueOf_append, queueOf_ofSlots, map_append, append_assoc]
  rfl

theorem Meeting.kept (h : Meeting e f levels free pre visited (m :: todo) post)
    (ht : Turn f.productId (!f.takerIsBid) f.taker m e levels e' levels') :
    (queueOf pre ++ visited).map e'.order = (queueOf pre ++ visited).map e.order ∧
      todo.map e'.order = todo.map e.order ∧
      (queueOf post).map e'.order = (queueOf post).map e.order := by
  obtain ⟨lp, nl, idx, -, hcur, -⟩ := h.standing
  have hnd := h.inv.side.nodup
  rw [hcur.levels_eq] at hnd
  simp only [queueOf_append, queueOf_ofSlots] at hnd
  have hkept : ∀ i ∈ queueOf (levels f.productId (!f.takerIsBid)), i ≠ m →
      e'.order i = e.order i := fun i hi hne =>
    ht.order i hne (h.inv.resting_ne_taker hi)
  rw [hcur.levels_eq] at hkept
  simp only [queueOf_append, queueOf_ofSlots] at hkept
  refine ⟨map_congr_left fun i hi => hkept i ?_ ?_, map_congr_left fun i hi =>
    hkept i ?_ ?_, map_congr_left fun i hi => hkept i ?_ ?_⟩ <;>
  grind

theorem reaches_volume {taker : OmOrderFields} {volume : Nat} :
    reaches { taker with volumeRemain := volume } = reaches taker := rfl

theorem Turn.reaches_eq {p x : Nat} {opp : Bool} (ht : Turn p opp x m e levels e' levels') :
    reaches (e'.order x) = reaches (e.order x) := by
  rw [ht.taker, reaches_volume]

theorem bookRest_keep (callbacks : OmEngineCallbacks) (maker : OmOrderFields) (r : Taken)
    (own opposite : List OmOrderFields) :
    bookRest callbacks (r.keep maker) own opposite = bookRest callbacks r own opposite := rfl

theorem Meeting.outcome_eq (h : Meeting e f levels free pre visited (m :: todo) post)
    (ht : Turn f.productId (!f.takerIsBid) f.taker m e levels e' levels') (remaining : Nat)
    (pc : MatchPc) (todo' : List Nat)
    (hr : ∀ makers, matchMakers e.callbacks e.events (e.order f.taker) (e.order m :: makers) =
      matchMakers e.callbacks e'.events (e'.order f.taker) (todo'.map e'.order ++ makers)) :
    meetOutcome e f levels pre visited (m :: todo) post =
      meetOutcome e' { f with takerRemaining := remaining, pc := pc } levels' pre visited
        (todo' ++ todo) post := by
  obtain ⟨hdone, htodo, hpost⟩ := h.kept ht
  have hown : restingOrders e'.orderbook levels' f.productId f.takerIsBid = _ :=
    ht.restingOrders_eq h.inv.book h.inv.taker.spare.unbooked h.resting (by simp)
  simp only [meetOutcome, map_cons, cons_append, hr, map_append, ← append_assoc]
  rw [ht.callbacks, hown, hpost, ht.reaches_eq, htodo, ← map_append, ← map_append, hdone]

theorem Meeting.finishes_maker (h : Meeting e f levels free pre visited (m :: todo) post)
    (hr : f.takerRemaining ≠ 0)
    (ih : ∀ {e' : OmEngine} {remaining : Nat} {pc : MatchPc} {levels' : Levels} {free' : List Nat}
      {visited' todo' : List Nat}, Meeting e' { f with takerRemaining := remaining, pc := pc }
        levels' free' pre visited' todo' post →
      todo'.length + remaining < todo.length + 1 + f.takerRemaining →
      Finishes K e' (.running { f with takerRemaining := remaining, pc := pc }) levels' f.productId
        f.takerIsBid f.taker (meetOutcome e' { f with takerRemaining := remaining, pc := pc }
          levels' pre visited' todo' post)) :
    Finishes K e (.running f) levels f.productId f.takerIsBid f.taker
      (meetOutcome e f levels pre visited (m :: todo) post) := by
  have hold : (e.order f.taker).volumeRemain = f.takerRemaining := h.inv.taker.remaining
  have hvol : (e.order f.taker).volumeRemain ≠ 0 := hold ▸ hr
  have hx := h.inv.taker.spare.unbooked
  cases hv : (f.asked e m).2 with
  | pass =>
    obtain ⟨pc, hsteps, ht, hmeet⟩ := h.pass (K := K) hr hv
    have hout : meetOutcome e f levels pre visited (m :: todo) post =
        meetOutcome { e with events := (f.asked e m).1 }
          { f with takerRemaining := f.takerRemaining, pc := pc } levels pre (visited ++ [m]) todo
          post := by
      simp only [meetOutcome, map_cons, cons_append]
      rw [matchMakers_pass hvol hv, bookRest_keep]
      simp only [Taken.keep, map_append, append_assoc, map_cons, map_nil,
        cons_append, nil_append]
      rfl
    rw [hout]
    exact (ih hmeet (by omega)).turn hsteps ht h.inv.book hx h.resting
  | cancel both =>
    obtain ⟨e', remaining, pc, hsteps, ht, hmeet, hevents, htaker⟩ := h.cancel (K := K) hr hv
    have hless : remaining ≤ f.takerRemaining := by
      have hnew : (e'.order f.taker).volumeRemain = remaining := hmeet.inv.taker.remaining
      rw [← hnew, htaker, ← hold]
      cases both <;> simp
    rw [h.outcome_eq ht remaining pc [] fun makers => ?_]
    · exact (ih hmeet (by omega)).turn hsteps ht h.inv.book hx h.resting
    · rw [matchMakers_cancel hvol hv, hevents, htaker]
      rfl
  | reduce decrement qty =>
    have hq := askMaker_reduce_ne_zero hvol (h.stocked m h.resting) hv
    obtain ⟨e', remaining, pc, levels', free', todo', hsteps, ht, hmeet, hevents, htaker, htodo⟩ :=
      h.reduce (K := K) hr hv hq
    have hless : remaining < f.takerRemaining := by
      have hnew : (e'.order f.taker).volumeRemain = remaining := hmeet.inv.taker.remaining
      rw [← hnew, htaker, ← hold, OmOrderFields.lessBy]
      dsimp only
      omega
    by_cases hzero : ((e.order m).lessBy qty).volumeRemain = 0
    · rw [if_pos hzero] at htodo
      subst htodo
      rw [h.outcome_eq ht remaining pc [] fun makers => ?_]
      · exact (ih hmeet (by omega)).turn hsteps ht h.inv.book hx h.resting
      · rw [matchMakers_reduce hvol hv hq, if_pos hzero, hevents, htaker]
        rfl
    · rw [if_neg hzero] at htodo
      obtain ⟨rfl, hmaker⟩ := htodo
      rw [h.outcome_eq ht remaining pc [m] fun makers => ?_]
      · exact (ih hmeet (by simp; omega)).turn hsteps ht h.inv.book hx h.resting
      · rw [matchMakers_reduce hvol hv hq, if_neg hzero, hevents, htaker]
        simp only [map_cons, map_nil, cons_append, nil_append, hmaker]
        rfl

theorem Meeting.finishes_exhausted (h : Meeting e f levels free pre visited todo post)
    (hr : f.takerRemaining = 0) :
    Finishes K e (.running f) levels f.productId f.takerIsBid f.taker
      (meetOutcome e f levels pre visited todo post) := by
  have hvol : (e.order f.taker).volumeRemain = 0 := h.inv.taker.remaining.trans hr
  obtain ⟨lp, nl, idx, hpc, -, -⟩ := h.standing
  have hout : meetOutcome e f levels pre visited todo post = ⟨e.events, e.order f.taker,
      restingOrders e.orderbook levels f.productId f.takerIsBid,
      restingOrders e.orderbook levels f.productId (!f.takerIsBid)⟩ := by
    rw [h.queue_eq]
    simp only [meetOutcome, matchMakers_exhausted hvol, bookRest, if_pos hvol, append_assoc,
      takeWhile_append_dropWhile]
  rw [hout]
  refine finishes_asIs h.inv ?_
  simp only [matchStep, hpc, makersStep, hr, ↓reduceIte]

end Loop

/-- `engine_match` at the head of the loop over levels. -/
structure Approach (e : OmEngine) (f : MatchFrame) (levels : Levels) (free : List Nat)
    (pre post : List Level) : Prop extends PlainMatch e f levels free where
  remaining : f.takerRemaining ≠ 0
  levels_eq : levels f.productId (!f.takerIsBid) = pre ++ post
  pc : f.pc = .levels (front (post.map head) none)

section Levels

variable {K : Kavl} {e : OmEngine} {f : MatchFrame} {levels : Levels} {free : List Nat}
  {pre post : List Level} {visited : List Nat}

theorem Meeting.leave (h : Meeting e f levels free pre visited [] post)
    (hr : f.takerRemaining ≠ 0) :
    Approach e { f with pc := .levels (front (post.map head) none) } levels free
        (pre ++ ofSlots visited) post ∧
      matchStep K e f = (e, f.goto (.levels (front (post.map head) none))) := by
  obtain ⟨lp, nl, idx, hpc, hcur, -⟩ := h.standing
  have hidx : idx = none := hcur.idx_eq
  have hs : omSlotFromIdx e.slab idx = none := by rw [hidx]; rfl
  rw [← hcur.nextLevel_eq]
  constructor
  · have hpos := h.inv.standing
    rw [hpc] at hpos
    have hinv := h.inv.goto (SameBook.refl _) rfl rfl
      (Walk.standing (Walk.leave hs) h.inv.side hpos)
    exact ⟨⟨hinv, h.plain, h.working, h.bookable, h.stocked⟩, hr, by simpa using hcur.levels_eq,
      by rw [hcur.nextLevel_eq]⟩
  · simp only [matchStep, hpc, makersStep, hr, hs, ↓reduceIte]

theorem Approach.reaches_iff (h : Approach e f levels free pre post) (o : OmOrderFields) :
    reaches (e.order f.taker) o = true ↔ ¬ f.beyondLimit o.price := by
  have hside : omIsBid (e.order f.taker).flags = f.takerIsBid := h.inv.taker.isBid
  have hprice : (e.order f.taker).price = f.takerPrice := h.inv.taker.price
  simp [reaches, beyondLimit_iff, hside, hprice]

theorem Approach.finishes_book (h : Approach e f levels free pre post)
    (hstep : matchStep K e f = (e, f.goto .book)) (hw : Walk e f f.pc .book)
    (hnone : ((queueOf post).map e.order).takeWhile (reaches (e.order f.taker)) = []) :
    Finishes K e (.running f) levels f.productId f.takerIsBid f.taker
      (meetOutcome e f levels pre [] [] post) := by
  have hinv := h.inv.goto (SameBook.refl _) rfl rfl (standing hw h.inv.side h.inv.standing)
  have hdrop : ((queueOf post).map e.order).dropWhile (reaches (e.order f.taker)) =
      (queueOf post).map e.order := by
    have hall := takeWhile_append_dropWhile (p := reaches (e.order f.taker))
      (l := (queueOf post).map e.order)
    rwa [hnone] at hall
  have hout : meetOutcome e f levels pre [] [] post =
      bookRest e.callbacks ⟨e.events, e.order f.taker, []⟩
        (restingOrders e.orderbook levels f.productId f.takerIsBid)
        (restingOrders e.orderbook levels f.productId (!f.takerIsBid)) := by
    rw [restingOrders, restingOrders, h.levels_eq]
    simp [meetOutcome, hnone, hdrop, matchMakers_nil, restingOrders]
    rfl
  rw [hout]
  exact (VeloxMatch.finishes_book hinv rfl h.working h.bookable []).step hstep

theorem Approach.level {l : Level} (h : Approach e f levels free pre (l :: post)) :
    omSlotFromIdx e.slab (front ((l :: post).map head) none) = some l.head :=
  omSlotFromIdx_some (h.inv.side.lt_capacity _ (head_mem_queueOf (by simp [h.levels_eq])))

theorem Approach.enter {l : Level} (h : Approach e f levels free pre (l :: post))
    (hreach : ¬ f.beyondLimit (e.order l.head).price) :
    ∃ pc, matchStep K e f = (e, f.goto pc) ∧
      Meeting e { f with pc := pc } levels free pre [] l.slots post ∧
      meetOutcome e f levels pre [] [] (l :: post) =
        meetOutcome e { f with pc := pc } levels pre [] l.slots post := by
  have hs := h.level
  have hside := h.inv.side
  rw [h.levels_eq] at hside
  obtain ⟨l', post', heq, -, hnext⟩ := hside.some_level hs
  cases heq
  have hwalk : Walk e f f.pc
      (.makers (e.order l.head).price (e.slab.next .priceLadder l.head) (some l.head)) := by
    rw [h.pc]
    exact Walk.enter hs hreach
  have hprices : ∀ i ∈ [] ++ l.slots, (e.order i).price = (e.order l.head).price :=
    hside.level_price (by simp)
  refine ⟨_, ?_, ⟨⟨h.inv.goto (SameBook.refl _) rfl rfl
    (standing hwalk h.inv.side h.inv.standing), h.plain, h.working, h.bookable, h.stocked⟩,
    _, _, _, rfl, ?_, hprices⟩, ?_⟩
  · simp only [matchStep, h.pc, levelsStep, h.remaining, hs, hreach, h.plain, Bool.false_eq_true,
      false_and, ↓reduceIte]
  · rw [hnext]
    exact Cursor.start _ l h.levels_eq
  · have hall : ∀ o ∈ l.slots.map e.order, reaches (e.order f.taker) o = true := by
      intro o ho
      obtain ⟨i, hi, rfl⟩ := mem_map.mp ho
      rw [h.reaches_iff, hprices i (by simpa using hi)]
      exact hreach
    simp only [meetOutcome, queueOf_cons, map_append, map_nil, nil_append]
    rw [takeWhile_append_of_pos hall, dropWhile_append_of_pos hall]

theorem Approach.finishes (h : Approach e f levels free pre post)
    (ih : ∀ {l : Level} {post' : List Level} {pc : MatchPc}, post = l :: post' →
      Meeting e { f with pc := pc } levels free pre [] l.slots post' →
      Finishes K e (.running { f with pc := pc }) levels f.productId f.takerIsBid f.taker
        (meetOutcome e { f with pc := pc } levels pre [] l.slots post')) :
    Finishes K e (.running f) levels f.productId f.takerIsBid f.taker
      (meetOutcome e f levels pre [] [] post) := by
  cases post with
  | nil =>
    have hs : omSlotFromIdx e.slab (front (([] : List Level).map head) none) = none := rfl
    refine h.finishes_book ?_ (h.pc ▸ exhausted h.remaining hs) rfl
    simp only [matchStep, h.pc, levelsStep, h.remaining, hs, ↓reduceIte]
  | cons l post =>
    by_cases hreach : f.beyondLimit (e.order l.head).price
    · have hs := h.level
      refine h.finishes_book ?_ (h.pc ▸ limit h.remaining hs hreach) ?_
      · simp only [matchStep, h.pc, levelsStep, h.remaining, hs, hreach, ↓reduceIte]
      · have hnot : ¬ reaches (e.order f.taker) (e.order l.head) = true := by
          rw [h.reaches_iff]
          exact not_not_intro hreach
        simp [Level.slots, hnot]
    · obtain ⟨pc, hstep, hmeet, hout⟩ := h.enter (K := K) hreach
      rw [hout]
      exact (ih rfl hmeet).step hstep

/-- From every meeting the call returns with the outcome that is to come. -/
theorem Meeting.finishes {todo : List Nat} (h : Meeting e f levels free pre visited todo post) :
    Finishes K e (.running f) levels f.productId f.takerIsBid f.taker
      (meetOutcome e f levels pre visited todo post) := by
  -- every turn uses up a maker or some of the taker
  induction hn : todo.length + (queueOf post).length + f.takerRemaining
    using Nat.strong_induction_on generalizing e f levels free pre visited todo post with
  | _ n ih =>
    by_cases hr : f.takerRemaining = 0
    · exact h.finishes_exhausted hr
    · cases todo with
      | cons m todo =>
        refine h.finishes_maker hr fun hmeet hless => ih _ ?_ hmeet rfl
        simp only [length_cons] at hn ⊢
        omega
      | nil =>
        obtain ⟨happ, hstep⟩ := h.leave (K := K) hr
        have hout : meetOutcome e f levels pre visited [] post =
            meetOutcome e { f with pc := .levels (front (post.map head) none) } levels
              (pre ++ ofSlots visited) [] [] post := by
          simp [meetOutcome]
        rw [hout]
        refine (happ.finishes fun hpost hmeet => ?_).step hstep
        refine Meeting.finishes_maker hmeet hr fun hmeet' hless => ih _ ?_ hmeet' rfl
        simp only [length_nil, hpost, queueOf_cons, length_append, Level.slots,
          length_cons] at hn
        dsimp only at hless ⊢
        omega

end Levels

section Match

variable {K : Kavl} {e : OmEngine} {levels : Levels} {free : List Nat} {p x : Nat}

/-- `om_engine_match` returns and does what the price-time reference does: for every book in
which all resting orders have volume, every order that is not in the book and that the book
takes, every `can_match` and `pre_booked`, and a log that works. -/
theorem omEngineMatch_eq_matchReference (hinv : BookInv e.orderbook levels free)
    (hstocked : ∀ p b, ∀ i ∈ queueOf (levels p b), (e.order i).volumeRemain ≠ 0)
    (hx : Spare e.orderbook free x) (hactive : ¬ Deactivated e.orderbook x)
    (hvolume : (e.order x).volumeRemain ≠ 0) (hbookable : Insertable e.orderbook p x)
    (hworking : Working e.orderbook.wal) :
    ∃ fuel e' levels' free', omEngineMatch K fuel e p x = some (e', .ok) ∧
      Matched e levels p (omIsBid (e.order x).flags) x
        (matchReference e.callbacks e.events (e.order x)
          (restingOrders e.orderbook levels p (omIsBid (e.order x).flags))
          (restingOrders e.orderbook levels p (!omIsBid (e.order x).flags))) e' levels' free' := by
  cases hstart : matchStart e p x false with
  | returned rc => simp [matchStart, hvolume] at hstart
  | running f =>
    obtain ⟨hmatch, htaker, hproduct, hplain, -⟩ := matchStart_inv hinv hx hactive hstart
    have hf : f.takerIsBid = omIsBid (e.order x).flags ∧
        f.pc = .levels (front ((levels p (!f.takerIsBid)).map head) none) := by
      simp only [matchStart, hvolume, ↓reduceIte] at hstart
      cases hstart
      exact ⟨rfl, by rw [← hinv.slot_of_head]; rfl⟩
    subst htaker hproduct
    have happ : Approach e f levels free [] (levels f.productId (!f.takerIsBid)) :=
      ⟨⟨hmatch, hplain, hworking, hbookable, hstocked _ _⟩,
        fun h0 => hvolume (hmatch.taker.remaining.trans h0), rfl, hf.2⟩
    have hout : meetOutcome e f levels [] [] [] (levels f.productId (!f.takerIsBid)) =
        matchReference e.callbacks e.events (e.order f.taker)
          (restingOrders e.orderbook levels f.productId f.takerIsBid)
          (restingOrders e.orderbook levels f.productId (!f.takerIsBid)) := rfl
    obtain ⟨fuel, e', levels', free', hrun, hdone⟩ :=
      happ.finishes (K := K) fun _ hmeet => hmeet.finishes
    refine ⟨fuel, e', levels', free', ?_, ?_⟩
    · rw [omEngineMatch, hstart]
      exact hrun
    · rw [← hf.1, ← hout]
      exact hdone

end Match

def readyOps : List Op :=
  [.alloc, .write 2 (unitOrder 1 10 true), .submit 0 2 false, .tick, .tick,
    .alloc, .write 1 (unitOrder 2 10 false)]

def readyEngine : OmEngine := (runOps plainOps smallEngine readyOps).engine

theorem omEngineMatch_eq_matchReference_small :
    ∃ levels free, BookInv readyEngine.orderbook levels free ∧
      (∀ p b, ∀ i ∈ queueOf (levels p b), (readyEngine.order i).volumeRemain ≠ 0) ∧
      Insertable readyEngine.orderbook 0 1 ∧
      ∃ fuel e' levels' free',
        omEngineMatch plainOps fuel readyEngine 0 1 = some (e', .ok) ∧
        Matched readyEngine levels 0 (omIsBid (readyEngine.order 1).flags) 1
          (matchReference readyEngine.callbacks readyEngine.events (readyEngine.order 1)
            (restingOrders readyEngine.orderbook levels 0 (omIsBid (readyEngine.order 1).flags))
            (restingOrders readyEngine.orderbook levels 0 (!omIsBid (readyEngine.order 1).flags)))
          e' levels' free' := by
  have hreach : Reach plainOps EngineOk smallEngine
      (runOps plainOps smallEngine readyOps) :=
    Allowed.reach _ (by decide +kernel) .start
  obtain ⟨levels, free, hinv, hledger⟩ := Reach.ledger smallEngine_init hreach
  have hstocked : ∀ p b, ∀ i ∈ queueOf (levels p b), (readyEngine.order i).volumeRemain ≠ 0 := by
    intro p b i hi
    exact Nat.pos_iff_ne_zero.mp
      (hledger.stocked.of_idle (by decide +kernel) _ _ (hinv.book.resting hi).1)
  have hbookable : Insertable readyEngine.orderbook 0 1 :=
    ⟨by decide +kernel, by decide +kernel, by decide +kernel, by decide +kernel⟩
  have hworking : Working readyEngine.orderbook.wal := by
    have hnone : readyEngine.orderbook.wal.isNone = true := by decide +kernel
    rw [Option.isNone_iff_eq_none.mp hnone]
    simp [Working]
  exact ⟨levels, free, hinv.book, hstocked, hbookable,
    omEngineMatch_eq_matchReference hinv.book hstocked
      (hinv.held.spare 1 (by decide +kernel)) (by decide +kernel) (by decide +kernel) hbookable
      hworking⟩

end VeloxMatch
