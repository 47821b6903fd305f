import VeloxMatch.Representation

namespace VeloxMatch

open EngineState SearchTree

section Calls

variable {K : Kavl} {f' f : MatchFrame} {s : EngineState} {activating b : Bool} {op : Op}
  {e : OmEngine} {p x : Nat}

theorem MatchMove.excludeSameOrg {e' : OmEngine}
    (h : MatchMove K e f e' (.running f')) : f'.excludeSameOrg = f.excludeSameOrg := by
  generalize hn : MatchNext.running f' = next at h
  cases h with
  | walk | learn | cancelMaker | reduce =>
    cases hn
    rfl
  | remove =>
    unfold removeStep at hn
    split at hn
    all_goals
      cases hn
      rfl
  | used | refused | decline | book | bookFailed => cases hn

theorem finishMatch_call (s : EngineState) (f : MatchFrame) (activating : Bool) (rc : OmError) :
    (finishMatch s f activating rc).call = none := by
  simp only [finishMatch]
  split <;> rfl

theorem tickSide_call (s : EngineState) (f : SideFrame) :
    (tickSide K s f).call = none ∨ ∃ f', (tickSide K s f).call = some (.cancelSide f') := by
  unfold tickSide
  split
  next =>
    split
    next =>
      split
      next => exact Or.inr ⟨_, rfl⟩
      next => exact Or.inl rfl
    next => exact Or.inr ⟨_, rfl⟩
  next =>
    split
    next => exact Or.inr ⟨_, rfl⟩
    next => exact Or.inr ⟨_, rfl⟩

theorem matchStart_excludeSameOrg (h : matchStart e p x b = .running f) : f.excludeSameOrg = b := by
  simp only [matchStart] at h
  split at h
  next => cases h
  next =>
    cases h
    rfl

theorem startMatch_call {a : Bool} (hcall : s.call = none)
    (h : (startMatch s p x b a).call = some (.matching f' activating)) :
    matchStart s.engine p x b = .running f' := by
  unfold startMatch at h
  split at h
  next f hstart =>
    cases h
    exact hstart
  next =>
    split at h
    next => cases (hcall.symm.trans h)
    next => cases (hcall.symm.trans h)

theorem idle_call (hcall : s.call = none) (hsubmit : ∀ p x b, op ≠ .submit p x b)
    (hactivate : ∀ id, op ≠ .activate id) :
    (engineStep K s op).call = none ∨ ∃ f, (engineStep K s op).call = some (.cancelSide f) := by
  cases op with
  | submit p x b => exact absurd rfl (hsubmit p x b)
  | activate id => exact absurd rfl (hactivate id)
  | cancel | bookCancel | deactivate | tick =>
    refine Or.inl ?_
    simp only [engineStep, hcall, setBook]
  | cancelProductSide | cancelProduct =>
    simp only [engineStep, hcall]
    split
    next => exact Or.inl hcall
    next => exact Or.inr ⟨_, rfl⟩
  | alloc | release | write =>
    refine Or.inl ?_
    simp only [engineStep, hcall]
    split
    next => simp only [hcall, setBook, note]
    next => simp only [hcall, setBook, note]
  | insert =>
    refine Or.inl ?_
    simp only [engineStep, hcall]
    split
    next =>
      split
      next => rfl
      next => exact hcall
    next => exact hcall

/-- The match that is in progress after a step: it was so before, it took a step, or it was
started. -/
theorem matching_cases (h : (engineStep K s op).call = some (.matching f' activating)) :
    engineStep K s op = s ∨
      (∃ f, s.call = some (.matching f activating) ∧
        MatchMove K s.engine f (engineStep K s op).engine (.running f')) ∨
      (∃ e p x b, matchStart e p x b = .running f' ∧
        (op = .submit p x b ∨ ∃ id, op = .activate id ∧ b = false)) := by
  cases hcall : s.call with
  | some call =>
    cases call with
    | matching f a =>
      by_cases hop : op = .tick
      · subst hop
        simp only [engineStep, hcall, tickMatch] at h ⊢
        have hmove := matchStep_move K s.engine f
        generalize matchStep K s.engine f = r at h hmove
        obtain ⟨e', next⟩ := r
        cases next with
        | running f'' =>
          cases h
          exact Or.inr (Or.inl ⟨f, rfl, hmove⟩)
        | returned rc => cases (finishMatch_call _ _ _ _).symm.trans h
      · exact Or.inl (by cases op <;> simp_all [engineStep])
    | cancelSide f =>
      by_cases hop : op = .tick
      · subst hop
        simp only [engineStep, hcall] at h
        rcases tickSide_call (K := K) s f with hc | ⟨f'', hc⟩
        · cases hc.symm.trans h
        · cases hc.symm.trans h
      · exact Or.inl (by cases op <;> simp_all [engineStep])
  | none =>
    by_cases hsubmit : ∃ p x b, op = .submit p x b
    · obtain ⟨p, x, b, rfl⟩ := hsubmit
      simp only [engineStep, hcall] at h
      split at h
      next =>
        exact Or.inr (Or.inr ⟨_, p, x, b, startMatch_call (s := s.note _) hcall h, Or.inl rfl⟩)
      next => cases hcall.symm.trans h
    · by_cases hactivate : ∃ id, op = .activate id
      · obtain ⟨id, rfl⟩ := hactivate
        simp only [engineStep, hcall] at h
        split at h
        next => cases h
        next =>
          exact Or.inr (Or.inr ⟨_, _, _, false, startMatch_call rfl h, Or.inr ⟨id, rfl, rfl⟩⟩)
      · rcases idle_call (K := K) hcall (fun p x b he => hsubmit ⟨p, x, b, he⟩)
          (fun id he => hactivate ⟨id, he⟩) with hc | ⟨f, hc⟩
        · cases hc.symm.trans h
        · cases hc.symm.trans h

theorem matching_of_engineStep (h : (engineStep K s op).call = some (.matching f' activating)) :
    (∃ f, s.call = some (.matching f activating) ∧ f'.excludeSameOrg = f.excludeSameOrg) ∨
      (∃ p x, op = .submit p x f'.excludeSameOrg) ∨
      (∃ id, op = .activate id ∧ f'.excludeSameOrg = false) := by
  rcases matching_cases h with hsame | ⟨f, hcall, hmove⟩ | ⟨e, p, x, b, hstart, hop⟩
  · exact Or.inl ⟨f', hsame ▸ h, rfl⟩
  · exact Or.inl ⟨f, hcall, hmove.excludeSameOrg⟩
  · obtain rfl := matchStart_excludeSameOrg hstart
    exact Or.inr (hop.imp (fun h => ⟨p, x, h⟩) id)

end Calls

def Uncrossed (ctx : OmOrderbookContext) (levels : Levels) : Prop :=
  ∀ p i j, i ∈ queueOf (levels p true) → j ∈ queueOf (levels p false) →
    (ctx.slab.order i).price < (ctx.slab.order j).price

structure PlainRun (s : EngineState) (levels : Levels) : Prop where
  uncrossed : Uncrossed s.book levels
  canMatch : s.engine.callbacks.canMatch = none
  exclude : ∀ f activating, s.call = some (.matching f activating) → f.excludeSameOrg = false

/-- Takers come through `om_engine_match`, not through the variant that excludes makers. -/
def PlainOk (s : EngineState) (op : Op) : Prop :=
  EngineOk s op ∧ match op with
    | .submit _ _ excludeSameOrg => excludeSameOrg = false
    | _ => True

instance (s : EngineState) (op : Op) : Decidable (PlainOk s op) := by
  induction op using Op.casesOn <;> dsimp only [PlainOk] <;> infer_instance

section Crossed

variable {K : Kavl} {s s' : EngineState} {levels levels' : Levels} {free free' : List Nat} {op : Op}
  {j : Nat}

theorem EngineInv.book_uncrossed {f : MatchFrame} {activating : Bool} (h : EngineInv s levels free)
    (hplain : PlainRun s levels) (hcall : s.call = some (.matching f activating))
    (hpc : f.pc = .book) (hj : j ∈ queueOf (levels f.productId (!f.takerIsBid))) :
    better f.takerIsBid (s.book.slab.order j).price (s.book.slab.order f.taker).price := by
  obtain ⟨hm, -⟩ := h.matching hcall
  obtain ⟨pre, visited, todo, post, hpos, hpre⟩ := hm.standing
  obtain ⟨rfl, -⟩ := hpre ⟨hplain.exclude f activating hcall, hplain.canMatch⟩
  rw [hpc] at hpos
  obtain ⟨hlevels, -, -, -, hbeyond⟩ := hpos
  obtain ⟨l, hl, hjl⟩ := mem_queueOf.mp hj
  have hprice := hm.side.prices l hl j hjl
  rw [hlevels] at hl
  have hb := hbeyond l hl
  rw [← hprice] at hb
  exact hm.taker.price.symm ▸ hb

theorem EngineInv.placed_uncrossed (h : EngineInv s levels free) (hplain : PlainRun s levels)
    (hop : PlainOk s op) {p i : Nat}
    (hfrom : (s.call = none ∧ op = .insert p i) ∨ ∃ f activating,
      s.call = some (.matching f activating) ∧ f.pc = .book ∧ f.productId = p ∧ f.taker = i)
    (hj : j ∈ queueOf (levels p (!omIsBid (s.book.slab.order i).flags))) :
    better (omIsBid (s.book.slab.order i).flags) (s.book.slab.order j).price
      (s.book.slab.order i).price := by
  rcases hfrom with ⟨-, rfl⟩ | ⟨f, activating, hcall, hpc, rfl, rfl⟩
  · exact False.elim hop.1
  · have hside : omIsBid (s.book.slab.order f.taker).flags = f.takerIsBid :=
      (h.matching hcall).1.taker.isBid
    rw [hside] at hj ⊢
    exact h.book_uncrossed hplain hcall hpc hj

theorem Effect.uncrossed (he : Effect K op s levels free s'.call s'.view levels' free')
    (hinv : EngineInv s levels free) (hplain : PlainRun s levels) (hop : PlainOk s op) :
    Uncrossed s'.view.book levels' := by
  intro p i j hi hj
  have hkept : ∀ {b k}, k ∈ queueOf (levels p b) →
      (s'.view.book.slab.order k).price = (s.book.slab.order k).price := fun hk =>
    (he.sameOrder (hinv.resting_not_spare hk).1 (hinv.resting_not_spare hk).2).price
  rcases he.resting hinv hi with hi | ⟨hbid, horder, hfrom⟩
  · rcases he.resting hinv hj with hj | ⟨hask, horder, hfrom⟩
    · rw [hkept hi, hkept hj]
      exact hplain.uncrossed p i j hi hj
    · have hb := hinv.placed_uncrossed hplain hop (j := i) hfrom (by rw [← hask]; exact hi)
      rw [← hask] at hb
      rw [hkept hi, horder]
      exact hb
  · rcases he.resting hinv hj with hj | ⟨hask, -, hfrom'⟩
    · have hb := hinv.placed_uncrossed hplain hop hfrom (by rw [← hbid]; exact hj)
      rw [← hbid] at hb
      rw [hkept hj, horder]
      exact hb
    · -- one booking cannot be on both sides
      rcases hfrom with ⟨-, rfl⟩ | ⟨f, activating, hcall, -, rfl, rfl⟩
      · exact False.elim hop.1
      · rcases hfrom' with ⟨hnone, -⟩ | ⟨f', activating', hcall', -, -, rfl⟩
        · cases hnone.symm.trans hcall
        · cases hcall.symm.trans hcall'
          cases hbid.trans hask.symm

theorem PlainRun.step (h : PlainRun s levels) (hinv : EngineInv s levels free) (hop : PlainOk s op)
    (he : Effect K op s levels free (engineStep K s op).call (engineStep K s op).view levels' free') :
    PlainRun (engineStep K s op) levels' where
  uncrossed := he.uncrossed hinv h hop
  canMatch := (congrArg _ he.callbacks).trans h.canMatch
  exclude := fun f' activating hcall => by
    rcases matching_of_engineStep hcall with ⟨f, hf, hex⟩ | ⟨p, x, rfl⟩ | ⟨id, -, hex⟩
    · exact hex.trans (h.exclude f activating hf)
    · exact hop.2
    · exact hex

end Crossed

variable {ctx : OmOrderbookContext} {p i : Nat}

theorem bestBid_eq (h : ctx.head p true = some i) :
    omOrderbookGetBestBid ctx p = (ctx.slab.order i).price := by
  simp only [OmOrderbookContext.head, ↓reduceIte] at h
  simp only [omOrderbookGetBestBid, h]
  rfl

theorem bestAsk_eq (h : ctx.head p false = some i) :
    omOrderbookGetBestAsk ctx p = (ctx.slab.order i).price := by
  simp only [OmOrderbookContext.head, Bool.false_eq_true, ↓reduceIte] at h
  simp only [omOrderbookGetBestAsk, h]
  rfl

theorem BookInv.head_resting {levels : Levels} {free : List Nat} {b : Bool}
    (h : BookInv ctx levels free) (hi : ctx.head p b = some i) : i ∈ queueOf (levels p b) := by
  obtain ⟨l, hl, rfl⟩ := List.mem_map.mp (front_mem ((h.sides p b).head_eq.symm.trans hi))
  exact head_mem_queueOf hl

/-- An engine without `can_match` whose orders all come through `om_engine_match` or
`om_engine_activate` never has a best bid at or above a best ask. -/
theorem best_bid_lt_best_ask {K : Kavl} {config : OmSlabConfig} {wal : Option OmWalHandle}
    {maxProducts maxOrg : Nat} {ctx : OmOrderbookContext} {callbacks : OmEngineCallbacks}
    {s : EngineState} (hinit : omOrderbookInit config wal maxProducts maxOrg = (.ok, some ctx))
    (hcan : callbacks.canMatch = none) (h : Reach K PlainOk (.start ctx callbacks) s) (p : Nat)
    (hbid : s.book.head p true ≠ none) (hask : s.book.head p false ≠ none) :
    omOrderbookGetBestBid s.book p < omOrderbookGetBestAsk s.book p := by
  obtain ⟨levels, free, hinv, hplain⟩ := Reach.effects (Q := fun s levels _ => PlainRun s levels)
    hinit h (fun _ _ hok => hok.1.opOk) ⟨by simp [Uncrossed, queueOf], hcan, by simp [start]⟩
    fun s op levels free levels' free' hop hinv _ he hq => hq.step hinv hop he
  obtain ⟨i, hi⟩ := Option.ne_none_iff_exists'.mp hbid
  obtain ⟨j, hj⟩ := Option.ne_none_iff_exists'.mp hask
  rw [bestBid_eq hi, bestAsk_eq hj]
  exact hplain.uncrossed p i j (hinv.book.head_resting hi)
    (hinv.book.head_resting hj)

def spreadOps : List Op :=
  [.alloc, .write 2 (unitOrder 1 10 true), .submit 0 2 false, .tick, .tick,
    .alloc, .write 1 (unitOrder 2 12 false), .submit 0 1 false, .tick, .tick]

theorem best_bid_lt_best_ask_small :
    (runOps plainOps smallEngine spreadOps).book.head 0 true ≠ none ∧
    (runOps plainOps smallEngine spreadOps).book.head 0 false ≠ none ∧
    omOrderbookGetBestBid (runOps plainOps smallEngine spreadOps).book 0 <
      omOrderbookGetBestAsk (runOps plainOps smallEngine spreadOps).book 0 := by
  have hbid : (runOps plainOps smallEngine spreadOps).book.head 0 true ≠ none := by
    decide +kernel
  have hask : (runOps plainOps smallEngine spreadOps).book.head 0 false ≠ none := by
    decide +kernel
  have hreach : Reach plainOps PlainOk smallEngine
      (runOps plainOps smallEngine spreadOps) :=
    Allowed.reach _ (by decide +kernel) .start
  exact ⟨hbid, hask, best_bid_lt_best_ask smallEngine_init rfl hreach 0 hbid hask⟩

end VeloxMatch
