import VeloxMatch.Filtering
import VeloxMatch.LevelOrg

namespace VeloxMatch

open SearchTree

/-- An order that `engine_match` passes over when it excludes the taker's organisation. -/
def Passed (e : OmEngine) (f : MatchFrame) (o : OmOrderFields) : Prop :=
  o.org = (e.order f.taker).org ∧ o.volumeRemain ≠ 0

/-- Where the filtered match stands when the excluding one is at the first position: it may
still have to pass over orders of the taker's organisation. -/
inductive PcMirrors (e : OmEngine) (f : MatchFrame) : MatchPc → MatchPc → Prop where
  | levels (idx : Option Nat) : PcMirrors e f (.levels idx) (.levels idx)
  | scan {levelPrice head : Nat} {nextLevelIdx idx : Option Nat} :
      Chain e.slab (Passed e f) (some head) idx →
      PcMirrors e f (.scan levelPrice nextLevelIdx head idx)
        (.makers levelPrice nextLevelIdx (some head))
  | makers {levelPrice : Nat} {nextLevelIdx idx idx' : Option Nat} :
      Chain e.slab (Passed e f) idx' idx →
      PcMirrors e f (.makers levelPrice nextLevelIdx idx) (.makers levelPrice nextLevelIdx idx')
  | remove (levelPrice : Nat) (nextLevelIdx : Option Nat) (maker : Nat)
      (nextMakerIdx : Option Nat) (both : Bool) :
      PcMirrors e f (.remove levelPrice nextLevelIdx maker nextMakerIdx both)
        (.remove levelPrice nextLevelIdx maker nextMakerIdx both)
  | book : PcMirrors e f .book .book

inductive Trails (callbacks : OmEngineCallbacks) (base : Nat) :
    OmEngine → MatchNext → OmEngine → MatchNext → Prop where
  | returned {e e' : OmEngine} (rc : OmError) : Mirrors callbacks base e e' →
      Trails callbacks base e (.returned rc) e' (.returned rc)
  | running {e e' : OmEngine} {f : MatchFrame} {pc : MatchPc} : Mirrors callbacks base e e' →
      PcMirrors e f f.pc pc →
      Trails callbacks base e (.running f) e' (f.plain.goto pc)

section Trail

variable {K : Kavl} {callbacks : OmEngineCallbacks} {base : Nat} {e e' : OmEngine} {f : MatchFrame}

theorem PcMirrors.refl {pc : MatchPc} (h : ∀ lp nl head idx, pc ≠ .scan lp nl head idx) :
    PcMirrors e f pc pc := by
  cases pc with
  | levels => exact .levels _
  | scan => exact absurd rfl (h _ _ _ _)
  | makers => exact .makers (.refl _)
  | remove => exact .remove ..
  | book => exact .book

theorem StepMirrors.trails {r r' : OmEngine × MatchNext} (h : StepMirrors callbacks base r r')
    (hmove : MatchMoves K e f r) (hlevels : ∀ idx, f.pc ≠ .levels idx)
    (hscan : ∀ lp nl head idx, f.pc ≠ .scan lp nl head idx) :
    Trails callbacks base r.1 r.2 r'.1 r'.2 := by
  obtain ⟨e1, next⟩ := r
  obtain ⟨e1', next'⟩ := r'
  obtain rfl : next' = next.plain := h.next
  cases next with
  | returned rc => exact .returned rc h.engine
  | running f' =>
    refine .running h.engine (.refl fun lp nl head idx hpc => ?_)
    obtain ⟨-, -, ⟨⟨i, hi⟩, -⟩ | ⟨i, hi, -⟩⟩ := hmove.scan hpc
    · exact hlevels i hi
    · exact hscan _ _ _ _ hi

theorem Mirrors.skip (h : Mirrors callbacks base e e') (hr : f.takerRemaining ≠ 0)
    {levelPrice : Nat} {nextLevelIdx idx idx' : Option Nat}
    (hchain : Chain e.slab (Passed e f) idx' idx) :
    ∃ e1, Mirrors callbacks base e e1 ∧
      Steps K e' (f.plain.goto (.makers levelPrice nextLevelIdx idx'))
        e1 (f.plain.goto (.makers levelPrice nextLevelIdx idx)) := by
  induction hchain generalizing e' with
  | refl => exact ⟨e', h, .refl ..⟩
  | @step i idx hi hpassed _ ih =>
    obtain ⟨e2, hask, h2⟩ : ∃ e2, askStep e'
        ({ f with pc := .makers levelPrice nextLevelIdx (some i) } : MatchFrame).plain levelPrice
        nextLevelIdx i (e.slab.next .timeFifo i) =
          (e2, f.plain.goto (.makers levelPrice nextLevelIdx (e.slab.next .timeFifo i))) ∧
        Mirrors callbacks base e e2 := h.askStep_own hpassed.1
    obtain ⟨e1, h1, hsteps⟩ := ih h2
    refine ⟨e1, h1, .step ?_ hsteps⟩
    have hslot : omSlotFromIdx e'.slab (some i) = some i := h.slab ▸ omSlotFromIdx_some hi
    have hvolume : (e'.order i).volumeRemain ≠ 0 := h.order i ▸ hpassed.2
    rw [← hask, ← h.slab]
    exact makersStep_ask hr hslot (fun hx => Bool.false_ne_true hx.1) hvolume

end Trail

structure Excluding (e : OmEngine) (f : MatchFrame) (levels : Levels) (free : List Nat) : Prop where
  inv : MatchInv e f levels free
  known : SideKnown e.orderbook (levels f.productId (!f.takerIsBid))
  stocked : f.pc.pending = none →
    ∀ i ∈ queueOf (levels f.productId (!f.takerIsBid)), (e.order i).volumeRemain ≠ 0
  exclude : f.excludeSameOrg = true
  bound : f.takerRemaining < 2 ^ 64

section Step

variable {K : Kavl} {callbacks : OmEngineCallbacks} {base levelPrice : Nat} {e e' : OmEngine}
  {f : MatchFrame} {levels : Levels} {free : List Nat} {idx nextLevelIdx : Option Nat}

theorem Excluding.known_chain {level : Nat} (h : Excluding e f levels free)
    (hpc : f.pc = .levels idx) (hs : omSlotFromIdx e.slab idx = some level)
    (hknown : e.orderbook.knownOrg level = some (e.order f.taker).org) :
    Chain e.slab (Passed e f) (some level) none := by
  obtain ⟨pre, visited, todo, post, hpos, -⟩ := h.inv.standing
  rw [hpc] at hpos
  obtain ⟨hlevels, rfl, rfl, rfl⟩ := hpos
  have hside := h.inv.side
  rw [hlevels] at hside
  obtain ⟨l, post', rfl, rfl, -⟩ := hside.some_level hs
  have hl : l ∈ levels f.productId (!f.takerIsBid) := by simp [hlevels]
  have hrest : ∀ i ∈ l.slots, i ∈ queueOf (levels f.productId (!f.takerIsBid)) :=
    fun i hi => mem_queueOf.mpr ⟨l, hl, hi⟩
  have hchain : Chain e.slab (Passed e f) (front l.slots none) none := by
    refine Chain.of_all (h.inv.side.queues l hl)
      (fun i hi => h.inv.side.lt_capacity i (hrest i hi)) fun i hi => ⟨?_, ?_⟩
    · exact h.known l hl _ hknown i hi
    · exact h.stocked (by rw [hpc]; rfl) i (hrest i hi)
  exact hchain

theorem Excluding.levelsStep (h : Excluding e f levels free) (hm : Mirrors callbacks base e e')
    (hpc : f.pc = .levels idx) :
    Trails callbacks base e (levelsStep e f idx) e' (levelsStep e' f.plain idx) := by
  have hboth : ∀ pc, (∀ lp nl head idx, pc ≠ .scan lp nl head idx) →
      Trails callbacks base e (f.goto pc) e' (f.plain.goto pc) :=
    fun pc hscan => .running (f := { f with pc := pc }) hm (.refl hscan)
  unfold VeloxMatch.levelsStep
  rw [hm.slab]
  by_cases h0 : f.takerRemaining = 0
  · have h0' : f.plain.takerRemaining = 0 := h0
    rw [if_pos h0, if_pos h0']
    exact .returned .ok hm
  · have h0' : f.plain.takerRemaining ≠ 0 := h0
    rw [if_neg h0, if_neg h0']
    cases hs : omSlotFromIdx e.slab idx with
    | none => exact hboth .book (by simp)
    | some level =>
      simp only [hm.order, MatchFrame.taker_plain, h.exclude, true_and]
      by_cases hb : f.beyondLimit (e.order level).price
      · have hb' : f.plain.beyondLimit (e.order level).price := hb
        rw [if_pos hb, if_pos hb']
        exact hboth .book (by simp)
      · have hb' : ¬ f.plain.beyondLimit (e.order level).price := hb
        have hplain : ¬ (f.plain.excludeSameOrg = true ∧
          (e.order level).org = (e.order f.taker).org) := fun hx => Bool.false_ne_true hx.1
        rw [if_neg hb, if_neg hb', if_neg hplain]
        by_cases horg : (e.order level).org = (e.order f.taker).org
        · rw [if_pos horg]
          cases hknown : e.orderbook.knownOrg level with
          | none => exact .running hm (.scan (.refl _))
          | some known =>
            dsimp only
            by_cases hsame : known = (e.order f.taker).org
            · rw [if_pos hsame]
              refine .running hm (.makers ?_)
              exact h.known_chain hpc hs (hsame ▸ hknown)
            · rw [if_neg hsame]
              exact hboth _ (by simp)
        · rw [if_neg horg]
          exact hboth _ (by simp)

theorem Excluding.passed {i : Nat} (h : Excluding e f levels free)
    (hpc : (∃ head, f.pc = .scan levelPrice nextLevelIdx head idx) ∨
      f.pc = .makers levelPrice nextLevelIdx idx)
    (hs : omSlotFromIdx e.slab idx = some i) (horg : (e.order i).org = (e.order f.taker).org) :
    Passed e f (e.slab.order i) := by
  obtain ⟨pre, visited, todo, post, hpos, -⟩ := h.inv.standing
  have hcur : Cursor (levels f.productId (!f.takerIsBid)) pre visited todo post nextLevelIdx idx ∧
      f.pc.pending = none := by
    rcases hpc with ⟨head, hpc⟩ | hpc
    · rw [hpc] at hpos ⊢
      exact ⟨hpos.1, rfl⟩
    · rw [hpc] at hpos ⊢
      exact ⟨hpos.1, rfl⟩
  obtain ⟨todo', rfl, -⟩ := hcur.1.some_slot h.inv.side hs
  exact ⟨horg, h.stocked hcur.2 i (hcur.1.mem_queueOf (by simp))⟩

theorem Excluding.scanStep {head : Nat} (h : Excluding e f levels free)
    (hm : Mirrors callbacks base e e') (hpc : f.pc = .scan levelPrice nextLevelIdx head idx)
    (hchain : Chain e.slab (Passed e f) (some head) idx) :
    Trails callbacks base (scanStep e f levelPrice nextLevelIdx head idx).1
      (scanStep e f levelPrice nextLevelIdx head idx).2 e'
      (f.plain.goto (.makers levelPrice nextLevelIdx (some head))) := by
  cases idx with
  | none =>
    refine .running ?_ (.makers hchain)
    exact ⟨hm.user, hm.filter, hm.base_le, hm.events, hm.book, hm.trace, hm.bookings⟩
  | some i =>
    unfold VeloxMatch.scanStep
    dsimp only
    cases hs : omSlotFromIdx e.slab (some i) with
    | none => exact .running hm (.makers hchain)
    | some j =>
      obtain rfl := eq_of_omSlotFromIdx hs
      dsimp only
      by_cases horg : (e.order i).org = (e.order f.taker).org
      · rw [if_neg (not_not_intro horg)]
        refine .running hm (.scan ?_)
        exact hchain.snoc (omSlotFromIdx_eq_some.mp hs).2 (h.passed (Or.inl ⟨_, hpc⟩) hs horg)
      · rw [if_pos horg]
        exact .running hm (.makers hchain)

theorem Excluding.makersStep {idx' : Option Nat} (h : Excluding e f levels free)
    (hm : Mirrors callbacks base e e') (hpc : f.pc = .makers levelPrice nextLevelIdx idx)
    (hchain : Chain e.slab (Passed e f) idx' idx) :
    ∃ e1 next1, Steps K e' (f.plain.goto (.makers levelPrice nextLevelIdx idx')) e1 next1 ∧
      Trails callbacks base (makersStep e f levelPrice nextLevelIdx idx).1
        (makersStep e f levelPrice nextLevelIdx idx).2 e1 next1 := by
  by_cases h0 : f.takerRemaining = 0
  · refine ⟨e', .returned .ok, .step ?_ (.refl ..), ?_⟩
    · simp only [matchStep]
      exact if_pos h0
    · simp only [VeloxMatch.makersStep, if_pos h0]
      exact .returned .ok hm
  · by_cases hown : ∃ maker, omSlotFromIdx e.slab idx = some maker ∧
        (e.order maker).org = (e.order f.taker).org
    · -- the excluding match goes on alone
      obtain ⟨maker, hs, horg⟩ := hown
      refine ⟨e', _, .refl .., ?_⟩
      simp only [VeloxMatch.makersStep, if_neg h0, hs, h.exclude, horg, and_self, ↓reduceIte]
      refine .running hm (.makers ?_)
      obtain ⟨rfl, hlt⟩ := omSlotFromIdx_eq_some.mp hs
      exact hchain.snoc hlt (h.passed (Or.inr hpc) hs horg)
    · -- the filtered match catches up and takes the same step
      obtain ⟨e1, h1, hsteps⟩ := hm.skip (K := K) h0 hchain
      have hboth : StepMirrors callbacks base
          (VeloxMatch.makersStep e f levelPrice nextLevelIdx idx)
          (VeloxMatch.makersStep e1 f.plain levelPrice nextLevelIdx idx) :=
        h1.makersStep (fun maker hs horg => hown ⟨maker, hs, horg⟩) h.bound
      refine ⟨_, _, hsteps.trans (.step rfl (.refl ..)), ?_⟩
      refine hboth.trails (makersStep_move K hpc) ?_ ?_
      · exact fun i hi => by cases hpc.symm.trans hi
      · exact fun lp nl head i hi => by cases hpc.symm.trans hi

/-- Whatever step the excluding match takes, the filtered one can follow. -/
theorem Trails.step {next' : MatchNext} (hf : Trails callbacks base e (.running f) e' next')
    (h : Excluding e f levels free) :
    ∃ e1 next1, Steps K e' next' e1 next1 ∧
      Trails callbacks base (matchStep K e f).1 (matchStep K e f).2 e1 next1 := by
  cases hf with
  | running hm hpcs =>
    have hmove := matchStep_move K e f
    cases hpc : f.pc with
    | levels idx =>
      rw [hpc] at hpcs
      cases hpcs
      refine ⟨_, _, .step rfl (.refl ..), ?_⟩
      simp only [matchStep, hpc]
      exact h.levelsStep hm hpc
    | scan levelPrice nextLevelIdx head idx =>
      rw [hpc] at hpcs
      cases hpcs with
      | scan hchain =>
        refine ⟨_, _, .refl .., ?_⟩
        simp only [matchStep, hpc]
        exact h.scanStep hm hpc hchain
    | makers levelPrice nextLevelIdx idx =>
      rw [hpc] at hpcs
      cases hpcs with
      | makers hchain =>
        simp only [matchStep, hpc]
        exact h.makersStep hm hpc hchain
    | remove levelPrice nextLevelIdx maker nextMakerIdx both =>
      rw [hpc] at hpcs
      cases hpcs
      refine ⟨_, _, .step rfl (.refl ..), ?_⟩
      simp only [matchStep, hpc] at hmove ⊢
      exact (hm.removeStep both).trails hmove (by simp [hpc]) (by simp [hpc])
    | book =>
      rw [hpc] at hpcs
      cases hpcs
      refine ⟨_, _, .step rfl (.refl ..), ?_⟩
      simp only [matchStep, hpc] at hmove ⊢
      exact hm.bookStep.trails hmove (by simp [hpc]) (by simp [hpc])

end Step

section Run

variable {K : Kavl} {s : EngineState} {f : MatchFrame} {levels : Levels} {free : List Nat}

theorem MatchMove.takerRemaining_le {e e' : OmEngine} {f' : MatchFrame}
    (h : MatchMove K e f e' (.running f')) : f'.takerRemaining ≤ f.takerRemaining := by
  generalize hn : MatchNext.running f' = next at h
  cases h with
  | walk | learn | cancelMaker =>
    cases hn
    exact le_rfl
  | reduce =>
    cases hn
    exact Nat.sub_le _ _
  | remove =>
    unfold removeStep at hn
    split at hn
    · cases hn
      exact Nat.zero_le _
    · cases hn
      exact le_rfl
  | used | refused | decline | book | bookFailed => cases hn

theorem OrgSound.excluding (h : OrgSound s levels) (hinv : EngineInv s levels free)
    (hcall : s.call = some (.matching f false)) (hexclude : f.excludeSameOrg = true)
    (hbound : f.takerRemaining < 2 ^ 64) : Excluding s.engine f levels free where
  inv := (hinv.matching hcall).1
  known := h.known _ _
  stocked := fun hpc i hi => by
    have hentry := h.stocked _ _ (hinv.book.resting hi).1
    rw [EngineInv.pending_eq hcall, hpc] at hentry
    exact Nat.pos_iff_ne_zero.mp (hentry.resolve_right (by simp))
  exclude := hexclude
  bound := hbound

/-- The excluding match returns only when the filtered one does, and with the same result. -/
theorem Trails.run {callbacks : OmEngineCallbacks} {base fuel : Nat} {e' e1 : OmEngine}
    {next' : MatchNext} {rc : OmError} (hinv : EngineInv s levels free) (h : OrgSound s levels)
    (hcall : s.call = some (.matching f false)) (hexclude : f.excludeSameOrg = true)
    (hbound : f.takerRemaining < 2 ^ 64) (hf : Trails callbacks base s.engine (.running f) e' next')
    (hrun : engineMatchLoop K fuel s.engine (.running f) = some (e1, rc)) :
    ∃ fuel' e2, engineMatchLoop K fuel' e' next' = some (e2, rc) ∧
      Mirrors callbacks base e1 e2 := by
  induction fuel generalizing s f levels free e' next' with
  | zero => cases hrun
  | succ fuel ih =>
    obtain ⟨e2, next2, hsteps, hf2⟩ := hf.step (K := K) (h.excluding hinv hcall hexclude hbound)
    have hmove := matchStep_move K s.engine f
    have htick : engineStep K s .tick =
        afterMatch { s with engine := (matchStep K s.engine f).1 } f false
          (matchStep K s.engine f).2 := by
      simp only [engineStep, hcall, tickMatch]
    simp only [engineMatchLoop] at hrun
    cases hnext : (matchStep K s.engine f).2 with
    | returned rc' =>
      rw [hnext] at hrun hf2
      have hret : engineMatchLoop K fuel (matchStep K s.engine f).1 (.returned rc') =
          some ((matchStep K s.engine f).1, rc') := by cases fuel <;> rfl
      cases hret.symm.trans hrun
      cases hf2 with
      | returned _ hm =>
        obtain ⟨fuel', hfuel⟩ := hsteps.returned
        exact ⟨fuel', _, hfuel, hm⟩
    | running f' =>
      rw [hnext] at hrun hf2 hmove htick
      have hstepped : Stepped K .tick s levels free (engineStep K s .tick) :=
        engineStep_stepped hinv ⟨trivial, trivial⟩
      obtain ⟨levels', free', hinv', he⟩ := hstepped
      have h' := h.effect hinv (show EngineOk s .tick from trivial) he
      rw [htick] at hinv' h'
      obtain ⟨fuel', e3, hloop, hm⟩ := ih hinv' h' rfl (hmove.excludeSameOrg.trans hexclude)
        (hmove.takerRemaining_le.trans_lt hbound) hf2 hrun
      obtain ⟨fuel'', hfuel⟩ := hsteps.loop hloop
      exact ⟨fuel'', e3, hfuel, hm⟩

end Run

theorem mirrors_filtering (e : OmEngine) : Mirrors e.callbacks e.events.length e
    { e with callbacks := e.callbacks.filtering e.events.length } where
  user := rfl
  filter := rfl
  base_le := le_rfl
  events := by simp [OmEngineCallbacks.heard]
  book := rfl
  trace := rfl
  bookings := rfl

theorem matchStart_filtering (e : OmEngine) (base p x : Nat) :
    matchStart { e with callbacks := e.callbacks.filtering base } p x false =
      (matchStart e p x true).plain := by
  by_cases h0 : (e.order x).volumeRemain = 0
  · have h0' : (OmEngine.order { e with callbacks := e.callbacks.filtering base } x).volumeRemain =
        0 := h0
    simp only [matchStart, if_pos h0, if_pos h0']
    rfl
  · have h0' : (OmEngine.order { e with callbacks := e.callbacks.filtering base } x).volumeRemain ≠
        0 := h0
    simp only [matchStart, if_neg h0, if_neg h0']
    rfl

/-- `om_engine_match_excluding_org` does what `om_engine_match` does behind a filter that answers
0 for makers of the taker's organisation: in every reachable state, for every taker and all
callbacks, both return the same, with the same log, orders, levels and trades, and the user's
callbacks have seen the same calls. Only the organisations known of the levels may differ. -/
theorem omEngineMatchExcludingOrg_eq_filtering {K : Kavl} {config : OmSlabConfig}
    {wal : Option OmWalHandle} {maxProducts maxOrg : Nat} {ctx : OmOrderbookContext}
    {callbacks : OmEngineCallbacks} {s : EngineState} {p x : Nat}
    (hinit : omOrderbookInit config wal maxProducts maxOrg = (.ok, some ctx))
    (hreach : Reach K EngineOk (.start ctx callbacks) s) (hidle : s.call = none) (hx : x ∈ s.held)
    (hactive : ¬ Deactivated s.book x) (hbound : (s.engine.order x).volumeRemain < 2 ^ 64) :
    ∃ fuel fuel' e₁ e₂ rc,
      omEngineMatchExcludingOrg K fuel s.engine p x = some (e₁, rc) ∧
      omEngineMatch K fuel'
        { s.engine with callbacks := s.engine.callbacks.filtering s.engine.events.length } p x =
          some (e₂, rc) ∧
      Mirrors s.engine.callbacks s.engine.events.length e₁ e₂ := by
  obtain ⟨levels, free, hinv, hsound⟩ := Reach.orgSound hinit hreach
  have hmirror := mirrors_filtering s.engine
  cases hstart : matchStart s.engine p x true with
  | returned rc =>
    refine ⟨0, 0, _, _, rc, ?_, ?_, hmirror⟩
    · rw [omEngineMatchExcludingOrg, hstart]
      rfl
    · rw [omEngineMatch, matchStart_filtering, hstart]
      rfl
  | running f =>
    obtain ⟨hmatch, htaker, -, hexclude, -⟩ :=
      matchStart_inv hinv.book (hinv.held.spare x hx) hactive hstart
    obtain ⟨hpc, hremaining⟩ : (∃ idx, f.pc = .levels idx) ∧
        f.takerRemaining = (s.engine.order x).volumeRemain := by
      simp only [matchStart] at hstart
      split at hstart
      next => cases hstart
      next =>
        cases hstart
        exact ⟨⟨_, rfl⟩, rfl⟩
    obtain ⟨idx, hpc⟩ := hpc
    obtain ⟨fuel, ⟨e₁, rc⟩, hrun⟩ := hmatch.returns (K := K)
    let s₁ : EngineState := { s with call := some (.matching f false) }
    have hinv₁ : EngineInv s₁ levels free := ⟨hinv.book, hinv.held, hmatch, by simp [htaker, hx, s₁]⟩
    have hsound₁ : OrgSound s₁ levels := by
      refine ⟨hsound.known, fun f' _ _ _ _ _ hcall hscan => ?_, fun id entry he =>
        .inl (hsound.stocked.of_idle hidle id entry he)⟩
      cases hcall
      cases hpc.symm.trans hscan
    have htrails : Trails s.engine.callbacks s.engine.events.length s.engine (.running f)
        { s.engine with callbacks := s.engine.callbacks.filtering s.engine.events.length }
        (.running f.plain) := .running hmirror (hpc ▸ .levels idx)
    obtain ⟨fuel', e₂, hrun', hm⟩ :=
      htrails.run (s := s₁) hinv₁ hsound₁ rfl hexclude (hremaining ▸ hbound) hrun
    refine ⟨fuel, fuel', e₁, e₂, rc, ?_, ?_, hm⟩
    · rw [omEngineMatchExcludingOrg, hstart]
      exact hrun
    · rw [omEngineMatch, matchStart_filtering, hstart]
      exact hrun'

/-- Asks of two organisations rest at one price, and a bid of the first one is ready. -/
def twoOrgsOps : List Op :=
  [.alloc, .write 2 (unitOrder 1 10 false), .submit 0 2 false, .tick, .tick,
    .alloc, .write 1 { unitOrder 2 10 false with
      order := { (unitOrder 2 10 false).order with org := 1 } }, .submit 0 1 false, .tick, .tick,
    .alloc, .write 0 (unitOrder 3 10 true)]

def twoOrgsState : EngineState :=
  runOps plainOps
    (.start (freshBook (freshSlab smallConfig) none 1 2) noCallbacks) twoOrgsOps

theorem omEngineMatchExcludingOrg_eq_filtering_twoOrgs :
    Reach plainOps EngineOk
      (.start (freshBook (freshSlab smallConfig) none 1 2) noCallbacks) twoOrgsState ∧
    ∃ fuel fuel' e₁ e₂ rc,
      omEngineMatchExcludingOrg plainOps fuel twoOrgsState.engine 0 0 = some (e₁, rc) ∧
      omEngineMatch plainOps fuel'
        { twoOrgsState.engine with callbacks :=
            twoOrgsState.engine.callbacks.filtering twoOrgsState.engine.events.length } 0 0 =
          some (e₂, rc) ∧
      Mirrors twoOrgsState.engine.callbacks twoOrgsState.engine.events.length e₁ e₂ := by
  have hreach : Reach plainOps EngineOk
      (.start (freshBook (freshSlab smallConfig) none 1 2) noCallbacks) twoOrgsState :=
    Allowed.reach _ (by decide +kernel) .start
  exact ⟨hreach, omEngineMatchExcludingOrg_eq_filtering smallEngine_init hreach
    (by decide +kernel) (by decide +kernel) (by decide +kernel) (by decide +kernel)⟩

end VeloxMatch
