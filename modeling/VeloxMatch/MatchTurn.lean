import VeloxMatch.EngineTick
import VeloxMatch.Reference

namespace VeloxMatch

variable {e e' : OmEngine} {K : Kavl} {next next' : MatchNext}

def Working (wal : Option OmWalHandle) : Prop := ∀ w ∈ wal, ∀ n, w.accepts n = true

theorem book_log_working {ctx : OmOrderbookContext} (h : Working ctx.wal)
    (r : OmWalHandle → OmWalRecord) :
    ∃ w, ctx.log (fun h => h.append (r h)) = (true, { ctx with wal := w }) ∧ Working w := by
  cases hw : ctx.wal with
  | none =>
    refine ⟨none, ?_, by simp [Working]⟩
    simp only [OmOrderbookContext.log, hw]
    rw [← hw]
  | some w =>
    have ha : w.accepts w.attempts = true := h w (by rw [hw]; rfl) _
    refine ⟨_, by simp [OmOrderbookContext.log, hw, OmWalHandle.append, ha]; rfl, ?_⟩
    intro w' hw'
    cases hw'
    exact h w (by rw [hw]; rfl)

theorem log_working (h : Working e.orderbook.wal) (r : OmWalHandle → OmWalRecord) :
    ∃ w, e.log (fun h => h.append (r h)) =
        (true, { e with orderbook := { e.orderbook with wal := w } }) ∧ Working w := by
  obtain ⟨w, hlog, hw⟩ := book_log_working h r
  exact ⟨w, by rw [OmEngine.log, hlog], hw⟩

theorem emit_eq (e : OmEngine) (registered : Bool) (event : OmEvent) :
    e.emit registered event = { e with events := notify registered event e.events } := by
  cases registered <;> rfl

section Ask

variable (e : OmEngine) (f : MatchFrame) (levelPrice : Nat) (nextLevelIdx : Option Nat)
  (maker : Nat) (nextMakerIdx : Option Nat)

theorem askStep_eq (h : (e.order f.taker).volumeRemain = f.takerRemaining) :
    askStep e f levelPrice nextLevelIdx maker nextMakerIdx =
      let asked := askMaker e.callbacks e.events (e.order maker) (e.order f.taker)
      let e1 : OmEngine := { e with events := asked.1 }
      match asked.2 with
      | .pass => (e1, f.goto (.makers levelPrice nextLevelIdx nextMakerIdx))
      | .cancel both => cancelMakerStep e1 f levelPrice nextLevelIdx maker nextMakerIdx both
      | .reduce true qty => decrementStep e1 f levelPrice nextLevelIdx maker nextMakerIdx qty
      | .reduce false qty => dealStep e1 f levelPrice nextLevelIdx maker nextMakerIdx qty := by
  unfold askStep askMaker
  cases hc : e.callbacks.canMatch with
  | none => simp only [h]
  | some canMatch =>
    simp only [h, emit_eq, notify, ↓reduceIte, verdictOf]
    generalize canMatch e.events (e.order maker) (e.order f.taker) = answer
    by_cases h1 : answer = omCanMatchCancelMaker
    · subst h1
      rfl
    · by_cases h2 : answer = omCanMatchCancelBoth
      · subst h2
        rfl
      · rw [if_neg (not_or.mpr ⟨h1, h2⟩), if_neg h1, if_neg h2]
        by_cases h3 : answer = omCanMatchDecrementCancel
        · rw [if_pos h3, if_pos h3]
        · rw [if_neg h3, if_neg h3]
          by_cases h4 : answer = 0
          · rw [if_pos h4, if_pos h4]
          · rw [if_neg h4, if_neg h4]

theorem reduceEffect_eq (hne : maker ≠ f.taker)
    (h : (e.order f.taker).volumeRemain = f.takerRemaining)
    (hp : (e.order maker).price = levelPrice) (decrement : Bool) (qty : Nat) :
    (if decrement then decrementEffect e f maker qty else dealEffect e f levelPrice maker qty) =
      ({ (reduceBoth e f maker qty).1 with
          events := notifyReduced e.callbacks decrement ((e.order maker).lessBy qty)
            ((e.order f.taker).lessBy qty) qty e.events },
        { f with takerRemaining := f.takerRemaining - qty }) := by
  have hmaker : (reduceBoth e f maker qty).1.order maker = (e.order maker).lessBy qty := by
    rw [order_reduceBoth e f hne, if_neg hne, if_pos rfl, OmOrderFields.lessBy]
  have htaker : (reduceBoth e f maker qty).1.order f.taker = (e.order f.taker).lessBy qty := by
    rw [order_reduceBoth e f hne, if_pos rfl, OmOrderFields.lessBy, h]
  have hframe : (reduceBoth e f maker qty).2 =
      { f with takerRemaining := f.takerRemaining - qty } := rfl
  have hcall : (reduceBoth e f maker qty).1.callbacks = e.callbacks := rfl
  have hevents : (reduceBoth e f maker qty).1.events = e.events := rfl
  have hp' : ((e.order maker).lessBy qty).price = levelPrice := hp
  simp only [OmEngine.order] at hmaker htaker hp'
  cases decrement with
  | true =>
    simp only [↓reduceIte, decrementEffect, emit_eq, notifyReduced, OmEngine.order, hframe, hmaker,
      htaker, hcall, hevents]
  | false =>
    simp only [dealEffect, emit_eq, notifyReduced, Bool.false_eq_true, ↓reduceIte, OmEngine.order,
      hframe, hmaker, htaker, hcall, hevents, hp']
    split <;> rfl

end Ask

inductive Steps (K : Kavl) : OmEngine → MatchNext → OmEngine → MatchNext → Prop where
  | refl (e : OmEngine) (next : MatchNext) : Steps K e next e next
  | step {e e1 e' : OmEngine} {f : MatchFrame} {next1 next' : MatchNext} :
      matchStep K e f = (e1, next1) → Steps K e1 next1 e' next' → Steps K e (.running f) e' next'

theorem Steps.trans {e1 : OmEngine} {next1 : MatchNext}
    (h : Steps K e next e1 next1) (h' : Steps K e1 next1 e' next') : Steps K e next e' next' := by
  induction h with
  | refl => exact h'
  | step hstep _ ih => exact .step hstep (ih h')

theorem Steps.loop {fuel : Nat} {r : OmEngine × OmError} (h : Steps K e next e' next')
    (hrun : engineMatchLoop K fuel e' next' = some r) :
    ∃ fuel', engineMatchLoop K fuel' e next = some r := by
  induction h with
  | refl => exact ⟨fuel, hrun⟩
  | step hstep _ ih =>
    obtain ⟨fuel', hf⟩ := ih hrun
    refine ⟨fuel' + 1, ?_⟩
    rw [engineMatchLoop, hstep]
    exact hf

theorem Steps.returned {rc : OmError} (h : Steps K e next e' (.returned rc)) :
    ∃ fuel, engineMatchLoop K fuel e next = some (e', rc) :=
  h.loop (show engineMatchLoop K 0 e' (.returned rc) = some (e', rc) from rfl)

/-- What a taker's meeting with one maker leaves alone. -/
structure Turn (p : Nat) (opp : Bool) (x maker : Nat) (e : OmEngine) (levels : Levels)
    (e' : OmEngine) (levels' : Levels) : Prop where
  callbacks : e'.callbacks = e.callbacks
  order : ∀ i, i ≠ maker → i ≠ x → e'.order i = e.order i
  taker : e'.order x = { e.order x with volumeRemain := (e'.order x).volumeRemain }
  known : ∀ id entry, e.orderbook.orderHashmap id = some entry → entry.slotIdx ≠ maker →
    e'.orderbook.orderHashmap id = some entry
  unknown : ∀ id, e.orderbook.orderHashmap id = none → e'.orderbook.orderHashmap id = none
  maxProducts : e'.orderbook.maxProducts = e.orderbook.maxProducts
  maxOrg : e'.orderbook.maxOrg = e.orderbook.maxOrg
  working : Working e.orderbook.wal → Working e'.orderbook.wal
  sides : ∀ p' b, ¬(p' = p ∧ b = opp) → levels' p' b = levels p' b

section Turn

variable {p x maker : Nat} {opp : Bool} {e e1 e' : OmEngine} {levels levels1 levels' : Levels}

theorem Turn.trans (h : Turn p opp x maker e levels e1 levels1)
    (h' : Turn p opp x maker e1 levels1 e' levels') : Turn p opp x maker e levels e' levels' where
  callbacks := h'.callbacks.trans h.callbacks
  order := fun i hm hx => (h'.order i hm hx).trans (h.order i hm hx)
  taker := by rw [h'.taker, h.taker]
  known := fun id entry he hm => h'.known id entry (h.known id entry he hm) hm
  unknown := fun id he => h'.unknown id (h.unknown id he)
  maxProducts := h'.maxProducts.trans h.maxProducts
  maxOrg := h'.maxOrg.trans h.maxOrg
  working := fun hw => h'.working (h.working hw)
  sides := fun p' b hne => (h'.sides p' b hne).trans (h.sides p' b hne)

theorem Turn.sameBook (hs : SameBook e.orderbook e'.orderbook)
    (hc : e'.callbacks = e.callbacks) (hw : Working e.orderbook.wal → Working e'.orderbook.wal)
    (ho : ∀ i, i ≠ maker → i ≠ x → e'.order i = e.order i) :
    Turn p opp x maker e levels e' levels where
  callbacks := hc
  order := ho
  taker := hs.order x
  known := fun id entry he _ => by rw [hs.orderHashmap]; exact he
  unknown := fun id he => by rw [hs.orderHashmap]; exact he
  maxProducts := by rw [hs.rest]
  maxOrg := by rw [hs.rest]
  working := hw
  sides := fun _ _ _ => rfl

theorem Turn.left {ctx : OmOrderbookContext} {free : List Nat}
    (hinv : BookInv e.orderbook levels free) (hm : maker ∈ queueOf (levels p opp))
    (hleft : Left e.orderbook ctx (e.orderbook.slab.order maker).orderId maker)
    (hctx : e'.orderbook = ctx) (hc : e'.callbacks = e.callbacks) :
    Turn p opp x maker e levels e' (levels.drop p opp maker) where
  callbacks := hc
  order := fun i _ _ => by
    rw [OmEngine.order, hctx]
    exact hleft.kept.order i
  taker := by
    rw [OmEngine.order, hctx, hleft.kept.order]
    rfl
  known := fun id entry he hne => by
    rw [hctx, hleft.hash, Function.update_of_ne]
    · exact he
    · rintro rfl
      rw [(hinv.resting hm).1] at he
      cases he
      exact hne rfl
  unknown := fun id he => by
    rw [hctx, hleft.hash]
    by_cases hid : id = (e.orderbook.slab.order maker).orderId
    · rw [hid, Function.update_self]
    · rw [Function.update_of_ne hid, he]
  maxProducts := by rw [hctx, hleft.kept.maxProducts]
  maxOrg := by rw [hctx, hleft.kept.maxOrg]
  working := fun hw => by rw [hctx, hleft.kept.wal]; exact hw
  sides := fun p' b hne => Levels.set_other hne

theorem Turn.insertable (h : Turn p opp x maker e levels e' levels') {p' : Nat}
    (hi : Insertable e.orderbook p' x) : Insertable e'.orderbook p' x := by
  have ho : e'.orderbook.slab.order x =
      { e.orderbook.slab.order x with volumeRemain := (e'.order x).volumeRemain } := h.taker
  rw [Insertable, ho, h.maxProducts, h.maxOrg]
  exact ⟨hi.1, hi.2.1, hi.2.2.1, h.unknown _ hi.2.2.2⟩

end Turn

def Within (e : OmEngine) (f : MatchFrame) (levels : Levels) (n : Nat) : Prop :=
  ∃ pre visited todo post,
    Position e.slab f (levels f.productId (!f.takerIsBid)) pre visited todo post f.pc ∧
    stepsLeft f todo post f.pc ≤ n

section Total

variable {K : Kavl} {e e' e1 e2 : OmEngine} {f f' : MatchFrame} {levels : Levels}
  {free : List Nat} {n : Nat}

theorem Position.reframe {s s' : OmDualSlab} {L pre post : List Level} {visited todo : List Nat}
    {pc : MatchPc} (h : Position s f L pre visited todo post pc)
    (hp : ∀ i, (s'.order i).price = (s.order i).price) :
    Position s' { f with pc := pc } L pre visited todo post pc := by
  have h' := h.congr hp
  cases pc <;> exact h'

theorem MatchInv.walk_within {pc : MatchPc} (h : MatchInv e f levels free)
    (hn : Within e f levels n) (hev : OnlyEvents e e') (hw : Walk e f f.pc pc) :
    MatchInv e' { f with pc := pc } levels free ∧
      ∃ m < n, Within e' { f with pc := pc } levels m := by
  have hs := sameBook_onlyEvents hev
  refine ⟨h.goto hs (by rw [order_onlyEvents hev]) (callbacks_onlyEvents hev)
    (hw.standing h.side h.standing), ?_⟩
  obtain ⟨pre, visited, todo, post, hpos, hle⟩ := hn
  obtain ⟨pre', visited', todo', post', hpos', hlt, -⟩ := hw.position h.side hpos
  exact ⟨_, hlt.trans_le hle, pre', visited', todo', post', hpos'.reframe hs.price, le_rfl⟩

/-- Every step of `engine_match` that does not return comes closer to the end of the loops. -/
theorem MatchMove.descends (hmove : MatchMove K e f e' (.running f')) (h : MatchInv e f levels free)
    (hn : Within e f levels n) :
    ∃ levels' free', MatchInv e' f' levels' free' ∧ ∃ m < n, Within e' f' levels' m := by
  generalize hnext : MatchNext.running f' = next at hmove
  cases hmove with
  | walk hev hw =>
    cases hnext
    exact ⟨levels, free, h.walk_within hn hev hw⟩
  | learn hpc =>
    cases hnext
    refine ⟨levels, free, h.learn hpc _, ?_⟩
    obtain ⟨pre, visited, todo, post, hpos, hle⟩ := hn
    rw [hpc] at hpos hle
    exact ⟨_, hle, pre, visited, todo, post, ⟨hpos.1, hpos.2.1⟩, le_rfl⟩
  | cancelMaker hat hev hlog hev' =>
    cases hnext
    refine ⟨levels, free, h.cancelMaker hat hev hlog hev' _, ?_⟩
    have hs := (sameBook_of_log hev hlog).1.trans (sameBook_onlyEvents hev')
    obtain ⟨pre, visited, todo, post, hpos, hle⟩ := hn
    obtain ⟨todo', rfl, hcur, hprice, hnext⟩ := hat.position h.side hpos
    rw [hat.pc] at hle
    exact ⟨_, hle, pre, visited, _, post, ⟨hcur, fun i hi => (hs.price i).trans (hprice i hi),
      todo', rfl, hnext⟩, le_rfl⟩
  | @reduce e1 e2 _ levelPrice maker qty nextLevelIdx makerIdx hat hev hpos hqty hvol hlog hev' =>
    cases hnext
    refine ⟨levels, free, h.reduce hat hev hlog hev', ?_⟩
    have hs := ((sameBook_of_log hev hlog).1.trans (reduceBoth_sameBook e2 f maker qty)).trans
      (sameBook_onlyEvents hev')
    obtain ⟨pre, visited, todo, post, hpos', hle⟩ := hn
    obtain ⟨todo', rfl, hcur, hprice, hnext⟩ := hat.position h.side hpos'
    have hprice' := fun i hi => (hs.price i).trans (hprice i hi)
    rw [hat.pc] at hle
    simp only [stepsLeft] at hle
    -- the taker has lost volume, whatever becomes of the maker
    split
    next =>
      refine ⟨_, ?_, pre, visited, maker :: todo', post, ⟨hcur, hprice', todo', rfl, hnext⟩, le_rfl⟩
      simp only [stepsLeft, reduceBoth]
      omega
    next =>
      refine ⟨_, ?_, pre, visited, maker :: todo', post, ⟨hcur, hprice'⟩, le_rfl⟩
      simp only [stepsLeft, reduceBoth]
      omega
  | @remove levelPrice maker nextLevelIdx nextMakerIdx both hpc =>
    obtain ⟨-, ctx, hrun, hkept, -, hinv⟩ := h.remove (K := K) hpc
    rw [removeStep_eq hrun] at hnext ⊢
    cases hnext
    refine ⟨_, _, hinv, ?_⟩
    obtain ⟨pre, visited, todo, post, hpos, hle⟩ := hn
    rw [hpc] at hpos hle
    obtain ⟨hcur, hprice, todo', rfl, rfl⟩ := hpos
    have hs := forfeit_sameBook ctx f.taker both
    refine ⟨_, ?_, pre, visited, todo', post, ⟨?_, fun i hi => ?_⟩, le_rfl⟩
    · simp only [stepsLeft, List.length_cons] at hle ⊢
      split <;> omega
    · rw [Levels.drop, Levels.set_self]
      exact hcur.drop h.side.nodup
    · refine ((hs.price i).trans (congrArg _ (hkept.order i))).trans (hprice i ?_)
      simp only [List.mem_append, List.mem_cons] at hi ⊢
      exact hi.imp_right Or.inr
  | used | refused | decline | book | bookFailed => cases hnext

theorem MatchInv.returns (h : MatchInv e f levels free) :
    ∃ fuel r, engineMatchLoop K fuel e (.running f) = some r := by
  obtain ⟨pre, visited, todo, post, hpos, -⟩ := h.standing
  have hn : Within e f levels (stepsLeft f todo post f.pc) :=
    ⟨pre, visited, todo, post, hpos, le_rfl⟩
  generalize stepsLeft f todo post f.pc = n at hn
  clear hpos
  induction n using Nat.strong_induction_on generalizing e f levels free with
  | _ n ih =>
    have hmove := matchStep_move K e f
    cases hnext : (matchStep K e f).2 with
    | returned rc =>
      refine ⟨1, ((matchStep K e f).1, rc), ?_⟩
      simp only [engineMatchLoop, hnext]
    | running f' =>
      rw [hnext] at hmove
      obtain ⟨levels', free', h', m, hlt, hm⟩ := hmove.descends h hn
      obtain ⟨fuel, r, hr⟩ := ih m hlt h' hm
      refine ⟨fuel + 1, r, ?_⟩
      simp only [engineMatchLoop, hnext, hr]

end Total

end VeloxMatch
