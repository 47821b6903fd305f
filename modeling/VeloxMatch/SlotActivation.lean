import VeloxMatch.CancelEffects
import VeloxMatch.OrgRun

namespace VeloxMatch

section Entries

variable {K : Kavl} {op : Op} {s s' : EngineState} {levels levels' : Levels} {free free' : List Nat}

/-- Every entry names an order that passes the checks of `om_orderbook_insert` but for its own
entry. -/
def EntriesOk (ctx : OmOrderbookContext) : Prop :=
  ∀ id entry, ctx.orderHashmap id = some entry → entry.productId < ctx.maxProducts ∧
    (ctx.slab.order entry.slotIdx).org < ctx.maxOrg ∧ id ≠ 0

theorem Effect.entriesOk (he : Effect K op s levels free s'.call s'.view levels' free')
    (hinv : EngineInv s levels free) (h : EntriesOk s.book) : EntriesOk s'.book := by
  -- the order of an entry keeps its organisation, for its slot is neither free nor the client's
  have hold : ∀ id entry, s.book.orderHashmap id = some entry →
      entry.productId < s'.book.maxProducts ∧
        (s'.book.slab.order entry.slotIdx).org < s'.book.maxOrg ∧ id ≠ 0 := by
    intro id entry hentry
    have hheld : entry.slotIdx ∉ s.held := fun hx =>
      (hinv.held.spare _ hx).unbooked id entry hentry rfl
    rw [he.limits.1, he.limits.2, (he.sameOrder (hinv.book.entry hentry).2.2.1 hheld).org]
    exact h id entry hentry
  have hmove : EntriesMove s s'.call s'.book free' := he.entries hinv
  cases hmove with
  | same hhash =>
    intro id entry hentry
    rw [hhash] at hentry
    exact hold id entry hentry
  | less _ hhash _ =>
    intro id entry hentry
    rw [hhash] at hentry
    exact hold id entry (update_none_some hentry)
  | @more x p hins hhash horder =>
    intro id entry hentry
    rw [hhash] at hentry
    by_cases hid : id = (s.book.slab.order x).orderId
    · rw [hid, Function.update_self] at hentry
      cases hentry
      rw [he.limits.1, he.limits.2, horder, hid]
      exact ⟨hins.1, hins.2.1, hins.2.2.1⟩
    · rw [Function.update_of_ne hid] at hentry
      exact hold id entry hentry

end Entries

def Accepting (wal : Option OmWalHandle) : Prop := ∀ w ∈ wal, w.accepts w.attempts = true

instance (wal : Option OmWalHandle) : Decidable (Accepting wal) :=
  inferInstanceAs (Decidable (∀ w ∈ wal, w.accepts w.attempts = true))

variable (s : EngineState)

/-- While an activated order has volume left, the log accepts the next record and `pre_booked`,
when its turn comes, agrees. -/
def ActivationTickOk : Option Call → Prop
  | some (.matching f true) => f.takerRemaining ≠ 0 → Accepting s.book.wal ∧
    (f.pc = .book → ∀ preBooked ∈ s.engine.callbacks.preBooked,
      preBooked s.engine.events (s.engine.order f.taker) = true)
  | _ => True

instance : (call : Option Call) → Decidable (ActivationTickOk s call)
  | some (.matching f true) => inferInstanceAs (Decidable (f.takerRemaining ≠ 0 → _))
  | some (.matching _ false) | some (.cancelSide _) | none => inferInstanceAs (Decidable True)

def ActivationOk : Op → Prop
  | .tick => ActivationTickOk s s.call
  | _ => True

instance (op : Op) : Decidable (ActivationOk s op) := by
  induction op using Op.casesOn <;> dsimp only [ActivationOk] <;> infer_instance

section Activation

variable {K : Kavl} {s : EngineState} {f : MatchFrame} {levels : Levels} {free : List Nat}
  {ctx ctx' : OmOrderbookContext} {p x id : Nat} {e : OmEngine} {activating : Bool}

theorem Insertable.sameBook (h : Insertable ctx p x) (hs : SameBook ctx ctx') :
    Insertable ctx' p x := by
  have ho := hs.order x
  rw [Insertable, ho, hs.orderHashmap, hs.maxProducts, hs.maxOrg]
  exact h

theorem Insertable.left {y : Nat} (h : Insertable ctx p x) (hleft : Left ctx ctx' id y) :
    Insertable ctx' p x := by
  rw [Insertable, hleft.kept.order, hleft.kept.maxProducts, hleft.kept.maxOrg]
  refine ⟨h.1, h.2.1, h.2.2.1, ?_⟩
  cases hentry : ctx'.orderHashmap (ctx.slab.order x).orderId with
  | none => rfl
  | some entry =>
    rw [hleft.hash] at hentry
    cases h.2.2.2.symm.trans (update_none_some hentry)

theorem book_log_accepting (h : Accepting ctx.wal) (r : OmWalHandle → OmWalRecord) :
    (ctx.log fun w => w.append (r w)).1 = true := by
  unfold OmOrderbookContext.log
  split
  next => rfl
  next w hw => simp only [OmWalHandle.append, h w (by rw [hw]; rfl), ↓reduceIte]

theorem omOrderbookInsert_insertable (h : BookInv ctx levels free) (hx : Spare ctx free x)
    (hact : ¬ Deactivated ctx x) (hins : Insertable ctx p x) (hlog : Accepting ctx.wal) :
    ∃ ctx', omOrderbookInsert K ctx p x = (.ok, ctx') ∧ Referenced ctx' x := by
  obtain ⟨ctx', hrun, -, -, -, hhash⟩ := omOrderbookInsert_spec K h hx.unbooked hx.not_free
    hx.lt_capacity hact hins.1 hins.2.1 hins.2.2.1 hins.2.2.2
    (Prod.ext (book_log_accepting hlog (insertRecord ctx.slab x p)) rfl)
  refine ⟨ctx', hrun, (ctx.slab.order x).orderId, p, ?_⟩
  rw [hhash, Function.update_self]

theorem bookStep_agreed
    (h : ∀ preBooked ∈ e.callbacks.preBooked, preBooked e.events (e.order f.taker) = true) :
    ∃ e', e'.orderbook = e.orderbook ∧ bookStep K e f = insertTaker K e' f := by
  unfold bookStep
  split
  next => exact ⟨e, rfl, rfl⟩
  next preBooked hpre =>
    refine ⟨_, ?_, if_pos (h preBooked (by rw [hpre]; rfl))⟩
    exact orderbook_emit ..

theorem afterMatch_returned {rc : OmError} :
    (afterMatch s f activating (.returned rc)).call = none ∧
      (afterMatch s f activating (.returned rc)).book.orderHashmap = s.book.orderHashmap := by
  simp only [afterMatch, finishMatch, handOver]
  split <;> split <;> exact ⟨rfl, rfl⟩

/-- What one step of an activation leads to: it goes on and the order can still be booked, or it
ends with the slot booked or free. -/
inductive ActivationMove (f : MatchFrame) (s' : EngineState) : Prop where
  | running {f' : MatchFrame} : s'.call = some (.matching f' true) → f'.taker = f.taker →
      Insertable s'.book f'.productId f'.taker → ActivationMove f s'
  | returned : s'.call = none → Referenced s'.book f.taker ∨ FreeSlot s'.book.slab f.taker →
      ActivationMove f s'

theorem EngineInv.activation_book (h : EngineInv s levels free)
    (hcall : s.call = some (.matching f true)) (hins : Insertable s.book f.productId f.taker)
    (hpc : f.pc = .book) (hok : ActivationOk s .tick) :
    ActivationMove f (engineStep K s .tick) := by
  obtain ⟨hm, -⟩ := h.matching hcall
  have hremaining : f.takerRemaining ≠ 0 := by
    rw [← hm.taker.remaining]
    exact hm.volume_of_book hpc
  simp only [ActivationOk, hcall, ActivationTickOk] at hok
  obtain ⟨hlog, hagreed⟩ := hok hremaining
  obtain ⟨ctx, hrun, hreferenced⟩ := omOrderbookInsert_insertable (K := K) h.book hm.taker.spare
    hm.taker.active hins hlog
  obtain ⟨e, hbook, hstep⟩ := bookStep_agreed (K := K) (hagreed hpc)
  have hmatch : matchStep K s.engine f = insertTaker K e f := by
    simp only [matchStep, hpc, hstep]
  have hrun' : omOrderbookInsert K e.orderbook f.productId f.taker = (.ok, ctx) := by
    rw [hbook]
    exact hrun
  simp only [engineStep, hcall, VeloxMatch.tickMatch, hmatch, insertTaker, hrun']
  refine .returned afterMatch_returned.1 (Or.inl ?_)
  obtain ⟨id, p, hid⟩ := hreferenced
  refine ⟨id, p, ?_⟩
  rw [afterMatch_returned.2]
  change (OmEngine.emit _ _ _).orderbook.orderHashmap id = _
  rw [orderbook_emit]
  exact hid

theorem EngineInv.activation_used (h : EngineInv s levels free)
    (hcall : s.call = some (.matching f true)) (h0 : f.takerRemaining = 0) (hpc : f.pc ≠ .book) :
    ActivationMove f (afterMatch s f true (.returned .ok)) := by
  obtain ⟨hm, -⟩ := h.matching hcall
  have hspare := hm.taker.spare
  have hvol : (s.engine.order f.taker).volumeRemain = 0 := hm.taker.remaining.trans h0
  refine .returned afterMatch_returned.1 (Or.inr ⟨f.taker :: free, ?_, by simp⟩)
  rw [afterMatch, handOver_of_pc hpc]
  simp only [finishMatch, hvol, and_self, ↓reduceIte]
  exact omSlabFree_freeList h.book.freeList hspare.lt_capacity hspare.not_free

theorem EngineInv.activation_tick (h : EngineInv s levels free)
    (hcall : s.call = some (.matching f true)) (hins : Insertable s.book f.productId f.taker)
    (hok : ActivationOk s .tick) : ActivationMove f (engineStep K s .tick) := by
  by_cases hpc : f.pc = .book
  · exact h.activation_book hcall hins hpc hok
  obtain ⟨hm, -⟩ := h.matching hcall
  have hmove := matchStep_move K s.engine f
  simp only [engineStep, hcall]
  change ActivationMove f (afterMatch { s with engine := (matchStep K s.engine f).1 } f true
    (matchStep K s.engine f).2)
  generalize (matchStep K s.engine f).1 = e' at hmove ⊢
  generalize (matchStep K s.engine f).2 = next at hmove ⊢
  cases hmove with
  | walk hev _ => exact .running rfl rfl (hins.sameBook (sameBook_onlyEvents hev))
  | learn _ => exact .running rfl rfl (hins.sameBook (SameBook.setKnownOrg _ _))
  | used h0 _ => exact h.activation_used hcall h0 hpc
  | refused hat hev hlog hr =>
    -- the makers are only asked while the taker has volume, so the log accepts
    obtain ⟨v, rfl⟩ := hev
    obtain ⟨r, rfl⟩ := hr
    simp only [ActivationOk, hcall, ActivationTickOk] at hok
    have hrefused : (s.book.log fun w => w.append (r w)).1 = false := congrArg (fun r => r.1) hlog
    cases (book_log_accepting (hok hat.remaining).1 r).symm.trans hrefused
  | cancelMaker hat hev hlog hev' =>
    exact .running rfl rfl (hins.sameBook
      ((sameBook_of_log hev hlog).1.trans (sameBook_onlyEvents hev')))
  | reduce hat hev hpos hle hvol hlog hev' =>
    exact .running rfl rfl (hins.sameBook (((sameBook_of_log hev hlog).1.trans
      (reduceBoth_sameBook _ f _ _)).trans (sameBook_onlyEvents hev')))
  | @remove levelPrice maker nextLevelIdx nextMakerIdx both hpc =>
    obtain ⟨hmem, ctx, hrun, hkept, hhash, hinv⟩ := hm.remove (K := K) hpc
    rw [removeStep_eq hrun]
    refine .running rfl rfl ?_
    have hctx : Insertable ctx f.productId f.taker := hins.left ⟨hkept, hhash⟩
    cases both
    · exact hctx
    · exact hctx.sameBook (withVolume_sameBook ctx _ _)
  | decline hbook | book hbook | bookFailed hbook => exact absurd hbook hpc

theorem activatePrepare_some {e' : OmEngine} (h : activatePrepare e id = (some (p, x), e')) :
    e.orderbook.orderHashmap id = some ⟨x, p⟩ ∧ ∃ w, e' = { e with
      orderbook := setStatus (withoutEntry { e.orderbook with wal := w } id) x omStatusNew } := by
  unfold activatePrepare at h
  split at h
  next => cases h
  next entry hentry =>
    split at h
    next => cases h
    next order hslot =>
      split at h
      next => cases h
      next =>
        split at h
        next => cases h
        next e1 hlog =>
          cases h
          obtain ⟨w, rfl, -⟩ := engine_log_accepted hlog
          obtain rfl := eq_of_omSlotFromIdx hslot
          exact ⟨hentry, w, rfl⟩

theorem startMatch_matching {excludeSameOrg activating' : Bool} (hcall : s.call = none)
    (h : (startMatch s p x excludeSameOrg activating).call = some (.matching f activating')) :
    activating' = activating ∧ f.taker = x ∧ f.productId = p ∧
      (startMatch s p x excludeSameOrg activating).engine = s.engine := by
  unfold startMatch at h ⊢
  split at h
  next f' hrun =>
    cases h
    simp only [matchStart] at hrun
    split at hrun
    next => cases hrun
    next =>
      cases hrun
      exact ⟨rfl, rfl, rfl, rfl⟩
  next =>
    cases activating <;> cases h.symm.trans hcall

theorem engineStep_activates {op : Op} (hstart : s.call = none)
    (h : (engineStep K s op).call = some (.matching f true)) :
    ∃ id w, s.book.orderHashmap id = some ⟨f.taker, f.productId⟩ ∧ (engineStep K s op).book =
      setStatus (withoutEntry { s.book with wal := w } id) f.taker omStatusNew := by
  cases op with
  | activate id =>
    cases hprepare : activatePrepare s.engine id with
    | mk found e =>
      cases found with
      | none =>
        simp only [engineStep, hstart, hprepare] at h
        cases h
      | some found =>
        obtain ⟨hentry, w, rfl⟩ := activatePrepare_some hprepare
        simp only [engineStep, hstart, hprepare] at h ⊢
        obtain ⟨-, htaker, hproduct, hengine⟩ := startMatch_matching rfl h
        refine ⟨id, w, ?_, ?_⟩
        · rw [htaker, hproduct]
          exact hentry
        · rw [htaker]
          exact congrArg OmEngine.orderbook hengine
  | submit p slot excludeSameOrg =>
    simp only [engineStep, hstart] at h
    split at h
    next => cases (startMatch_matching (s := s.note _) hstart h).1
    next => cases h.symm.trans hstart
  | cancelProductSide | cancelProduct =>
    simp only [engineStep, hstart] at h
    split at h
    next => cases h.symm.trans hstart
    next => cases h
  | alloc | release | write | insert =>
    simp only [engineStep, hstart] at h
    repeat' split at h
    all_goals first | cases h.symm.trans hstart | cases h
  | cancel | bookCancel | deactivate | tick =>
    simp only [engineStep, hstart] at h
    first | cases h | cases h.symm.trans hstart

end Activation

end VeloxMatch
