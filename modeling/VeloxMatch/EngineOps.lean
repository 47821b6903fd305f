import VeloxMatch.EngineStep

namespace VeloxMatch

open OmEngine EngineState EngineInv

section Park

variable {K : Kavl} {op : Op} {s s' : EngineState} {levels : Levels} {free : List Nat}
  {id x p : Nat} {e : OmEngine} {c ctx : OmOrderbookContext}

section Known

variable (hentry : e.orderbook.orderHashmap id = some ⟨x, p⟩) (hx : x < e.orderbook.slab.capacity)
include hentry hx

theorem omEngineDeactivate_refused (hact : ¬ Deactivated e.orderbook x)
    (hlog : e.orderbook.log (fun w => omWalDeactivate w id x p) = (false, c)) :
    omEngineDeactivate K e id = (false, { e with orderbook := c }) := by
  have hstatus : ¬ omGetStatus (e.order x).flags = omStatusDeactivated := hact
  simp only [omEngineDeactivate, hentry, slab, omSlotFromIdx_some hx, hstatus, ↓reduceIte,
    log, hlog]

theorem omEngineDeactivate_accepted (hact : ¬ Deactivated e.orderbook x)
    (hlog : e.orderbook.log (fun w => omWalDeactivate w id x p) = (true, c))
    (hrun : omOrderbookUnlinkSlot K c p x = (true, ctx)) :
    omEngineDeactivate K e id =
      (true, { e with orderbook := setStatus ctx x omStatusDeactivated }) := by
  have hstatus : ¬ omGetStatus (e.order x).flags = omStatusDeactivated := hact
  simp only [omEngineDeactivate, hentry, slab, omSlotFromIdx_some hx, hstatus, ↓reduceIte,
    log, hlog, hrun]

theorem activatePrepare_refused (hd : Deactivated e.orderbook x)
    (hlog : e.orderbook.log (fun w => omWalActivate w id x p) = (false, c)) :
    activatePrepare e id = (none, { e with orderbook := c }) := by
  have hstatus : omGetStatus (e.order x).flags = omStatusDeactivated := hd
  simp only [activatePrepare, hentry, slab, omSlotFromIdx_some hx, hstatus, ne_eq,
    not_true_eq_false, ↓reduceIte, log, hlog]

theorem activatePrepare_accepted (hd : Deactivated e.orderbook x)
    (hlog : e.orderbook.log (fun w => omWalActivate w id x p) = (true, c)) :
    activatePrepare e id =
      (some (p, x), { e with orderbook := setStatus (withoutEntry c id) x omStatusNew }) := by
  have hstatus : omGetStatus (e.order x).flags = omStatusDeactivated := hd
  simp only [activatePrepare, hentry, slab, omSlotFromIdx_some hx, hstatus, ne_eq,
    not_true_eq_false, ↓reduceIte, log, hlog]

end Known

theorem omEngineDeactivate_idle
    (h : ∀ x p, e.orderbook.orderHashmap id = some ⟨x, p⟩ → Deactivated e.orderbook x) :
    (omEngineDeactivate K e id).2 = e := by
  unfold omEngineDeactivate
  split
  next => rfl
  next entry hentry =>
    split
    next => rfl
    next order hs =>
      have hd : omGetStatus (e.order order).flags = omStatusDeactivated :=
        eq_of_omSlotFromIdx hs ▸ h entry.slotIdx entry.productId hentry
      rw [if_pos hd]

theorem EngineInv.deactivate (h : EngineInv s levels free) (hcall : s.call = none) :
    Stepped K op s levels free { s with engine := (omEngineDeactivate K s.engine id).2 } := by
  by_cases hex : ∃ x p, s.book.orderHashmap id = some ⟨x, p⟩ ∧ ¬ Deactivated s.book x
  · obtain ⟨x, p, hentry, hact⟩ := hex
    obtain ⟨hid, hlt, hnot, hwhere⟩ := h.book.entry hentry
    cases hlog : s.book.log (fun w => omWalDeactivate w id x p) with
    | mk ok c =>
      cases ok with
      | false =>
        rw [omEngineDeactivate_refused hentry hlt hact hlog]
        obtain ⟨w, rfl, hw⟩ := log_refused hlog
        exact h.refused hw rfl (CallOk.idle hcall)
      | true =>
        rcases hwhere with ⟨b, hb⟩ | hp
        · obtain ⟨w, rfl, happ⟩ := log_accepted hlog
          obtain ⟨ctx, hrun, hbook, hkept, -, hhash⟩ :=
            omOrderbookUnlinkSlot_spec K (h.book.setWal w) hb
          rw [omEngineDeactivate_accepted hentry hlt hact hlog hrun]
          refine ⟨_, _, ⟨hbook, ?_, CallOk.idle hcall⟩, ?_⟩
          · exact h.held.frame hkept.capacity fun _ _ he => hhash ▸ he
          · exact .park hb (pending_none hcall) (hid.symm ▸ happ) hrun hkept hhash
        · exact absurd hp.deactivated hact
  · have hidle : (omEngineDeactivate K s.engine id).2 = s.engine := by
      refine omEngineDeactivate_idle fun x p hentry => ?_
      by_contra hact
      exact hex ⟨x, p, hentry, hact⟩
    rw [hidle]
    exact h.stay

theorem activatePrepare_idle
    (h : ∀ x p, e.orderbook.orderHashmap id = some ⟨x, p⟩ → ¬ Deactivated e.orderbook x) :
    activatePrepare e id = (none, e) := by
  unfold activatePrepare
  split
  next => rfl
  next entry hentry =>
    split
    next => rfl
    next order hs =>
      have hd : omGetStatus (e.order order).flags ≠ omStatusDeactivated :=
        eq_of_omSlotFromIdx hs ▸ h entry.slotIdx entry.productId hentry
      rw [if_pos hd]

theorem not_deactivated_setStatus_new (ctx : OmOrderbookContext) (x : Nat) :
    ¬ Deactivated (setStatus ctx x omStatusNew) x := by
  rw [Deactivated, order_setStatus, if_pos rfl, omGetStatus_omSetStatus]
  decide

theorem BookInv.unparked (h : BookInv ctx levels free) (hentry : ctx.orderHashmap id = some ⟨x, p⟩)
    (hd : Deactivated ctx x) :
    BookInv (setStatus (withoutEntry ctx id) x omStatusNew) levels free ∧
      Spare (setStatus (withoutEntry ctx id) x omStatusNew) free x := by
  have hun := unbooked_withoutEntry h hentry
  obtain ⟨-, hlt, hnot, -⟩ := h.entry hentry
  exact ⟨(h.unpark hentry hd).setOrder _ (Or.inl hun), hun, hnot, hlt⟩

theorem EngineInv.activate (h : EngineInv s levels free) (hcall : s.call = none) :
    Stepped K op s levels free (engineStep K s (.activate id)) := by
  by_cases hex : ∃ x p, s.book.orderHashmap id = some ⟨x, p⟩ ∧ Deactivated s.book x
  · obtain ⟨x, p, hentry, hd⟩ := hex
    obtain ⟨hid, hlt, hnot, -⟩ := h.book.entry hentry
    have hheld : x ∉ s.held := fun hx => (h.held.spare x hx).unbooked _ _ hentry rfl
    cases hlog : s.book.log (fun w => omWalActivate w id x p) with
    | mk ok c =>
      cases ok with
      | false =>
        have hrun := activatePrepare_refused (e := s.engine) hentry hlt hd hlog
        simp only [engineStep, hcall, hrun]
        obtain ⟨w, rfl, hw⟩ := log_refused hlog
        exact h.refused hw (View.ext rfl rfl rfl rfl rfl (pending_none hcall).symm) trivial
      | true =>
        have hrun := activatePrepare_accepted (e := s.engine) hentry hlt hd hlog
        simp only [engineStep, hcall, hrun]
        obtain ⟨w, rfl, happ⟩ := log_accepted hlog
        obtain ⟨hbook, hspare⟩ := (h.book.setWal w).unparked hentry hd
        have hheld' : HeldOk (setStatus (withoutEntry { s.book with wal := w } id) x omStatusNew)
            free s.held := h.held.frame rfl fun _ _ he => (withoutEntry_some.mp he).2
        simp only [startMatch]
        split
        next f hstart =>
          obtain ⟨hinv, htaker, -, -, hpending⟩ := matchStart_inv hbook hspare
            (not_deactivated_setStatus_new _ x) hstart
          refine ⟨levels, free, ⟨hbook, hheld', hinv, by simp [htaker, hheld]⟩, ?_⟩
          refine (Effect.unpark hentry hd (pending_none hcall) happ rfl htaker).at ?_
          refine View.ext rfl rfl rfl rfl rfl ?_
          simp [view, hcall, Call.pending, hpending]
        next rc hstart =>
          have hzero : (s.book.slab.order x).volumeRemain = 0 := by
            simp only [matchStart] at hstart
            split at hstart
            next hv =>
              change ((setStatus (withoutEntry { s.book with wal := w } id) x
                omStatusNew).slab.order x).volumeRemain = 0 at hv
              rw [order_setStatus, if_pos rfl] at hv
              exact hv
            next => cases hstart
          simp only [↓reduceIte]
          refine ⟨levels, x :: free, ⟨?_, ⟨h.held.nodup, fun y hy => ?_⟩, ?_⟩, ?_⟩
          · exact hbook.freeSlot hspare.unbooked hspare.lt_capacity hspare.not_free
          · have hy' := (hheld'.spare y hy).freed (i := x) fun he => hheld (he ▸ hy)
            exact ⟨hy'.unbooked, hy'.not_free, hy'.lt_capacity⟩
          · exact trivial
          · refine (Effect.unparkUsed w _ hentry hd hzero rfl).at ?_
            refine View.ext rfl rfl rfl rfl rfl ?_
            exact (pending_none hcall).symm
  · have hidle : activatePrepare s.engine id = (none, s.engine) :=
      activatePrepare_idle fun x p hentry hd => hex ⟨x, p, hentry, hd⟩
    simp only [engineStep, hcall, hidle]
    exact h.refused (Or.inl rfl)
      (View.ext rfl rfl rfl rfl rfl (pending_none hcall).symm) trivial

end Park

section Side

variable {K : Kavl} {op : Op} {s : EngineState} {levels : Levels} {free : List Nat}
  (h : EngineInv s levels free)
include h

theorem EngineInv.startSide {p cancelled : Nat} {isBid thenAsks : Bool}
    (hpending : s.view.pending = none) :
    Stepped K op s levels free (startSide s p isBid thenAsks cancelled) := by
  refine ⟨levels, free, ⟨h.book, h.held, [], levels p isBid, rfl, ?_⟩, .unchanged ?_⟩
  · exact (h.book.sides p isBid).head_eq
  · exact View.ext rfl rfl rfl rfl rfl hpending.symm

theorem EngineInv.sideOrder {f : SideFrame} {pre post : List Level} {visited todo : List Nat}
    {nextLevelIdx idx : Option Nat} {x : Nat} (hcall : s.call = some (.cancelSide f))
    (hpc : f.pc = .orders nextLevelIdx idx)
    (hcur : Cursor (levels f.productId f.isBid) pre visited (x :: todo) post nextLevelIdx idx)
    (hs : omSlotFromIdx s.book.slab idx = some x)
    (hnext : s.book.slab.next .timeFifo x = front todo none) :
    Stepped K op s levels free (tickSide K s f) := by
  have hpending : s.view.pending = none := by simp [view, hcall, Call.pending]
  have hmem := hcur.mem_queueOf (i := x) (by simp)
  have hentry := (h.book.resting hmem).1
  simp only [tickSide, hpc, hs, orderbook_emit, order_emit, hnext]
  have hview : ∀ (r : Bool × OmOrderbookContext) (c : Option Call), c.bind Call.pending = none →
      ({ s with
          engine := { s.engine.emit s.engine.callbacks.onCancel (.onCancel (s.engine.order x)) with
            orderbook := r.2 }
          call := c } : EngineState).view = { s.view with book := r.2 } := by
    intro r c hc
    refine View.ext rfl (by simp [view]) (by simp [view])
      (by simp [view]) rfl (hc.trans hpending.symm)
  cases hlog : s.book.log (fun w => omWalCancel w (s.book.slab.order x).orderId x f.productId) with
  | mk ok c =>
    cases ok with
    | false =>
      have hrun : omOrderbookCancel K s.engine.orderbook (s.engine.order x).orderId = (false, c) :=
        omOrderbookCancel_refused K hentry hlog
      rw [hrun]
      obtain ⟨w, rfl, hw⟩ := log_refused hlog
      exact h.refused hw (hview (false, { s.book with wal := w }) _ rfl)
        ⟨pre, visited ++ [x], todo, post, hcur.advance⟩
    | true =>
      obtain ⟨ctx, hrun, hbook, hkept, hhash⟩ := omOrderbookCancel_spec K h.book hmem hlog
      obtain ⟨w, rfl, happ⟩ := log_accepted hlog
      have hrun' : omOrderbookCancel K s.engine.orderbook (s.engine.order x).orderId =
        (true, ctx) := hrun
      rw [hrun']
      refine h.cancelResting hentry hmem hpending happ (Or.inr hrun) hbook ⟨hkept, hhash⟩
        (hview (true, ctx) _ rfl) ⟨pre, visited, todo, post, ?_⟩
      rw [Levels.drop, Levels.set_self]
      exact hcur.drop (h.book.sides f.productId f.isBid).nodup

theorem EngineInv.tickSide {f : SideFrame}
    (hcall : s.call = some (.cancelSide f)) : Stepped K op s levels free (tickSide K s f) := by
  have hpending : s.view.pending = none := by simp [view, hcall, Call.pending]
  have hside := h.book.sides f.productId f.isBid
  have hstand := h.call
  rw [hcall] at hstand
  cases hpc : f.pc with
  | levels idx =>
    simp only [CallOk, hpc, SideStanding] at hstand
    obtain ⟨pre, post, hlevels, rfl⟩ := hstand
    rw [hlevels] at hside
    cases hs : omSlotFromIdx s.book.slab (front (post.map Level.head) none) with
    | none =>
      simp only [VeloxMatch.tickSide, hpc, hs]
      split
      next => exact h.startSide hpending
      next =>
        refine ⟨levels, free, ⟨h.book, h.held, trivial⟩, .unchanged ?_⟩
        exact View.ext rfl rfl rfl rfl rfl hpending.symm
    | some level =>
      obtain ⟨l, post', rfl, rfl, hnext⟩ := hside.some_level hs
      simp only [VeloxMatch.tickSide, hpc, hs, hnext]
      refine ⟨levels, free, ⟨h.book, h.held, pre, [], l.slots, post', ?_⟩, .unchanged ?_⟩
      · exact Cursor.start _ l hlevels
      · exact View.ext rfl rfl rfl rfl rfl hpending.symm
  | orders nextLevelIdx idx =>
    simp only [CallOk, hpc, SideStanding] at hstand
    obtain ⟨pre, visited, todo, post, hcur⟩ := hstand
    cases hs : omSlotFromIdx s.book.slab idx with
    | none =>
      obtain rfl := hcur.no_slot hside hs
      simp only [VeloxMatch.tickSide, hpc, hs]
      refine ⟨levels, free, ⟨h.book, h.held, pre ++ Level.ofSlots visited, post, hcur.leave⟩,
        .unchanged ?_⟩
      exact View.ext rfl rfl rfl rfl rfl hpending.symm
    | some x =>
      obtain ⟨todo', rfl, hnext⟩ := hcur.some_slot hside hs
      exact h.sideOrder hcall hpc hcur hs hnext

end Side

/-- Every operation a client may make keeps the invariant and has one of the effects. -/
theorem engineStep_stepped {K : Kavl} {s : EngineState} {levels : Levels} {free : List Nat}
    {op : Op} (h : EngineInv s levels free) (hok : OpOk s op) :
    Stepped K op s levels free (engineStep K s op) := by
  cases hcall : s.call with
  | some call =>
    cases call with
    | matching f activating =>
      cases op with
      | tick =>
        simp only [engineStep, hcall]
        exact h.tickMatch hcall
      | _ =>
        simp only [engineStep, hcall]
        exact h.stay
    | cancelSide f =>
      cases op with
      | tick =>
        simp only [engineStep, hcall]
        exact h.tickSide hcall
      | _ =>
        simp only [engineStep, hcall]
        exact h.stay
  | none =>
    have hpending := pending_none hcall
    cases op with
    | alloc => exact h.alloc hcall
    | release slot =>
      simp only [engineStep, hcall]
      split
      next hslot => exact h.release hcall hslot
      next => exact h.stay
    | write slot order =>
      simp only [engineStep, hcall]
      split
      next hslot => exact h.write hcall hslot order
      next => exact h.stay
    | submit p slot excludeSameOrg =>
      simp only [engineStep, hcall]
      split
      next hslot => exact h.submit hcall hslot hok.1.2
      next => exact h.stay
    | insert p slot =>
      by_cases hslot : slot ∈ s.held
      · exact h.insert hcall hslot hok.1
      · simp only [engineStep, hcall, hslot, ↓reduceIte]
        exact h.stay
    | cancel id =>
      simpa only [engineStep, hcall] using h.cancel (K := K) hcall hok.2
    | bookCancel id =>
      simp only [engineStep, hcall]
      exact h.bookCancel hcall hok.2
    | deactivate id =>
      simpa only [engineStep, hcall] using h.deactivate (K := K) hcall
    | activate id => exact h.activate hcall
    | cancelProductSide p isBid =>
      simp only [engineStep, hcall]
      split
      next => exact h.stay
      next => exact h.startSide hpending
    | cancelProduct p =>
      simp only [engineStep, hcall]
      split
      next => exact h.stay
      next => exact h.startSide hpending
    | tick =>
      simp only [engineStep, hcall]
      exact h.stay

end VeloxMatch
