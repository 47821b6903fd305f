import VeloxMatch.EngineRun

namespace VeloxMatch

open OmDualSlab OmEngine

/-- The same book up to remaining volumes, the log handle and the cached organisations. -/
structure SameBook (ctx ctx' : OmOrderbookContext) : Prop where
  rest : ctx' = { ctx with slab := ctx'.slab, wal := ctx'.wal, knownOrg := ctx'.knownOrg }
  store : SameStore ctx.slab ctx'.slab
  next : ∀ q j, ctx'.slab.next q j = ctx.slab.next q j
  prev : ∀ q j, ctx'.slab.prev q j = ctx.slab.prev q j
  order : ∀ j, ctx'.slab.order j =
    { ctx.slab.order j with volumeRemain := (ctx'.slab.order j).volumeRemain }

section SameBook

variable {ctx ctx' ctx'' : OmOrderbookContext} {levels : Levels} {free : List Nat}

theorem SameBook.refl (ctx : OmOrderbookContext) : SameBook ctx ctx :=
  ⟨rfl, SameStore.refl _, fun _ _ => rfl, fun _ _ => rfl, fun _ => rfl⟩

section Fields

variable (h : SameBook ctx ctx')
include h

theorem SameBook.trans (h' : SameBook ctx' ctx'') : SameBook ctx ctx'' where
  rest := by conv_lhs => rw [h'.rest, h.rest]
  store := h.store.trans h'.store
  next := fun q j => (h'.next q j).trans (h.next q j)
  prev := fun q j => (h'.prev q j).trans (h.prev q j)
  order := fun j => by
    conv_lhs => rw [h'.order j, h.order j]

theorem SameBook.orderHashmap : ctx'.orderHashmap = ctx.orderHashmap := by
  rw [h.rest]

theorem SameBook.maxProducts : ctx'.maxProducts = ctx.maxProducts := by
  rw [h.rest]

theorem SameBook.maxOrg : ctx'.maxOrg = ctx.maxOrg := by
  rw [h.rest]

theorem SameBook.price (j : Nat) :
    (ctx'.slab.order j).price = (ctx.slab.order j).price := by rw [h.order]

theorem SameBook.org (j : Nat) :
    (ctx'.slab.order j).org = (ctx.slab.order j).org := by rw [h.order]

theorem SameBook.flags (j : Nat) :
    (ctx'.slab.order j).flags = (ctx.slab.order j).flags := by rw [h.order]

theorem SameBook.orderId (j : Nat) :
    (ctx'.slab.order j).orderId = (ctx.slab.order j).orderId := by rw [h.order]

end Fields

theorem BookInv.sameBook (h : BookInv ctx levels free) (hs : SameBook ctx ctx') :
    BookInv ctx' levels free := by
  have hslab : BookInv { ctx with slab := ctx'.slab } levels free := by
    apply h.slabFrame (h.freeList.sameStore hs.store fun i => hs.next _ i) hs.store.capacity
    · intro id e _
      exact ⟨fun q _ => hs.next q _, fun q _ => hs.prev q _, hs.price _, hs.flags _, hs.orderId _⟩
    · exact fun id e he => (h.entry he).2.2.1
  rw [hs.rest]
  exact ⟨hslab.sides, hslab.disjoint, hslab.freeList, hslab.resting, fun he => by
    obtain ⟨h1, h2, h3, h4⟩ := hslab.entry he
    exact ⟨h1, h2, h3, h4.imp_right fun hp => ⟨hp.deactivated, hp.next, hp.prev⟩⟩⟩

theorem SameBook.setWal (ctx : OmOrderbookContext) (w : Option OmWalHandle) :
    SameBook ctx { ctx with wal := w } :=
  ⟨rfl, SameStore.refl _, fun _ _ => rfl, fun _ _ => rfl, fun _ => rfl⟩

theorem SameBook.setKnownOrg (ctx : OmOrderbookContext) (k : Nat → Option Nat) :
    SameBook ctx { ctx with knownOrg := k } :=
  ⟨rfl, SameStore.refl _, fun _ _ => rfl, fun _ _ => rfl, fun _ => rfl⟩

theorem order_withVolume (ctx : OmOrderbookContext) (i volume j : Nat) :
    (withVolume ctx i volume).slab.order j =
      if j = i then { ctx.slab.order i with volumeRemain := volume } else ctx.slab.order j := by
  simp [withVolume]

theorem withVolume_sameBook (ctx : OmOrderbookContext) (i volume : Nat) :
    SameBook ctx (withVolume ctx i volume) where
  rest := rfl
  store := sameStore_setOrder _ _ _
  next := fun q j => by simp [withVolume]
  prev := fun q j => by simp [withVolume]
  order := fun j => by
    rw [order_withVolume]
    split
    next he => rw [he]
    next => rfl

theorem forfeit_sameBook (ctx : OmOrderbookContext) (taker : Nat) (both : Bool) :
    SameBook ctx (if both then withVolume ctx taker 0 else ctx) := by
  cases both
  · exact SameBook.refl ctx
  · exact withVolume_sameBook ctx _ _

end SameBook

section Engine

variable {e e' : OmEngine}

@[simp] theorem orderbook_emit (e : OmEngine) (registered : Bool) (event : OmEvent) :
    (e.emit registered event).orderbook = e.orderbook := by
  unfold emit
  split <;> rfl

@[simp] theorem callbacks_emit (e : OmEngine) (registered : Bool) (event : OmEvent) :
    (e.emit registered event).callbacks = e.callbacks := by
  unfold emit
  split <;> rfl

@[simp] theorem trace_emit (e : OmEngine) (registered : Bool) (event : OmEvent) :
    (e.emit registered event).trace = e.trace := by
  unfold emit
  split <;> rfl

@[simp] theorem bookings_emit (e : OmEngine) (registered : Bool) (event : OmEvent) :
    (e.emit registered event).bookings = e.bookings := by
  unfold emit
  split <;> rfl

@[simp] theorem order_emit (e : OmEngine) (registered : Bool) (event : OmEvent) (i : Nat) :
    (e.emit registered event).order i = e.order i := by
  simp [OmEngine.order]

theorem order_setVolumeRemain (e : OmEngine) (i volume j : Nat) :
    (e.setVolumeRemain i volume).order j =
      if j = i then { e.order i with volumeRemain := volume } else e.order j :=
  order_withVolume e.orderbook i volume j

theorem setVolumeRemain_sameBook (e : OmEngine) (i volume : Nat) :
    SameBook e.orderbook (e.setVolumeRemain i volume).orderbook :=
  withVolume_sameBook e.orderbook i volume

theorem engine_log_eq {f : OmWalHandle → Bool × OmWalHandle} {ok : Bool}
    (h : e.log f = (ok, e')) : ∃ w, e' = { e with orderbook := { e.orderbook with wal := w } } := by
  simp only [log] at h
  cases hlog : e.orderbook.log f with
  | mk ok' c =>
    obtain ⟨w, rfl⟩ := log_rest hlog
    rw [hlog] at h
    cases h
    exact ⟨w, rfl⟩

end Engine

open Function

/-- No order rests behind the head of the level that the lookup finds for `x`. -/
def LoneLevel (ctx : OmOrderbookContext) (p x : Nat) : Prop :=
  ∀ head ∈ (findPriceLevelWithInsertionPoint ctx p (ctx.slab.order x).price
    (omIsBid (ctx.slab.order x).flags)).1, ctx.slab.next .timeFifo head = none

instance (ctx : OmOrderbookContext) (p x : Nat) : Decidable (LoneLevel ctx p x) :=
  inferInstanceAs (Decidable (∀ head ∈ (findPriceLevelWithInsertionPoint ctx p _ _).1, _ = _))

section Dead

variable {ctx c : OmOrderbookContext} {levels : Levels} {free : List Nat} {x p id : Nat} (K : Kavl)

/-- Taking an unlinked slot out of a queue it is not in changes the tail mark of the head. -/
theorem removeFromQueue_unlinked {head : Nat} (hnext : ctx.slab.next .timeFifo x = none)
    (hprev : ctx.slab.prev .timeFifo x = none) :
    removeFromQueue ctx head x = { ctx with slab := ctx.slab.setPrev .timeFifo head none } := by
  simp [removeFromQueue, omQueueUnlink, hnext, hprev]

variable (h : BookInv ctx levels free)
include h

theorem BookInv.unlinkParked (hx : Parked ctx x)
    (hlone : LoneLevel ctx p x) : unlinkFromLevel K ctx p x = none ∨
      ∃ c, unlinkFromLevel K ctx p x = some c ∧ SameBook ctx c ∧ Kept ctx c x := by
  rcases findPriceLevel_cases (h.sides p (omIsBid (ctx.slab.order x).flags))
    (ctx.slab.order x).price with ⟨pre, l, post, hlevels, -, hfind⟩ | ⟨pre, post, -, -, -, hfind⟩
  · have hl : l ∈ levels p (omIsBid (ctx.slab.order x).flags) := by simp [hlevels]
    have hne : x ≠ l.head := fun he =>
      (h.resting (head_mem_queueOf hl)).2 (he ▸ hx.deactivated)
    -- the head is alone, so its tail mark was empty before
    have hqueue := (h.sides p _).queues l hl
    have hrest : l.rest = [] := by
      have hnext : ctx.slab.next .timeFifo l.head = front l.rest none := hqueue.2.1
      rw [hlone l.head hfind] at hnext
      exact front_eq_none_iff.mp hnext.symm
    have hmark : ctx.slab.prev .timeFifo l.head = none := by
      have hprev : ctx.slab.prev .timeFifo l.head = l.tailMark := hqueue.1
      rw [hprev, Level.tailMark, hrest]
      rfl
    refine Or.inr ⟨removeFromQueue ctx l.head x, ?_, ?_, ?_⟩
    · simp only [unlinkFromLevel, OmOrderbookContext.order, hfind, hne, ↓reduceIte]
    · rw [removeFromQueue_unlinked hx.next hx.prev]
      refine ⟨rfl, sameStore_setPrev _ _ _ _, fun q j => by simp, fun q j => ?_, fun j => by simp⟩
      by_cases hj : q = .timeFifo ∧ j = l.head
      · obtain ⟨rfl, rfl⟩ := hj
        simp [hmark]
      · have hj' : ¬ (j = l.head ∧ q = .timeFifo) := fun hc => hj ⟨hc.2, hc.1⟩
        simp [prev_setPrev, hj']
    · rw [removeFromQueue_unlinked hx.next hx.prev]
      exact ⟨fun j => by simp, fun _ _ => rfl, rfl, rfl, rfl, rfl, rfl⟩
  · refine Or.inl ?_
    simp only [unlinkFromLevel, OmOrderbookContext.order, hfind]

variable (he : ctx.orderHashmap id = some ⟨x, p⟩)
include he

theorem BookInv.parked (hd : Deactivated ctx x) : Parked ctx x := by
  rcases (h.entry he).2.2.2 with ⟨b, hb⟩ | hp
  · exact absurd hd (h.resting hb).2
  · exact hp

theorem BookInv.releaseParked {ctx' : OmOrderbookContext} (hd : Deactivated ctx x)
    (hsame : SameBook ctx c) (hkept : Kept ctx c x) (horg : OrgFrame c ctx') :
    BookInv (releaseOrder ctx' id x) levels (x :: free) := by
  have hleft : BookInv (withoutEntry c id) levels free :=
    (h.sameBook hsame).unpark (hsame.orderHashmap ▸ he)
      (by rw [Deactivated, hkept.order]; exact hd)
  exact h.release he hleft hsame.orderHashmap hsame.store.capacity horg

theorem omOrderbookRemoveSlot_parked (hd : Deactivated ctx x)
    (hlone : LoneLevel ctx p x) : omOrderbookRemoveSlot K ctx p x = (false, ctx) ∨
      ∃ ctx', omOrderbookRemoveSlot K ctx p x = (true, ctx') ∧
        BookInv ctx' levels (x :: free) ∧ Kept ctx ctx' x ∧
        ctx'.orderHashmap = update ctx.orderHashmap id none := by
  rcases h.unlinkParked K (h.parked he hd) hlone with hrun | ⟨c, hrun, hsame, hkept⟩
  · exact Or.inl (by simp only [omOrderbookRemoveSlot, hrun])
  · have horg := unlinkFromOrg_frame c x
    have hid : ((unlinkFromOrg c x).order x).orderId = id := by
      change ((unlinkFromOrg c x).slab.order x).orderId = _
      rw [horg.order, hkept.order, (h.entry he).1]
    refine Or.inr ⟨releaseOrder (unlinkFromOrg c x) id x, ?_, ?_, ?_, ?_⟩
    · simp only [omOrderbookRemoveSlot, hrun, hid]
    · exact h.releaseParked he hd hsame hkept horg
    · exact hkept.trans ((horg.kept x).trans (releaseOrder_kept _ id x))
    · change update (unlinkFromOrg c x).orderHashmap id none = _
      rw [horg.orderHashmap, hsame.orderHashmap]

theorem omOrderbookCancel_parked (hd : Deactivated ctx x) (hlone : LoneLevel ctx p x)
    (hlog : ctx.log (fun w => omWalCancel w id x p) = (true, c)) :
    omOrderbookCancel K ctx id = (false, c) ∨
      ∃ ctx', omOrderbookCancel K ctx id = (true, ctx') ∧
        BookInv ctx' levels (x :: free) ∧ Kept c ctx' x ∧
        ctx'.orderHashmap = update ctx.orderHashmap id none := by
  obtain ⟨w, rfl⟩ := log_rest hlog
  have hbook := h.setWal w
  have hentry : ({ ctx with wal := w } : OmOrderbookContext).orderHashmap id = some ⟨x, p⟩ := he
  rcases hbook.unlinkParked K (hbook.parked hentry hd) hlone with hrun | ⟨c, hrun, hsame, hkept⟩
  · exact Or.inl (by simp only [omOrderbookCancel, he, hlog, hrun])
  · have horg := (advanceOrgHead_frame c p x).trans (unlinkFromOrg_frame (advanceOrgHead c p x) x)
    refine Or.inr ⟨releaseOrder (unlinkFromOrg (advanceOrgHead c p x) x) id x, ?_, ?_, ?_, ?_⟩
    · simp only [omOrderbookCancel, he, hlog, hrun]
    · exact hbook.releaseParked hentry hd hsame hkept horg
    · exact hkept.trans ((horg.kept x).trans (releaseOrder_kept _ id x))
    · change update (unlinkFromOrg (advanceOrgHead c p x) x).orderHashmap id none = _
      rw [horg.orderHashmap, hsame.orderHashmap]

end Dead

end VeloxMatch
