import VeloxMatch.BookLeave

namespace VeloxMatch

theorem and_omSetStatus (f s m : UInt16) :
    omSetStatus f s &&& m = (f &&& (~~~omStatusMask &&& m)) ||| (s &&& (omStatusMask &&& m)) := by
  apply UInt16.toBitVec_inj.mp
  ext i
  simp only [omSetStatus, UInt16.toBitVec_and, UInt16.toBitVec_or, BitVec.getElem_and,
    BitVec.getElem_or, Bool.and_or_distrib_right, Bool.and_assoc]

theorem omGetStatus_omSetStatus (f s : UInt16) :
    omGetStatus (omSetStatus f s) = s &&& omStatusMask := by
  have h1 : ~~~omStatusMask &&& omStatusMask = 0 := by decide
  have h2 : omStatusMask &&& omStatusMask = omStatusMask := by decide
  rw [omGetStatus, and_omSetStatus, h1, h2]
  simp

/-- `order->flags = OM_SET_STATUS(order->flags, status)`. -/
def setStatus (ctx : OmOrderbookContext) (x : Nat) (status : UInt16) : OmOrderbookContext :=
  let o := ctx.order x
  { ctx with slab := ctx.slab.setOrder x { o with flags := omSetStatus o.flags status } }

section Park

variable {ctx : OmOrderbookContext} {levels : Levels} {free : List Nat} {x productId id : Nat}
  {isBid : Bool}

theorem order_setStatus (ctx : OmOrderbookContext) (x : Nat) (status : UInt16) (j : Nat) :
    (setStatus ctx x status).slab.order j =
      if j = x then { ctx.slab.order x with flags := omSetStatus (ctx.slab.order x).flags status }
      else ctx.slab.order j := by
  simp [setStatus, OmOrderbookContext.order]

theorem volumeRemain_setStatus (ctx : OmOrderbookContext) (x : Nat) (status : UInt16) (j : Nat) :
    ((setStatus ctx x status).slab.order j).volumeRemain = (ctx.slab.order j).volumeRemain := by
  rw [order_setStatus]
  split
  next h => rw [h]
  next => rfl

theorem BookInv.park (h : BookInv (withoutEntry ctx id) levels free)
    (hun : Unbooked (withoutEntry ctx id) x) (hx : ctx.orderHashmap id = some ⟨x, productId⟩)
    (hid : (ctx.slab.order x).orderId = id) (hcap : x < ctx.slab.capacity) (hfree : x ∉ free)
    (hnext : ctx.slab.next .timeFifo x = none) (hprev : ctx.slab.prev .timeFifo x = none) :
    BookInv (setStatus ctx x omStatusDeactivated) levels free := by
  have hset : BookInv (withoutEntry (setStatus ctx x omStatusDeactivated) id) levels free :=
    h.setOrder _ (Or.inl hun)
  refine
    { sides := hset.sides
      disjoint := hset.disjoint
      freeList := hset.freeList
      resting := fun hi => ⟨(withoutEntry_some.mp (hset.resting hi).1).2, (hset.resting hi).2⟩
      entry := ?_ }
  intro id' e he
  by_cases heq : id' = id
  · subst heq
    cases hx.symm.trans he
    refine ⟨by simp [order_setStatus, hid], hcap, hfree, Or.inr ⟨?_, ?_, ?_⟩⟩
    · rw [Deactivated, order_setStatus, if_pos rfl, omGetStatus_omSetStatus]
      decide
    · simpa [setStatus] using hnext
    · simpa [setStatus] using hprev
  · obtain ⟨h1, h2, h3, h4⟩ := hset.entry (withoutEntry_some.mpr ⟨heq, he⟩)
    exact ⟨h1, h2, h3, h4.imp_right fun hp => ⟨hp.deactivated, hp.next, hp.prev⟩⟩

theorem BookInv.unpark (h : BookInv ctx levels free) (hx : ctx.orderHashmap id = some ⟨x, productId⟩)
    (hd : Deactivated ctx x) : BookInv (withoutEntry ctx id) levels free where
  sides := h.sides
  disjoint := h.disjoint
  freeList := h.freeList
  resting := fun hi => by
    obtain ⟨he, hact⟩ := h.resting hi
    refine ⟨withoutEntry_some.mpr ⟨?_, he⟩, hact⟩
    intro heq
    cases (congrArg ctx.orderHashmap heq).symm.trans he |>.symm.trans hx
    exact hact hd
  entry := fun he => by
    obtain ⟨h1, h2, h3, h4⟩ := h.entry (withoutEntry_some.mp he).2
    exact ⟨h1, h2, h3, h4.imp_right fun hp => ⟨hp.deactivated, hp.next, hp.prev⟩⟩

variable (K : Kavl)

theorem omOrderbookUnlinkSlot_spec (h : BookInv ctx levels free)
    (hx : x ∈ queueOf (levels productId isBid)) :
    ∃ ctx', omOrderbookUnlinkSlot K ctx productId x = (true, ctx') ∧
      BookInv (setStatus ctx' x omStatusDeactivated) (levels.drop productId isBid x) free ∧
      Kept ctx ctx' x ∧ ctx'.slab.auxMemory x = ctx.slab.auxMemory x ∧
      ctx'.orderHashmap = ctx.orderHashmap := by
  obtain ⟨c, hrun, hleft, hframe, hnext, hprev⟩ := h.unlinkLevel K hx
  have horg := (advanceOrgHead_frame c productId x).trans
    (unlinkFromOrg_frame (advanceOrgHead c productId x) x)
  have hentry := (h.resting hx).1
  have hslot := h.entry hentry
  have hhash : (unlinkFromOrg (advanceOrgHead c productId x) x).orderHashmap =
      ctx.orderHashmap := horg.orderHashmap.trans hframe.orderHashmap
  have hcap : (unlinkFromOrg (advanceOrgHead c productId x) x).slab.capacity =
      ctx.slab.capacity := horg.store.capacity.trans hframe.store.capacity
  refine ⟨unlinkFromOrg (advanceOrgHead c productId x) x, ?_, ?_, ?_, ?_, hhash⟩
  · simp only [omOrderbookUnlinkSlot, hrun]
  · refine (hleft.orgFrame (horg.withoutEntry _)).park ?_ (hhash ▸ hentry) ?_ ?_ hslot.2.2.1 ?_ ?_
    · have hun := unbooked_withoutEntry h hentry
      simpa only [Unbooked, withoutEntry, hhash] using hun
    · rw [horg.order, hframe.order]
    · rw [hcap]
      exact hslot.2.1
    · exact (horg.next _ _ (by decide)).trans hnext
    · exact (horg.prev _ _ (by decide)).trans hprev
  · exact (hframe.kept x).trans (horg.kept x)
  · rw [horg.store.auxMemory, hframe.store.auxMemory]

theorem omOrderbookInsert_spec {c : OmOrderbookContext} (h : BookInv ctx levels free)
    (hx : Unbooked ctx x) (hfree : x ∉ free) (hcap : x < ctx.slab.capacity)
    (hact : ¬ Deactivated ctx x) (hproduct : productId < ctx.maxProducts)
    (horg : (ctx.slab.order x).org < ctx.maxOrg) (hzero : (ctx.slab.order x).orderId ≠ 0)
    (hid : ctx.orderHashmap (ctx.slab.order x).orderId = none)
    (hlog : ctx.log (fun w => omWalInsert w ctx.slab x productId) = (true, c)) :
    ∃ ctx', omOrderbookInsert K ctx productId x = (.ok, ctx') ∧
      BookInv ctx' (levels.place ctx productId x) free ∧ Kept c ctx' x ∧
      ctx'.slab.auxMemory x = ctx.slab.auxMemory x ∧
      ctx'.orderHashmap =
        Function.update ctx.orderHashmap (ctx.slab.order x).orderId (some ⟨x, productId⟩) := by
  obtain ⟨w, rfl⟩ := log_rest hlog
  have hguard : ¬ (ctx.maxProducts ≤ productId ∨ ctx.maxOrg ≤ (ctx.slab.order x).org ∨
      (ctx.slab.order x).orderId = 0) := by omega
  obtain ⟨hbook, hframe⟩ := (h.setWal w).linkLevel K hx hfree hcap hact hid
  set linked := linkIntoLevel K (withEntry { ctx with wal := w } productId x) productId x
    with hlinked
  have hlast := linkIntoOrg_frame linked productId x
  refine ⟨linkIntoOrg linked productId x, ?_, hbook.orgFrame hlast, ?_, ?_, ?_⟩
  · simp only [omOrderbookInsert, OmOrderbookContext.order, hguard, hid, hlog, ne_eq,
      not_true_eq_false, ↓reduceIte]
    rfl
  · exact Kept.trans ⟨(hframe.kept x).order, (hframe.kept x).aux, (hframe.kept x).capacity,
      (hframe.kept x).config, (hframe.kept x).maxProducts, (hframe.kept x).maxOrg,
      (hframe.kept x).wal⟩ (hlast.kept x)
  · rw [hlast.store.auxMemory, hframe.store.auxMemory]
    rfl
  · rw [hlast.orderHashmap, hframe.orderHashmap]
    rfl

end Park

end VeloxMatch
