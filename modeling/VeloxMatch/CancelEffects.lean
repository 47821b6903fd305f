import VeloxMatch.Representation

namespace VeloxMatch

open OmDualSlab SearchTree OmEngine

def FreeSlot (s : OmDualSlab) (x : Nat) : Prop := ∃ free, FreeList s free ∧ x ∈ free

def RestsBeside (ctx : OmOrderbookContext) (p x : Nat) : Prop :=
  ∃ id entry, ctx.orderHashmap id = some entry ∧ ¬ Deactivated ctx entry.slotIdx ∧
    entry.productId = p ∧
    omIsBid (ctx.slab.order entry.slotIdx).flags = omIsBid (ctx.slab.order x).flags ∧
    (ctx.slab.order entry.slotIdx).price = (ctx.slab.order x).price

def cancelLogged (w : OmWalHandle) (id x p : Nat) : OmWalHandle :=
  { w with records := w.records ++ [.cancel ⟨id, w.now, x, p⟩], attempts := w.attempts + 1 }

/-- All that a cancel has to do to an order that the book knows: it returns true, one CANCEL is
logged, `on_cancel` is called once, the entry goes and the slot is free. -/
structure CancelledWholly (e : OmEngine) (w : OmWalHandle) (id : Nat) (entry : OmOrderEntry)
    (out : Bool × OmEngine) : Prop where
  returned : out.1 = true
  logged : out.2.orderbook.wal = some (cancelLogged w id entry.slotIdx entry.productId)
  called : out.2.events = e.events ++
    if e.callbacks.onCancel then [.onCancel (e.order entry.slotIdx)] else []
  unknown : out.2.orderbook.orderHashmap id = none
  free : FreeSlot out.2.slab entry.slotIdx

/-- A cancel does all it has to, or nothing if the book does not know the order. -/
def CancelAgrees (K : Kavl) (e : OmEngine) (w : OmWalHandle) (id : Nat) : Prop :=
  (∀ entry, e.orderbook.orderHashmap id = some entry →
    CancelledWholly e w id entry (omEngineCancel K e id)) ∧
  (e.orderbook.orderHashmap id = none → omEngineCancel K e id = (false, e))

theorem Reach.engineInv {K : Kavl} {ok : EngineState → Op → Prop} {config : OmSlabConfig}
    {wal : Option OmWalHandle} {maxProducts maxOrg : Nat} {ctx : OmOrderbookContext}
    {callbacks : OmEngineCallbacks} {s : EngineState}
    (hinit : omOrderbookInit config wal maxProducts maxOrg = (.ok, some ctx))
    (h : Reach K ok (.start ctx callbacks) s) (hok : ∀ s op, ok s op → OpOk s op) :
    ∃ levels free, EngineInv s levels free := by
  obtain ⟨levels, free, hinv, -⟩ := Reach.effects (Q := fun _ _ _ => True) hinit h hok trivial
    fun _ _ _ _ _ _ _ _ _ _ _ => trivial
  exact ⟨levels, free, hinv⟩

section Level

variable {ctx : OmOrderbookContext} {levels : Levels} {free : List Nat} {x p id : Nat} {K : Kavl}
  (h : BookInv ctx levels free)
include h

theorem BookInv.restsBeside_iff :
    RestsBeside ctx p x ↔ ∃ l ∈ levels p (omIsBid (ctx.slab.order x).flags),
      (findPriceLevelWithInsertionPoint ctx p (ctx.slab.order x).price
        (omIsBid (ctx.slab.order x).flags)).1 = some l.head := by
  constructor
  · rintro ⟨id, entry, hentry, hact, rfl, hside, hprice⟩
    rcases (h.entry hentry).2.2.2 with ⟨b, hb⟩ | hparked
    · have hb' : b = omIsBid (ctx.slab.order x).flags := by
        rw [← hside]
        exact ((h.sides _ b).side _ hb).symm
      subst hb'
      obtain ⟨l, hl, hslot⟩ := mem_queueOf.mp hb
      refine ⟨l, hl, ?_⟩
      rw [← hprice]
      exact findPriceLevel_resting (h.sides _ _) hl hslot
    · exact absurd hparked.deactivated hact
  · rintro ⟨l, hl, hfind⟩
    have hmem := head_mem_queueOf hl
    have hresting := h.resting hmem
    refine ⟨_, _, hresting.1, hresting.2, rfl, (h.sides p _).side _ hmem, ?_⟩
    rcases findPriceLevel_cases (h.sides p _) (ctx.slab.order x).price with
      ⟨pre, m, post, -, hprice, hm⟩ | ⟨pre, post, -, -, -, hnone⟩
    · rw [Option.some.inj (hfind.symm.trans hm)]
      exact hprice
    · rw [hnone] at hfind
      cases hfind

theorem BookInv.removeParked_absent (hno : ¬ RestsBeside ctx p x) :
    omOrderbookRemoveSlot K ctx p x = (false, ctx) := by
  have hnone : (findPriceLevelWithInsertionPoint ctx p (ctx.slab.order x).price
      (omIsBid (ctx.slab.order x).flags)).1 = none := by
    rcases findPriceLevel_cases (h.sides p (omIsBid (ctx.slab.order x).flags))
      (ctx.slab.order x).price with ⟨pre, l, post, hlevels, -, hfind⟩ | ⟨pre, post, -, -, -, hfind⟩
    · exact absurd (h.restsBeside_iff.mpr ⟨l, by simp [hlevels], hfind⟩) hno
    · rw [hfind]
  simp only [omOrderbookRemoveSlot, unlinkFromLevel, OmOrderbookContext.order, hnone]

theorem BookInv.removeParked_beside (hentry : ctx.orderHashmap id = some ⟨x, p⟩) (hx : Parked ctx x)
    (hbeside : RestsBeside ctx p x) :
    ∃ ctx', omOrderbookRemoveSlot K ctx p x = (true, ctx') ∧ ctx'.wal = ctx.wal ∧
      ctx'.orderHashmap = Function.update ctx.orderHashmap id none ∧
      FreeList ctx'.slab (x :: free) := by
  obtain ⟨l, hl, hfind⟩ := h.restsBeside_iff.mp hbeside
  obtain ⟨hid, hlt, hnot, -⟩ := h.entry hentry
  have hne : x ≠ l.head := fun he => (h.resting (head_mem_queueOf hl)).2 (he ▸ hx.deactivated)
  let c : OmOrderbookContext := { ctx with slab := ctx.slab.setPrev .timeFifo l.head none }
  have hunlink : unlinkFromLevel K ctx p x = some c := by
    simp only [unlinkFromLevel, OmOrderbookContext.order, hfind, hne, ↓reduceIte,
      removeFromQueue_unlinked hx.next hx.prev]
    rfl
  have hid' : ((unlinkFromOrg c x).order x).orderId = id := by
    change ((unlinkFromOrg c x).slab.order x).orderId = id
    rw [(unlinkFromOrg_frame c x).order]
    simpa [c] using hid
  refine ⟨releaseOrder (unlinkFromOrg c x) id x, ?_, rfl, rfl, ?_⟩
  · simp only [omOrderbookRemoveSlot, hunlink, hid']
  · have hmarked : FreeList c.slab free :=
      h.freeList.sameStore (sameStore_setPrev _ _ _ _) fun i => by simp [c]
    have hout : FreeList (unlinkFromOrg c x).slab free :=
      hmarked.sameStore (omQueueUnlink_links _ _ _).store
        fun i => (omQueueUnlink_links _ _ _).next (by decide)
    refine omSlabFree_freeList hout ?_ hnot
    rw [(unlinkFromOrg_frame c x).store.capacity]
    exact hlt

end Level

section Cancel

variable {K : Kavl} {e : OmEngine} {w : OmWalHandle} {levels : Levels} {free : List Nat}
  {id x p : Nat} (hentry : e.orderbook.orderHashmap id = some ⟨x, p⟩)
  (hwal : e.orderbook.wal = some w) (haccepts : w.accepts w.attempts = true)
include hentry hwal haccepts

theorem omEngineCancel_logged (hx : x < e.orderbook.slab.capacity) :
    omEngineCancel K e id =
      ((omOrderbookRemoveSlot K { e.orderbook with wal := some (cancelLogged w id x p) } p x).1,
        { e with
          orderbook := (omOrderbookRemoveSlot K
            { e.orderbook with wal := some (cancelLogged w id x p) } p x).2
          events := e.events ++ if e.callbacks.onCancel then [.onCancel (e.order x)] else [] }) := by
  have hlog : e.log (fun w => omWalCancel w id x p) =
      (true, { e with orderbook := { e.orderbook with wal := some (cancelLogged w id x p) } }) := by
    simp only [OmEngine.log, OmOrderbookContext.log, hwal, omWalCancel, OmWalHandle.append,
      haccepts, ↓reduceIte, cancelLogged]
  simp only [omEngineCancel, hentry, slab, omSlotFromIdx_some hx, hlog, emit]
  cases e.callbacks.onCancel <;> simp [OmEngine.order]

theorem cancelledWholly_of_remove {ctx : OmOrderbookContext} (hx : x < e.orderbook.slab.capacity)
    (hrun : omOrderbookRemoveSlot K { e.orderbook with wal := some (cancelLogged w id x p) } p x =
      (true, ctx)) (hlogged : ctx.wal = some (cancelLogged w id x p))
    (hhash : ctx.orderHashmap id = none) (hfree : FreeSlot ctx.slab x) :
    CancelledWholly e w id ⟨x, p⟩ (omEngineCancel K e id) := by
  rw [omEngineCancel_logged hentry hwal haccepts hx, hrun]
  exact ⟨rfl, hlogged, rfl, hhash, hfree⟩

theorem BookInv.cancelledWholly (h : BookInv e.orderbook levels free)
    (hbeside : Deactivated e.orderbook x → RestsBeside e.orderbook p x) :
    CancelledWholly e w id ⟨x, p⟩ (omEngineCancel K e id) := by
  obtain ⟨hid, hlt, -, hwhere⟩ := h.entry hentry
  have hbook := h.setWal (some (cancelLogged w id x p))
  rcases hwhere with ⟨b, hb⟩ | hparked
  · obtain ⟨ctx, hrun, hbook', hkept, hhash⟩ := omOrderbookRemoveSlot_spec K hbook hb
    refine cancelledWholly_of_remove hentry hwal haccepts hlt hrun hkept.wal ?_
      ⟨x :: free, hbook'.freeList, by simp⟩
    rw [hhash, hid, Function.update_self]
  · obtain ⟨ctx, hrun, hlogged, hhash, hfree⟩ := hbook.removeParked_beside (K := K) hentry
      ⟨hparked.deactivated, hparked.next, hparked.prev⟩ (hbeside hparked.deactivated)
    refine cancelledWholly_of_remove hentry hwal haccepts hlt hrun hlogged ?_
      ⟨x :: free, hfree, by simp⟩
    rw [hhash, Function.update_self]

theorem BookInv.cancel_ignored (h : BookInv e.orderbook levels free)
    (hno : ¬ RestsBeside e.orderbook p x) : (omEngineCancel K e id).1 = false := by
  have hrun : omOrderbookRemoveSlot K { e.orderbook with wal := some (cancelLogged w id x p) } p x =
      (false, _) := (h.setWal (some (cancelLogged w id x p))).removeParked_absent hno
  rw [omEngineCancel_logged hentry hwal haccepts (h.entry hentry).2.1, hrun]

end Cancel

/-- In every state of a run, a cancel with a working log does all it has to exactly when the
order is not deactivated or an order rests at its price. -/
theorem cancel_agrees_iff {K : Kavl} {config : OmSlabConfig} {wal : Option OmWalHandle}
    {maxProducts maxOrg : Nat} {ctx : OmOrderbookContext} {callbacks : OmEngineCallbacks}
    {s : EngineState} (hinit : omOrderbookInit config wal maxProducts maxOrg = (.ok, some ctx))
    (hreach : Reach K EngineOk (.start ctx callbacks) s) {w : OmWalHandle}
    (hwal : s.book.wal = some w) (haccepts : w.accepts w.attempts = true) (id : Nat) :
    CancelAgrees K s.engine w id ↔
      ∀ entry, s.book.orderHashmap id = some entry → Deactivated s.book entry.slotIdx →
        RestsBeside s.book entry.productId entry.slotIdx := by
  obtain ⟨levels, free, hinv⟩ := hreach.engineInv hinit fun _ _ => EngineOk.opOk
  have hbook : BookInv s.engine.orderbook levels free := hinv.book
  constructor
  · intro hagrees entry hentry hd
    by_contra hno
    have htrue := (hagrees.1 entry hentry).returned
    rw [hbook.cancel_ignored hentry hwal haccepts hno] at htrue
    cases htrue
  · refine fun hbeside => ⟨fun entry hentry => ?_, fun hnone => ?_⟩
    · exact hbook.cancelledWholly hentry hwal haccepts (hbeside entry hentry)
    · simp only [omEngineCancel, hnone]

def openLog : OmWalHandle := ⟨[], 0, fun _ => true, fun n => n, 0, 0⟩

def loggedEngine : EngineState :=
  .start (freshBook (freshSlab smallConfig) (some openLog) 1 1) noCallbacks

def restOps : List Op := [.alloc, .write 2 (unitOrder 1 10 true), .submit 0 2 false, .tick, .tick]

theorem cancel_agrees_iff_resting :
    ∃ w, (runOps plainOps loggedEngine restOps).book.wal = some w ∧
      (runOps plainOps loggedEngine restOps).book.orderHashmap 1 = some ⟨2, 0⟩ ∧
      CancelAgrees plainOps (runOps plainOps loggedEngine restOps).engine
        w 1 := by
  have hreach : Reach plainOps EngineOk loggedEngine
      (runOps plainOps loggedEngine restOps) := Allowed.reach _ (by decide +kernel) .start
  have hentry : (runOps plainOps loggedEngine restOps).book.orderHashmap 1 =
      some ⟨2, 0⟩ := by decide +kernel
  have hsome : (runOps plainOps loggedEngine restOps).book.wal.isSome := by
    decide +kernel
  have hactive : ¬ Deactivated (runOps plainOps loggedEngine restOps).book 2 := by
    decide +kernel
  refine ⟨_, (Option.some_get hsome).symm, hentry, ?_⟩
  refine (cancel_agrees_iff smallEngine_init hreach (Option.some_get hsome).symm
    (by decide +kernel +revert) 1).mpr ?_
  intro entry he hd
  cases hentry.symm.trans he
  exact absurd hd hactive

/-- The cancel of a lone deactivated order is logged and returns false. -/
theorem cancel_of_lone_deactivated :
    Reach plainOps EngineOk loggedEngine
      (runOps plainOps loggedEngine (restOps ++ [.deactivate 1])) ∧
    ∃ w, (runOps plainOps loggedEngine (restOps ++ [.deactivate 1])).book.wal = some w ∧
      w.accepts w.attempts = true ∧
      ¬ CancelAgrees plainOps
        (runOps plainOps loggedEngine (restOps ++ [.deactivate 1])).engine w 1 := by
  have hsome : (runOps plainOps loggedEngine
      (restOps ++ [.deactivate 1])).book.wal.isSome := by decide +kernel
  refine ⟨Allowed.reach _ (by decide +kernel) .start, _, (Option.some_get hsome).symm,
    by decide +kernel +revert, fun hagrees => ?_⟩
  have hfalse : (omEngineCancel plainOps
      (runOps plainOps loggedEngine (restOps ++ [.deactivate 1])).engine 1).1 = false := by
    decide +kernel
  have htrue := (hagrees.1 ⟨2, 0⟩ (by decide +kernel)).returned
  rw [hfalse] at htrue
  cases htrue

end VeloxMatch
