import VeloxMatch.EngineTick

namespace VeloxMatch

open OmDualSlab EngineState

/-- A cancel of a deactivated order that is logged finds at most one order at its price. -/
def CancelOk (ctx : OmOrderbookContext) (id : Nat) : Prop :=
  ∀ entry ∈ ctx.orderHashmap id, Deactivated ctx entry.slotIdx →
    (ctx.log fun w => omWalCancel w id entry.slotIdx entry.productId).1 = true →
    LoneLevel ctx entry.productId entry.slotIdx

instance (ctx : OmOrderbookContext) (id : Nat) : Decidable (CancelOk ctx id) :=
  inferInstanceAs (Decidable (∀ entry ∈ ctx.orderHashmap id, Deactivated ctx _ →
    (ctx.log fun w => omWalCancel w id _ _).1 = true → LoneLevel ctx _ _))

variable (s : EngineState)

/-- The client hands over orders of existing products that are not marked as deactivated. -/
def ClientOk : Op → Prop
  | .submit p slot _ => p < s.book.maxProducts ∧ ¬ Deactivated s.book slot
  | .insert _ slot => ¬ Deactivated s.book slot
  | _ => True

instance (op : Op) : Decidable (ClientOk s op) := by
  induction op using Op.casesOn <;> dsimp only [ClientOk] <;> infer_instance

/-- A deactivated order is cancelled only when no level of several orders has its price. -/
def LoneCancel : Op → Prop
  | .cancel id => CancelOk s.book id
  | .bookCancel id => CancelOk s.book id
  | _ => True

instance (op : Op) : Decidable (LoneCancel s op) := by
  induction op using Op.casesOn <;> dsimp only [LoneCancel] <;> infer_instance

def OpOk (op : Op) : Prop := ClientOk s op ∧ LoneCancel s op

instance (op : Op) : Decidable (OpOk s op) :=
  inferInstanceAs (Decidable (_ ∧ _))

section Idle

variable {K : Kavl} {op : Op} {s : EngineState} {levels : Levels} {free : List Nat} {slot p x : Nat}
  {ctx : OmOrderbookContext} {excludeSameOrg : Bool}

theorem CallOk.idle (hcall : s.call = none) : CallOk s levels free s.call := by
  rw [hcall]
  trivial

theorem EngineInv.stay (h : EngineInv s levels free) : Stepped K op s levels free s :=
  ⟨levels, free, h, .unchanged rfl⟩

theorem EngineInv.pending_none (hcall : s.call = none) : s.view.pending = none := by
  simp [view, hcall]

theorem EngineInv.alloc (h : EngineInv s levels free) (hcall : s.call = none) :
    Stepped K op s levels free (engineStep K s .alloc) := by
  cases free with
  | nil =>
    have hrun : engineStep K s .alloc = s := by
      simp only [engineStep, hcall, omSlabAlloc_nil h.book.freeList]
    rw [hrun]
    exact h.stay
  | cons x rest =>
    obtain ⟨slab, halloc, hspec, hbook, hun, hcap, hnot⟩ := h.book.allocSlot
    have hrun : engineStep K s .alloc =
        { (s.setBook { s.book with slab := slab }).note (.cleared x) with held := x :: s.held } := by
      simp only [engineStep, hcall, halloc]
    rw [hrun]
    refine ⟨levels, rest, ⟨hbook, ⟨?_, ?_⟩, ?_⟩, .alloc rfl hspec⟩
    · refine List.nodup_cons.mpr ⟨fun hx => ?_, h.held.nodup⟩
      exact (h.held.spare x hx).not_free (by simp)
    · intro y hy
      rcases List.mem_cons.mp hy with rfl | hy
      · exact ⟨hun, hnot, hspec.capacity ▸ hcap⟩
      · have hs := h.held.spare y hy
        exact ⟨hs.unbooked, fun hf => hs.not_free (by simp [hf]), hspec.capacity ▸ hs.lt_capacity⟩
    · simp [setBook, note, hcall, CallOk]

theorem EngineInv.release (h : EngineInv s levels free) (hcall : s.call = none)
    (hslot : slot ∈ s.held) :
    Stepped K op s levels free { s.setBook { s.book with slab := omSlabFree s.book.slab slot } with
      held := s.held.erase slot } := by
  have hs := h.held.spare slot hslot
  refine ⟨levels, slot :: free, ⟨?_, ⟨h.held.nodup.erase slot, fun x hx => ?_⟩, ?_⟩, ?_⟩
  · exact h.book.freeSlot hs.unbooked hs.lt_capacity hs.not_free
  · obtain ⟨hne, hx⟩ := h.held.nodup.mem_erase_iff.mp hx
    have hx' := (h.held.spare x hx).freed hne
    exact ⟨hx'.unbooked, hx'.not_free, hx'.lt_capacity⟩
  · simp [setBook, hcall, CallOk]
  · exact .release hs.unbooked hs.not_free hs.lt_capacity

theorem BookInv.writeSlot (h : BookInv ctx levels free) (hx : Spare ctx free x)
    (order : Submission) : BookInv (writeSlot ctx x order) levels free := by
  have hfields := h.setOrder order.order (Or.inl hx.unbooked)
  have hfree : FreeList ((ctx.slab.setOrder x order.order).setAux x order.aux) free := by
    refine hfields.freeList.frame rfl rfl rfl rfl (fun _ _ => rfl) ?_ ?_
    · intro i hi
      have hne : i ≠ x := fun he => hx.not_free (he ▸ hi)
      simp [setAux, hne]
    · intro i
      by_cases hi : i = x
      · simp [setAux, hi]
      · simp [setAux, hi]
  refine hfields.slabFrame hfree rfl ?_ ?_
  · exact fun id entry _ => ⟨fun _ _ => rfl, fun _ _ => rfl, rfl, rfl, rfl⟩
  · exact fun id entry he => (h.entry he).2.2.1

theorem EngineInv.write (h : EngineInv s levels free) (hcall : s.call = none)
    (hslot : slot ∈ s.held) (order : Submission) :
    Stepped K op s levels free ((s.setBook (writeSlot s.book slot order)).note (.cleared slot)) := by
  refine ⟨levels, free, ⟨?_, ?_, ?_⟩, .write hslot⟩
  · exact h.book.writeSlot (h.held.spare slot hslot) order
  · exact h.held.frame rfl fun _ _ he => he
  · simp [setBook, note, hcall, CallOk]

theorem BookInv.slot_of_head (h : BookInv ctx levels free) (p : Nat) (b : Bool) :
    omSlotFromIdx ctx.slab (ctx.head p b) = front ((levels p b).map Level.head) none := by
  have hside := h.sides p b
  rw [omSlotFromIdx_of_valid, hside.head_eq]
  intro i hi
  rw [hside.head_eq] at hi
  obtain ⟨l, hl, rfl⟩ := List.mem_map.mp (front_mem hi)
  exact hside.lt_capacity _ (head_mem_queueOf hl)

theorem matchStart_inv {e : OmEngine} {f : MatchFrame} (h : BookInv e.orderbook levels free)
    (hx : Spare e.orderbook free x) (hact : ¬ Deactivated e.orderbook x)
    (hrun : matchStart e p x excludeSameOrg = .running f) :
    MatchInv e f levels free ∧ f.taker = x ∧ f.productId = p ∧ f.excludeSameOrg = excludeSameOrg ∧
      f.pc.pending = none := by
  simp only [matchStart] at hrun
  split at hrun
  next => cases hrun
  next =>
    cases hrun
    refine ⟨⟨h, ⟨hx, hact, rfl, rfl, rfl⟩, ?_⟩, rfl, rfl, rfl, rfl⟩
    exact ⟨[], [], [], levels p (!omIsBid (e.order x).flags),
      ⟨rfl, rfl, rfl, h.slot_of_head p _⟩, fun _ => ⟨rfl, rfl⟩⟩

theorem EngineInv.submit (h : EngineInv s levels free) (hcall : s.call = none)
    (hslot : slot ∈ s.held) (hact : ¬ Deactivated s.book slot) :
    Stepped K (.submit p slot excludeSameOrg) s levels free
      (startMatch (s.note (.submitted slot (s.engine.order slot).volumeRemain)) p slot
        excludeSameOrg false) := by
  unfold startMatch
  split
  next f hrun =>
    obtain ⟨hinv, htaker, hproduct, hexclude, hpending⟩ := matchStart_inv
      (e := (s.note (.submitted slot (s.engine.order slot).volumeRemain)).engine) h.book
      (h.held.spare slot hslot) hact hrun
    refine ⟨levels, free, ⟨h.book, h.held, hinv, ?_⟩, (Effect.submit rfl hslot
      (Or.inr ⟨f, rfl, htaker, hproduct, hexclude⟩)).at ?_⟩
    · simp [htaker, hslot, note]
    · refine View.ext rfl rfl rfl rfl rfl (hpending.trans (EngineInv.pending_none hcall).symm)
  next =>
    refine ⟨levels, free, ⟨h.book, h.held, CallOk.idle hcall⟩, .submit rfl hslot (Or.inl hcall)⟩

theorem EngineInv.insert (h : EngineInv s levels free) (hcall : s.call = none)
    (hslot : slot ∈ s.held) (hact : ¬ Deactivated s.book slot) :
    Stepped K (.insert p slot) s levels free (engineStep K s (.insert p slot)) := by
  have hspare := h.held.spare slot hslot
  cases hins : omOrderbookInsert K s.book p slot with
  | mk rc ctx =>
    by_cases hrc : rc = .ok
    · subst hrc
      obtain ⟨w, hbooked, hbook⟩ := omOrderbookInsert_booked h.book hspare hact hins
      have hrun : engineStep K s (.insert p slot) =
          { s with
            engine := { s.engine with orderbook := ctx, bookings := slot :: s.engine.bookings }
            held := s.held.erase slot } := by
        simp only [engineStep, hcall, hslot, ↓reduceIte, hins]
      rw [hrun]
      refine ⟨_, _, ⟨hbook, h.held.booked hbooked.kept.capacity hbooked.hash, ?_⟩, ?_⟩
      · simp [hcall, CallOk]
      · exact .place hspare.unbooked hspare.not_free hspare.lt_capacity hact
          (Or.inl ⟨hcall, rfl⟩) hins hbooked
    · obtain ⟨w, rfl, hw⟩ := omOrderbookInsert_failed hrc hins
      have hrun : engineStep K s (.insert p slot) = s.setBook { s.book with wal := w } := by
        simp only [engineStep, hcall, hslot, ↓reduceIte, hins]
      rw [hrun]
      refine ⟨levels, free, ⟨h.book.setWal w, ?_, ?_⟩, .quiet w s.book.knownOrg hw (Or.inl rfl)⟩
      · exact h.held.frame rfl fun _ _ he => he
      · simp [setBook, hcall, CallOk]

end Idle

open OmEngine CallOk

section Cancel

variable {K : Kavl} {op : Op} {s s' : EngineState} {levels : Levels} {free : List Nat}
  {id x p : Nat} {w : Option OmWalHandle} {e : OmEngine} {ctx c : OmOrderbookContext}

theorem EngineInv.left {levels' : Levels} (h : EngineInv s levels free)
    (hentry : s.book.orderHashmap id = some ⟨x, p⟩) (hbook : BookInv s'.book levels' (x :: free))
    (hcap : s'.book.slab.capacity = s.book.slab.capacity)
    (hhash : s'.book.orderHashmap = Function.update s.book.orderHashmap id none)
    (hheld : s'.held = s.held) (hcall : CallOk s' levels' (x :: free) s'.call) :
    EngineInv s' levels' (x :: free) := by
  refine ⟨hbook, ?_, hcall⟩
  rw [hheld]
  exact (h.held.removed hentry).frame hcap fun _ _ he => update_none_some (hhash ▸ he)

theorem EngineInv.setWal (h : EngineInv s levels free)
    (hview : s'.view = { s.view with book := { s.book with wal := w } })
    (hcall : CallOk s' levels free s'.call) : EngineInv s' levels free := by
  have hbook : s'.book = { s.book with wal := w } := congrArg View.book hview
  have hheld : s'.held = s.held := congrArg View.held hview
  refine ⟨?_, ?_, hcall⟩
  · rw [hbook]
    exact h.book.setWal w
  · rw [hbook, hheld]
    exact h.held.frame rfl fun _ _ he => he

theorem EngineInv.refused (h : EngineInv s levels free) (hw : Unlogged s.book.wal w)
    (hview : s'.view = { s.view with book := { s.book with wal := w } })
    (hcall : CallOk s' levels free s'.call) : Stepped K op s levels free s' :=
  ⟨levels, free, h.setWal hview hcall, (Effect.quiet w s.book.knownOrg hw (Or.inl rfl)).at hview⟩

theorem omEngineCancel_refused (hentry : e.orderbook.orderHashmap id = some ⟨x, p⟩)
    (hx : x < e.orderbook.slab.capacity)
    (hlog : e.orderbook.log (fun w => omWalCancel w id x p) = (false, c)) :
    omEngineCancel K e id = (false, { e with orderbook := c }) := by
  simp only [omEngineCancel, hentry, slab, omSlotFromIdx_some hx, log, hlog]

theorem omEngineCancel_accepted (hentry : e.orderbook.orderHashmap id = some ⟨x, p⟩)
    (hx : x < e.orderbook.slab.capacity)
    (hlog : e.orderbook.log (fun w => omWalCancel w id x p) = (true, c)) :
    OnlyEvents { e with orderbook := (omOrderbookRemoveSlot K c p x).2 }
      (omEngineCancel K e id).2 := by
  simp only [omEngineCancel, hentry, slab, omSlotFromIdx_some hx, log, hlog,
    orderbook_emit]
  obtain ⟨v, hv⟩ := onlyEvents_emit { e with orderbook := c } e.callbacks.onCancel
    (.onCancel (c.slab.order x))
  exact ⟨v, by simp only [OmEngine.order, hv]⟩

theorem view_setEngine (h : OnlyEvents { s.engine with orderbook := ctx } e) :
    ({ s with engine := e } : EngineState).view = { s.view with book := ctx } := by
  obtain ⟨v, rfl⟩ := h
  rfl

variable (h : EngineInv s levels free)
include h

theorem EngineInv.cancelResting {b : Bool} (hentry : s.book.orderHashmap id = some ⟨x, p⟩)
    (hb : x ∈ queueOf (levels p b)) (hpending : s.view.pending = none)
    (happ : Appended s.book.wal w (fun h => .cancel ⟨id, h.now, x, p⟩))
    (hrun : (s.call = none ∧ op = .cancel id ∧
        omOrderbookRemoveSlot K { s.book with wal := w } p x = (true, ctx)) ∨
      omOrderbookCancel K s.book id = (true, ctx))
    (hbook : BookInv ctx (levels.drop p b x) (x :: free))
    (hleft : Left { s.book with wal := w } ctx (s.book.slab.order x).orderId x)
    (hview : s'.view = { s.view with book := ctx })
    (hcall : CallOk s' (levels.drop p b x) (x :: free) s'.call) : Stepped K op s levels free s' := by
  have hid : (s.book.slab.order x).orderId = id := (h.book.entry hentry).1
  have hctx : s'.book = ctx := congrArg View.book hview
  refine ⟨_, _, h.left hentry (hctx ▸ hbook) (hctx ▸ hleft.kept.capacity) ?_
    (congrArg View.held hview) hcall, ?_⟩
  · rw [hctx, hleft.hash, hid]
  · exact (Effect.cancel hb hpending (hid.symm ▸ happ) (hid.symm ▸ hrun) hleft).at hview

theorem EngineInv.cancelParked (hop : op.Cancels id) (hentry : s.book.orderHashmap id = some ⟨x, p⟩)
    (hd : Deactivated s.book x)
    (hrun : omOrderbookRemoveSlot K { s.book with wal := w } p x = (true, ctx) ∨
      omOrderbookCancel K s.book id = (true, ctx))
    (hbook : BookInv ctx levels (x :: free)) (hleft : Left { s.book with wal := w } ctx id x)
    (hview : s'.view = { s.view with book := ctx }) (hcall' : s'.call = none) :
    Stepped K op s levels free s' := by
  have hctx : s'.book = ctx := congrArg View.book hview
  exact ⟨_, _, h.left hentry (hctx ▸ hbook) (hctx ▸ hleft.kept.capacity) (hctx ▸ hleft.hash)
    (congrArg View.held hview) (idle hcall'), (Effect.cancelDead hop hentry hd hrun hleft).at hview⟩

theorem EngineInv.noteParked (hop : op.Cancels id) (hentry : s.book.orderHashmap id = some ⟨x, p⟩)
    (hd : Deactivated s.book x) (hview : s'.view = { s.view with book := { s.book with wal := w } })
    (hcall : s'.call = none) : Stepped K op s levels free s' :=
  ⟨levels, free, h.setWal hview (idle hcall), (Effect.noteDead hop hentry hd).at hview⟩

theorem EngineInv.cancel (hcall : s.call = none) (hok : CancelOk s.book id) :
    Stepped K (.cancel id) s levels free { s with engine := (omEngineCancel K s.engine id).2 } := by
  cases hentry : s.book.orderHashmap id with
  | none =>
    have hrun : omEngineCancel K s.engine id = (false, s.engine) := by
      simp only [omEngineCancel]
      rw [show s.engine.orderbook.orderHashmap id = none from hentry]
    rw [hrun]
    exact h.stay
  | some entry =>
    obtain ⟨x, p⟩ := entry
    obtain ⟨hid, hlt, -, hwhere⟩ := h.book.entry hentry
    cases hlog : s.book.log (fun w => omWalCancel w id x p) with
    | mk ok c =>
      cases ok with
      | false =>
        rw [omEngineCancel_refused hentry hlt hlog]
        obtain ⟨w, rfl, hw⟩ := log_refused hlog
        exact h.refused hw rfl (idle hcall)
      | true =>
        have hview := view_setEngine (omEngineCancel_accepted (K := K) hentry hlt hlog)
        obtain ⟨w, rfl, happ⟩ := log_accepted hlog
        have hbook := h.book.setWal w
        rcases hwhere with ⟨b, hb⟩ | hp
        · obtain ⟨ctx, hrun, hbook', hkept, hhash⟩ := omOrderbookRemoveSlot_spec K hbook hb
          rw [show (omOrderbookRemoveSlot K { s.book with wal := w } p x).2 = ctx from
            congrArg Prod.snd hrun] at hview
          exact h.cancelResting hentry hb (EngineInv.pending_none hcall) happ
            (Or.inl ⟨hcall, rfl, hrun⟩) hbook' ⟨hkept, hhash⟩ hview (idle hcall)
        · have hlone := hok ⟨x, p⟩ hentry hp.deactivated (congrArg Prod.fst hlog)
          rcases omOrderbookRemoveSlot_parked K hbook hentry hp.deactivated hlone with
            hrun | ⟨ctx, hrun, hbook', hkept, hhash⟩
          · rw [hrun] at hview
            exact h.noteParked (Or.inl rfl) hentry hp.deactivated hview hcall
          · rw [hrun] at hview
            exact h.cancelParked (Or.inl rfl) hentry hp.deactivated (Or.inl hrun) hbook'
              ⟨hkept, hhash⟩ hview hcall

theorem EngineInv.bookCancel (hcall : s.call = none) (hok : CancelOk s.book id) :
    Stepped K (.bookCancel id) s levels free (s.setBook (omOrderbookCancel K s.book id).2) := by
  cases hentry : s.book.orderHashmap id with
  | none =>
    have hrun : omOrderbookCancel K s.book id = (false, s.book) := by
      simp only [omOrderbookCancel, hentry]
    rw [hrun]
    exact h.stay
  | some entry =>
    obtain ⟨x, p⟩ := entry
    obtain ⟨hid, hlt, -, hwhere⟩ := h.book.entry hentry
    cases hlog : s.book.log (fun w => omWalCancel w id x p) with
    | mk ok c =>
      cases ok with
      | false =>
        rw [omOrderbookCancel_refused K hentry hlog]
        obtain ⟨w, rfl, hw⟩ := log_refused hlog
        exact h.refused hw rfl (idle hcall)
      | true =>
        obtain ⟨w, rfl, happ⟩ := log_accepted hlog
        rcases hwhere with ⟨b, hb⟩ | hp
        · obtain ⟨ctx, hrun, hbook', hkept, hhash⟩ :=
            omOrderbookCancel_spec K h.book hb (hid.symm ▸ hlog)
          rw [hid] at hrun
          rw [hrun]
          exact h.cancelResting hentry hb (EngineInv.pending_none hcall) happ (Or.inr hrun) hbook'
            ⟨hkept, hhash⟩ rfl (idle hcall)
        · have hlone := hok ⟨x, p⟩ hentry hp.deactivated (congrArg Prod.fst hlog)
          rcases omOrderbookCancel_parked K h.book hentry hp.deactivated hlone hlog with
            hrun | ⟨ctx, hrun, hbook', hkept, hhash⟩
          · rw [hrun]
            exact h.noteParked (Or.inr rfl) hentry hp.deactivated rfl hcall
          · rw [hrun]
            exact h.cancelParked (Or.inr rfl) hentry hp.deactivated (Or.inr hrun) hbook'
              ⟨hkept, hhash⟩ rfl hcall

end Cancel

end VeloxMatch
