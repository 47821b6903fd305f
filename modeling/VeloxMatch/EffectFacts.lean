import VeloxMatch.EngineOps

namespace VeloxMatch

open Function BookLimits

def SameOrder (o o' : OmOrderFields) : Prop :=
  o' = { o with volumeRemain := o'.volumeRemain, flags := o'.flags }

theorem SameOrder.price {o o' : OmOrderFields} (h : SameOrder o o') : o'.price = o.price := by
  rw [h]

theorem SameOrder.org {o o' : OmOrderFields} (h : SameOrder o o') : o'.org = o.org := by
  rw [h]

theorem org_setStatus (ctx : OmOrderbookContext) (i : Nat) (status : UInt16) (j : Nat) :
    ((setStatus ctx i status).slab.order j).org = (ctx.slab.order j).org := by
  rw [order_setStatus]
  split
  next hj => rw [hj]
  next => rfl

def Referenced (ctx : OmOrderbookContext) (x : Nat) : Prop :=
  ∃ id p, ctx.orderHashmap id = some ⟨x, p⟩

def activatedSlot : Option Call → Option Nat
  | some (.matching f true) => some f.taker
  | _ => none

theorem activatedSlot_eq_some {call : Option Call} {x : Nat} (h : activatedSlot call = some x) :
    ∃ f, call = some (.matching f true) ∧ f.taker = x := by
  unfold activatedSlot at h
  split at h
  next f => exact ⟨f, rfl, Option.some.inj h⟩
  next => cases h

section Facts

variable {K : Kavl} {op : Op} {s s' : EngineState} {levels levels' : Levels} {free free' : List Nat}
  {call : Option Call} {v : View} {ctx : OmOrderbookContext} {i x p : Nat} {b : Bool}

theorem Effect.callbacks (he : Effect K op s levels free call v levels' free') :
    v.callbacks = s.engine.callbacks := by
  cases he <;> rfl

theorem Effect.sameLimits (he : Effect K op s levels free call v levels' free') :
    v.book.limits = s.book.limits := by
  cases he with
  | quiet | release | write | submit | empty | note | reduce | unpark | noteDead => rfl
  | alloc _ hspec => exact congrArg (BookLimits.mk _ _) hspec.capacity
  | unparkUsed w ctx _ _ _ hctx =>
    rw [hctx]
    rfl
  | remove both _ _ _ _ hleft => cases both <;> exact hleft.kept.limits
  | place _ _ _ _ _ _ hbooked => exact hbooked.kept.limits
  | cancel _ _ _ _ hleft | cancelDead _ _ _ _ hleft => exact hleft.kept.limits
  | park _ _ _ _ hkept => exact hkept.limits

/-- A slot that is neither handed out nor in the client's hands keeps its order, but for the
remaining volume or the status. -/
theorem Effect.orderAt (he : Effect K op s levels free call v levels' free')
    (hfree : i ∉ free) (hheld : i ∉ s.held) :
    (∃ vol, v.book.slab.order i = { s.book.slab.order i with volumeRemain := vol }) ∨
      ∃ status, v.book.slab.order i = { s.book.slab.order i with
          flags := omSetStatus (s.book.slab.order i).flags status } ∧
        (status = omStatusNew ∨ v.book.orderHashmap = s.book.orderHashmap ∧
          ∃ p b, i ∈ queueOf (levels p b)) := by
  have hsame : v.book.slab.order i = s.book.slab.order i →
      ∃ vol, v.book.slab.order i = { s.book.slab.order i with volumeRemain := vol } :=
    fun h => ⟨_, h⟩
  cases he with
  | quiet | submit | empty | note | noteDead => exact Or.inl ⟨_, rfl⟩
  | @alloc x rest slab hx hspec =>
    have hne : i ≠ x := fun he => hfree (by simp [hx, he])
    exact Or.inl (hsame (hspec.order_same i hne))
  | @release x => exact Or.inl (hsame ((omSlabFree_spec s.book.slab x).order_same i))
  | @write x order hx =>
    have hne : i ≠ x := fun he => hheld (he ▸ hx)
    refine Or.inl (hsame ?_)
    change (s.book.slab.setOrder x order.order).order i = _
    simp [hne]
  | @reduce f _ levelPrice maker qty w =>
    have hsame := ((SameBook.setWal s.book w).trans (withVolume_sameBook _ maker
      ((s.book.slab.order maker).volumeRemain - qty))).trans (withVolume_sameBook _ f.taker
      ((s.book.slab.order f.taker).volumeRemain - qty))
    exact Or.inl ⟨_, hsame.order i⟩
  | @remove f _ p maker b ctx both _ _ _ _ hleft =>
    rw [← hleft.kept.order i]
    cases both with
    | false => exact Or.inl ⟨_, rfl⟩
    | true => exact Or.inl ⟨_, (withVolume_sameBook ctx f.taker 0).order i⟩
  | place _ _ _ _ _ _ hbooked => exact Or.inl (hsame (hbooked.kept.order i))
  | cancel _ _ _ _ hleft | cancelDead _ _ _ _ hleft =>
    exact Or.inl (hsame (hleft.kept.order i))
  | @park p x b w ctx hm _ _ _ hkept hhash =>
    rcases eq_or_ne i x with rfl | hne
    · refine Or.inr ⟨omStatusDeactivated, ?_, Or.inr ⟨hhash, p, b, hm⟩⟩
      rw [order_setStatus, if_pos rfl, hkept.order i]
    · refine Or.inl (hsame ?_)
      rw [order_setStatus, if_neg hne, hkept.order i]
  | unpark =>
    rw [order_setStatus]
    split
    next hx => exact Or.inr ⟨omStatusNew, hx ▸ rfl, Or.inl rfl⟩
    next => exact Or.inl ⟨_, rfl⟩
  | @unparkUsed id p x w ctx _ _ _ hctx =>
    rw [hctx, (omSlabFree_spec _ x).order_same, order_setStatus]
    split
    next hx => exact Or.inr ⟨omStatusNew, hx ▸ rfl, Or.inl rfl⟩
    next => exact Or.inl ⟨_, rfl⟩

section Kept

variable (he : Effect K op s levels free s'.call s'.view levels' free')
include he

theorem Effect.limits : s'.book.maxProducts = s.book.maxProducts ∧ s'.book.maxOrg = s.book.maxOrg :=
  ⟨congrArg products he.sameLimits, congrArg orgs he.sameLimits⟩

theorem Effect.capacity : s'.book.slab.capacity = s.book.slab.capacity :=
  congrArg BookLimits.slots he.sameLimits

theorem Effect.sameOrder (hfree : i ∉ free) (hheld : i ∉ s.held) :
    SameOrder (s.book.slab.order i) (s'.book.slab.order i) := by
  change SameOrder _ (s'.view.book.slab.order i)
  rcases he.orderAt hfree hheld with ⟨v, hv⟩ | ⟨status, hs, -⟩
  · rw [SameOrder, hv]
  · rw [SameOrder, hs]

end Kept

theorem EngineInv.resting_not_spare (h : EngineInv s levels free)
    (hi : i ∈ queueOf (levels p b)) : i ∉ free ∧ i ∉ s.held := by
  have hentry := (h.book.resting hi).1
  exact ⟨(h.book.entry hentry).2.2.1, fun hx => (h.held.spare i hx).unbooked _ _ hentry rfl⟩

theorem Effect.resting (he : Effect K op s levels free call v levels' free')
    (hinv : EngineInv s levels free) (hi : i ∈ queueOf (levels' p b)) :
    i ∈ queueOf (levels p b) ∨
      (b = omIsBid (s.book.slab.order i).flags ∧
        v.book.slab.order i = s.book.slab.order i ∧
        ((s.call = none ∧ op = .insert p i) ∨ ∃ f activating,
          s.call = some (.matching f activating) ∧ f.pc = .book ∧ f.productId = p ∧
            f.taker = i)) := by
  cases he with
  | place _ _ _ _ hfrom _ hbooked =>
    rcases mem_place.mp hi with ⟨rfl, rfl, hside⟩ | hi
    · exact Or.inr ⟨hside, hbooked.kept.order i, hfrom⟩
    · exact Or.inl hi
  | remove both _ hm | cancel hm | park hm => exact Or.inl ((mem_drop hinv.book hm).mp hi).1
  | quiet | alloc | release | write | submit | empty | note | reduce | unpark | unparkUsed
  | noteDead | cancelDead => exact Or.inl hi

/-- The hash map stays, loses the entry of a slot that is freed or matched again, or gets the
entry of an order that passed the checks. -/
inductive EntriesMove (s : EngineState) (call : Option Call) (ctx : OmOrderbookContext)
    (free' : List Nat) : Prop where
  | same : ctx.orderHashmap = s.book.orderHashmap → EntriesMove s call ctx free'
  | less {id x p : Nat} : s.book.orderHashmap id = some ⟨x, p⟩ →
      ctx.orderHashmap = update s.book.orderHashmap id none →
      x ∈ free' ∨ activatedSlot call = some x → EntriesMove s call ctx free'
  | more {x p : Nat} : Insertable s.book p x → ctx.orderHashmap =
      update s.book.orderHashmap (s.book.slab.order x).orderId (some ⟨x, p⟩) →
      ctx.slab.order x = s.book.slab.order x → EntriesMove s call ctx free'

theorem Effect.entries (he : Effect K op s levels free call v levels' free')
    (hinv : EngineInv s levels free) : EntriesMove s call v.book free' := by
  cases he with
  | quiet | alloc | release | write | submit | empty | note | reduce | noteDead => exact .same rfl
  | remove both _ hm _ _ hleft =>
    refine .less (hinv.book.resting hm).1 ?_ (Or.inl (by simp))
    rw [← hleft.hash]
    cases both <;> rfl
  | place _ _ _ _ _ _ hbooked =>
    exact .more ⟨hbooked.product, hbooked.org, hbooked.id_ne_zero, hbooked.fresh⟩ hbooked.hash
      (hbooked.kept.order _)
  | cancel hm _ _ _ hleft => exact .less (hinv.book.resting hm).1 hleft.hash (Or.inl (by simp))
  | park _ _ _ _ _ hhash => exact .same hhash
  | unpark hentry _ _ _ hcall htaker =>
    refine .less hentry rfl (Or.inr ?_)
    rw [hcall, activatedSlot, htaker]
  | unparkUsed w ctx hentry _ _ hctx =>
    refine .less hentry ?_ (Or.inl (by simp))
    rw [hctx]
    rfl
  | cancelDead _ hentry _ _ hleft => exact .less hentry hleft.hash (Or.inl (by simp))

theorem Effect.held_goes (he : Effect K op s levels free call v levels' free')
    (hx : x ∈ s.held) : x ∈ v.held ∨ x ∈ free' ∨ Referenced v.book x := by
  cases he with
  | quiet | write | submit | empty | note | reduce | remove | cancel | park | unpark | unparkUsed
  | noteDead | cancelDead => exact Or.inl hx
  | alloc => exact Or.inl (List.mem_cons_of_mem _ hx)
  | @release y =>
    by_cases hxy : x = y
    · exact Or.inr (Or.inl (by simp [hxy]))
    · exact Or.inl ((List.mem_erase_of_ne hxy).mpr hx)
  | @place p y w ctx _ _ _ _ _ _ hbooked =>
    by_cases hxy : x = y
    · refine Or.inr (Or.inr ⟨(s.book.slab.order y).orderId, p, ?_⟩)
      rw [hbooked.hash, hxy]
      exact update_self ..
    · exact Or.inl ((List.mem_erase_of_ne hxy).mpr hx)

theorem Effect.free_goes (he : Effect K op s levels free call v levels' free')
    (hx : x ∈ free) : x ∈ free' ∨ x ∈ v.held := by
  cases he with
  | alloc hfree =>
    rw [hfree] at hx
    rcases List.mem_cons.mp hx with rfl | hx
    · exact Or.inr (by simp)
    · exact Or.inl hx
  | release | remove | cancel | unparkUsed | cancelDead => exact Or.inl (List.mem_cons_of_mem _ hx)
  | quiet | write | submit | empty | note | reduce | place | park | unpark | noteDead =>
    exact Or.inl hx

theorem EntriesMove.referenced (h : EntriesMove s call ctx free') (hx : Referenced s.book x) :
    Referenced ctx x ∨ x ∈ free' ∨ activatedSlot call = some x := by
  obtain ⟨id, p, hid⟩ := hx
  cases h with
  | same hhash => exact Or.inl ⟨id, p, by rw [hhash]; exact hid⟩
  | @less id' y q hentry hhash hto =>
    by_cases heq : id = id'
    · cases (heq ▸ hid).symm.trans hentry
      exact Or.inr hto
    · exact Or.inl ⟨id, p, by rw [hhash, update_of_ne heq]; exact hid⟩
  | @more y q hins hhash _ =>
    have hne : id ≠ (s.book.slab.order y).orderId := by
      rintro rfl
      rw [hins.2.2.2] at hid
      cases hid
    exact Or.inl ⟨id, p, by rw [hhash, update_of_ne hne]; exact hid⟩

end Facts

/-- Orders enter through `om_engine_match` and `om_engine_activate` only, and no deactivated
order is cancelled. -/
def EngineOk (s : EngineState) : Op → Prop
  | .submit p slot _ => p < s.book.maxProducts ∧ ¬ Deactivated s.book slot
  | .cancel id => ∀ entry ∈ s.book.orderHashmap id, ¬ Deactivated s.book entry.slotIdx
  | .insert _ _ => False
  | .bookCancel _ => False
  | _ => True

instance (s : EngineState) (op : Op) : Decidable (EngineOk s op) := by
  induction op using Op.casesOn <;> dsimp only [EngineOk] <;> infer_instance

theorem EngineOk.opOk {s : EngineState} {op : Op} (h : EngineOk s op) : OpOk s op := by
  cases op with
  | submit => exact ⟨h, trivial⟩
  | cancel id => exact ⟨trivial, fun entry hentry hd => absurd hd (h entry hentry)⟩
  | insert | bookCancel => exact False.elim h
  | alloc | release | write | deactivate | activate | cancelProductSide | cancelProduct | tick =>
    exact ⟨trivial, trivial⟩

end VeloxMatch
