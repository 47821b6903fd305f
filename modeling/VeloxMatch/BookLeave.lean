import VeloxMatch.BookOps
import Mathlib.Data.List.Sort

namespace VeloxMatch

open Levels Function

def withoutEntry (ctx : OmOrderbookContext) (orderId : Nat) : OmOrderbookContext :=
  { ctx with orderHashmap := update ctx.orderHashmap orderId none }

variable {ctx : OmOrderbookContext}

theorem withoutEntry_some {orderId id : Nat} {e : OmOrderEntry} :
    (withoutEntry ctx orderId).orderHashmap id = some e ↔
      id ≠ orderId ∧ ctx.orderHashmap id = some e := by
  by_cases h : id = orderId
  · subst h
    simp [withoutEntry]
  · simp [withoutEntry, h]

def Levels.drop (levels : Levels) (productId : Nat) (isBid : Bool) (x : Nat) : Levels :=
  levels.set productId isBid (dropFrom x (levels productId isBid))

section Leave

variable {ctx : OmOrderbookContext} {levels : Levels} {free : List Nat} {x productId id : Nat}
  {isBid : Bool} (h : BookInv ctx levels free)
include h

theorem queueOf_drop (hx : x ∈ queueOf (levels productId isBid)) (p : Nat) (b : Bool) :
    queueOf (levels.drop productId isBid x p b) = (queueOf (levels p b)).filter (· ≠ x) := by
  by_cases hpb : p = productId ∧ b = isBid
  · obtain ⟨rfl, rfl⟩ := hpb
    rw [drop, set_self, queueOf_dropFrom, (h.sides p b).nodup.erase_eq_filter]
    exact List.filter_congr fun i _ => by rw [decide_not]; rfl
  · rw [drop, set_other hpb, List.filter_eq_self.mpr]
    intro i hi
    simp only [ne_eq, decide_not, Bool.not_eq_eq_eq_not, Bool.not_true, decide_eq_false_iff_not]
    rintro rfl
    exact hpb (h.disjoint hi hx)

theorem mem_drop (hx : x ∈ queueOf (levels productId isBid)) {p : Nat} {b : Bool} {i : Nat} :
    i ∈ queueOf (levels.drop productId isBid x p b) ↔ i ∈ queueOf (levels p b) ∧ i ≠ x := by
  rw [queueOf_drop h hx, List.mem_filter, decide_eq_true_iff]

theorem unbooked_withoutEntry
    (hx : ctx.orderHashmap id = some ⟨x, productId⟩) : Unbooked (withoutEntry ctx id) x := by
  intro id' e he hex
  obtain ⟨hne, he⟩ := withoutEntry_some.mp he
  exact hne (h.entry_unique he hx hex)

variable (K : Kavl)

/-- A resting order leaves Q1, Q2 and the tree; what is left is a book without its entry. -/
theorem BookInv.unlinkLevel (hx : x ∈ queueOf (levels productId isBid)) :
    ∃ ctx', unlinkFromLevel K ctx productId x = some ctx' ∧
      BookInv (withoutEntry ctx' (ctx.slab.order x).orderId)
        (levels.drop productId isBid x) free ∧
      LevelFrame ctx ctx' productId isBid (fun j => j ∈ queueOf (levels productId isBid)) ∧
      ctx'.slab.next .timeFifo x = none ∧ ctx'.slab.prev .timeFifo x = none := by
  obtain ⟨ctx', hrun, hside, hframe, hnext, hprev⟩ :=
    unlinkFromLevel_spec K (h.sides productId isBid) hx
  refine ⟨ctx', hrun, ?_, hframe, hnext, hprev⟩
  have hxe := (h.resting hx).1
  have horder : ∀ j, ctx'.slab.order j = ctx.slab.order j := hframe.order
  refine
    { sides := ?_
      disjoint := fun hi hi' => h.disjoint ((mem_drop h hx).mp hi).1 ((mem_drop h hx).mp hi').1
      freeList := h.freeList.sameStore hframe.store fun i => hframe.next _ i (by simp)
      resting := ?_
      entry := ?_ }
  · intro p b
    by_cases hpb : p = productId ∧ b = isBid
    · obtain ⟨rfl, rfl⟩ := hpb
      rw [drop, set_self]
      exact hside
    · rw [drop, set_other hpb]
      exact hframe.other_side hpb (fun i hi hj => hpb (h.disjoint hi hj)) (h.sides p b)
  · intro p b i hi
    obtain ⟨hi, hne⟩ := (mem_drop h hx).mp hi
    obtain ⟨he, hd⟩ := h.resting hi
    have hid : (ctx.slab.order i).orderId ≠ (ctx.slab.order x).orderId := by
      intro heq
      rw [heq, hxe] at he
      cases he
      exact hne rfl
    refine ⟨?_, ?_⟩
    · rw [withoutEntry_some, hframe.orderHashmap]
      change (ctx'.slab.order i).orderId ≠ _ ∧ ctx.orderHashmap (ctx'.slab.order i).orderId = _
      rw [horder]
      exact ⟨hid, he⟩
    · change ¬ omGetStatus (ctx'.slab.order i).flags = omStatusDeactivated
      rw [horder]
      exact hd
  · intro id e he
    obtain ⟨hne, he⟩ := withoutEntry_some.mp he
    rw [hframe.orderHashmap] at he
    obtain ⟨hid, hcap, hfree, hwhere⟩ := h.entry he
    have hex : e.slotIdx ≠ x := fun heq => hne (h.entry_unique he hxe heq)
    refine ⟨(congrArg _ (horder _)).trans hid, ?_, hfree, ?_⟩
    · change e.slotIdx < ctx'.slab.capacity
      rw [hframe.store.capacity]
      exact hcap
    · rcases hwhere with ⟨b, hb⟩ | hp
      · exact Or.inl ⟨b, (mem_drop h hx).mpr ⟨hb, hex⟩⟩
      · have huntouched : e.slotIdx ∉ queueOf (levels productId isBid) :=
          fun hq => (h.resting hq).2 hp.deactivated
        refine Or.inr ⟨?_, ?_, ?_⟩
        · change omGetStatus (ctx'.slab.order e.slotIdx).flags = omStatusDeactivated
          rw [horder]
          exact hp.deactivated
        · exact (hframe.next _ _ fun _ => huntouched).trans hp.next
        · exact (hframe.prev _ _ fun _ => huntouched).trans hp.prev

end Leave

structure BookLimits where
  products : Nat
  orgs : Nat
  slots : Nat

def OmOrderbookContext.limits (ctx : OmOrderbookContext) : BookLimits :=
  ⟨ctx.maxProducts, ctx.maxOrg, ctx.slab.capacity⟩

/-- What a booking or a removal of `x` leaves alone outside the links. -/
structure Kept (ctx ctx' : OmOrderbookContext) (x : Nat) : Prop where
  order : ∀ j, ctx'.slab.order j = ctx.slab.order j
  aux : ∀ j, j ≠ x → ctx'.slab.auxMemory j = ctx.slab.auxMemory j
  capacity : ctx'.slab.capacity = ctx.slab.capacity
  config : ctx'.slab.config = ctx.slab.config
  maxProducts : ctx'.maxProducts = ctx.maxProducts
  maxOrg : ctx'.maxOrg = ctx.maxOrg
  wal : ctx'.wal = ctx.wal

theorem Kept.limits {ctx' : OmOrderbookContext} {x : Nat} (h : Kept ctx ctx' x) :
    ctx'.limits = ctx.limits := by
  rw [OmOrderbookContext.limits, h.maxProducts, h.maxOrg, h.capacity]
  rfl

section Kept

variable {ctx ctx' ctx'' : OmOrderbookContext} {productId x : Nat} {isBid : Bool}

theorem Kept.trans (h : Kept ctx ctx' x) (h' : Kept ctx' ctx'' x) : Kept ctx ctx'' x where
  order := fun j => (h'.order j).trans (h.order j)
  aux := fun j hj => (h'.aux j hj).trans (h.aux j hj)
  capacity := h'.capacity.trans h.capacity
  config := h'.config.trans h.config
  maxProducts := h'.maxProducts.trans h.maxProducts
  maxOrg := h'.maxOrg.trans h.maxOrg
  wal := h'.wal.trans h.wal

theorem LevelFrame.kept {touched : Nat → Prop} (h : LevelFrame ctx ctx' productId isBid touched)
    (x : Nat) : Kept ctx ctx' x where
  order := h.order
  aux := fun _ _ => by rw [h.store.auxMemory]
  capacity := h.store.capacity
  config := h.store.config
  maxProducts := h.maxProducts
  maxOrg := h.maxOrg
  wal := h.wal

theorem OrgFrame.kept (h : OrgFrame ctx ctx') (x : Nat) : Kept ctx ctx' x where
  order := h.order
  aux := fun _ _ => by rw [h.store.auxMemory]
  capacity := h.store.capacity
  config := h.store.config
  maxProducts := by rw [h.rest]
  maxOrg := by rw [h.rest]
  wal := by rw [h.rest]

theorem releaseOrder_kept (ctx : OmOrderbookContext) (orderId x : Nat) :
    Kept ctx (releaseOrder ctx orderId x) x := by
  have hspec := omSlabFree_spec ctx.slab x
  exact ⟨hspec.order_same, hspec.aux_same, hspec.capacity, hspec.config, rfl, rfl, rfl⟩

theorem OrgFrame.withoutEntry (h : OrgFrame ctx ctx') (id : Nat) :
    OrgFrame (withoutEntry ctx id) (withoutEntry ctx' id) where
  rest := by
    rw [VeloxMatch.withoutEntry, h.orderHashmap]
    conv_lhs => rw [h.rest]
    rfl
  store := h.store
  order := h.order
  next := h.next
  prev := h.prev

end Kept

section Release

variable {ctx ctx' c : OmOrderbookContext} {levels : Levels} {free : List Nat}
  {x productId id : Nat} {isBid : Bool} (K : Kavl)

theorem BookInv.release (h : BookInv ctx levels free)
    (hx : ctx.orderHashmap id = some ⟨x, productId⟩) {levels' : Levels}
    (hleft : BookInv (withoutEntry c id) levels' free)
    (hhash : c.orderHashmap = ctx.orderHashmap) (hcap : c.slab.capacity = ctx.slab.capacity)
    (horg : OrgFrame c ctx') : BookInv (releaseOrder ctx' id x) levels' (x :: free) := by
  have hentry := h.entry hx
  have hun : Unbooked (withoutEntry ctx' id) x := by
    have hun' := unbooked_withoutEntry h hx
    simpa only [Unbooked, withoutEntry, horg.orderHashmap, hhash] using hun'
  have hlt : x < (withoutEntry ctx' id).slab.capacity := by
    change x < ctx'.slab.capacity
    rw [horg.store.capacity, hcap]
    exact hentry.2.1
  exact (hleft.orgFrame (horg.withoutEntry id)).freeSlot hun hlt hentry.2.2.1

theorem omOrderbookRemoveSlot_spec (h : BookInv ctx levels free)
    (hx : x ∈ queueOf (levels productId isBid)) :
    ∃ ctx', omOrderbookRemoveSlot K ctx productId x = (true, ctx') ∧
      BookInv ctx' (levels.drop productId isBid x) (x :: free) ∧ Kept ctx ctx' x ∧
      ctx'.orderHashmap = update ctx.orderHashmap (ctx.slab.order x).orderId none := by
  obtain ⟨c, hrun, hleft, hframe, -, -⟩ := h.unlinkLevel K hx
  have horg := unlinkFromOrg_frame c x
  have hid : ((unlinkFromOrg c x).order x).orderId = (ctx.slab.order x).orderId := by
    change ((unlinkFromOrg c x).slab.order x).orderId = _
    rw [horg.order, hframe.order]
  refine ⟨releaseOrder (unlinkFromOrg c x) (ctx.slab.order x).orderId x, ?_, ?_, ?_, ?_⟩
  · simp only [omOrderbookRemoveSlot, hrun, hid]
  · exact h.release (h.resting hx).1 hleft hframe.orderHashmap hframe.store.capacity horg
  · exact ((hframe.kept x).trans (horg.kept x)).trans (releaseOrder_kept _ _ x)
  · change update c.orderHashmap _ none = _
    rw [hframe.orderHashmap]

theorem log_rest {f : OmWalHandle → Bool × OmWalHandle} {ok : Bool}
    (h : ctx.log f = (ok, c)) : ∃ w, c = { ctx with wal := w } := by
  unfold OmOrderbookContext.log at h
  split at h
  next =>
    cases h
    exact ⟨_, rfl⟩
  next =>
    cases h
    exact ⟨_, rfl⟩

theorem omOrderbookCancel_refused {entry : OmOrderEntry} (he : ctx.orderHashmap id = some entry)
    (hlog : ctx.log (fun w => omWalCancel w id entry.slotIdx entry.productId) = (false, c)) :
    omOrderbookCancel K ctx id = (false, c) := by
  simp only [omOrderbookCancel, he, hlog]

theorem omOrderbookCancel_spec (h : BookInv ctx levels free)
    (hx : x ∈ queueOf (levels productId isBid))
    (hlog : ctx.log (fun w => omWalCancel w (ctx.slab.order x).orderId x productId) = (true, c)) :
    ∃ ctx', omOrderbookCancel K ctx (ctx.slab.order x).orderId = (true, ctx') ∧
      BookInv ctx' (levels.drop productId isBid x) (x :: free) ∧ Kept c ctx' x ∧
      ctx'.orderHashmap = update ctx.orderHashmap (ctx.slab.order x).orderId none := by
  have hentry := (h.resting hx).1
  obtain ⟨w, rfl⟩ := log_rest hlog
  have hbook := h.setWal w
  obtain ⟨c, hrun, hleft, hframe, -, -⟩ := hbook.unlinkLevel K hx
  have horg := (advanceOrgHead_frame c productId x).trans
    (unlinkFromOrg_frame (advanceOrgHead c productId x) x)
  refine ⟨releaseOrder (unlinkFromOrg (advanceOrgHead c productId x) x)
    (ctx.slab.order x).orderId x, ?_, ?_, ?_, ?_⟩
  · simp only [omOrderbookCancel, hentry, hlog, hrun]
  · exact hbook.release hentry hleft hframe.orderHashmap hframe.store.capacity horg
  · exact ((hframe.kept x).trans (horg.kept x)).trans (releaseOrder_kept _ _ x)
  · change update (advanceOrgHead c productId x).orderHashmap _ none = _
    rw [(advanceOrgHead_frame c productId x).orderHashmap, hframe.orderHashmap]

theorem omOrderbookCancel_accepted (h : BookInv ctx levels free)
    (hx : x ∈ queueOf (levels productId isBid))
    (hrun : omOrderbookCancel K ctx (ctx.slab.order x).orderId = (true, ctx')) :
    ∃ w c, unlinkFromLevel K { ctx with wal := w } productId x = some c ∧
      ctx' = releaseOrder (unlinkFromOrg (advanceOrgHead c productId x) x)
        (ctx.slab.order x).orderId x := by
  have hentry := (h.resting hx).1
  cases hlog : ctx.log (fun w => omWalCancel w (ctx.slab.order x).orderId x productId) with
  | mk ok c =>
    cases ok with
    | false => cases hrun.symm.trans (omOrderbookCancel_refused K hentry hlog)
    | true =>
      obtain ⟨w, rfl⟩ := log_rest hlog
      obtain ⟨c, hlevel, -⟩ := (h.setWal w).unlinkLevel K hx
      simp only [omOrderbookCancel, hentry, hlog, hlevel] at hrun
      cases hrun
      exact ⟨w, c, hlevel, rfl⟩

end Release

open List

/-- The orders of one side of a product, best price first and then by arrival. -/
def restingOrders (ctx : OmOrderbookContext) (levels : Levels) (productId : Nat) (isBid : Bool) :
    List OmOrderFields :=
  (queueOf (levels productId isBid)).map ctx.slab.order

def enqueue (isBid : Bool) (o : OmOrderFields) : List OmOrderFields → List OmOrderFields
  | [] => [o]
  | r :: rs => if better isBid o.price r.price then o :: r :: rs else r :: enqueue isBid o rs

section Place

variable {price : Nat → Nat} {isBid : Bool} {x : Nat} {levels : List Level}

theorem queueOf_placeInto
    (hsorted : levels.Pairwise fun l m => better isBid (price l.head) (price m.head))
    (hprices : ∀ l ∈ levels, ∀ i ∈ l.slots, price i = price l.head) :
    queueOf (placeInto price isBid x levels) =
      (queueOf levels).orderedInsert (fun i j => better isBid (price i) (price j)) x := by
  -- nothing of a level that is as good as the new order is passed over
  have hpass : ∀ {slots more : List Nat}, (∀ i ∈ slots, ¬better isBid (price x) (price i)) →
      (slots ++ more).orderedInsert (fun i j => better isBid (price i) (price j)) x =
        slots ++ more.orderedInsert (fun i j => better isBid (price i) (price j)) x := by
    intro slots more hslots
    induction slots with
    | nil => rfl
    | cons i slots ih =>
      rw [cons_append, orderedInsert_cons, if_neg (hslots i (by simp)),
        ih fun j hj => hslots j (by simp [hj]), cons_append]
  induction levels with
  | nil => rfl
  | cons l levels ih =>
    obtain ⟨hbest, hsorted⟩ := pairwise_cons.mp hsorted
    have hrest := ih hsorted fun m hm => hprices m (by simp [hm])
    have hl := hprices l (by simp)
    unfold placeInto
    split
    next heq =>
      have hequal : ∀ i ∈ l.slots, ¬better isBid (price x) (price i) := by
        intro i hi
        rw [hl i hi, heq]
        exact better_irrefl isBid _
      rw [queueOf_cons, queueOf_cons, hpass hequal]
      cases levels with
      | nil => simp [queueOf, Level.slots]
      | cons m levels =>
        rw [queueOf_cons, show m.slots = m.head :: m.rest from rfl, cons_append,
          orderedInsert_cons, if_pos (heq ▸ hbest m (by simp))]
        simp [Level.slots]
    next hne =>
      split
      next hbetter =>
        rw [queueOf_cons, queueOf_cons, hrest,
          hpass fun i hi => by rw [hl i hi]; exact better_asymm hbetter]
      next hnot =>
        have hworse := (better_total hne).resolve_left hnot
        rw [queueOf_cons, queueOf_cons, show l.slots = l.head :: l.rest from rfl, cons_append,
          orderedInsert_cons, if_pos hworse]
        rfl

theorem enqueue_eq_orderedInsert (o : OmOrderFields) (rs : List OmOrderFields) :
    enqueue isBid o rs = rs.orderedInsert (fun r s => better isBid r.price s.price) o := by
  induction rs with
  | nil => rfl
  | cons r rs ih => rw [enqueue, orderedInsert_cons, ih]

theorem map_queueOf_placeInto {f : Nat → OmOrderFields} (hf : ∀ i, (f i).price = price i)
    (hsorted : levels.Pairwise fun a b => better isBid (price a.head) (price b.head))
    (hprices : ∀ l ∈ levels, ∀ i ∈ l.slots, price i = price l.head) :
    (queueOf (placeInto price isBid x levels)).map f =
      enqueue isBid (f x) ((queueOf levels).map f) := by
  rw [queueOf_placeInto hsorted hprices, enqueue_eq_orderedInsert]
  exact map_orderedInsert _ _ _ _ _ (fun i _ => by rw [hf, hf]) fun i _ => by rw [hf, hf]

end Place

section Resting

variable {ctx ctx' : OmOrderbookContext} {levels : Levels} {free : List Nat} {x p : Nat} {b : Bool}

theorem restingOrders_congr {levels' : Levels} (hl : levels' p b = levels p b)
    (h : ∀ i ∈ queueOf (levels p b), ctx'.slab.order i = ctx.slab.order i) :
    restingOrders ctx' levels' p b = restingOrders ctx levels p b := by
  rw [restingOrders, restingOrders, hl]
  exact map_congr_left h

theorem restingOrders_place (h : BookInv ctx levels free) :
    restingOrders ctx (levels.place ctx p x) p (omIsBid (ctx.slab.order x).flags) =
      enqueue (omIsBid (ctx.slab.order x).flags) (ctx.slab.order x)
        (restingOrders ctx levels p (omIsBid (ctx.slab.order x).flags)) := by
  have hside := h.sides p (omIsBid (ctx.slab.order x).flags)
  rw [restingOrders, Levels.place, Levels.set_self]
  exact map_queueOf_placeInto (fun _ => rfl) hside.sorted hside.prices

theorem place_other {p' : Nat} (h : ¬(p' = p ∧ b = omIsBid (ctx.slab.order x).flags)) :
    levels.place ctx p x p' b = levels p' b :=
  Levels.set_other h

end Resting

end VeloxMatch
