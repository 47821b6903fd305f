import VeloxMatch.BookUnlink
import VeloxMatch.SlabFree

namespace VeloxMatch

open OmDualSlab LinksFrame

abbrev Levels := Nat → Bool → List Level

def Levels.set (levels : Levels) (productId : Nat) (isBid : Bool) (ls : List Level) : Levels :=
  fun p b => if p = productId ∧ b = isBid then ls else levels p b

@[simp] theorem Levels.set_self (levels : Levels) (p : Nat) (b : Bool) (ls : List Level) :
    levels.set p b ls p b = ls := by simp [Levels.set]

theorem Levels.set_other {levels : Levels} {p p' : Nat} {b b' : Bool} {ls : List Level}
    (h : ¬(p' = p ∧ b' = b)) : levels.set p b ls p' b' = levels p' b' := if_neg h

def Deactivated (ctx : OmOrderbookContext) (i : Nat) : Prop :=
  omGetStatus (ctx.slab.order i).flags = omStatusDeactivated

instance (ctx : OmOrderbookContext) (i : Nat) : Decidable (Deactivated ctx i) :=
  inferInstanceAs (Decidable (_ = _))

/-- A deactivated order is known to the hash map but in no time queue. -/
structure Parked (ctx : OmOrderbookContext) (i : Nat) : Prop where
  deactivated : Deactivated ctx i
  next : ctx.slab.next .timeFifo i = none
  prev : ctx.slab.prev .timeFifo i = none

/-- The whole book: every side has its shape, no slot rests twice, the hash map holds exactly
the resting and the deactivated orders, and none of their slots is free. -/
structure BookInv (ctx : OmOrderbookContext) (levels : Levels) (free : List Nat) : Prop where
  sides : ∀ p b, ctx.Side p b (levels p b)
  disjoint : ∀ {p b p' b' i}, i ∈ queueOf (levels p b) → i ∈ queueOf (levels p' b') →
    p = p' ∧ b = b'
  freeList : FreeList ctx.slab free
  resting : ∀ {p b i}, i ∈ queueOf (levels p b) →
    ctx.orderHashmap (ctx.slab.order i).orderId = some ⟨i, p⟩ ∧ ¬ Deactivated ctx i
  entry : ∀ {id e}, ctx.orderHashmap id = some e →
    (ctx.slab.order e.slotIdx).orderId = id ∧ e.slotIdx < ctx.slab.capacity ∧ e.slotIdx ∉ free ∧
      ((∃ b, e.slotIdx ∈ queueOf (levels e.productId b)) ∨ Parked ctx e.slotIdx)

section Inv

variable {ctx ctx' : OmOrderbookContext} {levels : Levels} {free : List Nat} {x productId : Nat}
  {isBid : Bool}

def Unbooked (ctx : OmOrderbookContext) (x : Nat) : Prop :=
  ∀ id e, ctx.orderHashmap id = some e → e.slotIdx ≠ x

theorem BookInv.not_resting (h : BookInv ctx levels free) (hx : Unbooked ctx x) (p : Nat) (b : Bool) :
    x ∉ queueOf (levels p b) :=
  fun hm => hx _ _ (h.resting hm).1 rfl

theorem BookInv.entry_unique (h : BookInv ctx levels free) {id id' : Nat} {e e' : OmOrderEntry}
    (he : ctx.orderHashmap id = some e) (he' : ctx.orderHashmap id' = some e')
    (hs : e.slotIdx = e'.slotIdx) : id = id' := by
  rw [← (h.entry he).1, ← (h.entry he').1, hs]

/-- Changes confined to Q3 and `org_heads`. -/
structure OrgFrame (ctx ctx' : OmOrderbookContext) : Prop where
  rest : ctx' = { ctx with slab := ctx'.slab, orgHeads := ctx'.orgHeads }
  store : SameStore ctx.slab ctx'.slab
  order : ∀ j, ctx'.slab.order j = ctx.slab.order j
  next : ∀ q j, q ≠ .orgQueue → ctx'.slab.next q j = ctx.slab.next q j
  prev : ∀ q j, q ≠ .orgQueue → ctx'.slab.prev q j = ctx.slab.prev q j

theorem OrgFrame.orderHashmap (h : OrgFrame ctx ctx') : ctx'.orderHashmap = ctx.orderHashmap := by
  rw [h.rest]

theorem OrgFrame.head (h : OrgFrame ctx ctx') (p : Nat) (b : Bool) :
    ctx'.head p b = ctx.head p b := by
  rw [h.rest]
  rfl

theorem OrgFrame.priceRoots (h : OrgFrame ctx ctx') : ctx'.priceRoots = ctx.priceRoots := by
  rw [h.rest]

theorem OrgFrame.trans {ctx'' : OmOrderbookContext} (h : OrgFrame ctx ctx')
    (h' : OrgFrame ctx' ctx'') : OrgFrame ctx ctx'' where
  rest := by conv_lhs => rw [h'.rest, h.rest]
  store := h.store.trans h'.store
  order := fun j => (h'.order j).trans (h.order j)
  next := fun q j hq => (h'.next q j hq).trans (h.next q j hq)
  prev := fun q j hq => (h'.prev q j hq).trans (h.prev q j hq)

theorem LinksFrame.org {slab : OmDualSlab} (h : LinksFrame (fun q _ => q = .orgQueue) ctx.slab slab)
    (heads : Nat → Option Nat) : OrgFrame ctx { ctx with slab := slab, orgHeads := heads } :=
  ⟨rfl, h.store, h.order, fun _ _ hq => h.next hq, fun _ _ hq => h.prev hq⟩

theorem linkIntoOrg_frame (ctx : OmOrderbookContext) (productId x : Nat) :
    OrgFrame ctx (linkIntoOrg ctx productId x) := by
  simp only [linkIntoOrg]
  split
  next =>
    split
    next => exact ((refl.setPrev rfl _).setNext rfl _).org _
    next => exact (omQueueLinkBefore_links _ _ _ _).org _
  next => exact refl.org _

theorem advanceOrgHead_frame (ctx : OmOrderbookContext) (productId x : Nat) :
    OrgFrame ctx (advanceOrgHead ctx productId x) := by
  simp only [advanceOrgHead]
  split
  next => split <;> exact refl.org _
  next => exact refl.org _

theorem unlinkFromOrg_frame (ctx : OmOrderbookContext) (x : Nat) :
    OrgFrame ctx (unlinkFromOrg ctx x) :=
  (omQueueUnlink_links _ _ _).org _

theorem BookInv.orgFrame (h : BookInv ctx levels free) (hf : OrgFrame ctx ctx') :
    BookInv ctx' levels free where
  sides := fun p b => by
    rw [OmOrderbookContext.Side, hf.head, hf.priceRoots]
    apply (h.sides p b).frame hf.store.capacity
    · exact fun i _ => hf.next _ i (by decide)
    · exact fun i _ => hf.prev _ i (by decide)
    · exact fun i _ => hf.next _ i (by decide)
    · exact fun i _ => hf.prev _ i (by decide)
    · exact fun i _ => by rw [hf.order]
    · exact fun i _ => by rw [hf.order]
  disjoint := h.disjoint
  freeList := h.freeList.sameStore hf.store fun i => hf.next _ i (by decide)
  resting := fun hi => by
    rw [hf.order, hf.orderHashmap, Deactivated, hf.order]
    exact h.resting hi
  entry := fun he => by
    rw [hf.orderHashmap] at he
    obtain ⟨hid, hcap, hfree, hwhere⟩ := h.entry he
    refine ⟨by rw [hf.order]; exact hid, by rw [hf.store.capacity]; exact hcap, hfree, ?_⟩
    refine hwhere.imp_right fun hp => ⟨?_, ?_, ?_⟩
    · rw [Deactivated, hf.order]
      exact hp.deactivated
    · exact (hf.next _ _ (by decide)).trans hp.next
    · exact (hf.prev _ _ (by decide)).trans hp.prev

end Inv

open Levels Function

section Insert

variable {ctx : OmOrderbookContext} {levels : Levels} {free : List Nat} {x productId : Nat}
  (K : Kavl)

theorem BookInv.setWal (h : BookInv ctx levels free) (w : Option OmWalHandle) :
    BookInv { ctx with wal := w } levels free where
  sides := h.sides
  disjoint := h.disjoint
  freeList := h.freeList
  resting := h.resting
  entry := fun he => by
    obtain ⟨hid, hcap, hfree, hwhere⟩ := h.entry he
    exact ⟨hid, hcap, hfree, hwhere.imp_right fun hp => ⟨hp.deactivated, hp.next, hp.prev⟩⟩

/-- `ctx` with an entry for `x`, as `om_orderbook_insert` makes it before linking. -/
def withEntry (ctx : OmOrderbookContext) (productId x : Nat) : OmOrderbookContext :=
  { ctx with orderHashmap :=
      Function.update ctx.orderHashmap (ctx.order x).orderId (some ⟨x, productId⟩) }

def Levels.place (levels : Levels) (ctx : OmOrderbookContext) (productId x : Nat) : Levels :=
  let isBid := omIsBid (ctx.slab.order x).flags
  levels.set productId isBid
    (placeInto (fun i => (ctx.slab.order i).price) isBid x (levels productId isBid))

theorem mem_place {p : Nat} {b : Bool} {i : Nat} :
    i ∈ queueOf (levels.place ctx productId x p b) ↔
      (i = x ∧ p = productId ∧ b = omIsBid (ctx.slab.order x).flags) ∨
        i ∈ queueOf (levels p b) := by
  by_cases hpb : p = productId ∧ b = omIsBid (ctx.slab.order x).flags
  · obtain ⟨rfl, rfl⟩ := hpb
    rw [place, set_self, (queueOf_placeInto_perm _).mem_iff]
    simp
  · rw [place, set_other hpb]
    constructor
    · exact Or.inr
    · rintro (⟨-, hp, hb⟩ | hi)
      · exact absurd ⟨hp, hb⟩ hpb
      · exact hi

theorem BookInv.linkLevel (h : BookInv ctx levels free) (hx : Unbooked ctx x) (hfree : x ∉ free)
    (hcap : x < ctx.slab.capacity) (hact : ¬ Deactivated ctx x)
    (hid : ctx.orderHashmap (ctx.slab.order x).orderId = none) :
    BookInv (linkIntoLevel K (withEntry ctx productId x) productId x)
      (levels.place ctx productId x) free ∧
    LevelFrame (withEntry ctx productId x)
      (linkIntoLevel K (withEntry ctx productId x) productId x) productId
      (omIsBid (ctx.slab.order x).flags)
      (fun j => j = x ∨ j ∈ queueOf (levels productId (omIsBid (ctx.slab.order x).flags))) := by
  have hnot := h.not_resting hx
  have hold : SideShape (withEntry ctx productId x).slab
      ((withEntry ctx productId x).head productId (omIsBid (ctx.slab.order x).flags))
      ((withEntry ctx productId x).priceRoots
        (priceRoot productId (omIsBid (ctx.slab.order x).flags)))
      (omIsBid (ctx.slab.order x).flags) (levels productId (omIsBid (ctx.slab.order x).flags)) :=
    h.sides _ _
  obtain ⟨hside, hframe⟩ := linkIntoLevel_spec K hold (hnot _ _) hcap rfl
  have horder : ∀ j, (linkIntoLevel K (withEntry ctx productId x) productId x).slab.order j =
      ctx.slab.order j := hframe.order
  have hhash : (linkIntoLevel K (withEntry ctx productId x) productId x).orderHashmap =
      Function.update ctx.orderHashmap (ctx.slab.order x).orderId (some ⟨x, productId⟩) :=
    hframe.orderHashmap
  refine
    ⟨{ sides := ?_
       disjoint := ?_
       freeList := h.freeList.sameStore hframe.store fun i => hframe.next _ i (by simp)
       resting := ?_
       entry := ?_ }, hframe⟩
  · intro p b
    by_cases hpb : p = productId ∧ b = omIsBid (ctx.slab.order x).flags
    · obtain ⟨rfl, rfl⟩ := hpb
      rw [place, set_self]
      exact hside
    · rw [place, set_other hpb]
      refine hframe.other_side hpb ?_ (h.sides p b)
      rintro i hi (rfl | hj)
      · exact hnot p b hi
      · exact hpb (h.disjoint hi hj)
  · intro p b p' b' i hi hi'
    rcases mem_place.mp hi with ⟨rfl, rfl, rfl⟩ | hq
    · rcases mem_place.mp hi' with ⟨-, rfl, rfl⟩ | hq'
      · exact ⟨rfl, rfl⟩
      · exact absurd hq' (hnot _ _)
    · rcases mem_place.mp hi' with ⟨rfl, -, -⟩ | hq'
      · exact absurd hq (hnot _ _)
      · exact h.disjoint hq hq'
  · intro p b i hi
    rw [hhash, Deactivated, horder]
    rcases mem_place.mp hi with ⟨rfl, rfl, -⟩ | hi
    · exact ⟨by simp, hact⟩
    · obtain ⟨he, hd⟩ := h.resting hi
      have hne : (ctx.slab.order i).orderId ≠ (ctx.slab.order x).orderId := by
        intro heq
        rw [heq, hid] at he
        simp at he
      exact ⟨by rw [update_of_ne hne]; exact he, hd⟩
  · intro id e he
    rw [hhash] at he
    rw [horder, hframe.store.capacity]
    by_cases heq : id = (ctx.slab.order x).orderId
    · subst heq
      rw [update_self] at he
      cases he
      exact ⟨rfl, hcap, hfree, Or.inl ⟨_, mem_place.mpr (Or.inl ⟨rfl, rfl, rfl⟩)⟩⟩
    · rw [update_of_ne heq] at he
      obtain ⟨hid', hcap', hfree', hwhere⟩ := h.entry he
      refine ⟨hid', hcap', hfree', ?_⟩
      rcases hwhere with ⟨b, hb⟩ | hp
      · exact Or.inl ⟨b, mem_place.mpr (Or.inr hb)⟩
      · -- a parked slot is neither `x` nor in the level that changes
        have huntouched : ¬ (e.slotIdx = x ∨
            e.slotIdx ∈ queueOf (levels productId (omIsBid (ctx.slab.order x).flags))) := by
          rintro (hex | hq)
          · exact hx id e he hex
          · exact (h.resting hq).2 hp.deactivated
        refine Or.inr ⟨?_, ?_, ?_⟩
        · rw [Deactivated, horder]
          exact hp.deactivated
        · exact (hframe.next _ _ fun _ => huntouched).trans hp.next
        · exact (hframe.prev _ _ fun _ => huntouched).trans hp.prev

end Insert

section Slab

variable {ctx : OmOrderbookContext} {levels : Levels} {free free' : List Nat} {s' : OmDualSlab}
  {x : Nat}

/-- What of a booked slot the invariant reads. -/
structure SameBooked (s s' : OmDualSlab) (i : Nat) : Prop where
  next : ∀ q, q = .priceLadder ∨ q = .timeFifo → s'.next q i = s.next q i
  prev : ∀ q, q = .priceLadder ∨ q = .timeFifo → s'.prev q i = s.prev q i
  price : (s'.order i).price = (s.order i).price
  flags : (s'.order i).flags = (s.order i).flags
  orderId : (s'.order i).orderId = (s.order i).orderId

theorem BookInv.slabFrame (h : BookInv ctx levels free) (hfree : FreeList s' free')
    (hcap : s'.capacity = ctx.slab.capacity)
    (hsame : ∀ id e, ctx.orderHashmap id = some e → SameBooked ctx.slab s' e.slotIdx)
    (hnot : ∀ id e, ctx.orderHashmap id = some e → e.slotIdx ∉ free') :
    BookInv { ctx with slab := s' } levels free' where
  sides := fun p b => by
    have hb : ∀ i ∈ queueOf (levels p b), SameBooked ctx.slab s' i :=
      fun i hi => hsame _ _ (h.resting hi).1
    apply (h.sides p b).frame hcap
    · exact fun i hi => (hb i hi).next _ (Or.inl rfl)
    · exact fun i hi => (hb i hi).prev _ (Or.inl rfl)
    · exact fun i hi => (hb i hi).next _ (Or.inr rfl)
    · exact fun i hi => (hb i hi).prev _ (Or.inr rfl)
    · exact fun i hi => (hb i hi).price
    · exact fun i hi => by rw [(hb i hi).flags]
  disjoint := h.disjoint
  freeList := hfree
  resting := fun {p b i} hi => by
    have hb := hsame _ _ (h.resting hi).1
    refine ⟨?_, ?_⟩
    · change ctx.orderHashmap (s'.order i).orderId = _
      rw [hb.orderId]
      exact (h.resting hi).1
    · change ¬ omGetStatus (s'.order i).flags = omStatusDeactivated
      rw [hb.flags]
      exact (h.resting hi).2
  entry := fun {id e} he => by
    have hb := hsame id e he
    obtain ⟨hid, hlt, -, hwhere⟩ := h.entry he
    refine ⟨hb.orderId.trans hid, ?_, hnot id e he, hwhere.imp_right fun hp => ⟨?_, ?_, ?_⟩⟩
    · change e.slotIdx < s'.capacity
      rw [hcap]
      exact hlt
    · change omGetStatus (s'.order e.slotIdx).flags = omStatusDeactivated
      rw [hb.flags]
      exact hp.deactivated
    · exact (hb.next _ (Or.inr rfl)).trans hp.next
    · exact (hb.prev _ (Or.inr rfl)).trans hp.prev

theorem BookInv.freeSlot (h : BookInv ctx levels free) (hx : Unbooked ctx x)
    (hcap : x < ctx.slab.capacity) (hnot : x ∉ free) :
    BookInv { ctx with slab := omSlabFree ctx.slab x } levels (x :: free) := by
  have hspec := omSlabFree_spec ctx.slab x
  apply h.slabFrame (omSlabFree_freeList h.freeList hcap hnot) hspec.capacity
  · intro id e he
    have hne := hx id e he
    exact ⟨fun q _ => hspec.next_same q _ hne, fun q _ => hspec.prev_same q _ hne,
      by rw [hspec.order_same], by rw [hspec.order_same], by rw [hspec.order_same]⟩
  · intro id e he hm
    rcases List.mem_cons.mp hm with heq | hm
    · exact hx id e he heq
    · exact (h.entry he).2.2.1 hm

theorem BookInv.allocSlot (h : BookInv ctx levels (x :: free)) :
    ∃ s', omSlabAlloc ctx.slab = (some x, s') ∧ AllocSpec ctx.slab x s' ∧
      BookInv { ctx with slab := s' } levels free ∧ Unbooked ctx x ∧ x < ctx.slab.capacity ∧
      x ∉ free := by
  obtain ⟨s', halloc, hfree, hspec⟩ := omSlabAlloc_cons h.freeList
  have hun : Unbooked ctx x := fun id e he heq => (h.entry he).2.2.1 (by simp [heq])
  refine ⟨s', halloc, hspec, ?_, hun, h.freeList.lt_capacity x (by simp),
    (List.nodup_cons.mp h.freeList.nodup).1⟩
  apply h.slabFrame hfree hspec.capacity
  · intro id e he
    have hne := hun id e he
    exact ⟨fun q _ => hspec.next_same q _ hne, fun q _ => hspec.prev_same q _ hne,
      by rw [hspec.order_same _ hne], by rw [hspec.order_same _ hne], by rw [hspec.order_same _ hne]⟩
  · exact fun id e he hm => (h.entry he).2.2.1 (by simp [hm])

theorem BookInv.setOrder (h : BookInv ctx levels free) (o : OmOrderFields)
    (hx : Unbooked ctx x ∨ (o.price = (ctx.slab.order x).price ∧
      o.flags = (ctx.slab.order x).flags ∧ o.orderId = (ctx.slab.order x).orderId)) :
    BookInv { ctx with slab := ctx.slab.setOrder x o } levels free := by
  have hstore := sameStore_setOrder ctx.slab x o
  apply h.slabFrame (h.freeList.sameStore hstore fun i => by simp) hstore.capacity
  · intro id e he
    by_cases hex : e.slotIdx = x
    · rcases hx with hx | ⟨hp, hf, hi⟩
      · exact absurd hex (hx id e he)
      · exact ⟨by simp, by simp, by simp [hex, hp], by simp [hex, hf], by simp [hex, hi]⟩
    · exact ⟨by simp, by simp, by simp [hex], by simp [hex], by simp [hex]⟩
  · exact fun id e he => (h.entry he).2.2.1

end Slab

end VeloxMatch
