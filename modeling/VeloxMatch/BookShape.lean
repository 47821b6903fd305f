import VeloxMatch.IntrusiveList
import VeloxMatch.SlabLinks
import VeloxMatch.Orderbook

namespace VeloxMatch

open OmOrderbookContext

def better (isBid : Bool) (p q : Nat) : Prop := if isBid then q < p else p < q

instance (isBid : Bool) (p q : Nat) : Decidable (better isBid p q) :=
  inferInstanceAs (Decidable (if isBid = true then q < p else p < q))

theorem better_irrefl (isBid : Bool) (p : Nat) : ¬ better isBid p p := by
  cases isBid <;> simp [better]

variable {isBid b : Bool} {p q : Nat} {levels : List Level}

theorem better_trans {r : Nat} (h : better isBid p q) (h' : better isBid q r) :
    better isBid p r := by
  cases isBid <;> simp [better] at * <;> omega

theorem better_asymm (h : better isBid p q) : ¬ better isBid q p :=
  fun h' => better_irrefl isBid p (better_trans h h')

theorem better_total (h : p ≠ q) : better isBid p q ∨ better isBid q p := by
  cases isBid <;> simp [better] <;> omega

/-- The slots resting at one price, oldest first. -/
structure Level where
  head : Nat
  rest : List Nat
  deriving DecidableEq, Repr

def Level.slots (l : Level) : List Nat := l.head :: l.rest

theorem Level.head_mem_slots (l : Level) : l.head ∈ l.slots := by simp [Level.slots]

/-- What the head's Q2 back link holds: the tail, or nothing for a lone head. -/
def Level.tailMark (l : Level) : Option Nat := back none l.rest

def queueOf (levels : List Level) : List Nat := levels.flatMap Level.slots

theorem mem_queueOf {i : Nat} : i ∈ queueOf levels ↔ ∃ l ∈ levels, i ∈ l.slots := by
  simp [queueOf]

theorem head_mem_queueOf {l : Level} (h : l ∈ levels) : l.head ∈ queueOf levels :=
  mem_queueOf.mpr ⟨l, h, l.head_mem_slots⟩

@[simp] theorem queueOf_append (a b : List Level) : queueOf (a ++ b) = queueOf a ++ queueOf b := by
  simp [queueOf]

@[simp] theorem queueOf_cons (l : Level) (a : List Level) :
    queueOf (l :: a) = l.slots ++ queueOf a := by
  simp [queueOf]

/-- One side of one product: Q1 runs through the level heads best price first, Q2 through the
slots of each level, and the tree knows every head by its price. -/
structure SideShape (s : OmDualSlab) (head : Option Nat) (tree : PriceTree) (isBid : Bool)
    (levels : List Level) : Prop where
  head_eq : head = front (levels.map Level.head) none
  ladder : DSeg (s.next .priceLadder) (s.prev .priceLadder) none (levels.map Level.head) none
  queues : ∀ l ∈ levels, DSeg (s.next .timeFifo) (s.prev .timeFifo) l.tailMark l.slots none
  nodup : (queueOf levels).Nodup
  sorted : levels.Pairwise
    (fun a b => better isBid (s.order a.head).price (s.order b.head).price)
  prices : ∀ l ∈ levels, ∀ i ∈ l.slots, (s.order i).price = (s.order l.head).price
  side : ∀ i ∈ queueOf levels, omIsBid (s.order i).flags = isBid
  tree_ordered : tree.Ordered
  tree_mem : ∀ p h, (p, h) ∈ tree.toList ↔ ∃ l ∈ levels, l.head = h ∧ (s.order h).price = p
  lt_capacity : ∀ i ∈ queueOf levels, i < s.capacity

theorem SideShape.empty (s : OmDualSlab) (isBid : Bool) : SideShape s none .leaf isBid [] where
  head_eq := rfl
  ladder := trivial
  queues := by simp
  nodup := by simp [queueOf]
  sorted := List.Pairwise.nil
  prices := by simp
  side := by simp [queueOf]
  tree_ordered := SearchTree.ordered_leaf
  tree_mem := by simp [SearchTree.toList]
  lt_capacity := by simp [queueOf]

section Frame

variable {s s' : OmDualSlab} {head : Option Nat} {tree : PriceTree} {isBid : Bool}
  {levels : List Level}

theorem SideShape.frame (h : SideShape s head tree isBid levels) (hcap : s'.capacity = s.capacity)
    (hq1n : ∀ i ∈ queueOf levels, s'.next .priceLadder i = s.next .priceLadder i)
    (hq1p : ∀ i ∈ queueOf levels, s'.prev .priceLadder i = s.prev .priceLadder i)
    (hq2n : ∀ i ∈ queueOf levels, s'.next .timeFifo i = s.next .timeFifo i)
    (hq2p : ∀ i ∈ queueOf levels, s'.prev .timeFifo i = s.prev .timeFifo i)
    (hprice : ∀ i ∈ queueOf levels, (s'.order i).price = (s.order i).price)
    (hside : ∀ i ∈ queueOf levels, omIsBid (s'.order i).flags = omIsBid (s.order i).flags) :
    SideShape s' head tree isBid levels := by
  have hheads : ∀ i ∈ levels.map Level.head, i ∈ queueOf levels := by
    intro i hi
    obtain ⟨l, hl, rfl⟩ := List.mem_map.mp hi
    exact head_mem_queueOf hl
  have hslots : ∀ l ∈ levels, ∀ i ∈ l.slots, i ∈ queueOf levels :=
    fun l hl i hi => mem_queueOf.mpr ⟨l, hl, hi⟩
  refine
    { head_eq := h.head_eq
      ladder := h.ladder.congr (fun i hi => hq1n i (hheads i hi)) (fun i hi => hq1p i (hheads i hi))
      queues := fun l hl => (h.queues l hl).congr (fun i hi => hq2n i (hslots l hl i hi))
        (fun i hi => hq2p i (hslots l hl i hi))
      nodup := h.nodup
      sorted := ?_
      prices := ?_
      side := fun i hi => (hside i hi).trans (h.side i hi)
      tree_ordered := h.tree_ordered
      tree_mem := ?_
      lt_capacity := fun i hi => hcap ▸ h.lt_capacity i hi }
  · apply h.sorted.imp_of_mem
    intro a b ha hb hab
    rwa [hprice _ (head_mem_queueOf ha), hprice _ (head_mem_queueOf hb)]
  · intro l hl i hi
    rw [hprice i (hslots l hl i hi), hprice _ (head_mem_queueOf hl)]
    exact h.prices l hl i hi
  · intro p i
    rw [h.tree_mem]
    constructor
    · rintro ⟨l, hl, rfl, hp⟩
      exact ⟨l, hl, rfl, (hprice _ (head_mem_queueOf hl)).trans hp⟩
    · rintro ⟨l, hl, rfl, hp⟩
      exact ⟨l, hl, rfl, (hprice _ (head_mem_queueOf hl)).symm.trans hp⟩

end Frame

/-- Where a new order goes: behind its price's level, or as a new level before the first
worse one. -/
def placeInto (price : Nat → Nat) (isBid : Bool) (x : Nat) : List Level → List Level
  | [] => [⟨x, []⟩]
  | l :: ls =>
    if price l.head = price x then ⟨l.head, l.rest ++ [x]⟩ :: ls
    else if better isBid (price l.head) (price x) then l :: placeInto price isBid x ls
    else ⟨x, []⟩ :: l :: ls

section Place

variable {price : Nat → Nat} {isBid : Bool} {x : Nat} {pre post : List Level} {l : Level}

theorem placeInto_append (hpre : ∀ m ∈ pre, better isBid (price m.head) (price x)) :
    placeInto price isBid x (pre ++ post) = pre ++ placeInto price isBid x post := by
  induction pre with
  | nil => rfl
  | cons m pre ih =>
    have hm := hpre m (by simp)
    have hne : price m.head ≠ price x := fun he => better_irrefl isBid _ (he ▸ hm)
    simp [placeInto, hne, hm, ih fun k hk => hpre k (by simp [hk])]

theorem placeInto_found (hpre : ∀ m ∈ pre, better isBid (price m.head) (price x))
    (hl : price l.head = price x) :
    placeInto price isBid x (pre ++ l :: post) = pre ++ ⟨l.head, l.rest ++ [x]⟩ :: post := by
  rw [placeInto_append hpre, placeInto, if_pos hl]

theorem placeInto_absent (hpre : ∀ m ∈ pre, better isBid (price m.head) (price x))
    (hpost : ∀ m ∈ post, better isBid (price x) (price m.head)) :
    placeInto price isBid x (pre ++ post) = pre ++ ⟨x, []⟩ :: post := by
  rw [placeInto_append hpre]
  cases post with
  | nil => rfl
  | cons m post =>
    have hm := hpost m (by simp)
    have hne : price m.head ≠ price x := fun he => better_irrefl isBid _ (he ▸ hm)
    simp [placeInto, hne, better_asymm hm]

theorem queueOf_placeInto_perm (levels : List Level) :
    (queueOf (placeInto price isBid x levels)).Perm (x :: queueOf levels) := by
  induction levels with
  | nil => simp [placeInto, queueOf, Level.slots]
  | cons l ls ih =>
    unfold placeInto
    split
    next =>
      simp only [queueOf_cons, Level.slots, List.cons_append, List.append_assoc]
      have hmid : (l.rest ++ x :: queueOf ls).Perm (x :: (l.rest ++ queueOf ls)) :=
        List.perm_middle
      exact (hmid.cons l.head).trans (List.Perm.swap x l.head _)
    next =>
      split
      next =>
        simp only [queueOf_cons]
        exact (ih.append_left l.slots).trans List.perm_middle
      next => simp [Level.slots]

end Place

structure LevelFrame (ctx ctx' : OmOrderbookContext) (productId : Nat) (isBid : Bool)
    (touched : Nat → Prop) : Prop where
  rest : ctx' = { ctx with
    slab := ctx'.slab, products := ctx'.products
    knownOrg := ctx'.knownOrg, priceRoots := ctx'.priceRoots }
  store : OmDualSlab.SameStore ctx.slab ctx'.slab
  order : ∀ j, ctx'.slab.order j = ctx.slab.order j
  next : ∀ q j, (q = .priceLadder ∨ q = .timeFifo → ¬ touched j) →
    ctx'.slab.next q j = ctx.slab.next q j
  prev : ∀ q j, (q = .priceLadder ∨ q = .timeFifo → ¬ touched j) →
    ctx'.slab.prev q j = ctx.slab.prev q j
  head : ∀ p b, ¬(p = productId ∧ b = isBid) → ctx'.head p b = ctx.head p b
  roots : ∀ p b, ¬(p = productId ∧ b = isBid) →
    ctx'.priceRoots (priceRoot p b) = ctx.priceRoots (priceRoot p b)

section LevelFrame

variable {ctx ctx' ctx'' : OmOrderbookContext} {productId : Nat} {isBid : Bool}
  {touched : Nat → Prop} (h : LevelFrame ctx ctx' productId isBid touched)
include h

theorem LevelFrame.maxProducts : ctx'.maxProducts = ctx.maxProducts := by rw [h.rest]

theorem LevelFrame.maxOrg : ctx'.maxOrg = ctx.maxOrg := by rw [h.rest]

theorem LevelFrame.orgHeads : ctx'.orgHeads = ctx.orgHeads := by rw [h.rest]

theorem LevelFrame.orderHashmap : ctx'.orderHashmap = ctx.orderHashmap := by rw [h.rest]

theorem LevelFrame.wal : ctx'.wal = ctx.wal := by rw [h.rest]

theorem LevelFrame.trans (h' : LevelFrame ctx' ctx'' productId isBid touched) :
    LevelFrame ctx ctx'' productId isBid touched where
  rest := by
    conv_lhs => rw [h'.rest, h.rest]
  store := h.store.trans h'.store
  order := fun j => (h'.order j).trans (h.order j)
  next := fun q j hj => (h'.next q j hj).trans (h.next q j hj)
  prev := fun q j hj => (h'.prev q j hj).trans (h.prev q j hj)
  head := fun p b hne => (h'.head p b hne).trans (h.head p b hne)
  roots := fun p b hne => (h'.roots p b hne).trans (h.roots p b hne)

end LevelFrame

theorem priceRoot_inj {p' : Nat} {b' : Bool} (h : priceRoot p b = priceRoot p' b') :
    p = p' ∧ b = b' := by
  cases b <;> cases b' <;> simp [priceRoot] at h ⊢ <;> omega

@[simp] theorem head_setHead (ctx : OmOrderbookContext) (p p' : Nat) (b b' : Bool) (v : Option Nat) :
    (ctx.setHead p b v).head p' b' = if p' = p ∧ b' = b then v else ctx.head p' b' := by
  by_cases hp : p' = p
  · subst hp
    cases b <;> cases b' <;> simp [setHead, head]
  · cases b <;> cases b' <;> simp [setHead, head, hp]

section Parts

variable {ctx : OmOrderbookContext} {productId : Nat} {isBid : Bool} {touched : Nat → Prop}

theorem LinksFrame.level {s : OmDualSlab}
    (h : LinksFrame (fun q j => (q = .priceLadder ∨ q = .timeFifo) ∧ touched j) ctx.slab s) :
    LevelFrame ctx { ctx with slab := s } productId isBid touched where
  rest := rfl
  store := h.store
  order := h.order
  next := fun _ _ hj => h.next fun ht => hj ht.1 ht.2
  prev := fun _ _ hj => h.prev fun ht => hj ht.1 ht.2
  head := fun _ _ _ => rfl
  roots := fun _ _ _ => rfl

theorem roots_frame (tree : PriceTree) (known : Nat → Option Nat) :
    LevelFrame ctx { ctx with
      knownOrg := known
      priceRoots := Function.update ctx.priceRoots (priceRoot productId isBid) tree }
      productId isBid touched where
  rest := rfl
  store := .refl _
  order := fun _ => rfl
  next := fun _ _ _ => rfl
  prev := fun _ _ _ => rfl
  head := fun _ _ _ => rfl
  roots := fun p b hne => by
    have hroot : priceRoot p b ≠ priceRoot productId isBid :=
      fun he => hne (priceRoot_inj he)
    exact Function.update_of_ne hroot ..

theorem setHead_frame (v : Option Nat) :
    LevelFrame ctx (ctx.setHead productId isBid v) productId isBid touched where
  rest := rfl
  store := .refl _
  order := fun _ => rfl
  next := fun _ _ _ => rfl
  prev := fun _ _ _ => rfl
  head := fun p b hne => by
    rw [head_setHead, if_neg hne]
  roots := fun _ _ _ => rfl

theorem setHead_if_frame (c : Prop) [Decidable c] (v : Option Nat) :
    LevelFrame ctx (if c then ctx.setHead productId isBid v else ctx) productId isBid touched := by
  split
  next => exact setHead_frame v
  next => exact LinksFrame.refl.level

end Parts

/-- A side of the book, read off the chain, the head and the price tree it has there. -/
abbrev OmOrderbookContext.Side (ctx : OmOrderbookContext) (p : Nat) (b : Bool)
    (levels : List Level) : Prop :=
  SideShape ctx.slab (ctx.head p b) (ctx.priceRoots (priceRoot p b)) b levels

/-- Slot `x` leaves the levels of a side: they become `levels'`, and `x` stands unlinked. -/
abbrev Unlinks (ctx ctx' : OmOrderbookContext) (productId : Nat) (isBid : Bool) (x : Nat)
    (levels levels' : List Level) : Prop :=
  ctx'.Side productId isBid levels' ∧
    LevelFrame ctx ctx' productId isBid (fun j => j ∈ queueOf levels) ∧
    ctx'.slab.next .timeFifo x = none ∧ ctx'.slab.prev .timeFifo x = none

theorem LevelFrame.other_side {ctx ctx' : OmOrderbookContext} {productId : Nat}
    {touched : Nat → Prop} (hf : LevelFrame ctx ctx' productId isBid touched)
    (hne : ¬(p = productId ∧ b = isBid)) (hdisj : ∀ i ∈ queueOf levels, ¬ touched i)
    (h : ctx.Side p b levels) : ctx'.Side p b levels := by
  rw [Side, hf.head p b hne, hf.roots p b hne]
  apply h.frame hf.store.capacity
  · exact fun i hi => hf.next _ i fun _ => hdisj i hi
  · exact fun i hi => hf.prev _ i fun _ => hdisj i hi
  · exact fun i hi => hf.next _ i fun _ => hdisj i hi
  · exact fun i hi => hf.prev _ i fun _ => hdisj i hi
  · exact fun i _ => by rw [hf.order]
  · exact fun i _ => by rw [hf.order]

end VeloxMatch
