import VeloxMatch.BookLookup

namespace VeloxMatch

open List

section Shape

variable {s s' : OmDualSlab} {head head' : Option Nat} {tree tree' : PriceTree} {isBid : Bool}
  {pre post levels : List Level} {x : Nat} {l : Level}

theorem SideShape.heads_nodup (h : SideShape s head tree isBid levels) :
    (levels.map Level.head).Nodup := by
  apply List.Nodup.sublist _ h.nodup
  have hsub : ∀ ls : List Level, (ls.map Level.head).Sublist (queueOf ls) := by
    intro ls
    induction ls with
    | nil => exact List.Sublist.refl _
    | cons l ls ih =>
      simp only [map_cons, queueOf_cons, Level.slots, cons_append]
      exact (ih.trans (sublist_append_right _ _)).cons_cons _
  exact hsub levels

theorem queueOf_insert_perm (pre post : List Level) (x : Nat) :
    (queueOf (pre ++ ⟨x, []⟩ :: post)).Perm (x :: queueOf (pre ++ post)) := by
  simp only [queueOf_append, queueOf_cons, Level.slots, cons_append, nil_append]
  exact perm_middle

theorem mem_splice {mid : List Level} : l ∈ pre ++ (mid ++ post) ↔ l ∈ mid ∨ l ∈ pre ++ post := by
  simp only [mem_append, or_left_comm]

theorem SideShape.sorted_congr {levels' : List Level} (h : SideShape s head tree isBid levels)
    (hprices : levels'.map (fun l => (s.order l.head).price) =
      levels.map fun l => (s.order l.head).price) :
    levels'.Pairwise fun a b => better isBid (s.order a.head).price (s.order b.head).price := by
  have hsorted := h.sorted
  rw [← pairwise_map (f := fun l : Level => (s.order l.head).price) (R := better isBid)]
    at hsorted ⊢
  rwa [hprices]

theorem SideShape.slots_nodup
    (h : SideShape s head tree isBid levels) (hl : l ∈ levels) : l.slots.Nodup := by
  obtain ⟨pre, post, rfl⟩ := append_of_mem hl
  have hnd := h.nodup
  simp only [queueOf_append, queueOf_cons] at hnd
  exact (nodup_append.mp (nodup_append.mp hnd).2.1).1

theorem SideShape.slots_disjoint {m : Level} {i : Nat}
    (h : SideShape s head tree isBid (pre ++ l :: post)) (hm : m ∈ pre ++ post) (hi : i ∈ m.slots) :
    i ∉ l.slots := by
  intro hil
  have hnd := h.nodup
  simp only [queueOf_append, queueOf_cons] at hnd
  obtain ⟨_, hright, hcross⟩ := nodup_append.mp hnd
  rcases mem_append.mp hm with hm | hm
  · exact hcross i (mem_queueOf.mpr ⟨m, hm, hi⟩) i (by simp [hil]) rfl
  · exact (nodup_append.mp hright).2.2 i hil i (mem_queueOf.mpr ⟨m, hm, hi⟩) rfl

theorem back_some_eq_getD (a : Nat) (l : List Nat) : back (some a) l = some ((back none l).getD a) := by
  induction l using reverseRecOn with
  | nil => rfl
  | append_singleton l y _ => simp [back_concat]

variable (hcap : s'.capacity = s.capacity) (horder : ∀ j, s'.order j = s.order j)

include hcap horder

/-- The levels `mid'` take the place of the levels `mid`, in the links and in the tree. -/
theorem SideShape.splice (mid mid' : List Level)
    (h : SideShape s head tree isBid (pre ++ (mid ++ post)))
    (hladder : DSeg (s'.next .priceLadder) (s'.prev .priceLadder) none
      ((pre ++ (mid' ++ post)).map Level.head) none)
    (hq2 : ∀ m ∈ pre ++ post, ∀ i ∈ m.slots, s'.next .timeFifo i = s.next .timeFifo i ∧
      s'.prev .timeFifo i = s.prev .timeFifo i)
    (hqueues : ∀ l ∈ mid', DSeg (s'.next .timeFifo) (s'.prev .timeFifo) l.tailMark l.slots none)
    (hnodup : (queueOf (pre ++ (mid' ++ post))).Nodup)
    (hsorted : (pre ++ (mid' ++ post)).Pairwise
      fun a b => better isBid (s.order a.head).price (s.order b.head).price)
    (hslots : ∀ l ∈ mid', ∀ i ∈ l.slots, (s.order i).price = (s.order l.head).price ∧
      omIsBid (s.order i).flags = isBid ∧ i < s.capacity)
    (htree : tree'.Ordered)
    (hmem : ∀ e, e ∈ tree'.toList ↔ (∃ l ∈ mid', e = ((s.order l.head).price, l.head)) ∨
      e ∈ tree.toList ∧ ∀ l ∈ mid, e.1 ≠ (s.order l.head).price)
    (hhead : head' = front ((pre ++ (mid' ++ post)).map Level.head) none) :
    SideShape s' head' tree' isBid (pre ++ (mid' ++ post)) := by
  have hold : ∀ l ∈ pre ++ post, l ∈ pre ++ (mid ++ post) := fun l hl => mem_splice.mpr (.inr hl)
  have hall : ∀ i ∈ queueOf (pre ++ (mid' ++ post)),
      omIsBid (s.order i).flags = isBid ∧ i < s.capacity := by
    intro i hi
    obtain ⟨l, hl, hi⟩ := mem_queueOf.mp hi
    rcases mem_splice.mp hl with hl | hl
    · exact (hslots l hl i hi).2
    · have hq := mem_queueOf.mpr ⟨l, hold l hl, hi⟩
      exact ⟨h.side i hq, h.lt_capacity i hq⟩
  -- No level that stays has the price of one that goes.
  have hprice : ∀ l ∈ pre ++ post, ∀ m ∈ mid, (s.order l.head).price ≠ (s.order m.head).price := by
    intro l hl m hm he
    obtain ⟨-, hright, hcross⟩ := pairwise_append.mp h.sorted
    rcases mem_append.mp hl with hl | hl
    · exact better_irrefl isBid _ (he ▸ hcross l hl m (mem_append_left _ hm))
    · exact better_irrefl isBid _ (he ▸ (pairwise_append.mp hright).2.2 m hm l hl)
  refine
    { head_eq := hhead
      ladder := hladder
      queues := fun l hl => ?_
      nodup := hnodup
      sorted := by simpa only [horder] using hsorted
      prices := fun l hl i hi => ?_
      side := fun i hi => by rw [horder]; exact (hall i hi).1
      tree_ordered := htree
      tree_mem := fun p i => ?_
      lt_capacity := fun i hi => hcap ▸ (hall i hi).2 }
  · rcases mem_splice.mp hl with hl | hl
    · exact hqueues l hl
    · exact (h.queues l (hold l hl)).congr (fun i hi => (hq2 l hl i hi).1)
        fun i hi => (hq2 l hl i hi).2
  · rw [horder, horder]
    rcases mem_splice.mp hl with hl | hl
    · exact (hslots l hl i hi).1
    · exact h.prices l (hold l hl) i hi
  · simp only [horder, hmem, h.tree_mem]
    constructor
    · rintro (⟨l, hl, he⟩ | ⟨⟨l, hl, rfl, hp⟩, hne⟩)
      · cases he
        exact ⟨l, mem_splice.mpr (.inl hl), rfl, rfl⟩
      · rcases mem_splice.mp hl with hl | hl
        · exact absurd hp.symm (hne l hl)
        · exact ⟨l, mem_splice.mpr (.inr hl), rfl, hp⟩
    · rintro ⟨l, hl, rfl, rfl⟩
      rcases mem_splice.mp hl with hl | hl
      · exact .inl ⟨l, hl, rfl⟩
      · exact .inr ⟨⟨l, hold l hl, rfl, rfl⟩, hprice l hl⟩

theorem SideShape.newLevel (h : SideShape s head tree isBid (pre ++ post))
    (hx : x ∉ queueOf (pre ++ post)) (hxcap : x < s.capacity)
    (hxside : omIsBid (s.order x).flags = isBid)
    (hpre : ∀ m ∈ pre, better isBid (s.order m.head).price (s.order x).price)
    (hpost : ∀ m ∈ post, better isBid (s.order x).price (s.order m.head).price)
    (hq1n : ∀ j, s'.next .priceLadder j = if j = x then front (post.map Level.head) none
      else if back none (pre.map Level.head) = some j then some x else s.next .priceLadder j)
    (hq1p : ∀ j, s'.prev .priceLadder j = if j = x then back none (pre.map Level.head)
      else if front (post.map Level.head) none = some j then some x else s.prev .priceLadder j)
    (hq2n : ∀ j, s'.next .timeFifo j = if j = x then none else s.next .timeFifo j)
    (hq2p : ∀ j, s'.prev .timeFifo j = if j = x then none else s.prev .timeFifo j)
    (htree : tree'.Ordered)
    (hmem : ∀ e, e ∈ tree'.toList ↔ e = ((s.order x).price, x) ∨ e ∈ tree.toList)
    (hhead : head' = front ((pre ++ ⟨x, []⟩ :: post).map Level.head) none) :
    SideShape s' head' tree' isBid (pre ++ ⟨x, []⟩ :: post) := by
  have hne : ∀ l ∈ pre ++ post, ∀ i ∈ l.slots, i ≠ x :=
    fun l hl i hi he => hx (he ▸ mem_queueOf.mpr ⟨l, hl, hi⟩)
  have hneHead : ∀ i ∈ pre.map Level.head ++ post.map Level.head, i ≠ x := by
    intro i hi
    rw [← map_append] at hi
    obtain ⟨l, hl, rfl⟩ := mem_map.mp hi
    exact hne l hl _ l.head_mem_slots
  refine h.splice hcap horder [] [⟨x, []⟩] ?_ ?_ ?_ ?_ ?_ ?_ htree ?_ hhead
  · have hladder := h.ladder
    have hnd := h.heads_nodup
    rw [map_append] at hladder hnd
    have hnodup : (pre.map Level.head ++ x :: post.map Level.head).Nodup :=
      nodup_middle.mpr (nodup_cons.mpr ⟨fun hm => hneHead x hm rfl, hnd⟩)
    rw [map_append]
    refine hladder.link hnodup (by simp [hq1p]) (by simp [hq1n]) ?_ ?_
    · exact fun y hy => (hq1n y).trans (if_neg (hneHead y hy))
    · exact fun y hy => (hq1p y).trans (if_neg (hneHead y hy))
  · exact fun l hl i hi => ⟨by simp [hq2n, hne l hl i hi], by simp [hq2p, hne l hl i hi]⟩
  · intro l hl
    rw [mem_singleton.mp hl]
    exact ⟨by simp [hq2p, Level.tailMark], by simp [hq2n], trivial⟩
  · exact (queueOf_insert_perm pre post x).nodup_iff.mpr (nodup_cons.mpr ⟨hx, h.nodup⟩)
  · obtain ⟨h1, h2, h3⟩ := pairwise_append.mp h.sorted
    refine pairwise_append.mpr ⟨h1, pairwise_cons.mpr ⟨hpost, h2⟩, ?_⟩
    intro a ha b hb
    rcases mem_cons.mp hb with rfl | hb
    · exact hpre a ha
    · exact h3 a ha b hb
  · intro l hl i hi
    rw [mem_singleton.mp hl] at hi ⊢
    rw [mem_singleton.mp hi]
    exact ⟨rfl, hxside, hxcap⟩
  · simpa using hmem

theorem SideShape.replaceRest {rest' : List Nat}
    (h : SideShape s head tree isBid (pre ++ l :: post))
    (hq1n : ∀ j, s'.next .priceLadder j = s.next .priceLadder j)
    (hq1p : ∀ j, s'.prev .priceLadder j = s.prev .priceLadder j)
    (hq2 : ∀ m ∈ pre ++ post, ∀ i ∈ m.slots, s'.next .timeFifo i = s.next .timeFifo i ∧
      s'.prev .timeFifo i = s.prev .timeFifo i)
    (hqueue : DSeg (s'.next .timeFifo) (s'.prev .timeFifo) (back none rest') (l.head :: rest') none)
    (hnodup : (queueOf (pre ++ ⟨l.head, rest'⟩ :: post)).Nodup)
    (hrest : ∀ i ∈ rest', i ∈ l.rest ∨ ((s.order i).price = (s.order l.head).price ∧
      omIsBid (s.order i).flags = isBid ∧ i < s.capacity)) :
    SideShape s' head tree isBid (pre ++ ⟨l.head, rest'⟩ :: post) := by
  have hlmem : l ∈ pre ++ l :: post := by simp
  have hheads : (pre ++ ⟨l.head, rest'⟩ :: post).map Level.head = (pre ++ l :: post).map Level.head := by
    simp
  refine h.splice hcap horder [l] [⟨l.head, rest'⟩] ?_ hq2 ?_ hnodup (h.sorted_congr (by simp)) ?_
    h.tree_ordered ?_ ?_
  · change DSeg _ _ none ((pre ++ ⟨l.head, rest'⟩ :: post).map Level.head) none
    rw [hheads]
    exact h.ladder.congr (fun i _ => hq1n i) (fun i _ => hq1p i)
  · intro m hm
    rw [mem_singleton.mp hm]
    exact hqueue
  · -- a slot of the new queue is one of the level, or brings the level's price and side
    have hin : ∀ k ∈ l.slots, (s.order k).price = (s.order l.head).price ∧
        omIsBid (s.order k).flags = isBid ∧ k < s.capacity := fun k hk =>
      ⟨h.prices l hlmem k hk, h.side k (mem_queueOf.mpr ⟨l, hlmem, hk⟩),
        h.lt_capacity k (mem_queueOf.mpr ⟨l, hlmem, hk⟩)⟩
    intro m hm i hi
    rw [mem_singleton.mp hm] at hi ⊢
    rcases mem_cons.mp hi with rfl | hi
    · exact hin _ l.head_mem_slots
    · exact (hrest i hi).elim (fun hi => hin i (mem_cons_of_mem _ hi)) id
  · have hl : ((s.order l.head).price, l.head) ∈ tree.toList :=
      (h.tree_mem _ _).mpr ⟨l, hlmem, rfl, rfl⟩
    rintro ⟨p, i⟩
    simp only [mem_singleton, exists_eq_left, forall_eq]
    constructor
    · intro he
      by_cases hp : p = (s.order l.head).price
      · subst hp
        exact .inl (by rw [h.tree_ordered.value_unique he hl])
      · exact .inr ⟨he, hp⟩
    · rintro (he | he)
      · rw [he]
        exact hl
      · exact he.1
  · change head = front ((pre ++ ⟨l.head, rest'⟩ :: post).map Level.head) none
    rw [hheads]
    exact h.head_eq

theorem SideShape.appendOrder (h : SideShape s head tree isBid (pre ++ l :: post))
    (hx : x ∉ queueOf (pre ++ l :: post)) (hxcap : x < s.capacity)
    (hxside : omIsBid (s.order x).flags = isBid)
    (hprice : (s.order x).price = (s.order l.head).price)
    (hq1n : ∀ j, s'.next .priceLadder j = s.next .priceLadder j)
    (hq1p : ∀ j, s'.prev .priceLadder j = s.prev .priceLadder j)
    (hq2n : ∀ j, s'.next .timeFifo j =
      if j = (back none l.rest).getD l.head then some x else if j = x then none
      else s.next .timeFifo j)
    (hq2p : ∀ j, s'.prev .timeFifo j =
      if j = l.head then some x else if j = x then some ((back none l.rest).getD l.head)
      else s.prev .timeFifo j) :
    SideShape s' head tree isBid (pre ++ ⟨l.head, l.rest ++ [x]⟩ :: post) := by
  have hlmem : l ∈ pre ++ l :: post := by simp
  have hslots : ∀ i ∈ l.slots, i ≠ x :=
    fun i hi he => hx (he ▸ mem_queueOf.mpr ⟨l, hlmem, hi⟩)
  have hndl := h.slots_nodup hlmem
  have htail : back none l.slots = some ((back none l.rest).getD l.head) := back_some_eq_getD _ _
  have htailMem : (back none l.rest).getD l.head ∈ l.slots := back_none_mem htail
  have hother : ∀ m ∈ pre ++ post, ∀ i ∈ m.slots, i ∉ l.slots ∧ i ≠ x := by
    intro m hm i hi
    refine ⟨h.slots_disjoint hm hi, fun he => hx (he ▸ mem_queueOf.mpr ⟨m, ?_, hi⟩)⟩
    rcases mem_append.mp hm with hm | hm <;> simp [hm]
  apply h.replaceRest hcap horder hq1n hq1p
  · intro m hm i hi
    obtain ⟨hil, hix⟩ := hother m hm i hi
    have hit : i ≠ (back none l.rest).getD l.head := fun he => hil (he ▸ htailMem)
    have hih : i ≠ l.head := fun he => hil (he ▸ l.head_mem_slots)
    exact ⟨by simp [hq2n, hit, hix], by simp [hq2p, hih, hix]⟩
  · -- first the head's back link moves to the new tail, then `x` is linked in
    rw [back_concat]
    have hmid : DSeg (s.next .timeFifo) (fun j => if j = l.head then some x else s.prev .timeFifo j)
        (some x) l.slots none := by
      refine (h.queues l hlmem).reback hndl (fun y _ => ?_) fun y _ => rfl
      simp [Level.slots, eq_comm]
    have hxl : x ∉ l.slots := fun hm => hslots x hm rfl
    have hxt : x ≠ (back none l.rest).getD l.head := fun he => hxl (he ▸ htailMem)
    have hxh : x ≠ l.head := fun he => hxl (by simp [he, Level.slots])
    change DSeg _ _ _ (l.slots ++ [x]) none
    refine DSeg.link (a := l.slots) (b := []) (by simpa using hmid) ?_ ?_ ?_ ?_ ?_
    · exact nodup_middle.mpr (nodup_cons.mpr ⟨by simpa using hxl, by simpa using hndl⟩)
    · simp [hq2p, hxh, Level.slots, back_some_eq_getD]
    · simp [hq2n, hxt]
    · intro y hy
      have hyx : y ≠ x := hslots y (by simpa using hy)
      simp [hq2n, htail, hyx, eq_comm]
    · intro y hy
      have hyx : y ≠ x := hslots y (by simpa using hy)
      simp [hq2p, hyx]
  · have hperm : (queueOf (pre ++ ⟨l.head, l.rest ++ [x]⟩ :: post)).Perm
        (x :: queueOf (pre ++ l :: post)) := by
      have he : queueOf (pre ++ ⟨l.head, l.rest ++ [x]⟩ :: post) =
          (queueOf pre ++ l.slots) ++ x :: queueOf post := by simp [Level.slots]
      rw [he]
      refine perm_middle.trans ?_
      simp
    exact hperm.nodup_iff.mpr (nodup_cons.mpr ⟨hx, h.nodup⟩)
  · intro i hi
    rcases mem_append.mp hi with hi | hi
    · exact Or.inl hi
    · rw [mem_singleton.mp hi]
      exact Or.inr ⟨hprice, hxside, hxcap⟩

end Shape

end VeloxMatch
