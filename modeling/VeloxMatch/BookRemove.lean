import VeloxMatch.BookLink

namespace VeloxMatch

open List

def dropFrom (x : Nat) : List Level → List Level
  | [] => []
  | l :: ls =>
    if l.head = x then
      match l.rest with
      | [] => ls
      | y :: rest => ⟨y, rest⟩ :: ls
    else if x ∈ l.rest then ⟨l.head, l.rest.erase x⟩ :: ls
    else l :: dropFrom x ls

theorem dropFrom_append {x : Nat} {pre post : List Level} (h : x ∉ queueOf pre) :
    dropFrom x (pre ++ post) = pre ++ dropFrom x post := by
  induction pre with
  | nil => rfl
  | cons l pre ih =>
    simp only [queueOf_cons, mem_append, not_or, Level.slots, mem_cons] at h
    have hne : l.head ≠ x := fun he => h.1.1 he.symm
    simp [dropFrom, hne, h.1.2, ih h.2]

theorem queueOf_dropFrom (x : Nat) (levels : List Level) :
    queueOf (dropFrom x levels) = (queueOf levels).erase x := by
  induction levels with
  | nil => rfl
  | cons l ls ih =>
    unfold dropFrom
    split
    next he =>
      subst he
      cases hr : l.rest with
      | nil => simp [Level.slots, hr]
      | cons y rest => simp [Level.slots, hr]
    next hne =>
      split
      next hm => simp [Level.slots, hne, erase_append_left _ hm]
      next hm => simp [Level.slots, hne, erase_append_right _ hm, ih]

section Shape

variable {s s' : OmDualSlab} {head head' : Option Nat} {tree tree' : PriceTree} {isBid : Bool}
  {pre post : List Level} {x : Nat}

variable (hcap : s'.capacity = s.capacity) (horder : ∀ j, s'.order j = s.order j)

include hcap horder

theorem SideShape.dropLevel (h : SideShape s head tree isBid (pre ++ ⟨x, []⟩ :: post))
    (hq1n : ∀ j, j ≠ x → s'.next .priceLadder j =
      if back none (pre.map Level.head) = some j then front (post.map Level.head) none
      else s.next .priceLadder j)
    (hq1p : ∀ j, j ≠ x → s'.prev .priceLadder j =
      if front (post.map Level.head) none = some j then back none (pre.map Level.head)
      else s.prev .priceLadder j)
    (hq2n : ∀ j, s'.next .timeFifo j = s.next .timeFifo j)
    (hq2p : ∀ j, s'.prev .timeFifo j = s.prev .timeFifo j)
    (htree : tree'.Ordered)
    (hmem : ∀ e, e ∈ tree'.toList ↔ e ∈ tree.toList ∧ e.1 ≠ (s.order x).price)
    (hhead : head' = front ((pre ++ post).map Level.head) none) :
    SideShape s' head' tree' isBid (pre ++ post) := by
  have hneHead : ∀ i ∈ pre.map Level.head ++ post.map Level.head, i ≠ x := by
    intro i hi he
    rw [← map_append] at hi
    obtain ⟨l, hl, rfl⟩ := mem_map.mp hi
    exact h.slots_disjoint hl l.head_mem_slots (by simp [Level.slots, he])
  refine h.splice hcap horder [⟨x, []⟩] [] ?_ (fun _ _ i _ => ⟨hq2n i, hq2p i⟩) (by simp) ?_ ?_ (by simp)
    htree (by simpa using hmem) hhead
  · have hladder := h.ladder
    have hnd := h.heads_nodup
    rw [map_append, map_cons] at hladder hnd
    rw [nil_append, map_append]
    exact hladder.unlink hnd (fun y hy => hq1n y (hneHead y hy)) fun y hy => hq1p y (hneHead y hy)
  · exact (nodup_cons.mp ((queueOf_insert_perm pre post x).nodup_iff.mp h.nodup)).2
  · obtain ⟨h1, h2, h3⟩ := pairwise_append.mp h.sorted
    exact pairwise_append.mpr ⟨h1, (pairwise_cons.mp h2).2,
      fun a ha b hb => h3 a ha b (mem_cons_of_mem _ hb)⟩

theorem SideShape.promote {y : Nat} {r : List Nat}
    (h : SideShape s head tree isBid (pre ++ ⟨x, y :: r⟩ :: post))
    (hq1n : ∀ j, j ≠ x → s'.next .priceLadder j =
      if j = y then front (post.map Level.head) none
      else if back none (pre.map Level.head) = some j then some y else s.next .priceLadder j)
    (hq1p : ∀ j, j ≠ x → s'.prev .priceLadder j =
      if j = y then back none (pre.map Level.head)
      else if front (post.map Level.head) none = some j then some y else s.prev .priceLadder j)
    (hq2n : ∀ j, j ≠ x → s'.next .timeFifo j = s.next .timeFifo j)
    (hq2p : ∀ j, j ≠ x → s'.prev .timeFifo j = if j = y then back none r else s.prev .timeFifo j)
    (htree : tree'.Ordered)
    (hmem : ∀ e, e ∈ tree'.toList ↔
      e = ((s.order y).price, y) ∨ (e ∈ tree.toList ∧ e.1 ≠ (s.order x).price))
    (hhead : head' = front ((pre ++ ⟨y, r⟩ :: post).map Level.head) none) :
    SideShape s' head' tree' isBid (pre ++ ⟨y, r⟩ :: post) := by
  have hlmem : (⟨x, y :: r⟩ : Level) ∈ pre ++ ⟨x, y :: r⟩ :: post := by simp
  obtain ⟨hxnot, hndy⟩ := nodup_cons.mp (h.slots_nodup hlmem)
  have hyx : y ≠ x := fun he => hxnot (by simp [he])
  have hpy : (s.order y).price = (s.order x).price := h.prices _ hlmem y (by simp [Level.slots])
  have hother : ∀ l ∈ pre ++ post, ∀ i ∈ l.slots, i ≠ x ∧ i ≠ y := by
    intro l hl i hi
    have := h.slots_disjoint hl hi
    simp only [Level.slots, mem_cons, not_or] at this
    exact ⟨this.1, this.2.1⟩
  have hneHead : ∀ i ∈ pre.map Level.head ++ post.map Level.head, i ≠ x ∧ i ≠ y := by
    intro i hi
    rw [← map_append] at hi
    obtain ⟨l, hl, rfl⟩ := mem_map.mp hi
    exact hother l hl _ l.head_mem_slots
  refine h.splice hcap horder [⟨x, y :: r⟩] [⟨y, r⟩] ?_ ?_ ?_ ?_ (h.sorted_congr (by simp [hpy])) ?_
    htree (by simpa using hmem) hhead
  · have hladder := h.ladder
    have hndh := h.heads_nodup
    rw [map_append, map_cons] at hladder hndh
    rw [map_append]
    refine hladder.replace hndh (by simp [hq1p y hyx]) (by simp [hq1n y hyx]) ?_ ?_
    · exact fun z hz => (hq1n z (hneHead z hz).1).trans (if_neg (hneHead z hz).2)
    · exact fun z hz => (hq1p z (hneHead z hz).1).trans (if_neg (hneHead z hz).2)
  · intro l hl i hi
    obtain ⟨hix, hiy⟩ := hother l hl i hi
    exact ⟨hq2n i hix, by simp [hq2p i hix, hiy]⟩
  · -- the level without its old head, with the tail mark moved to the new one
    intro l hl
    rw [mem_singleton.mp hl]
    have hne : ∀ z ∈ y :: r, z ≠ x := fun z hz he => hxnot (he ▸ hz)
    refine DSeg.reback (h.queues _ hlmem).2.2 hndy (fun z hz => ?_) fun z hz => hq2n z (hne z hz)
    simp [hq2p z (hne z hz), Level.tailMark, Level.slots, eq_comm]
  · have hq : (queueOf (pre ++ ⟨x, y :: r⟩ :: post)).Perm
        (x :: queueOf (pre ++ ⟨y, r⟩ :: post)) := by
      simp only [queueOf_append, queueOf_cons, Level.slots, cons_append]
      exact perm_middle
    exact (nodup_cons.mp (hq.nodup_iff.mp h.nodup)).2
  · intro l hl i hi
    rw [mem_singleton.mp hl] at hi ⊢
    have hi' : i ∈ (⟨x, y :: r⟩ : Level).slots := mem_cons_of_mem x hi
    have hq := mem_queueOf.mpr ⟨_, hlmem, hi'⟩
    exact ⟨(h.prices _ hlmem i hi').trans hpy.symm, h.side i hq, h.lt_capacity i hq⟩

theorem SideShape.dropRest {l : Level} {a b : List Nat}
    (h : SideShape s head tree isBid (pre ++ l :: post)) (hrest : l.rest = a ++ x :: b)
    (hq1n : ∀ j, s'.next .priceLadder j = s.next .priceLadder j)
    (hq1p : ∀ j, s'.prev .priceLadder j = s.prev .priceLadder j)
    (hq2n : ∀ j, j ≠ x → s'.next .timeFifo j =
      if (back none a).getD l.head = j then front b none else s.next .timeFifo j)
    (hq2p : ∀ j, j ≠ x → s'.prev .timeFifo j =
      if j = l.head then back none (a ++ b)
      else if front b none = some j then some ((back none a).getD l.head)
      else s.prev .timeFifo j) :
    SideShape s' head tree isBid (pre ++ ⟨l.head, a ++ b⟩ :: post) := by
  have hlmem : l ∈ pre ++ l :: post := by simp
  have hslots : l.slots = (l.head :: a) ++ x :: b := by simp [Level.slots, hrest]
  have hnd := h.slots_nodup hlmem
  rw [hslots] at hnd
  have hxnot : x ∉ (l.head :: a) ++ b := (nodup_cons.mp (nodup_middle.mp hnd)).1
  have hndab : ((l.head :: a) ++ b).Nodup := (nodup_cons.mp (nodup_middle.mp hnd)).2
  have hmemx : ∀ j ∈ (l.head :: a) ++ b, j ≠ x := fun j hj he => hxnot (he ▸ hj)
  have hlast : back none (l.head :: a) = some ((back none a).getD l.head) := back_some_eq_getD _ _
  have hlastMem : (back none a).getD l.head ∈ l.slots := by
    rw [hslots]
    exact mem_append_left _ (back_none_mem hlast)
  have hother : ∀ m ∈ pre ++ post, ∀ i ∈ m.slots, i ∉ l.slots :=
    fun m hm i hi => h.slots_disjoint hm hi
  have hxl : x ∈ l.slots := by rw [hslots]; simp
  apply h.replaceRest hcap horder hq1n hq1p
  · intro m hm i hi
    have hil := hother m hm i hi
    have hix : i ≠ x := fun he => hil (he ▸ hxl)
    have hit : (back none a).getD l.head ≠ i := fun he => hil (he ▸ hlastMem)
    have hih : i ≠ l.head := fun he => hil (he ▸ l.head_mem_slots)
    have hif : front b none ≠ some i := by
      intro he
      apply hil
      rw [hslots]
      simp [front_mem he]
    exact ⟨by simp [hq2n i hix, hit], by simp [hq2p i hix, hih, hif]⟩
  · -- unlink `x` behind the head, then let the head's back link name the tail that is left
    have hq := h.queues l hlmem
    rw [hslots] at hq
    have hmid : DSeg (s'.next .timeFifo)
        (fun j => if front b none = some j then some ((back none a).getD l.head)
          else s.prev .timeFifo j) l.tailMark ((l.head :: a) ++ b) none := by
      refine hq.unlink hnd (fun y hy => ?_) fun y _ => ?_
      · simp [hq2n y (hmemx y hy), back_some_eq_getD]
      · simp [back_some_eq_getD]
    refine hmid.reback hndab (fun y hy => ?_) fun y _ => rfl
    simp [hq2p y (hmemx y hy), eq_comm]
  · have hq : (queueOf (pre ++ l :: post)).Perm
        (x :: queueOf (pre ++ ⟨l.head, a ++ b⟩ :: post)) := by
      have he : queueOf (pre ++ l :: post) =
          (queueOf pre ++ l.head :: a) ++ x :: (b ++ queueOf post) := by simp [hslots]
      rw [he]
      refine perm_middle.trans ?_
      simp [Level.slots]
    exact (nodup_cons.mp (hq.nodup_iff.mp h.nodup)).2
  · intro i hi
    refine Or.inl ?_
    rw [hrest]
    rcases mem_append.mp hi with hi | hi <;> simp [hi]

end Shape

end VeloxMatch
