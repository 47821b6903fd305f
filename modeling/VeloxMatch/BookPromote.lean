import VeloxMatch.BookRemove

namespace VeloxMatch

open OmDualSlab Level LinksFrame

section Promote

variable {s : OmDualSlab} {x y : Nat} {touched : OmQueue → Nat → Prop}

theorem promoteFifo_frame (hy : touched .timeFifo y)
    (hn : ∀ i, s.next .timeFifo y = some i → touched .timeFifo i) :
    LinksFrame touched s (promoteFifo s x y) := by
  have hmark : LinksFrame touched s (s.setPrev .timeFifo y (s.prev .timeFifo x)) :=
    refl.setPrev hy _
  simp only [promoteFifo]
  split
  next => exact (hmark.setPrev hy _).setPrevOf (by simpa using hn) _
  next => exact hmark.setPrevOf (by simpa using hn) _

theorem promoteFifo_links (s : OmDualSlab) (x y : Nat) :
    LinksFrame (fun q _ => q = .timeFifo) s (promoteFifo s x y) :=
  promoteFifo_frame rfl fun _ _ => rfl

@[simp] theorem next_promoteFifo (q : OmQueue) (j : Nat) :
    (promoteFifo s x y).next q j = s.next q j := by
  simp only [promoteFifo]
  split <;> simp

theorem prev_promoteFifo {r : List Nat} (hmark : s.prev .timeFifo x = back (some y) r)
    (hnext : s.next .timeFifo y = front r none)
    (hback : ∀ z, front r none = some z → s.prev .timeFifo z = some y)
    (hy : y ∉ r) (hvalid : ∀ z ∈ r, z < s.capacity) (j : Nat) :
    (promoteFifo s x y).prev .timeFifo j =
      if j = y then back none r else s.prev .timeFifo j := by
  cases r with
  | nil => by_cases hj : j = y <;> simp [promoteFifo, hnext, setPrevOf, hj]
  | cons z r =>
    have hz : z ≠ y := fun he => hy (by simp [he])
    have hlast : back (some y) (z :: r) = back none (z :: r) := back_ne_nil (by simp) _ _
    simp only [promoteFifo, next_setPrev, hnext, front_cons, reduceCtorEq, ↓reduceIte]
    rw [prev_setPrevOf (by simpa using hvalid z (by simp)), hmark, hlast]
    by_cases hjz : j = z
    · subst hjz
      simp [hz, hback j rfl]
    · simp [Ne.symm hjz]

theorem promoteLadder_frame (hy : touched .priceLadder y)
    (hp : ∀ i, s.prev .priceLadder x = some i → touched .priceLadder i)
    (hn : ∀ i, s.next .priceLadder x = some i → touched .priceLadder i) :
    LinksFrame touched s (promoteLadder s x y) :=
  (((refl.setPrev hy _).setNext hy _).setNextOf hp _).setPrevOf hn _

theorem promoteLadder_links (s : OmDualSlab) (x y : Nat) :
    LinksFrame (fun q _ => q = .priceLadder) s (promoteLadder s x y) :=
  promoteLadder_frame rfl (fun _ _ => rfl) fun _ _ => rfl

theorem next_promoteLadder (hp : ∀ i, s.prev .priceLadder x = some i → i < s.capacity) (j : Nat) :
    (promoteLadder s x y).next .priceLadder j =
      if s.prev .priceLadder x = some j then some y
      else if j = y then s.next .priceLadder x else s.next .priceLadder j := by
  simp only [promoteLadder, next_setPrevOf]
  rw [next_setNextOf (by simpa using hp)]
  simp

theorem prev_promoteLadder (hn : ∀ i, s.next .priceLadder x = some i → i < s.capacity) (j : Nat) :
    (promoteLadder s x y).prev .priceLadder j =
      if s.next .priceLadder x = some j then some y
      else if j = y then s.prev .priceLadder x else s.prev .priceLadder j := by
  simp only [promoteLadder]
  rw [prev_setPrevOf (by simpa using hn)]
  simp

theorem detachHead_frame (h1 : touched .priceLadder x)
    (h2 : touched .timeFifo x) : LinksFrame touched s (detachHead s x) :=
  (((refl.setNext h1 _).setPrev h1 _).setNext h2 _).setPrev h2 _

theorem next_detachHead (q : OmQueue) (j : Nat) :
    (detachHead s x).next q j =
      if j = x ∧ (q = .priceLadder ∨ q = .timeFifo) then none else s.next q j := by
  by_cases hj : j = x <;> cases q <;> simp [detachHead, hj]

theorem prev_detachHead (q : OmQueue) (j : Nat) :
    (detachHead s x).prev q j =
      if j = x ∧ (q = .priceLadder ∨ q = .timeFifo) then none else s.prev q j := by
  by_cases hj : j = x <;> cases q <;> simp [detachHead, hj]

end Promote

section Spec

variable {ctx : OmOrderbookContext} {productId : Nat} {isBid : Bool}
  {pre post : List Level} {l : Level} {x y : Nat} {r : List Nat} (K : Kavl)

theorem promoteNext_slab (ctx : OmOrderbookContext) (productId : Nat) (isBid : Bool) (x y : Nat) :
    (promoteNext K ctx productId isBid x y).slab =
      detachHead (promoteLadder (promoteFifo ctx.slab x y) x y) x := rfl

theorem promoteNext_roots (ctx : OmOrderbookContext) (productId : Nat) (isBid : Bool) (x y : Nat) :
    (promoteNext K ctx productId isBid x y).priceRoots =
      Function.update ctx.priceRoots (priceRoot productId isBid)
        (K.insert (K.erase (ctx.priceRoots (priceRoot productId isBid)) (ctx.slab.order x).price)
          (ctx.slab.order y).price y) := by
  have h : (promoteNext K ctx productId isBid x y).priceRoots =
      (pricePromote K ctx productId isBid x y).priceRoots := by
    simp only [promoteNext]
    split <;> rfl
  rw [h]
  simp [pricePromote, priceAdd, priceRemove, OmOrderbookContext.order]

theorem promoteNext_frame {touched : Nat → Prop} (hx : touched x) (hy : touched y)
    (hfifo : ∀ i, ctx.slab.next .timeFifo y = some i → touched i)
    (hprev : ∀ i, ctx.slab.prev .priceLadder x = some i → touched i)
    (hnext : ∀ i, ctx.slab.next .priceLadder x = some i → touched i) :
    LevelFrame ctx (promoteNext K ctx productId isBid x y) productId isBid touched := by
  have hlinks : LinksFrame (fun q j => (q = .priceLadder ∨ q = .timeFifo) ∧ touched j) ctx.slab
      (detachHead (promoteLadder (promoteFifo ctx.slab x y) x y) x) := by
    refine ((promoteFifo_frame ⟨.inr rfl, hy⟩ fun i hi => ⟨.inr rfl, hfifo i hi⟩).trans
      (promoteLadder_frame ⟨.inl rfl, hy⟩ (fun i hi => ⟨.inl rfl, hprev i ?_⟩)
        fun i hi => ⟨.inl rfl, hnext i ?_⟩)).trans (detachHead_frame ⟨.inl rfl, hx⟩ ⟨.inr rfl, hx⟩)
    · rwa [(promoteFifo_links ctx.slab x y).prev (by decide)] at hi
    · rwa [next_promoteFifo] at hi
  have hroots : LevelFrame ctx (pricePromote K ctx productId isBid x y) productId isBid touched :=
    (roots_frame _ _).trans (roots_frame _ _)
  simp only [promoteNext]
  split
  next =>
    refine (hroots.trans (setHead_frame _)).trans (level ?_)
    exact hlinks
  next =>
    refine hroots.trans (level ?_)
    exact hlinks

theorem promoteNext_spec (h : ctx.Side productId isBid (pre ++ ⟨x, y :: r⟩ :: post)) :
    Unlinks ctx (promoteNext K ctx productId isBid x y) productId isBid x
      (pre ++ ⟨x, y :: r⟩ :: post) (pre ++ ⟨y, r⟩ :: post) := by
  have hlmem : (⟨x, y :: r⟩ : Level) ∈ pre ++ ⟨x, y :: r⟩ :: post := by simp
  have hslot : ∀ i ∈ x :: y :: r, i ∈ queueOf (pre ++ ⟨x, y :: r⟩ :: post) :=
    fun i hi => mem_queueOf.mpr ⟨_, hlmem, hi⟩
  obtain ⟨hmark, hxnext, hyprev, hynext, hrest⟩ := h.queues _ hlmem
  have hnd := List.nodup_cons.mp (h.slots_nodup hlmem)
  have hyx : y ≠ x := fun he => hnd.1 (by simp [he])
  have hyr : y ∉ r := (List.nodup_cons.mp hnd.2).1
  have hlinks : ctx.slab.prev .priceLadder x = back none (pre.map head) ∧
      ctx.slab.next .priceLadder x = front (post.map head) none := h.ladder_links
  have hback : ∀ z, front r none = some z → ctx.slab.prev .timeFifo z = some y := by
    intro z hz
    cases r with
    | nil => simp at hz
    | cons w r =>
      cases Option.some.inj hz
      exact hrest.1
  have hframe : LevelFrame ctx (promoteNext K ctx productId isBid x y) productId isBid
      fun j => j ∈ queueOf (pre ++ ⟨x, y :: r⟩ :: post) :=
    promoteNext_frame K (hslot x (by simp)) (hslot y (by simp))
      (fun i hi => hslot i (by simp [front_mem (hynext.symm.trans hi)]))
      (fun i hi => h.neighbour (.inl hi)) fun i hi => h.neighbour (.inr hi)
  have hfifo := prev_promoteFifo (x := x) hmark hynext hback hyr
    (fun z hz => h.lt_capacity z (hslot z (by simp [hz])))
  have hlower := promoteFifo_links ctx.slab x y
  have hupper := promoteLadder_links (promoteFifo ctx.slab x y) x y
  -- Q1 and Q2 of the slab after the promotion
  have hq1n : ∀ j, (promoteNext K ctx productId isBid x y).slab.next .priceLadder j =
      if j = x then none else if back none (pre.map head) = some j then some y
      else if j = y then front (post.map head) none else ctx.slab.next .priceLadder j := by
    intro j
    have hprev := hlower.prev (q := .priceLadder) (j := x) (by decide)
    rw [promoteNext_slab, next_detachHead, next_promoteLadder]
    · simp [hprev, hlinks]
    · rw [hprev, hlower.store.capacity]
      exact fun i hi => h.lt_capacity i (h.neighbour (.inl hi))
  have hq1p : ∀ j, (promoteNext K ctx productId isBid x y).slab.prev .priceLadder j =
      if j = x then none else if front (post.map head) none = some j then some y
      else if j = y then back none (pre.map head) else ctx.slab.prev .priceLadder j := by
    intro j
    have hprev := fun j => hlower.prev (q := .priceLadder) (j := j) (by decide)
    rw [promoteNext_slab, prev_detachHead, prev_promoteLadder]
    · simp [hprev, hlinks]
    · rw [next_promoteFifo, hlower.store.capacity]
      exact fun i hi => h.lt_capacity i (h.neighbour (.inr hi))
  have hq2n : ∀ j, (promoteNext K ctx productId isBid x y).slab.next .timeFifo j =
      if j = x then none else ctx.slab.next .timeFifo j := by
    intro j
    rw [promoteNext_slab, next_detachHead, hupper.next (by decide)]
    simp
  have hq2p : ∀ j, (promoteNext K ctx productId isBid x y).slab.prev .timeFifo j =
      if j = x then none else if j = y then back none r else ctx.slab.prev .timeFifo j := by
    intro j
    rw [promoteNext_slab, prev_detachHead, hupper.prev (by decide), hfifo]
    simp
  have hynot : ∀ i, (back none (pre.map head) = some i ∨
      front (post.map head) none = some i) → i ≠ y := by
    rintro i hi rfl
    have hm : i ∈ (pre ++ post).map head := by
      rw [List.map_append, List.mem_append]
      exact hi.imp back_none_mem front_mem
    obtain ⟨m, hmem, rfl⟩ := List.mem_map.mp hm
    exact h.slots_disjoint hmem m.head_mem_slots (by simp [Level.slots])
  have hfresh : ∀ w, ((ctx.slab.order y).price, w) ∉
      (K.erase (ctx.priceRoots (priceRoot productId isBid)) (ctx.slab.order x).price).toList := by
    intro w hw
    exact ((K.mem_erase h.tree_ordered _).mp hw).2 (h.prices _ hlmem y (by simp [Level.slots]))
  refine ⟨?_, hframe, by simp [hq2n], by simp [hq2p]⟩
  · rw [OmOrderbookContext.Side, promoteNext_roots, Function.update_self]
    refine h.promote hframe.store.capacity hframe.order ?_ ?_ ?_ ?_
      (K.ordered_insert (K.ordered_erase h.tree_ordered) hfresh) ?_ ?_
    · intro j hj
      by_cases hjy : j = y
      · have hnot : back none (pre.map head) ≠ some y := fun he => hynot y (Or.inl he) rfl
        simp [hq1n, hjy, hyx, hnot]
      · simp [hq1n, hj, hjy]
    · intro j hj
      by_cases hjy : j = y
      · have hnot : front (post.map head) none ≠ some y := fun he => hynot y (Or.inr he) rfl
        simp [hq1p, hjy, hyx, hnot]
      · simp [hq1p, hj, hjy]
    · exact fun j hj => by simp [hq2n, hj]
    · exact fun j hj => by simp [hq2p, hj]
    · intro e
      rw [K.mem_insert (K.ordered_erase h.tree_ordered) hfresh, K.mem_erase h.tree_ordered]
    · have hiff : ctx.head productId isBid = some x ↔ pre = [] := h.head_eq_iff
      have hhead : (promoteNext K ctx productId isBid x y).head productId isBid =
          if ctx.head productId isBid = some x then some y else ctx.head productId isBid := by
        simp only [promoteNext]
        split
        next he =>
          have he' : ctx.head productId isBid = some x := he
          change (OmOrderbookContext.setHead _ productId isBid (some y)).head productId isBid = _
          rw [head_setHead, if_pos ⟨rfl, rfl⟩, if_pos he']
        next he =>
          have he' : ¬ ctx.head productId isBid = some x := he
          rw [if_neg he']
          rfl
      rw [hhead]
      cases pre with
      | nil => simp [hiff]
      | cons m pre =>
        rw [if_neg (by simp [hiff]), h.head_eq]
        simp

end Spec

end VeloxMatch
