import VeloxMatch.BookInsert

namespace VeloxMatch

open OmDualSlab Level List

section Links

variable {ctx : OmOrderbookContext} {productId : Nat} {isBid : Bool} {tree : PriceTree}
  {pre post : List Level} {l : Level} {j : Nat}

theorem neighbours_mem
    (hj : back none (pre.map head) = some j ∨ front (post.map head) none = some j) :
    j ∈ queueOf (pre ++ post) := by
  rcases hj with hj | hj
  · obtain ⟨m, hm, rfl⟩ := mem_map.mp (back_none_mem hj)
    exact head_mem_queueOf (by simp [hm])
  · obtain ⟨m, hm, rfl⟩ := mem_map.mp (front_mem hj)
    exact head_mem_queueOf (by simp [hm])

variable (h : SideShape ctx.slab (ctx.head productId isBid) tree isBid (pre ++ l :: post))
include h

theorem SideShape.ladder_links :
    ctx.slab.prev .priceLadder l.head = back none (pre.map head) ∧
    ctx.slab.next .priceLadder l.head = front (post.map head) none := by
  have hl := h.ladder
  rw [map_append, map_cons] at hl
  exact hl.links_of_split

theorem SideShape.neighbour
    (hj : ctx.slab.prev .priceLadder l.head = some j ∨ ctx.slab.next .priceLadder l.head = some j) :
    j ∈ queueOf (pre ++ l :: post) := by
  rw [h.ladder_links.1, h.ladder_links.2] at hj
  have hmem := neighbours_mem hj
  rw [queueOf_append] at hmem ⊢
  simp only [queueOf_cons, mem_append] at hmem ⊢
  tauto

theorem SideShape.head_eq_iff : ctx.head productId isBid = some l.head ↔ pre = [] := by
  rw [h.head_eq]
  cases pre with
  | nil => simp
  | cons m pre =>
    have hne : m.head ≠ l.head := by
      have hnd := h.heads_nodup
      simp only [cons_append, map_cons, map_append] at hnd
      exact fun he => (nodup_cons.mp hnd).1 (by simp [he])
    simp [hne]

end Links

section Ladder

variable {ctx : OmOrderbookContext} {productId : Nat} {isBid : Bool} {tree : PriceTree}
  {pre post : List Level} {x : Nat}

@[simp] theorem slab_setHead (p : Nat) (b : Bool) (v : Option Nat) :
    (ctx.setHead p b v).slab = ctx.slab := rfl

theorem insertOrderAt_ladder
    (h : SideShape ctx.slab (ctx.head productId isBid) tree isBid (pre ++ post))
    (hx : x ∉ queueOf (pre ++ post)) :
    (∀ j, (insertOrderAt ctx productId isBid x (back none (pre.map head))).slab.next
        .priceLadder j = if j = x then front (post.map head) none
      else if back none (pre.map head) = some j then some x
      else ctx.slab.next .priceLadder j) ∧
    (∀ j, (insertOrderAt ctx productId isBid x (back none (pre.map head))).slab.prev
        .priceLadder j = if j = x then back none (pre.map head)
      else if front (post.map head) none = some j then some x
      else ctx.slab.prev .priceLadder j) ∧
    (insertOrderAt ctx productId isBid x (back none (pre.map head))).head productId isBid =
      front ((pre ++ ⟨x, []⟩ :: post).map head) none := by
  have hneHead : ∀ m ∈ pre ++ post, m.head ≠ x :=
    fun m hm he => hx (he ▸ head_mem_queueOf hm)
  induction pre using reverseRecOn with
  | nil =>
    have hhead := h.head_eq
    cases post with
    | nil =>
      have hnone : ctx.head productId isBid = none := hhead
      refine ⟨fun j => ?_, fun j => ?_, ?_⟩ <;> simp [insertOrderAt, hnone]
    | cons m post =>
      have hsome : ctx.head productId isBid = some m.head := hhead
      have hmx : m.head ≠ x := hneHead m (by simp)
      refine ⟨fun j => ?_, fun j => ?_, ?_⟩
      · by_cases hj : j = x <;> simp [insertOrderAt, hsome, hj]
      · by_cases hj : j = x
        · simp [insertOrderAt, hsome, hj, Ne.symm hmx]
        · by_cases hm : j = m.head
          · simp [insertOrderAt, hsome, hm, hmx]
          · simp [insertOrderAt, hsome, hj, hm, Ne.symm hm]
      · simp [insertOrderAt, hsome]
  | append_singleton pre m _ =>
    have hmx : m.head ≠ x := hneHead m (by simp)
    have hback : back none ((pre ++ [m]).map head) = some m.head := by
      rw [map_append, map_singleton, back_concat]
    have hnext : ctx.slab.next .priceLadder m.head = front (post.map head) none := by
      have hl := h.ladder
      rw [append_assoc, map_append] at hl
      exact hl.links_of_split.2
    have hvalid : ∀ y, front (post.map head) none = some y → y < ctx.slab.capacity := by
      intro y hy
      obtain ⟨k, hk, rfl⟩ := mem_map.mp (front_mem hy)
      exact h.lt_capacity _ (head_mem_queueOf (by simp [hk]))
    rw [hback]
    refine ⟨fun j => ?_, fun j => ?_, ?_⟩
    · simp only [insertOrderAt]
      rw [next_omQueueLinkAfter]
      by_cases hj : j = x
      · simp [hj, Ne.symm hmx, hmx, hnext]
      · by_cases hm : j = m.head
        · simp [hm, hmx]
        · simp [hj, hm, Ne.symm hm]
    · simp only [insertOrderAt]
      rw [prev_omQueueLinkAfter (by simpa [hmx, hnext] using hvalid)]
      by_cases hj : j = x
      · have hnx : front (post.map head) none ≠ some x := by
          intro hf
          obtain ⟨k, hk, he⟩ := mem_map.mp (front_mem hf)
          exact hneHead k (by simp [hk]) he
        simp [hj, hmx, hnext, hnx]
      · simp [hj, hmx, hnext]
    · change ctx.head productId isBid = _
      rw [h.head_eq]
      cases pre <;> simp

theorem insertOrderAt_links (ctx : OmOrderbookContext) (productId : Nat) (isBid : Bool) (x : Nat)
    (after : Option Nat) : LinksFrame (fun q _ => q = .priceLadder) ctx.slab
      (insertOrderAt ctx productId isBid x after).slab := by
  have hnull : LinksFrame (fun q _ => q = .priceLadder) ctx.slab
      ((ctx.slab.setNext .priceLadder x none).setPrev .priceLadder x none) :=
    (LinksFrame.refl.setNext rfl _).setPrev rfl _
  simp only [insertOrderAt]
  split
  next =>
    split
    next => exact hnull
    next => exact (hnull.setNext rfl _).setPrev rfl _
  next => exact hnull.trans (omQueueLinkAfter_links _ _ _ _)

theorem priceRoots_insertOrderAt (after : Option Nat) :
    (insertOrderAt ctx productId isBid x after).priceRoots = ctx.priceRoots := by
  simp only [insertOrderAt]
  split <;> (try split) <;> rfl

theorem insertOrderAt_level {touched : Nat → Prop} {after : Option Nat} (hx : touched x)
    (hhead : ∀ i, ctx.head productId isBid = some i → touched i)
    (hafter : ∀ i, after = some i → touched i ∧
      ∀ j, ctx.slab.next .priceLadder i = some j → touched j) :
    LevelFrame ctx (insertOrderAt ctx productId isBid x after) productId isBid touched := by
  have hnull : LinksFrame (fun q j => (q = .priceLadder ∨ q = .timeFifo) ∧ touched j) ctx.slab
      ((ctx.slab.setNext .priceLadder x none).setPrev .priceLadder x none) :=
    (LinksFrame.refl.setNext ⟨.inl rfl, hx⟩ _).setPrev ⟨.inl rfl, hx⟩ _
  simp only [insertOrderAt]
  split
  next =>
    split
    next => exact hnull.level.trans (setHead_frame _)
    next head hsome =>
      exact ((hnull.setNext ⟨.inl rfl, hx⟩ _).setPrev ⟨.inl rfl, hhead _ hsome⟩ _).level.trans
        (setHead_frame _)
  next i =>
    refine (hnull.trans (omQueueLinkAfter_frame ⟨.inl rfl, (hafter i rfl).1⟩ ⟨.inl rfl, hx⟩
      fun j hj => ⟨.inl rfl, ?_⟩)).level
    rw [next_setPrev, next_setNext] at hj
    split at hj
    next => cases hj
    next => exact (hafter i rfl).2 j hj

theorem insertOrderAt_frame
    (h : SideShape ctx.slab (ctx.head productId isBid) tree isBid (pre ++ post)) :
    LevelFrame ctx (insertOrderAt ctx productId isBid x (back none (pre.map head)))
      productId isBid (fun j => j = x ∨ j ∈ queueOf (pre ++ post)) := by
  refine insertOrderAt_level (.inl rfl) (fun i hi => .inr ?_) fun i hi =>
    ⟨.inr (neighbours_mem (.inl hi)), fun j hj => .inr ?_⟩
  · rw [h.head_eq] at hi
    exact @neighbours_mem [] _ _ (.inr hi)
  · obtain ⟨m, hm, rfl⟩ := mem_map.mp (back_none_mem hi)
    obtain ⟨pre', post', rfl⟩ := append_of_mem hm
    rw [append_assoc] at h ⊢
    exact h.neighbour (.inr hj)

end Ladder

section Link

variable {ctx : OmOrderbookContext} {productId : Nat} {isBid : Bool} {tree : PriceTree}
  {pre post : List Level} {l : Level} {x : Nat} {touched : Nat → Prop} {head : Nat}

theorem appendToTimeQueue_level (hx : touched x)
    (hhead : touched head) (htail : touched ((ctx.slab.prev .timeFifo head).getD head))
    (hnext : ∀ i, ctx.slab.next .timeFifo ((ctx.slab.prev .timeFifo head).getD head) = some i →
      touched i) :
    LevelFrame ctx (appendToTimeQueue ctx head x) productId isBid touched :=
  ((omQueueLinkAfter_frame ⟨.inr rfl, htail⟩ ⟨.inr rfl, hx⟩ fun i hi =>
    ⟨.inr rfl, hnext i hi⟩).setPrev ⟨.inr rfl, hhead⟩ _).level

section Append

variable (h : SideShape ctx.slab (ctx.head productId isBid) tree isBid (pre ++ l :: post))
include h

theorem SideShape.tail_links :
    ctx.slab.prev .timeFifo l.head = back none l.rest ∧
      ctx.slab.next .timeFifo ((back none l.rest).getD l.head) = none := by
  have hq := h.queues l (by simp)
  refine ⟨hq.1, ?_⟩
  -- the tail is the last slot of the level, so nothing follows it
  have htail : back none l.slots = some ((back none l.rest).getD l.head) :=
    back_some_eq_getD _ _
  obtain ⟨a, t, he⟩ := eq_nil_or_concat l.slots |>.resolve_left (by simp [Level.slots])
  rw [concat_eq_append] at he
  rw [he, back_concat] at htail
  rw [he] at hq
  rw [← Option.some.inj htail]
  exact hq.links_of_split.2

theorem appendToTimeQueue_links (x : Nat) :
    (∀ j, (appendToTimeQueue ctx l.head x).slab.next .timeFifo j =
      if j = (back none l.rest).getD l.head then some x else if j = x then none
      else ctx.slab.next .timeFifo j) ∧
    (∀ j, (appendToTimeQueue ctx l.head x).slab.prev .timeFifo j =
      if j = l.head then some x else if j = x then some ((back none l.rest).getD l.head)
      else ctx.slab.prev .timeFifo j) := by
  obtain ⟨hmark, hnext⟩ := h.tail_links
  refine ⟨fun j => ?_, fun j => ?_⟩
  · simp only [appendToTimeQueue, hmark, next_setPrev]
    rw [next_omQueueLinkAfter, hnext]
  · simp only [appendToTimeQueue, hmark, prev_setPrev]
    rw [prev_omQueueLinkAfter (by simp [hnext]), hnext]
    simp

theorem appendToTimeQueue_frame (x : Nat) :
    LevelFrame ctx (appendToTimeQueue ctx l.head x) productId isBid
      (fun j => j = x ∨ j ∈ queueOf (pre ++ l :: post)) := by
  have hl : l ∈ pre ++ l :: post := by simp
  obtain ⟨hmark, hnext⟩ := h.tail_links
  have htail : (back none l.rest).getD l.head ∈ queueOf (pre ++ l :: post) :=
    mem_queueOf.mpr ⟨l, hl, back_none_mem (back_some_eq_getD l.head l.rest)⟩
  refine appendToTimeQueue_level (.inl rfl) (.inr (head_mem_queueOf hl)) ?_ ?_
  · rw [hmark]
    exact .inr htail
  · rw [hmark, hnext]
    intro i hi
    cases hi

end Append

theorem clearFifo_frame (hx : touched x) :
    LevelFrame ctx { ctx with slab := (ctx.slab.setPrev .timeFifo x none).setNext .timeFifo x none }
      productId isBid touched :=
  ((LinksFrame.refl.setPrev ⟨.inr rfl, hx⟩ _).setNext ⟨.inr rfl, hx⟩ _).level

variable (K : Kavl)

theorem priceAdd_frame (x : Nat) :
    LevelFrame ctx (priceAdd K ctx productId isBid x) productId isBid touched :=
  roots_frame _ _

theorem linkIntoLevel_found (hbid : omIsBid (ctx.slab.order x).flags = isBid)
    (hfind : (findPriceLevelWithInsertionPoint ctx productId (ctx.order x).price isBid).1 =
      some head) :
    ∃ k, linkIntoLevel K ctx productId x =
      { appendToTimeQueue ctx head x with knownOrg := k } := by
  simp only [linkIntoLevel, OmOrderbookContext.order, hbid]
  simp only [OmOrderbookContext.order] at hfind
  generalize findPriceLevelWithInsertionPoint ctx productId (ctx.slab.order x).price isBid =
    found at hfind
  obtain ⟨level, after⟩ := found
  cases hfind
  by_cases hk : (appendToTimeQueue ctx head x).knownOrg head ≠ none ∧
      (appendToTimeQueue ctx head x).knownOrg head ≠
        some ((appendToTimeQueue ctx head x).slab.order x).org
  · exact ⟨_, if_pos hk⟩
  · exact ⟨_, if_neg hk⟩

theorem linkIntoLevel_absent {after : Option Nat} (hbid : omIsBid (ctx.slab.order x).flags = isBid)
    (hfind : findPriceLevelWithInsertionPoint ctx productId (ctx.order x).price isBid =
      (none, after)) :
    linkIntoLevel K ctx productId x =
      let c := priceAdd K (insertOrderAt ctx productId isBid x after) productId isBid x
      { c with slab := (c.slab.setPrev .timeFifo x none).setNext .timeFifo x none } := by
  simp only [OmOrderbookContext.order] at hfind
  simp only [linkIntoLevel, OmOrderbookContext.order, hbid, hfind]

/-- The level part of an insertion: the order is placed by price, then by time. -/
theorem linkIntoLevel_spec {levels : List Level}
    (h : ctx.Side productId isBid levels) (hx : x ∉ queueOf levels) (hxcap : x < ctx.slab.capacity)
    (hxside : omIsBid (ctx.slab.order x).flags = isBid) :
    (linkIntoLevel K ctx productId x).Side productId isBid
      (placeInto (fun i => (ctx.slab.order i).price) isBid x levels) ∧
    LevelFrame ctx (linkIntoLevel K ctx productId x) productId isBid
      (fun j => j = x ∨ j ∈ queueOf levels) := by
  rcases findPriceLevel_cases h (ctx.order x).price with
    ⟨pre, l, post, rfl, hprice, hfind⟩ | ⟨pre, post, rfl, hpre, hpost, hfind⟩
  · obtain ⟨hn, hp⟩ := appendToTimeQueue_links h x
    have hframe := appendToTimeQueue_frame h x
    have hbetter : ∀ m ∈ pre, better isBid
        (ctx.slab.order m.head).price (ctx.slab.order x).price := by
      intro m hm
      have hml := (pairwise_append.mp h.sorted).2.2 m hm l (by simp)
      exact hprice ▸ hml
    have hplace : placeInto (fun i => (ctx.slab.order i).price) isBid x (pre ++ l :: post) =
          pre ++ ⟨l.head, l.rest ++ [x]⟩ :: post := placeInto_found hbetter hprice
    obtain ⟨k, hk⟩ := linkIntoLevel_found K hxside hfind
    rw [hk, hplace]
    refine ⟨?_, ⟨rfl, hframe.store, hframe.order, hframe.next, hframe.prev, hframe.head,
      hframe.roots⟩⟩
    have hladder := (omQueueLinkAfter_links ctx.slab ((ctx.slab.prev .timeFifo l.head).getD l.head) x
      .timeFifo).setPrev (i := l.head) rfl (some x)
    exact h.appendOrder hframe.store.capacity hframe.order hx hxcap hxside hprice.symm
      (fun _ => hladder.next (by decide)) (fun _ => hladder.prev (by decide)) hn hp
  · obtain ⟨hn, hp, hhead⟩ := insertOrderAt_ladder h hx
    have hframe := insertOrderAt_frame (x := x) h
    have hlinks := insertOrderAt_links ctx productId isBid x (back none (pre.map head))
    have hplace : placeInto (fun i => (ctx.slab.order i).price) isBid x (pre ++ post) =
        pre ++ ⟨x, []⟩ :: post := placeInto_absent hpre hpost
    have hfresh : ∀ w, ((ctx.slab.order x).price, w) ∉
        (ctx.priceRoots (priceRoot productId isBid)).toList := by
      intro w hw
      obtain ⟨m, hm, rfl, hp⟩ := (h.tree_mem _ _).mp hw
      rcases mem_append.mp hm with hm | hm
      · exact better_irrefl _ _ (hp ▸ hpre m hm)
      · exact better_irrefl _ _ (hp ▸ hpost m hm)
    have hxprice : (insertOrderAt ctx productId isBid x
        (back none (pre.map head))).order x = ctx.slab.order x := hframe.order x
    rw [linkIntoLevel_absent K hxside hfind, hplace]
    refine ⟨?_, (hframe.trans (priceAdd_frame K x)).trans (clearFifo_frame (.inl rfl))⟩
    refine h.newLevel hframe.store.capacity ?_ hx hxcap hxside hpre hpost ?_ ?_ ?_ ?_ ?_ ?_ hhead
    · exact fun j => by simpa [priceAdd] using hframe.order j
    · exact fun j => by simpa [priceAdd] using hn j
    · exact fun j => by simpa [priceAdd] using hp j
    · intro j
      by_cases hj : j = x
      · simp [hj]
      · simpa [priceAdd, hj] using hlinks.next (q := .timeFifo) (j := j) (by decide)
    · intro j
      by_cases hj : j = x
      · simp [hj]
      · simpa [priceAdd, hj] using hlinks.prev (q := .timeFifo) (j := j) (by decide)
    · simp only [priceAdd, Function.update_self, priceRoots_insertOrderAt, hxprice]
      exact K.ordered_insert h.tree_ordered hfresh
    · simp only [priceAdd, Function.update_self, priceRoots_insertOrderAt, hxprice]
      exact K.mem_insert h.tree_ordered hfresh

end Link

end VeloxMatch
