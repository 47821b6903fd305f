import VeloxMatch.BookPromote

namespace VeloxMatch

open OmDualSlab Level List

variable {ctx : OmOrderbookContext} {productId : Nat} {isBid : Bool}
  {pre post : List Level} {l : Level} {x : Nat} (K : Kavl)

theorem removePriceLevel_slab (level : Nat) :
    (removePriceLevel K ctx productId level isBid).slab = omQueueUnlink ctx.slab level .priceLadder := by
  simp only [removePriceLevel]
  split <;> rfl

theorem removePriceLevel_roots (level : Nat) :
    (removePriceLevel K ctx productId level isBid).priceRoots =
      Function.update ctx.priceRoots (priceRoot productId isBid)
        (K.erase (ctx.priceRoots (priceRoot productId isBid)) (ctx.slab.order level).price) := by
  simp only [removePriceLevel]
  split <;> rfl

theorem removePriceLevel_frame {touched : Nat → Prop} {level : Nat} (hlevel : touched level)
    (hprev : ∀ i, ctx.slab.prev .priceLadder level = some i → touched i)
    (hnext : ∀ i, ctx.slab.next .priceLadder level = some i → touched i) :
    LevelFrame ctx (removePriceLevel K ctx productId level isBid) productId isBid touched := by
  have hlinks : LinksFrame (fun q j => (q = .priceLadder ∨ q = .timeFifo) ∧ touched j) ctx.slab
      (omQueueUnlink ctx.slab level .priceLadder) :=
    omQueueUnlink_frame ⟨.inl rfl, hlevel⟩ (fun i hi => ⟨.inl rfl, hprev i hi⟩)
      fun i hi => ⟨.inl rfl, hnext i hi⟩
  simp only [removePriceLevel]
  refine ((setHead_if_frame _ _).trans (roots_frame _ _)).trans (LinksFrame.level ?_)
  split <;> exact hlinks

theorem removePriceLevel_spec (h : ctx.Side productId isBid (pre ++ ⟨x, []⟩ :: post)) :
    Unlinks ctx (removePriceLevel K ctx productId x isBid) productId isBid x
      (pre ++ ⟨x, []⟩ :: post) (pre ++ post) := by
  have hlinks : ctx.slab.prev .priceLadder x = back none (pre.map head) ∧
      ctx.slab.next .priceLadder x = front (post.map head) none := h.ladder_links
  have hn : ∀ j, (omQueueUnlink ctx.slab x .priceLadder).next .priceLadder j =
      if j = x then none else if back none (pre.map head) = some j then
        front (post.map head) none else ctx.slab.next .priceLadder j := by
    intro j
    rw [next_omQueueUnlink fun i hi => h.lt_capacity i (h.neighbour (.inl hi)), hlinks.1, hlinks.2]
  have hp : ∀ j, (omQueueUnlink ctx.slab x .priceLadder).prev .priceLadder j =
      if j = x then none else if front (post.map head) none = some j then
        back none (pre.map head) else ctx.slab.prev .priceLadder j := by
    intro j
    rw [prev_omQueueUnlink fun i hi => h.lt_capacity i (h.neighbour (.inr hi)), hlinks.1, hlinks.2]
  have hother := omQueueUnlink_links ctx.slab x .priceLadder
  have hlone := h.queues ⟨x, []⟩ (by simp)
  refine ⟨?_, removePriceLevel_frame K (head_mem_queueOf (l := ⟨x, []⟩) (by simp))
    (fun i hi => h.neighbour (.inl hi)) (fun i hi => h.neighbour (.inr hi)), ?_, ?_⟩
  · rw [OmOrderbookContext.Side, removePriceLevel_slab, removePriceLevel_roots,
      Function.update_self]
    refine h.dropLevel hother.store.capacity hother.order
      (fun j hj => by simp [hn, hj]) (fun j hj => by simp [hp, hj])
      (fun _ => hother.next (by decide)) (fun _ => hother.prev (by decide))
      (K.ordered_erase h.tree_ordered) (K.mem_erase h.tree_ordered) ?_
    have hiff : ctx.head productId isBid = some x ↔ pre = [] := h.head_eq_iff
    simp only [removePriceLevel]
    split
    next he =>
      have hnil := hiff.mp he
      subst hnil
      change (ctx.setHead productId isBid (ctx.slab.next .priceLadder x)).head productId isBid = _
      rw [head_setHead, if_pos ⟨rfl, rfl⟩]
      exact hlinks.2
    next he =>
      have hne : pre ≠ [] := fun hnil => he (hiff.mpr hnil)
      change ctx.head productId isBid = _
      rw [h.head_eq]
      cases pre with
      | nil => exact absurd rfl hne
      | cons m pre => simp
  · rw [removePriceLevel_slab, hother.next (by decide)]
    exact hlone.2.1
  · rw [removePriceLevel_slab, hother.prev (by decide)]
    exact hlone.1

theorem removeFromQueue_slab {touched : OmQueue → Nat → Prop} {head : Nat}
    (hx : touched .timeFifo x) (hhead : touched .timeFifo head)
    (hprev : ∀ i, ctx.slab.prev .timeFifo x = some i → touched .timeFifo i)
    (hnext : ∀ i, ctx.slab.next .timeFifo x = some i → touched .timeFifo i) :
    LinksFrame touched ctx.slab (removeFromQueue ctx head x).slab := by
  have hlinks := omQueueUnlink_frame hx hprev hnext
  simp only [removeFromQueue]
  split
  next => exact hlinks.setPrev hhead _
  next => exact hlinks

theorem removeFromQueue_links (ctx : OmOrderbookContext) (head x : Nat) :
    LinksFrame (fun q _ => q = .timeFifo) ctx.slab (removeFromQueue ctx head x).slab :=
  removeFromQueue_slab rfl rfl (fun _ _ => rfl) fun _ _ => rfl

theorem removeFromQueue_spec {a b : List Nat}
    (h : ctx.Side productId isBid (pre ++ l :: post)) (hrest : l.rest = a ++ x :: b) :
    Unlinks ctx (removeFromQueue ctx l.head x) productId isBid x (pre ++ l :: post)
      (pre ++ ⟨l.head, a ++ b⟩ :: post) := by
  have hlmem : l ∈ pre ++ l :: post := by simp
  have hslots : l.slots = (l.head :: a) ++ x :: b := by simp [Level.slots, hrest]
  have hin : ∀ i ∈ (l.head :: a) ++ x :: b, i ∈ queueOf (pre ++ l :: post) :=
    fun i hi => mem_queueOf.mpr ⟨l, hlmem, hslots ▸ hi⟩
  have hq := h.queues l hlmem
  have hmark : ctx.slab.prev .timeFifo l.head = back none (a ++ x :: b) := hrest ▸ hq.1
  rw [hslots] at hq
  have hprev : ctx.slab.prev .timeFifo x = some ((back none a).getD l.head) :=
    hq.links_of_split.1.trans (back_some_eq_getD _ _)
  have hnext : ctx.slab.next .timeFifo x = front b none := hq.links_of_split.2
  have hnd : ((l.head :: a) ++ x :: b).Nodup := hslots ▸ h.slots_nodup hlmem
  have hhead : l.head ∉ a ++ x :: b := (nodup_cons.mp hnd).1
  have hlast : (back none a).getD l.head ∈ (l.head :: a) ++ x :: b :=
    mem_append_left _ (back_none_mem (back_some_eq_getD l.head a))
  have hmemn : ∀ i, ctx.slab.next .timeFifo x = some i → i ∈ queueOf (pre ++ l :: post) := by
    intro i hi
    rw [hnext] at hi
    exact hin i (by simp [front_mem hi])
  have hmemp : ∀ i, ctx.slab.prev .timeFifo x = some i → i ∈ queueOf (pre ++ l :: post) := by
    intro i hi
    rw [hprev] at hi
    cases Option.some.inj hi
    exact hin _ hlast
  have hxh : x ≠ l.head := fun he => hhead (by simp [he])
  have hq2n : ∀ j, (removeFromQueue ctx l.head x).slab.next .timeFifo j =
      if j = x then none else if (back none a).getD l.head = j then front b none
      else ctx.slab.next .timeFifo j := by
    intro j
    have hun := next_omQueueUnlink (fun i hi => h.lt_capacity i (hmemp i hi)) j
    rw [hprev, hnext] at hun
    simp only [Option.some.injEq] at hun
    simp only [removeFromQueue]
    split
    next => rw [next_setPrev]; exact hun
    next => exact hun
  have hq2p : ∀ j, (removeFromQueue ctx l.head x).slab.prev .timeFifo j =
      if j = x then none else if j = l.head then back none (a ++ b)
      else if front b none = some j then some ((back none a).getD l.head)
      else ctx.slab.prev .timeFifo j := by
    intro j
    have hun := prev_omQueueUnlink (fun i hi => h.lt_capacity i (hmemn i hi)) j
    rw [hprev, hnext] at hun
    cases b with
    | nil =>
      have htail : (if some ((back none a).getD l.head) = some l.head then none
          else some ((back none a).getD l.head)) = back none a := by
        cases hb : back none a with
        | none => simp
        | some t =>
          have hne : t ≠ l.head := fun he => hhead (by simp [← he, back_none_mem hb])
          simp [hne]
      simp only [removeFromQueue, hnext, hprev, front_nil, ↓reduceIte, prev_setPrev, hun, htail]
      by_cases hj : j = l.head
      · simp [hj, Ne.symm hxh]
      · simp [hj]
    | cons z b =>
      have hz : z ≠ l.head := fun he => hhead (by simp [he])
      have htail : back none (a ++ x :: z :: b) = back none (a ++ z :: b) := by
        simp [back_append]
      simp only [removeFromQueue, hnext, front_cons, reduceCtorEq, ↓reduceIte, hun]
      by_cases hj : j = l.head
      · simp [hj, Ne.symm hxh, hz, hmark, htail]
      · simp [hj]
  have hframe : LevelFrame ctx (removeFromQueue ctx l.head x) productId isBid
      fun j => j ∈ queueOf (pre ++ l :: post) :=
    (removeFromQueue_slab ⟨.inr rfl, hin x (by simp)⟩ ⟨.inr rfl, hin l.head (by simp)⟩
      (fun i hi => ⟨.inr rfl, hmemp i hi⟩) fun i hi => ⟨.inr rfl, hmemn i hi⟩).level
  have hother := removeFromQueue_links ctx l.head x
  refine ⟨?_, hframe, by simp [hq2n], by simp [hq2p]⟩
  refine h.dropRest hframe.store.capacity hframe.order hrest (fun _ => hother.next (by decide))
    (fun _ => hother.prev (by decide)) ?_ ?_
  · exact fun j hj => by simp [hq2n, hj]
  · exact fun j hj => by simp [hq2p, hj]

theorem findPriceLevel_resting {levels : List Level}
    (h : ctx.Side productId isBid levels) (hl : l ∈ levels) (hx : x ∈ l.slots) :
    (findPriceLevelWithInsertionPoint ctx productId (ctx.slab.order x).price isBid).1 =
      some l.head := by
  have hprice : (ctx.slab.order x).price = (ctx.slab.order l.head).price := h.prices l hl x hx
  rcases findPriceLevel_cases h (ctx.slab.order x).price with
    ⟨pre', m, post', he, hm, hf⟩ | ⟨pre', post', he, hpre, hpost, -⟩
  · have hroot : ((ctx.slab.order x).price, m.head) ∈
        (ctx.priceRoots (priceRoot productId isBid)).toList :=
      (h.tree_mem _ _).mpr ⟨m, by rw [he]; simp, rfl, hm⟩
    have hroot' : ((ctx.slab.order x).price, l.head) ∈
        (ctx.priceRoots (priceRoot productId isBid)).toList :=
      (h.tree_mem _ _).mpr ⟨l, hl, rfl, hprice.symm⟩
    rw [hf, h.tree_ordered.value_unique hroot hroot']
  · rw [he] at hl
    rcases mem_append.mp hl with hm | hm
    · exact absurd (hprice ▸ hpre l hm) (better_irrefl isBid _)
    · exact absurd (hprice ▸ hpost l hm) (better_irrefl isBid _)

theorem unlinkFromLevel_spec {levels : List Level}
    (h : ctx.Side productId isBid levels) (hx : x ∈ queueOf levels) :
    ∃ ctx', unlinkFromLevel K ctx productId x = some ctx' ∧
      Unlinks ctx ctx' productId isBid x levels (dropFrom x levels) := by
  obtain ⟨l, hl, hxl⟩ := mem_queueOf.mp hx
  obtain ⟨pre, post, rfl⟩ := append_of_mem hl
  have hbid : omIsBid (ctx.slab.order x).flags = isBid := h.side x hx
  have hfind := findPriceLevel_resting h hl hxl
  have hpre : x ∉ queueOf pre := by
    intro hm
    obtain ⟨m, hm, hxm⟩ := mem_queueOf.mp hm
    exact h.slots_disjoint (mem_append_left _ hm) hxm hxl
  rw [dropFrom_append hpre]
  simp only [unlinkFromLevel, OmOrderbookContext.order, hbid, hfind]
  obtain ⟨head, rest⟩ := l
  by_cases hhead : x = head
  · subst hhead
    cases rest with
    | nil =>
      have hnext : ctx.slab.next .timeFifo x = none := (h.queues _ hl).2.1
      obtain ⟨hs, hf⟩ := removePriceLevel_spec K h
      exact ⟨_, by simp [hnext], by simpa [dropFrom] using hs, hf⟩
    | cons y r =>
      have hnext : ctx.slab.next .timeFifo x = some y := (h.queues _ hl).2.1
      obtain ⟨hs, hf⟩ := promoteNext_spec K h
      exact ⟨_, by simp [hnext], by simpa [dropFrom] using hs, hf⟩
  · have hrest : x ∈ rest := (mem_cons.mp hxl).resolve_left hhead
    obtain ⟨a, b, rfl⟩ := append_of_mem hrest
    have hnd : (a ++ x :: b).Nodup := (nodup_cons.mp (h.slots_nodup hl)).2
    have hxa : x ∉ a := fun hm => (nodup_append.mp hnd).2.2 x hm x (by simp) rfl
    obtain ⟨hs, hf⟩ := removeFromQueue_spec h rfl
    refine ⟨_, by simp [hhead], ?_, hf⟩
    simpa [dropFrom, Ne.symm hhead, erase_append_right _ hxa] using hs

end VeloxMatch
