import VeloxMatch.BookPark

namespace VeloxMatch

/-- The organisation queues: each starts at its head, is doubly linked through Q3 and holds
exactly the resting orders of one product and organisation. -/
structure OrgInv (ctx : OmOrderbookContext) (levels : Levels) (queues : Nat → Nat → List Nat) :
    Prop where
  heads : ∀ p o, p < ctx.maxProducts → o < ctx.maxOrg →
    ctx.orgHeads (orgIdx ctx p o) = front (queues p o) none
  chain : ∀ p o, DSeg (ctx.slab.next .orgQueue) (ctx.slab.prev .orgQueue) none (queues p o) none
  nodup : ∀ p o, (queues p o).Nodup
  mem : ∀ {p o i}, i ∈ queues p o ↔
    ∃ b, i ∈ queueOf (levels p b) ∧ (ctx.slab.order i).org = o
  inRange : ∀ {p b i}, i ∈ queueOf (levels p b) →
    p < ctx.maxProducts ∧ (ctx.slab.order i).org < ctx.maxOrg

section Index

variable {ctx : OmOrderbookContext} {p p' o o' : Nat}

theorem org_index_lt {maxProducts maxOrg : Nat} (hp : p < maxProducts) (ho : o < maxOrg) :
    p * maxOrg + o < maxProducts * maxOrg :=
  calc p * maxOrg + o < p * maxOrg + maxOrg := by omega
    _ = (p + 1) * maxOrg := by rw [Nat.add_mul, Nat.one_mul]
    _ ≤ maxProducts * maxOrg := Nat.mul_le_mul_right _ hp

theorem orgIdx_eq (hwrap : ctx.maxProducts * ctx.maxOrg < 2 ^ 32) (hp : p < ctx.maxProducts)
    (ho : o < ctx.maxOrg) : orgIdx ctx p o = p * ctx.maxOrg + o := by
  rw [orgIdx, Nat.mod_eq_of_lt ((org_index_lt hp ho).trans hwrap)]

theorem orgIdx_congr {ctx' : OmOrderbookContext} (h : ctx'.maxOrg = ctx.maxOrg) :
    orgIdx ctx' p o = orgIdx ctx p o := by
  rw [orgIdx, orgIdx, h]

/-- While the product of the limits fits 32 bits, every queue has its own head. -/
theorem orgIdx_inj (hwrap : ctx.maxProducts * ctx.maxOrg < 2 ^ 32) (hp : p < ctx.maxProducts)
    (ho : o < ctx.maxOrg) (hp' : p' < ctx.maxProducts) (ho' : o' < ctx.maxOrg)
    (h : orgIdx ctx p o = orgIdx ctx p' o') : p = p' ∧ o = o' := by
  rw [orgIdx_eq hwrap hp ho, orgIdx_eq hwrap hp' ho'] at h
  have hdiv : ∀ q r, r < ctx.maxOrg → (q * ctx.maxOrg + r) / ctx.maxOrg = q := fun q r hr => by
    rw [Nat.mul_comm, Nat.mul_add_div (by omega), Nat.div_eq_of_lt hr, Nat.add_zero]
  have hq : p = p' := by rw [← hdiv p o ho, h, hdiv p' o' ho']
  subst hq
  exact ⟨rfl, by omega⟩

end Index

def setQueue (queues : Nat → Nat → List Nat) (p o : Nat) (l : List Nat) : Nat → Nat → List Nat :=
  fun p' o' => if p' = p ∧ o' = o then l else queues p' o'

@[simp] theorem setQueue_self (queues : Nat → Nat → List Nat) (p o : Nat) (l : List Nat) :
    setQueue queues p o l p o = l := by simp [setQueue]

theorem setQueue_other {queues : Nat → Nat → List Nat} {p o p' o' : Nat} {l : List Nat}
    (h : ¬ (p' = p ∧ o' = o)) : setQueue queues p o l p' o' = queues p' o' := if_neg h

section Inv

variable {ctx ctx' : OmOrderbookContext} {levels levels' : Levels} {free : List Nat}
  {queues : Nat → Nat → List Nat} {x p o i : Nat} {b : Bool}

theorem OrgInv.resting (h : OrgInv ctx levels queues) (hi : i ∈ queues p o) :
    ∃ b, i ∈ queueOf (levels p b) :=
  (h.mem.mp hi).imp fun _ hb => hb.1

theorem OrgInv.lt_capacity (h : OrgInv ctx levels queues) (hinv : BookInv ctx levels free)
    (hi : i ∈ queues p o) : i < ctx.slab.capacity := by
  obtain ⟨b, hb⟩ := h.resting hi
  exact (hinv.sides p b).lt_capacity i hb

theorem OrgInv.frame (h : OrgInv ctx levels queues) (hheads : ctx'.orgHeads = ctx.orgHeads)
    (hproducts : ctx'.maxProducts = ctx.maxProducts) (horgs : ctx'.maxOrg = ctx.maxOrg)
    (hsame : ∀ {p b i}, i ∈ queueOf (levels p b) →
      ctx'.slab.next .orgQueue i = ctx.slab.next .orgQueue i ∧
      ctx'.slab.prev .orgQueue i = ctx.slab.prev .orgQueue i ∧
      (ctx'.slab.order i).org = (ctx.slab.order i).org) : OrgInv ctx' levels queues where
  heads := fun p o hp ho => by
    rw [hheads, orgIdx_congr horgs]
    exact h.heads p o (hproducts ▸ hp) (horgs ▸ ho)
  chain := fun p o => (h.chain p o).congr
    (fun i hi => by obtain ⟨b, hb⟩ := h.resting hi; exact (hsame hb).1)
    (fun i hi => by obtain ⟨b, hb⟩ := h.resting hi; exact (hsame hb).2.1)
  nodup := h.nodup
  mem := fun {p o i} => h.mem.trans (exists_congr fun b => and_congr_right fun hb => by
    rw [(hsame hb).2.2])
  inRange := fun hi => by
    rw [hproducts, horgs, (hsame hi).2.2]
    exact h.inRange hi

theorem OrgInv.disjoint (h : OrgInv ctx levels queues) (hinv : BookInv ctx levels free)
    {p' o' : Nat} (hi : i ∈ queues p o) (hi' : i ∈ queues p' o') : p = p' ∧ o = o' := by
  obtain ⟨b, hb, ho⟩ := h.mem.mp hi
  obtain ⟨b', hb', ho'⟩ := h.mem.mp hi'
  exact ⟨(hinv.disjoint hb hb').1, ho.symm.trans ho'⟩

/-- Slot `x` is taken out of its organisation's queue, whose head moves on if it was `x`. -/
structure OrgUnlinked (ctx ctx' : OmOrderbookContext) (p x : Nat) : Prop where
  heads : ∀ i, ctx'.orgHeads i =
    if i = orgIdx ctx p (ctx.slab.order x).org ∧ ctx.orgHeads i = some x then
      ctx.slab.next .orgQueue x
    else ctx.orgHeads i
  next : ∀ j, j ≠ x → ctx'.slab.next .orgQueue j =
    if ctx.slab.prev .orgQueue x = some j then ctx.slab.next .orgQueue x
    else ctx.slab.next .orgQueue j
  prev : ∀ j, j ≠ x → ctx'.slab.prev .orgQueue j =
    if ctx.slab.next .orgQueue x = some j then ctx.slab.prev .orgQueue x
    else ctx.slab.prev .orgQueue j
  org : ∀ j, (ctx'.slab.order j).org = (ctx.slab.order j).org
  maxProducts : ctx'.maxProducts = ctx.maxProducts
  maxOrg : ctx'.maxOrg = ctx.maxOrg

theorem OrgInv.leave (h : OrgInv ctx levels queues) (hinv : BookInv ctx levels free)
    (hwrap : ctx.maxProducts * ctx.maxOrg < 2 ^ 32) (hx : x ∈ queueOf (levels p b))
    (hu : OrgUnlinked ctx ctx' p x) :
    OrgInv ctx' (levels.drop p b x)
      (setQueue queues p (ctx.slab.order x).org
        ((queues p (ctx.slab.order x).org).erase x)) := by
  set o := (ctx.slab.order x).org with ho
  have hmem : x ∈ queues p o := h.mem.mpr ⟨b, hx, rfl⟩
  obtain ⟨a, c, hsplit⟩ := List.append_of_mem hmem
  have hnd := h.nodup p o
  have hchain := h.chain p o
  rw [hsplit] at hnd hchain
  have hna : x ∉ a := fun ha => (List.nodup_append.mp hnd).2.2 x ha x (by simp) rfl
  obtain ⟨hprev, hnext⟩ := hchain.links_of_split
  have herase : (queues p o).erase x = a ++ c := by
    rw [hsplit, List.erase_append_right _ hna, List.erase_cons_head]
  have hin : ∀ j, j ∈ a ++ c → j ∈ queues p o ∧ j ≠ x := by
    intro j hj
    have hj' : j ∈ (queues p o).erase x := herase ▸ hj
    obtain ⟨hne, hj'⟩ := (h.nodup p o).mem_erase_iff.mp hj'
    exact ⟨hj', hne⟩
  rw [herase]
  refine ⟨fun p' o' hp' ho' => ?_, fun p' o' => ?_, fun p' o' => ?_, fun {p' o' i} => ?_,
    fun hi => ?_⟩
  · rw [hu.maxProducts] at hp'
    rw [hu.maxOrg] at ho'
    rw [hu.heads, orgIdx_congr hu.maxOrg]
    by_cases hpo : p' = p ∧ o' = o
    · obtain ⟨rfl, rfl⟩ := hpo
      rw [setQueue_self, h.heads _ _ hp' ho', hsplit]
      cases a with
      | nil => simp [hnext, ← ho]
      | cons y a =>
        have hne : y ≠ x := fun he => hna (by simp [he])
        simp [hne]
    · rw [setQueue_other hpo, if_neg]
      · exact h.heads p' o' hp' ho'
      · rintro ⟨hidx, -⟩
        obtain ⟨hp, hoo⟩ := h.inRange hx
        exact hpo (orgIdx_inj hwrap hp' ho' hp hoo hidx)
  · by_cases hpo : p' = p ∧ o' = o
    · obtain ⟨rfl, rfl⟩ := hpo
      rw [setQueue_self]
      refine hchain.unlink hnd (fun y hy => ?_) fun y hy => ?_
      · rw [hu.next y (hin y hy).2, hprev, hnext]
      · rw [hu.prev y (hin y hy).2, hnext, hprev]
    · rw [setQueue_other hpo]
      -- the neighbours of `x` are in its own queue
      have hout : ∀ j ∈ queues p' o', j ≠ x ∧ ctx.slab.prev .orgQueue x ≠ some j ∧
          ctx.slab.next .orgQueue x ≠ some j := by
        intro j hj
        have hnot : j ∉ queues p o := fun hj' => hpo (h.disjoint hinv hj hj')
        refine ⟨fun he => hnot (he ▸ hmem), fun he => ?_, fun he => ?_⟩
        · rw [hprev] at he
          exact hnot (hin j (by simp [back_none_mem he])).1
        · rw [hnext] at he
          exact hnot (hin j (by simp [front_mem he])).1
      apply (h.chain p' o').congr
      · intro j hj
        rw [hu.next j (hout j hj).1, if_neg (hout j hj).2.1]
      · intro j hj
        rw [hu.prev j (hout j hj).1, if_neg (hout j hj).2.2]
  · by_cases hpo : p' = p ∧ o' = o
    · obtain ⟨rfl, rfl⟩ := hpo
      rw [setQueue_self, ← herase]
      exact (h.nodup p' _).erase x
    · rw [setQueue_other hpo]
      exact h.nodup p' o'
  · have hnew : (∃ b', i ∈ queueOf (levels.drop p b x p' b') ∧ (ctx'.slab.order i).org = o') ↔
        i ∈ queues p' o' ∧ i ≠ x := by
      simp only [mem_drop hinv hx, hu.org, h.mem]
      constructor
      · rintro ⟨b', ⟨hi, hne⟩, hoi⟩
        exact ⟨⟨b', hi, hoi⟩, hne⟩
      · rintro ⟨⟨b', hi, hoi⟩, hne⟩
        exact ⟨b', ⟨hi, hne⟩, hoi⟩
    rw [hnew]
    by_cases hpo : p' = p ∧ o' = o
    · obtain ⟨rfl, rfl⟩ := hpo
      rw [setQueue_self, ← herase, (h.nodup p' _).mem_erase_iff]
      exact And.comm
    · rw [setQueue_other hpo]
      refine ⟨fun hi => ⟨hi, fun he => ?_⟩, And.left⟩
      exact hpo (h.disjoint hinv (he ▸ hi) hmem)
  · rw [hu.maxProducts, hu.maxOrg, hu.org]
    exact h.inRange ((mem_drop hinv hx).mp hi).1

structure OrgLinked (ctx ctx' : OmOrderbookContext) (p x : Nat) : Prop where
  heads : ctx'.orgHeads =
    Function.update ctx.orgHeads (orgIdx ctx p (ctx.slab.order x).org) (some x)
  next : ∀ j, ctx'.slab.next .orgQueue j =
    if j = x then ctx.orgHeads (orgIdx ctx p (ctx.slab.order x).org)
    else ctx.slab.next .orgQueue j
  prev : ∀ j, ctx'.slab.prev .orgQueue j =
    if j = x then none
    else if ctx.orgHeads (orgIdx ctx p (ctx.slab.order x).org) = some j then some x
    else ctx.slab.prev .orgQueue j
  org : ∀ j, (ctx'.slab.order j).org = (ctx.slab.order j).org
  maxProducts : ctx'.maxProducts = ctx.maxProducts
  maxOrg : ctx'.maxOrg = ctx.maxOrg

theorem OrgInv.join (h : OrgInv ctx levels queues) (hinv : BookInv ctx levels free)
    (hwrap : ctx.maxProducts * ctx.maxOrg < 2 ^ 32) (hx : Unbooked ctx x) (hp : p < ctx.maxProducts)
    (horg : (ctx.slab.order x).org < ctx.maxOrg) (hl : OrgLinked ctx ctx' p x) :
    OrgInv ctx' (levels.place ctx p x)
      (setQueue queues p (ctx.slab.order x).org (x :: queues p (ctx.slab.order x).org)) := by
  set o := (ctx.slab.order x).org with ho
  have hnot : ∀ p o, x ∉ queues p o := fun p o hm => by
    obtain ⟨b, hb⟩ := h.resting hm
    exact hinv.not_resting hx p b hb
  have hhead : ctx.orgHeads (orgIdx ctx p o) = front (queues p o) none := h.heads p o hp horg
  have hother : ∀ {p' o'}, ¬ (p' = p ∧ o' = o) → ∀ j ∈ queues p' o',
      j ≠ x ∧ ctx.orgHeads (orgIdx ctx p o) ≠ some j := by
    intro p' o' hpo j hj
    refine ⟨fun he => hnot p' o' (he ▸ hj), fun he => ?_⟩
    rw [hhead] at he
    exact hpo (h.disjoint hinv hj (front_mem he))
  refine ⟨fun p' o' hp' ho' => ?_, fun p' o' => ?_, fun p' o' => ?_, fun {p' o' i} => ?_,
    fun {p' b i} hi => ?_⟩
  · rw [hl.maxProducts] at hp'
    rw [hl.maxOrg] at ho'
    rw [hl.heads, orgIdx_congr hl.maxOrg]
    by_cases hpo : p' = p ∧ o' = o
    · obtain ⟨rfl, rfl⟩ := hpo
      simp [← ho]
    · rw [setQueue_other hpo, Function.update_of_ne]
      · exact h.heads p' o' hp' ho'
      · exact fun hidx => hpo (orgIdx_inj hwrap hp' ho' hp horg hidx)
  · by_cases hpo : p' = p ∧ o' = o
    · obtain ⟨rfl, rfl⟩ := hpo
      have hne : ∀ j ∈ queues p' o, j ≠ x := fun j hj he => hnot p' o (he ▸ hj)
      rw [setQueue_self]
      refine ⟨by rw [hl.prev, if_pos rfl], by rw [hl.next, if_pos rfl, ← ho, hhead], ?_⟩
      refine (h.chain p' o).reback (h.nodup p' o) (fun j hj => ?_) fun j hj => ?_
      · rw [hl.prev, if_neg (hne j hj), ← ho, hhead]
      · rw [hl.next, if_neg (hne j hj)]
    · rw [setQueue_other hpo]
      apply (h.chain p' o').congr
      · intro j hj
        rw [hl.next, if_neg (hother hpo j hj).1]
      · intro j hj
        rw [hl.prev, if_neg (hother hpo j hj).1, if_neg (hother hpo j hj).2]
  · by_cases hpo : p' = p ∧ o' = o
    · obtain ⟨rfl, rfl⟩ := hpo
      rw [setQueue_self]
      exact List.nodup_cons.mpr ⟨hnot _ _, h.nodup _ _⟩
    · rw [setQueue_other hpo]
      exact h.nodup p' o'
  · have hnew : (∃ b, i ∈ queueOf (levels.place ctx p x p' b) ∧ (ctx'.slab.order i).org = o') ↔
        (i = x ∧ p' = p ∧ o' = o) ∨ i ∈ queues p' o' := by
      simp only [mem_place, hl.org, h.mem]
      constructor
      · rintro ⟨b, ⟨rfl, rfl, -⟩ | hi, rfl⟩
        · exact Or.inl ⟨rfl, rfl, rfl⟩
        · exact Or.inr ⟨b, hi, rfl⟩
      · rintro (⟨rfl, rfl, rfl⟩ | ⟨b, hi, rfl⟩)
        · exact ⟨_, Or.inl ⟨rfl, rfl, rfl⟩, rfl⟩
        · exact ⟨b, Or.inr hi, rfl⟩
    rw [hnew]
    by_cases hpo : p' = p ∧ o' = o
    · obtain ⟨rfl, rfl⟩ := hpo
      simp [setQueue_self]
    · rw [setQueue_other hpo]
      refine ⟨Or.inr, fun hi => hi.resolve_left fun hx => hpo hx.2⟩
  · rw [hl.maxProducts, hl.maxOrg, hl.org]
    rcases mem_place.mp hi with ⟨rfl, rfl, -⟩ | hi
    · exact ⟨hp, horg⟩
    · exact h.inRange hi

end Inv

end VeloxMatch
