import VeloxMatch.BookShape

namespace VeloxMatch

open SearchTree List

variable {price q x slot : Nat} {isBid : Bool} {acc : Option Nat} {t : PriceTree}

theorem findDescend_node {l r : PriceTree} (hne : q ≠ price) :
    findDescend price isBid (.node l q slot r) acc =
      findDescend price isBid (if price < q then l else r)
        (if better isBid q price then some slot else acc) := by
  rw [findDescend, if_neg hne]
  by_cases h : price < q
  · have h' : ¬ q < price := by omega
    cases isBid <;> simp [better, h, h']
  · have h' : q < price := by omega
    cases isBid <;> simp [better, h, h']

theorem findDescend_found (ht : t.Ordered) (acc : Option Nat) (h : Nat) :
    (findDescend price isBid t acc).1 = some h ↔ (price, h) ∈ t.toList := by
  induction t generalizing acc with
  | leaf => simp [findDescend, toList]
  | node l q slot r ihl ihr =>
    obtain ⟨hl, hr, hlk, hrk⟩ := ordered_node_iff.mp ht
    have hnl : ¬ price < q → (price, h) ∉ l.toList := fun hn hm => hn (hlk _ hm)
    have hnr : ¬ q < price → (price, h) ∉ r.toList := fun hn hm => hn (hrk _ hm)
    by_cases hq : q = price
    · subst hq
      have h1 := hnl (by omega)
      have h2 := hnr (by omega)
      simp [findDescend, toList, h1, h2, eq_comm]
    · rw [findDescend_node hq]
      have hne : (price, h) ≠ (q, slot) := fun he => hq (Prod.mk.inj he).1.symm
      by_cases hlt : price < q
      · have h2 := hnr (by omega)
        simp [hlt, ihl hl, toList, h2, hne]
      · have h1 := hnl hlt
        simp [hlt, ihr hr, toList, h1, hne]

/-- `out` is the slot of the closest better node, or `acc` when no node is better. -/
def ClosestBetter (isBid : Bool) (price : Nat) (nodes : List (Nat × Nat)) (acc out : Option Nat) :
    Prop :=
  (out = acc ∧ ∀ e ∈ nodes, ¬ better isBid e.1 price) ∨
  ∃ q h, (q, h) ∈ nodes ∧ better isBid q price ∧ out = some h ∧
    ∀ e ∈ nodes, better isBid e.1 price → e.1 = q ∨ better isBid e.1 q

theorem ClosestBetter.step {nodes sub : List (Nat × Nat)} {out : Option Nat}
    (h : ClosestBetter isBid price sub (if better isBid q price then some slot else acc) out)
    (other : List (Nat × Nat)) (hmem : ∀ e, e ∈ nodes ↔ e ∈ sub ∨ e = (q, slot) ∨ e ∈ other)
    (hother : ∀ e ∈ other, better isBid e.1 price → better isBid q price ∧ better isBid e.1 q)
    (hsub : ∀ e ∈ sub, better isBid q price → better isBid q e.1) :
    ClosestBetter isBid price nodes acc out := by
  rcases h with ⟨hout, hno⟩ | ⟨q', h', hm, hb, hout, hmin⟩
  · by_cases hbq : better isBid q price
    · refine Or.inr ⟨q, slot, (hmem _).mpr (by simp), hbq, by rw [hout, if_pos hbq], ?_⟩
      intro e he hbe
      rcases (hmem e).mp he with he | rfl | he
      · exact absurd hbe (hno e he)
      · exact Or.inl rfl
      · exact Or.inr (hother e he hbe).2
    · refine Or.inl ⟨by rw [hout, if_neg hbq], ?_⟩
      intro e he hbe
      rcases (hmem e).mp he with he | rfl | he
      · exact hno e he hbe
      · exact hbq hbe
      · exact hbq (hother e he hbe).1
  · refine Or.inr ⟨q', h', (hmem _).mpr (Or.inl hm), hb, hout, ?_⟩
    intro e he hbe
    rcases (hmem e).mp he with he | rfl | he
    · exact hmin e he hbe
    · exact Or.inr (hsub _ hm hbe)
    · obtain ⟨hbq, hbe'⟩ := hother e he hbe
      exact Or.inr (better_trans hbe' (hsub _ hm hbq))

theorem better_beyond_right (hlt : price < q) (hx : q < x)
    (h : better isBid x price) : better isBid q price ∧ better isBid x q := by
  cases isBid <;> simp only [better, Bool.false_eq_true, ↓reduceIte] at * <;> omega

theorem better_beyond_left (hlt : q < price) (hx : x < q)
    (h : better isBid x price) : better isBid q price ∧ better isBid x q := by
  cases isBid <;> simp only [better, Bool.false_eq_true, ↓reduceIte] at * <;> omega

theorem better_of_left (hlt : price < q) (hx : x < q)
    (h : better isBid q price) : better isBid q x := by
  cases isBid <;> simp only [better, Bool.false_eq_true, ↓reduceIte] at * <;> omega

theorem better_of_right (hlt : q < price) (hx : q < x)
    (h : better isBid q price) : better isBid q x := by
  cases isBid <;> simp only [better, Bool.false_eq_true, ↓reduceIte] at * <;> omega

theorem findDescend_after (ht : t.Ordered) (acc : Option Nat) (habs : ∀ h, (price, h) ∉ t.toList) :
    ClosestBetter isBid price t.toList acc (findDescend price isBid t acc).2 := by
  induction t generalizing acc with
  | leaf => exact Or.inl ⟨rfl, by simp [toList]⟩
  | node l q slot r ihl ihr =>
    obtain ⟨hl, hr, hlk, hrk⟩ := ordered_node_iff.mp ht
    simp only [toList, mem_append, mem_cons, not_or] at habs
    have hq : q ≠ price := fun he => (habs slot).2.1 (by rw [he])
    rw [findDescend_node hq]
    by_cases hlt : price < q
    · rw [if_pos hlt]
      refine (ihl hl _ fun h => (habs h).1).step r.toList ?_ ?_ ?_
      · intro e; simp [toList]
      · exact fun e he hbe => better_beyond_right hlt (hrk e he) hbe
      · exact fun e he hbq => better_of_left hlt (hlk e he) hbq
    · have hgt : q < price := by omega
      rw [if_neg hlt]
      refine (ihr hr _ fun h => (habs h).2.2).step l.toList ?_ ?_ ?_
      · intro e
        simp only [toList, mem_append, mem_cons]
        constructor
        · rintro (h | h | h) <;> simp [h]
        · rintro (h | h | h) <;> simp [h]
      · exact fun e he hbe => better_beyond_left hgt (hlk e he) hbe
      · exact fun e he hbq => better_of_right hgt (hrk e he) hbq

section Find

variable {s : OmDualSlab} {head : Option Nat} {tree : PriceTree} {isBid : Bool}
  {levels : List Level} {price productId : Nat} {ctx : OmOrderbookContext}

theorem SideShape.split_absent (h : SideShape s head tree isBid levels)
    (habs : ∀ l ∈ levels, (s.order l.head).price ≠ price) :
    ∃ pre post, levels = pre ++ post ∧
      (∀ l ∈ pre, better isBid (s.order l.head).price price) ∧
      (∀ l ∈ post, better isBid price (s.order l.head).price) := by
  have hsort := h.sorted
  clear h
  induction levels with
  | nil => exact ⟨[], [], rfl, by simp, by simp⟩
  | cons l ls ih =>
    obtain ⟨hl, hls⟩ := pairwise_cons.mp hsort
    have htot : better isBid (s.order l.head).price price ∨ better isBid price (s.order l.head).price :=
      better_total (habs l (by simp))
    rcases htot with hb | hb
    · obtain ⟨pre, post, rfl, hpre, hpost⟩ := ih (fun m hm => habs m (by simp [hm])) hls
      refine ⟨l :: pre, post, rfl, ?_, hpost⟩
      intro m hm
      rcases mem_cons.mp hm with rfl | hm
      · exact hb
      · exact hpre m hm
    · refine ⟨[], l :: ls, rfl, by simp, ?_⟩
      intro m hm
      rcases mem_cons.mp hm with rfl | hm
      · exact hb
      · exact better_trans hb (hl m hm)

theorem SideShape.closest (h : SideShape s head tree isBid levels) {pre post : List Level}
    (hsplit : levels = pre ++ post) (hpre : ∀ l ∈ pre, better isBid (s.order l.head).price price)
    (hpost : ∀ l ∈ post, better isBid price (s.order l.head).price) {out : Option Nat}
    (hout : ClosestBetter isBid price tree.toList none out) :
    out = back none (pre.map Level.head) := by
  subst hsplit
  have hnode : ∀ l ∈ pre ++ post, ((s.order l.head).price, l.head) ∈ tree.toList :=
    fun l hl => (h.tree_mem _ _).mpr ⟨l, hl, rfl, rfl⟩
  induction pre using reverseRecOn with
  | nil =>
    rcases hout with ⟨rfl, -⟩ | ⟨q, i, hm, hb, -, -⟩
    · rfl
    · obtain ⟨l, hl, rfl, rfl⟩ := (h.tree_mem _ _).mp hm
      exact absurd hb (better_asymm (hpost l (by simpa using hl)))
  | append_singleton pre m _ =>
    have hm : m ∈ pre ++ [m] ++ post := by simp
    rw [map_append, map_singleton, back_concat]
    rcases hout with ⟨-, hno⟩ | ⟨q, i, hmem, hb, rfl, hmin⟩
    · exact absurd (hpre m (by simp)) (hno _ (hnode m hm))
    · obtain ⟨l, hl, rfl, rfl⟩ := (h.tree_mem _ _).mp hmem
      have hlpre : l ∈ pre ++ [m] := by
        rcases mem_append.mp hl with hl | hl
        · exact hl
        · exact absurd hb (better_asymm (hpost l hl))
      rcases mem_append.mp hlpre with hlp | hlm
      · -- an earlier level is better than `m`, so it is not the closest one
        have hlm : better isBid (s.order l.head).price (s.order m.head).price :=
          (pairwise_append.mp (pairwise_append.mp h.sorted).1).2.2 l hlp m (by simp)
        rcases hmin _ (hnode m hm) (hpre m (by simp)) with he | hb'
        · exact absurd (he ▸ hlm) (better_irrefl isBid _)
        · exact absurd hb' (better_asymm hlm)
      · rw [mem_singleton.mp hlm]

theorem findPriceLevel_of_head {first : Nat} (hhead : ctx.head productId isBid = some first) :
    findPriceLevelWithInsertionPoint ctx productId price isBid =
      if better isBid price (ctx.order first).price then (none, none)
      else findDescend price isBid (ctx.priceRoots (priceRoot productId isBid)) none := by
  cases isBid <;> simp [findPriceLevelWithInsertionPoint, hhead, better]

theorem findPriceLevel_cases (h : ctx.Side productId isBid levels) (price : Nat) :
    (∃ pre l post, levels = pre ++ l :: post ∧ (ctx.order l.head).price = price ∧
      (findPriceLevelWithInsertionPoint ctx productId price isBid).1 = some l.head) ∨
    (∃ pre post, levels = pre ++ post ∧
      (∀ l ∈ pre, better isBid (ctx.order l.head).price price) ∧
      (∀ l ∈ post, better isBid price (ctx.order l.head).price) ∧
      findPriceLevelWithInsertionPoint ctx productId price isBid =
        (none, back none (pre.map Level.head))) := by
  by_cases hex : ∃ l ∈ levels, (ctx.order l.head).price = price
  · obtain ⟨l, hl, hp⟩ := hex
    obtain ⟨pre, post, rfl⟩ := append_of_mem hl
    refine Or.inl ⟨pre, l, post, rfl, hp, ?_⟩
    have hmem : (price, l.head) ∈ (ctx.priceRoots (priceRoot productId isBid)).toList :=
      (h.tree_mem _ _).mpr ⟨l, hl, rfl, hp⟩
    obtain ⟨first, hfirst, hnot⟩ : ∃ first, ctx.head productId isBid = some first ∧
        ¬ better isBid price (ctx.order first).price := by
      rw [h.head_eq]
      cases pre with
      | nil => exact ⟨l.head, rfl, hp ▸ better_irrefl isBid _⟩
      | cons m pre =>
        have hml := (pairwise_cons.mp h.sorted).1 l (by simp)
        exact ⟨m.head, rfl, hp ▸ better_asymm hml⟩
    rw [findPriceLevel_of_head hfirst, if_neg hnot]
    exact (findDescend_found h.tree_ordered none l.head).mpr hmem
  · have habs : ∀ l ∈ levels, (ctx.order l.head).price ≠ price := fun l hl hp => hex ⟨l, hl, hp⟩
    obtain ⟨pre, post, hsplit, hpre, hpost⟩ := h.split_absent habs
    refine Or.inr ⟨pre, post, hsplit, hpre, hpost, ?_⟩
    have habsTree : ∀ i, (price, i) ∉ (ctx.priceRoots (priceRoot productId isBid)).toList := by
      intro i hi
      obtain ⟨l, hl, rfl, hp⟩ := (h.tree_mem _ _).mp hi
      exact habs l hl hp
    cases hhead : ctx.head productId isBid with
    | none =>
      have hnil : levels.map Level.head = [] := front_eq_none_iff.mp (h.head_eq.symm.trans hhead)
      rw [hsplit, map_append, append_eq_nil_iff] at hnil
      simp [findPriceLevelWithInsertionPoint, hhead, hnil.1]
    | some first =>
      rw [findPriceLevel_of_head hhead]
      split
      next hb =>
        -- a new best price: no level is better
        cases pre with
        | nil => rfl
        | cons m pre =>
          have he : first = m.head := by
            have := h.head_eq.symm.trans hhead
            rw [hsplit] at this
            exact (Option.some.inj this).symm
          exact absurd (he ▸ hb) (better_asymm (hpre m (by simp)))
      next =>
        apply Prod.ext
        · cases hf : (findDescend price isBid
              (ctx.priceRoots (priceRoot productId isBid)) none).1 with
          | none => rfl
          | some i =>
            exact absurd ((findDescend_found h.tree_ordered none i).mp hf) (habsTree i)
        · exact h.closest hsplit hpre hpost (findDescend_after h.tree_ordered none habsTree)

end Find

end VeloxMatch
