import VeloxMatch.LiveOrders
import VeloxMatch.MarketLevels
import VeloxMatch.MarketPublic

namespace VeloxMatch

open OmMarketLevelSlab Function

/-- The ladders of the products share one slab. The side `b` of product `p` has the levels
`lists p b`, and `total p b x` is the quantity at price `x`. -/
structure Ladders (slab : OmMarketLevelSlab) (ladders : Nat → OmMarketLadder)
    (total : Nat → Bool → Nat → Nat) (lists : Nat → Bool → List Nat) (free : List Nat) : Prop where
  freeLevels : FreeLevels slab free
  side : ∀ p b, SideList slab ((ladders p).side b) b (lists p b)
  lt_capacity : ∀ {p b i}, i ∈ lists p b → i < slab.capacity
  notFree : ∀ {p b i}, i ∈ lists p b → i ∉ free
  owner : ∀ {p b p' b' i}, i ∈ lists p b → i ∈ lists p' b' → p' = p ∧ b' = b
  slot : ∀ {p x i}, (ladders p).priceToSlot x = some i ↔
    ∃ b, i ∈ lists p b ∧ (slab.slots i).price = x
  qty : ∀ {p b i}, i ∈ lists p b → (slab.slots i).qty = total p b (slab.slots i).price
  positive : ∀ {p b i}, i ∈ lists p b → 0 < (slab.slots i).qty
  shown : ∀ {p b x}, total p b x ≠ 0 → ∃ i ∈ lists p b, (slab.slots i).price = x

def LaddersShow (slab : OmMarketLevelSlab) (ladders : Nat → OmMarketLadder)
    (total : Nat → Bool → Nat → Nat) : Prop :=
  ∃ lists free, Ladders slab ladders total lists free

theorem laddersShow_init {capacity : Nat} (h : 0 < capacity) :
    LaddersShow (omMarketSlabInit capacity) (fun _ => .empty) fun _ _ _ => 0 := by
  refine ⟨fun _ _ => [], _, freeLevels_init h, fun p b => ?_, nofun, nofun, nofun, ?_, nofun, nofun,
    fun hne => absurd rfl hne⟩
  · have hside : OmMarketLadder.empty.side b = .empty := by cases b <;> rfl
    rw [hside]
    exact sideList_empty _ b
  · intro p x i
    exact iff_of_false nofun nofun

section Levels

variable {slab : OmMarketLevelSlab} {ladders : Nat → OmMarketLadder}
  {total total' : Nat → Bool → Nat → Nat} {lists : Nat → Bool → List Nat} {free : List Nat}
  {p x q i : Nat} {b : Bool} (h : Ladders slab ladders total lists free)
include h

theorem Ladders.unique {b' : Bool} {j : Nat} (hi : i ∈ lists p b) (hj : j ∈ lists p b')
    (hprice : (slab.slots i).price = (slab.slots j).price) : i = j ∧ b = b' := by
  have hs := h.slot.mpr ⟨b, hi, rfl⟩
  have hs' := h.slot.mpr ⟨b', hj, rfl⟩
  rw [hprice, hs'] at hs
  cases hs
  exact ⟨rfl, (h.owner hi hj).2.symm⟩

theorem Ladders.one_side (hb : total p b x ≠ 0) : total p (!b) x = 0 := by
  by_contra hne
  obtain ⟨i, hi, rfl⟩ := h.shown hb
  obtain ⟨j, hj, hprice⟩ := h.shown hne
  have hside := (h.unique hi hj hprice.symm).2
  cases b <;> cases hside

theorem Ladders.slot_none : (ladders p).priceToSlot x = none ↔ ∀ b, total p b x = 0 := by
  constructor
  · intro hnone b
    by_contra hne
    obtain ⟨i, hi, hprice⟩ := h.shown hne
    rw [h.slot.mpr ⟨b, hi, hprice⟩] at hnone
    cases hnone
  · intro hzero
    rw [Option.eq_none_iff_forall_not_mem]
    intro i hi
    obtain ⟨b, hmem, hprice⟩ := h.slot.mp hi
    have hpos := h.positive hmem
    rw [h.qty hmem, hprice, hzero b] at hpos
    exact Nat.lt_irrefl 0 hpos

theorem Ladders.slot_some (hi : (ladders p).priceToSlot x = some i) :
    ∃ b, i ∈ lists p b ∧ (slab.slots i).price = x ∧ (slab.slots i).qty = total p b x ∧
      total p b x ≠ 0 := by
  obtain ⟨b, hmem, hprice⟩ := h.slot.mp hi
  have hqty := h.qty hmem
  have hpos := h.positive hmem
  rw [hprice] at hqty
  exact ⟨b, hmem, hprice, hqty, by omega⟩

end Levels

def setList (lists : Nat → Bool → List Nat) (p : Nat) (b : Bool) (l : List Nat) :
    Nat → Bool → List Nat :=
  update lists p (update (lists p) b l)

section SetList

variable {lists : Nat → Bool → List Nat} {p p' : Nat} {b b' : Bool} {l : List Nat}

theorem setList_self : setList lists p b l p b = l := by
  rw [setList, update_self, update_self]

theorem setList_ne (h : ¬(p' = p ∧ b' = b)) : setList lists p b l p' b' = lists p' b' := by
  unfold setList
  rcases eq_or_ne p' p with rfl | hp
  · rw [update_self, update_of_ne fun hb => h ⟨rfl, hb⟩]
  · rw [update_of_ne hp]

end SetList

/-- The level of price `x` in slot `i` comes, goes (`q` is 0) or has a new quantity `q`; `l` are
the levels of its side then. -/
structure LevelChange (slab slab' : OmMarketLevelSlab) (ladders : Nat → OmMarketLadder)
    (ladder : OmMarketLadder) (lists : Nat → Bool → List Nat) (free' : List Nat) (p : Nat) (b : Bool)
    (x i q : Nat) (l : List Nat) : Prop where
  freeLevels : FreeLevels slab' free'
  side : SideList slab' (ladder.side b) b l
  opposite : ladder.side (!b) = (ladders p).side (!b)
  map : ladder.priceToSlot =
    update (ladders p).priceToSlot x (if q = 0 then none else some i)
  mem : ∀ {j}, j ∈ l ↔ j ∈ lists p b ∧ j ≠ i ∨ j = i ∧ q ≠ 0
  place : ∀ {p' b'}, i ∈ lists p' b' → p' = p ∧ b' = b
  price : i ∈ lists p b → (slab.slots i).price = x
  only : ∀ {b' j}, j ∈ lists p b' → (slab.slots j).price = x → j = i
  new : q ≠ 0 → (slab'.slots i).price = x ∧ (slab'.slots i).qty = q ∧ i < slab'.capacity ∧ i ∉ free'
  prices : ∀ {p' b' j}, j ∈ lists p' b' → j ≠ i → (slab'.slots j).price = (slab.slots j).price
  qtys : ∀ {p' b' j}, j ∈ lists p' b' → j ≠ i → (slab'.slots j).qty = (slab.slots j).qty
  others : ∀ {p' b' j}, j ∈ lists p' b' → ¬(p' = p ∧ b' = b) →
    SameLevel (slab.slots j) (slab'.slots j)
  lt_capacity : ∀ {p' b' j}, j ∈ lists p' b' → j ≠ i → j < slab'.capacity
  notFree : ∀ {p' b' j}, j ∈ lists p' b' → j ≠ i → j ∉ free'

section Change

variable {slab slab' : OmMarketLevelSlab} {ladders : Nat → OmMarketLadder}
  {total total' : Nat → Bool → Nat → Nat} {lists : Nat → Bool → List Nat} {free free' : List Nat}
  {p x q i j p' : Nat} {b b' : Bool} {l : List Nat} {ladder : OmMarketLadder}
  {out : OmMarketLevelSlab × OmMarketLadder}

theorem side_update (hside : SideList slab' (ladder.side b) b l)
    (hopposite : ladder.side (!b) = (ladders p).side (!b))
    (hother : ∀ p' b', ¬(p' = p ∧ b' = b) →
      SideList slab' ((ladders p').side b') b' (lists p' b')) (p' : Nat) (b' : Bool) :
    SideList slab' ((update ladders p ladder p').side b') b' (setList lists p b l p' b') := by
  by_cases hplace : p' = p ∧ b' = b
  · obtain ⟨rfl, rfl⟩ := hplace
    rw [update_self, setList_self]
    exact hside
  · rw [setList_ne hplace]
    rcases eq_or_ne p' p with rfl | hne
    · have hb : b' = !b := Bool.eq_not_of_ne fun hb => hplace ⟨rfl, hb⟩
      subst hb
      rw [update_self, hopposite]
      exact hother p' (!b) hplace
    · rw [update_of_ne hne]
      exact hother p' b' hplace

theorem LevelChange.mem_setList (c : LevelChange slab slab' ladders ladder lists free' p b x i q l)
    : j ∈ setList lists p b l p' b' ↔
      j ∈ lists p' b' ∧ j ≠ i ∨ j = i ∧ q ≠ 0 ∧ p' = p ∧ b' = b := by
  by_cases hplace : p' = p ∧ b' = b
  · obtain ⟨rfl, rfl⟩ := hplace
    rw [setList_self, c.mem]
    simp
  · rw [setList_ne hplace]
    constructor
    · exact fun hj => .inl ⟨hj, fun he => hplace (c.place (he ▸ hj))⟩
    · rintro (⟨hj, -⟩ | ⟨-, -, hhere⟩)
      · exact hj
      · exact absurd hhere hplace

variable (h : Ladders slab ladders total lists free)
include h

theorem Ladders.slot_change (c : LevelChange slab slab' ladders ladder lists free' p b x i q l)
    {x' : Nat} :
    (update ladders p ladder p').priceToSlot x' = some j ↔
      ∃ b', j ∈ setList lists p b l p' b' ∧ (slab'.slots j).price = x' := by
  simp only [c.mem_setList]
  rcases eq_or_ne p' p with rfl | hp
  · rw [update_self, c.map]
    rcases eq_or_ne x' x with rfl | hx
    · rw [update_self]
      constructor
      · intro hj
        split at hj
        · cases hj
        · next hq =>
          cases hj
          exact ⟨b, .inr ⟨rfl, hq, rfl, rfl⟩, (c.new hq).1⟩
      · rintro ⟨b', ⟨hj, hne⟩ | ⟨rfl, hq, -⟩, hprice⟩
        · rw [c.prices hj hne] at hprice
          exact absurd (c.only hj hprice) hne
        · rw [if_neg hq]
    · rw [update_of_ne hx, h.slot]
      constructor
      · rintro ⟨b', hj, hprice⟩
        have hne : j ≠ i := by
          rintro rfl
          obtain ⟨-, rfl⟩ := c.place hj
          exact hx (hprice.symm.trans (c.price hj))
        exact ⟨b', .inl ⟨hj, hne⟩, (c.prices hj hne).trans hprice⟩
      · rintro ⟨b', ⟨hj, hne⟩ | ⟨rfl, hq, -⟩, hprice⟩
        · exact ⟨b', hj, (c.prices hj hne).symm.trans hprice⟩
        · exact absurd (hprice.symm.trans (c.new hq).1) hx
  · rw [update_of_ne hp, h.slot]
    refine exists_congr fun b' => ?_
    constructor
    · rintro ⟨hj, hprice⟩
      have hne : j ≠ i := fun he => hp (c.place (he ▸ hj)).1
      exact ⟨.inl ⟨hj, hne⟩, (c.prices hj hne).trans hprice⟩
    · rintro ⟨⟨hj, hne⟩ | ⟨-, -, he, -⟩, hprice⟩
      · exact ⟨hj, (c.prices hj hne).symm.trans hprice⟩
      · exact absurd he hp

theorem Ladders.changed (c : LevelChange slab slab' ladders ladder lists free' p b x i q l)
    (hself : total' p b x = q)
    (hother : ∀ p' b' x', ¬(p' = p ∧ b' = b ∧ x' = x) → total' p' b' x' = total p' b' x') :
    Ladders slab' (update ladders p ladder) total' (setList lists p b l) free' := by
  refine ⟨c.freeLevels, side_update c.side c.opposite ?_, ?_, ?_, ?_, h.slot_change c, ?_, ?_, ?_⟩
  · exact fun p' b' hplace => (h.side p' b').sameLevels fun j hj => c.others hj hplace
  · intro p' b' j hj
    rcases c.mem_setList.mp hj with ⟨hj, hne⟩ | ⟨rfl, hq, -⟩
    · exact c.lt_capacity hj hne
    · exact (c.new hq).2.2.1
  · intro p' b' j hj
    rcases c.mem_setList.mp hj with ⟨hj, hne⟩ | ⟨rfl, hq, -⟩
    · exact c.notFree hj hne
    · exact (c.new hq).2.2.2
  · intro p' b' p'' b'' j hj hj'
    rcases c.mem_setList.mp hj with ⟨hj, hne⟩ | ⟨rfl, -, rfl, rfl⟩
    · rcases c.mem_setList.mp hj' with ⟨hj', -⟩ | ⟨he, -⟩
      · exact h.owner hj hj'
      · exact absurd he hne
    · rcases c.mem_setList.mp hj' with ⟨-, hne⟩ | ⟨-, -, hplace⟩
      · exact absurd rfl hne
      · exact hplace
  · intro p' b' j hj
    rcases c.mem_setList.mp hj with ⟨hold, hne⟩ | ⟨rfl, hq, rfl, rfl⟩
    · rw [c.qtys hold hne, c.prices hold hne, h.qty hold, hother]
      rintro ⟨rfl, rfl, hprice⟩
      exact hne (c.only hold hprice)
    · rw [(c.new hq).1, (c.new hq).2.1, hself]
  · intro p' b' j hj
    rcases c.mem_setList.mp hj with ⟨hj, hne⟩ | ⟨rfl, hq, -⟩
    · rw [c.qtys hj hne]
      exact h.positive hj
    · rw [(c.new hq).2.1]
      exact Nat.pos_of_ne_zero hq
  · intro p' b' x' hne
    by_cases hplace : p' = p ∧ b' = b ∧ x' = x
    · obtain ⟨rfl, rfl, rfl⟩ := hplace
      rw [hself] at hne
      exact ⟨i, c.mem_setList.mpr (.inr ⟨rfl, hne, rfl, rfl⟩), (c.new hne).1⟩
    · rw [hother p' b' x' hplace] at hne
      obtain ⟨j, hj, rfl⟩ := h.shown hne
      have hji : j ≠ i := by
        rintro rfl
        obtain ⟨rfl, rfl⟩ := c.place hj
        exact hplace ⟨rfl, rfl, c.price hj⟩
      exact ⟨j, c.mem_setList.mpr (.inl ⟨hj, hji⟩), c.prices hj hji⟩

theorem Ladders.change (c : LevelChange slab slab' ladders ladder lists free' p b x i q l)
    (hself : total' p b x = q)
    (hother : ∀ p' b' x', ¬(p' = p ∧ b' = b ∧ x' = x) → total' p' b' x' = total p' b' x') :
    LaddersShow slab' (update ladders p ladder) total' :=
  ⟨_, _, h.changed c hself hother⟩

theorem Ladders.only (hi : i ∈ lists p b) (hprice : (slab.slots i).price = x) (hj : j ∈ lists p b')
    (hx : (slab.slots j).price = x) : j = i :=
  (h.unique hj hi (hx.trans hprice.symm)).1

theorem Ladders.setQty (hi : i ∈ lists p b) (hprice : (slab.slots i).price = x) (hq : q ≠ 0)
    {f : OmMarketLevelSlot → OmMarketLevelSlot}
    (hf : f (slab.slots i) = { slab.slots i with qty := q }) :
    LevelChange slab (slab.modify i f) ladders (ladders p) lists free p b x i q (lists p b) := by
  have hkeep : ∀ {α : Type} (g : OmMarketLevelSlot → α)
      (_ : g (f (slab.slots i)) = g (slab.slots i)) (j : Nat),
      g ((slab.modify i f).slots j) = g (slab.slots j) := by
    intro α g hg j
    rcases eq_or_ne j i with rfl | hne
    · rw [slots_modify_self, hg]
    · rw [slots_modify_ne hne]
  have hprices : ∀ j, ((slab.modify i f).slots j).price = (slab.slots j).price :=
    hkeep _ (by rw [hf])
  have hsame : ∀ {j}, j ≠ i → SameLevel (slab.slots j) ((slab.modify i f).slots j) := by
    intro j hne
    rw [slots_modify_ne hne]
    exact .refl _
  refine ⟨h.freeLevels.congr rfl rfl rfl rfl fun j _ => hkeep _ (by rw [hf]) j, ?_, rfl, ?_, ?_,
    fun hj => h.owner hi hj, fun _ => hprice, fun hj hx => h.only hi hprice hj hx, fun _ => ?_,
    fun _ _ => hprices _, fun _ hne => (hsame hne).qty, fun hj hplace => ?_,
    fun hj _ => h.lt_capacity hj, fun hj _ => h.notFree hj⟩
  · exact (h.side p b).congr (fun j _ => hkeep _ (by rw [hf]) j)
      (fun j _ => hkeep _ (by rw [hf]) j) fun j _ => hprices j
  · rw [if_neg hq, ← h.slot.mpr ⟨b, hi, hprice⟩, update_eq_self]
  · intro j
    rcases eq_or_ne j i with rfl | hne
    · simp [hi, hq]
    · simp [hne]
  · refine ⟨(hprices i).trans hprice, ?_, h.lt_capacity hi, h.notFree hi⟩
    rw [slots_modify_self, hf]
  · exact hsame fun he => hplace (h.owner hi (he ▸ hj))

theorem Ladders.newLevel (hnone : (ladders p).priceToSlot x = none)
    {taken filled : OmMarketLevelSlab} (htaken : LevelTaken slab taken free free' i) (hq : q ≠ 0)
    (hfilled : taken.modify i (fun s => { s with price := x, qty := q }) = filled)
    (hmap : { ladders p with
      priceToSlot := update (ladders p).priceToSlot x (some i) } = ladder)
    (hout : omLadderLinkAfter filled ladder i (omLadderFindInsertPos filled ladder x b) b = out) :
    ∃ l, LevelChange slab out.1 ladders out.2 lists free' p b x i q l := by
  have hne : ∀ {p' b' j}, j ∈ lists p' b' → j ≠ i := by
    rintro p' b' j hj rfl
    rcases htaken.taken with hfree | hle
    · exact h.notFree hj hfree
    · exact Nat.not_le.mpr (h.lt_capacity hj) hle
  have hlevels : ∀ {p' b' j}, j ∈ lists p' b' → SameLevel (slab.slots j) (filled.slots j) := by
    intro p' b' j hj
    rw [← hfilled, slots_modify_ne (hne hj)]
    exact htaken.levels j (h.lt_capacity hj) (hne hj)
  have hnew : (filled.slots i).price = x ∧ (filled.slots i).qty = q := by
    rw [← hfilled, slots_modify_self]
    exact ⟨rfl, rfl⟩
  have hcapacity : filled.capacity = taken.capacity := by
    rw [← hfilled]
    rfl
  have hfree : FreeLevels filled free' := by
    rw [← hfilled]
    exact htaken.freeLevels.congr rfl rfl rfl rfl fun _ _ => field_modify _ fun _ => rfl
  have hsides : ∀ b', ladder.side b' = (ladders p).side b' := by
    intro b'
    rw [← hmap]
    cases b' <;> rfl
  have hlist : SideList filled (ladder.side b) b (lists p b) := by
    rw [hsides]
    exact (h.side p b).sameLevels fun j hj => hlevels hj
  have hlt : ∀ {p' b' j}, j ∈ lists p' b' → j < filled.capacity := fun hj =>
    hcapacity ▸ Nat.lt_of_lt_of_le (h.lt_capacity hj) htaken.capacity
  have habsent : ∀ {b' j}, j ∈ lists p b' → (slab.slots j).price ≠ x := by
    intro b' j hj he
    rw [h.slot.mpr ⟨b', hj, he⟩] at hnone
    cases hnone
  obtain ⟨before, after, hsplit, hplace, hpos⟩ := omLadderFindInsertPos_place hlist
    (fun j hj => (hlevels hj).price ▸ habsent hj) fun j hj => hlt hj
  rw [← hnew.1] at hplace
  rw [hsplit] at hlist
  rw [hpos] at hout
  obtain ⟨hside, hin, hopposite, hmapped⟩ :=
    omLadderLinkAfter_list hlist (fun hi => hne (hsplit ▸ hi) rfl) hplace hout
  refine ⟨before ++ i :: after, hin.free hfree, hside, hopposite.trans (hsides _), ?_, ?_,
    fun hj => absurd rfl (hne hj), fun hj => absurd rfl (hne hj),
    fun hj hx => absurd hx (habsent hj), fun _ => ?_, fun hj _ => ?_, fun hj _ => ?_,
    fun hj hplace => ?_, fun hj _ => ?_, fun hj _ => ?_⟩
  · rw [hmapped, ← hmap, if_neg hq]
  · intro j
    rw [hsplit]
    rcases eq_or_ne j i with rfl | hji
    · simp [hq]
    · simp [hji]
  · rw [hin.price, hin.qty, hin.capacity, hcapacity]
    exact ⟨hnew.1, hnew.2, htaken.lt_capacity, htaken.notFree⟩
  · exact (hin.price _).trans (hlevels hj).price
  · exact (hin.qty _).trans (hlevels hj).qty
  · refine (hlevels hj).trans (hin.other _ fun hmem => ?_)
    rcases List.mem_append.mp hmem with hmem | hmem
    · exact hplace (h.owner (hsplit ▸ List.mem_append_left _ hmem) hj)
    · rcases List.mem_cons.mp hmem with he | hmem
      · exact hne hj he
      · exact hplace (h.owner (hsplit ▸ List.mem_append_right _ hmem) hj)
  · exact hin.capacity ▸ hlt hj
  · intro hj'
    rcases htaken.rest _ hj' with hfree | hle
    · exact h.notFree hj hfree
    · exact Nat.not_le.mpr (h.lt_capacity hj) hle

theorem Ladders.dropLevel (hi : i ∈ lists p b) (hprice : (slab.slots i).price = x)
    (hout : omLadderUnlink slab (ladders p) i b = out) :
    ∃ l, LevelChange slab (omMarketSlabFree out.1 i) ladders
      { out.2 with priceToSlot := update out.2.priceToSlot x none } lists (i :: free) p b
      x i 0 l := by
  obtain ⟨before, after, hsplit⟩ := List.append_of_mem hi
  have hlist := h.side p b
  have hnodup := hlist.nodup
  rw [hsplit] at hlist hnodup
  have hgone : i ∉ before ++ after := (List.nodup_cons.mp (List.nodup_middle.mp hnodup)).1
  obtain ⟨hside, hin, hopposite, hmapped⟩ := omLadderUnlink_list hlist hout
  obtain ⟨hfree, hcapacity, hlevels⟩ := omMarketSlabFree_free (hin.free h.freeLevels)
    (hin.capacity ▸ h.lt_capacity hi) (h.notFree hi)
  have hsides : ∀ b' m, OmMarketLadder.side { out.2 with priceToSlot := m } b' = out.2.side b' := by
    intro b' m
    cases b' <;> rfl
  refine ⟨before ++ after, hfree, ?_, (hsides ..).trans hopposite, ?_, ?_,
    fun hj => h.owner hi hj, fun _ => hprice, fun hj hx => h.only hi hprice hj hx, nofun,
    fun _ _ => ?_, fun _ _ => ?_, fun hj hplace => ?_, fun hj _ => ?_, fun hj hne => ?_⟩
  · rw [hsides]
    exact hside.sameLevels fun j _ => hlevels j
  · rw [if_pos rfl, hmapped]
  · intro j
    rw [hsplit]
    rcases eq_or_ne j i with rfl | hji
    · simpa using hgone
    · simp [hji]
  · exact (hlevels _).price.trans (hin.price _)
  · exact (hlevels _).qty.trans (hin.qty _)
  · refine (hin.other _ fun hmem => ?_).trans (hlevels _)
    exact hplace (h.owner (hsplit ▸ hmem) hj)
  · rw [hcapacity, hin.capacity]
    exact h.lt_capacity hj
  · intro hmem
    rcases List.mem_cons.mp hmem with he | hmem
    · exact hne he
    · exact h.notFree hj hmem

end Change

section Operations

variable {slab : OmMarketLevelSlab} {ladders : Nat → OmMarketLadder}
  {total total' : Nat → Bool → Nat → Nat} {p x q : Nat} {b : Bool}
  {out : OmMarketLevelSlab × OmMarketLadder} (h : LaddersShow slab ladders total)
include h

theorem LaddersShow.add (hfits : LevelFits slab (ladders p) x q)
    (hopposite : q ≠ 0 → total p (!b) x = 0)
    (htotal : ∀ p' b' x', total' p' b' x' = total p' b' x' + atPlace p x b q p' b' x')
    (hok : omLadderAddQty slab (ladders p) x q b = (.ok, out)) :
    LaddersShow out.1 (update ladders p out.2) total' := by
  obtain ⟨lists, free, h⟩ := h
  have hself : total' p b x = total p b x + q := by rw [htotal, atPlace_self]
  have hother : ∀ p' b' x', ¬(p' = p ∧ b' = b ∧ x' = x) → total' p' b' x' = total p' b' x' := by
    intro p' b' x' hplace
    rw [htotal, atPlace_ne hplace, Nat.add_zero]
  unfold omLadderAddQty at hok
  split at hok
  · next hq =>
    cases hok
    have heq : total' = total := by
      funext p' b' x'
      rw [htotal, hq, atPlace_zero, Nat.add_zero]
    rw [update_eq_self, heq]
    exact ⟨lists, free, h⟩
  next hq =>
  split at hok
  · next i hi =>
    obtain ⟨b', hmem, hprice, hqty, hne⟩ := h.slot_some hi
    obtain rfl : b' = b := by
      by_contra hb
      exact hne (Bool.eq_not_of_ne hb ▸ hopposite hq)
    split at hok
    · cases hok
    · cases hok
      have hchange : LevelChange slab (slab.modify i fun s => { s with qty := s.qty + q }) ladders
          (ladders p) lists free p b' x i (total p b' x + q) (lists p b') :=
        h.setQty hmem hprice (by omega) (by rw [hqty])
      exact h.change hchange hself hother
  · next hnone =>
    obtain ⟨i, taken, free', halloc, htaken, -⟩ :=
      allocLevel_taken h.freeLevels (hfits hq hnone)
    rw [halloc] at hok
    obtain ⟨-, hout⟩ := Prod.mk.inj hok
    obtain ⟨l, hchange⟩ := h.newLevel hnone htaken hq rfl rfl hout
    refine h.change hchange ?_ hother
    rw [hself, h.slot_none.mp hnone, Nat.zero_add]

theorem LaddersShow.add_le (hopposite : q ≠ 0 → total p (!b) x = 0) (hq : q ≤ uint64Max)
    (hle : total p b x ≤ uint64Max)
    (hok : omLadderAddQty slab (ladders p) x q b = (.ok, out)) : total p b x + q ≤ uint64Max := by
  obtain ⟨lists, free, h⟩ := h
  unfold omLadderAddQty at hok
  split at hok
  · omega
  next hne =>
  split at hok
  · next i hi =>
    obtain ⟨b', -, -, hqty, htotal⟩ := h.slot_some hi
    obtain rfl : b' = b := by
      by_contra hb
      exact htotal (Bool.eq_not_of_ne hb ▸ hopposite hne)
    split at hok
    · cases hok
    · omega
  · next hnone =>
    rw [h.slot_none.mp hnone]
    omega

theorem LaddersShow.sub
    (htotal : ∀ p' b' x', total p' b' x' = total' p' b' x' + atPlace p x b q p' b' x') :
    LaddersShow (omLadderSubQty slab (ladders p) x q b).1
      (update ladders p (omLadderSubQty slab (ladders p) x q b).2) total' := by
  obtain ⟨lists, free, h⟩ := h
  have hself : total p b x = total' p b x + q := by rw [htotal, atPlace_self]
  have hother : ∀ p' b' x', ¬(p' = p ∧ b' = b ∧ x' = x) → total' p' b' x' = total p' b' x' := by
    intro p' b' x' hplace
    rw [htotal, atPlace_ne hplace, Nat.add_zero]
  unfold omLadderSubQty
  split
  · next hq =>
    have heq : total' = total := by
      funext p' b' x'
      rw [htotal, hq, atPlace_zero, Nat.add_zero]
    rw [update_eq_self, heq]
    exact ⟨lists, free, h⟩
  next hq =>
  obtain ⟨i, hi, hprice⟩ := h.shown (p := p) (b := b) (x := x) (by omega)
  have hqty := h.qty hi
  rw [hprice] at hqty
  rw [h.slot.mpr ⟨b, hi, hprice⟩]
  dsimp only
  split
  · next hall =>
    obtain ⟨l, hchange⟩ := h.dropLevel hi hprice rfl
    exact h.change hchange (by omega) hother
  · next hpart =>
    have hchange : LevelChange slab (slab.modify i fun s => { s with qty := s.qty - q }) ladders
        (ladders p) lists free p b x i (total p b x - q) (lists p b) :=
      h.setQty hi hprice (by omega) (by rw [hqty])
    exact h.change hchange (by omega) hother

end Operations

end VeloxMatch
