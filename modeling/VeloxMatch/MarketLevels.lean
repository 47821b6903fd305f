import VeloxMatch.MarketSlab

namespace VeloxMatch

open OmMarketLevelSlab OmMarketLevelSlot List

section Better

variable {isBid : Bool} {a b c : Nat}

theorem betterPrice_trans (h : betterPrice isBid a b = true) (h' : betterPrice isBid b c = true) :
    betterPrice isBid a c = true := by
  cases isBid <;> simp only [betterPrice, Bool.false_eq_true, if_true, if_false,
    decide_eq_true_eq] at * <;> omega

theorem betterPrice_of_not (h : betterPrice isBid a b = false) (hne : a ≠ b) :
    betterPrice isBid b a = true := by
  cases isBid <;> simp only [betterPrice, Bool.false_eq_true, if_true, if_false,
    decide_eq_true_eq, decide_eq_false_iff_not] at * <;> omega

end Better

structure SideList (slab : OmMarketLevelSlab) (side : LadderSide) (isBid : Bool) (l : List Nat) :
    Prop where
  links : DSeg (fun i => (slab.slots i).q1Next) (fun i => (slab.slots i).q1Prev) none l none
  head : side.head = front l none
  tail : side.tail = back none l
  hint : ∀ h, side.hint = some h → h ∈ l
  nodup : l.Nodup
  sorted : l.Pairwise fun i j =>
    betterPrice isBid (slab.slots i).price (slab.slots j).price = true

section Lists

variable {slab slab' : OmMarketLevelSlab} {side : LadderSide} {isBid : Bool} {l a b : List Nat}
  {price x fuel : Nat} {ladder : OmMarketLadder}

theorem sideList_empty (slab : OmMarketLevelSlab) (isBid : Bool) : SideList slab .empty isBid [] :=
  ⟨trivial, rfl, rfl, nofun, nodup_nil, .nil⟩

theorem SideList.congr (h : SideList slab side isBid l)
    (hnext : ∀ i ∈ l, (slab'.slots i).q1Next = (slab.slots i).q1Next)
    (hback : ∀ i ∈ l, (slab'.slots i).q1Prev = (slab.slots i).q1Prev)
    (hprice : ∀ i ∈ l, (slab'.slots i).price = (slab.slots i).price) :
    SideList slab' side isBid l where
  links := h.links.congr hnext hback
  head := h.head
  tail := h.tail
  hint := h.hint
  nodup := h.nodup
  sorted := h.sorted.imp_of_mem fun hi hj hij => by rwa [hprice _ hi, hprice _ hj]

theorem SideList.sameLevels (h : SideList slab side isBid l)
    (hsame : ∀ i ∈ l, SameLevel (slab.slots i) (slab'.slots i)) : SideList slab' side isBid l :=
  h.congr (fun i hi => (hsame i hi).next) (fun i hi => (hsame i hi).back)
    fun i hi => (hsame i hi).price

/-- The levels before a place are better than `price`, and `price` is better than those after it. -/
structure InsertPlace (slab : OmMarketLevelSlab) (isBid : Bool) (price : Nat) (a b : List Nat) :
    Prop where
  before : ∀ i ∈ a, betterPrice isBid (slab.slots i).price price = true
  after : ∀ i ∈ b, betterPrice isBid price (slab.slots i).price = true

theorem SideList.behind_before (h : SideList slab side isBid (a ++ x :: b))
    (hx : betterPrice isBid price (slab.slots x).price = false) :
    ∀ i ∈ a ++ [x], betterPrice isBid price (slab.slots i).price = false := by
  intro i hi
  rcases mem_append.mp hi with hi | hi
  · by_contra hbetter
    have hlt := (pairwise_append.mp h.sorted).2.2 i hi x mem_cons_self
    have hall := betterPrice_trans (Bool.eq_true_of_not_eq_false hbetter) hlt
    rw [hx] at hall
    cases hall
  · cases mem_singleton.mp hi
    exact hx

theorem SideList.better_rest (h : SideList slab side isBid (a ++ x :: b))
    (hx : betterPrice isBid price (slab.slots x).price = true) :
    ∀ i ∈ x :: b, betterPrice isBid price (slab.slots i).price = true := by
  intro i hi
  rcases mem_cons.mp hi with rfl | hi
  · exact hx
  · have hlt := (pairwise_cons.mp (pairwise_append.mp h.sorted).2.1).1 i hi
    exact betterPrice_trans hx hlt

def levelsBefore (slab : OmMarketLevelSlab) (isBid : Bool) (price : Nat) (l : List Nat) : List Nat :=
  l.takeWhile fun i => !betterPrice isBid price (slab.slots i).price

theorem levelsBefore_append (ha : ∀ i ∈ a, betterPrice isBid price (slab.slots i).price = false) :
    levelsBefore slab isBid price (a ++ b) = a ++ levelsBefore slab isBid price b :=
  takeWhile_append_of_pos fun i hi => by rw [ha i hi]; rfl

theorem walkForward_eq (h : SideList slab side isBid (a ++ b)) (hfuel : b.length ≤ fuel) :
    walkForward slab isBid price fuel (back none a) (front b none) =
      back none (a ++ levelsBefore slab isBid price b) := by
  unfold levelsBefore
  induction b generalizing a fuel with
  | nil =>
    rw [takeWhile_nil, append_nil]
    cases fuel <;> rfl
  | cons x b ih =>
    cases fuel with
    | zero => cases hfuel
    | succ fuel =>
      rw [front_cons, walkForward]
      cases hx : betterPrice isBid price (slab.slots x).price with
      | true =>
        rw [if_pos rfl, takeWhile_cons_of_neg (by simp [hx]), append_nil]
      | false =>
        have hnext : (slab.slots x).q1Next = front b none := h.links.links_of_split.2
        rw [if_neg Bool.false_ne_true, takeWhile_cons_of_pos (by simp [hx]), hnext,
          append_cons, ← back_concat none a x]
        rw [append_cons] at h
        exact ih h (Nat.le_of_succ_le_succ hfuel)

theorem walkBack_stops (h : SideList slab side isBid (a ++ b)) (hfuel : a.length ≤ fuel) :
    ∃ c d, a = c ++ d ∧ walkBack slab isBid price fuel (back none a) = back none c ∧
      (∀ i ∈ d, betterPrice isBid price (slab.slots i).price = true) ∧
      ∀ y, back none c = some y → betterPrice isBid price (slab.slots y).price = false := by
  induction a using reverseRecOn generalizing b fuel with
  | nil => exact ⟨[], [], rfl, by cases fuel <;> rfl, nofun, nofun⟩
  | append_singleton a x ih =>
    cases fuel with
    | zero => simp at hfuel
    | succ fuel =>
      rw [back_concat, walkBack]
      cases hx : betterPrice isBid price (slab.slots x).price with
      | true =>
        rw [append_assoc, singleton_append] at h
        have hback : (slab.slots x).q1Prev = back none a := h.links.links_of_split.1
        obtain ⟨c, d, rfl, hwalk, hbetter, hbehind⟩ := ih h (by simpa using hfuel)
        refine ⟨c, d ++ [x], append_assoc .., ?_, fun i hi => ?_, hbehind⟩
        · rw [if_pos rfl, hback, hwalk]
        · rcases mem_append.mp hi with hi | hi
          · exact hbetter i hi
          · cases mem_singleton.mp hi
            exact hx
      | false =>
        refine ⟨a ++ [x], [], (append_nil _).symm, ?_, nofun, fun y hy => ?_⟩
        · rw [if_neg Bool.false_ne_true, back_concat]
        · rw [back_concat] at hy
          cases hy
          exact hx

theorem walkForward_from (h : SideList slab side isBid (a ++ x :: b))
    (hfuel : (a ++ x :: b).length ≤ slab.capacity)
    (hx : betterPrice isBid price (slab.slots x).price = false) :
    walkForward slab isBid price slab.capacity (some x) (slab.slots x).q1Next =
      back none (levelsBefore slab isBid price (a ++ x :: b)) := by
  have hnext : (slab.slots x).q1Next = front b none := h.links.links_of_split.2
  have hbefore := h.behind_before hx
  have hlength : b.length ≤ slab.capacity := by
    simp only [length_append, length_cons] at hfuel
    omega
  rw [append_cons] at h ⊢
  rw [hnext, ← back_concat none a x, walkForward_eq h hlength, levelsBefore_append hbefore]

theorem insertPosFromHint_eq (h : SideList slab side isBid l) (hfuel : l.length ≤ slab.capacity)
    {hint : Nat} (hhint : hint ∈ l) :
    insertPosFromHint slab isBid price hint = back none (levelsBefore slab isBid price l) := by
  obtain ⟨a, b, rfl⟩ := append_of_mem hhint
  unfold insertPosFromHint
  cases hx : betterPrice isBid price (slab.slots hint).price with
  | false =>
    rw [if_neg Bool.false_ne_true]
    exact walkForward_from h hfuel hx
  | true =>
    rw [if_pos rfl]
    rw [append_cons] at h hfuel ⊢
    have hlength : (a ++ [hint]).length ≤ slab.capacity := by
      rw [length_append] at hfuel
      omega
    obtain ⟨c, d, hsplit, hwalk, hbetter, hbehind⟩ := walkBack_stops h hlength
    rw [back_concat] at hwalk
    rw [hwalk, hsplit]
    rw [hsplit] at h hfuel
    cases c using reverseRecOn with
    | nil =>
      -- the price is better than the head
      have hne : d ≠ [] := by
        rintro rfl
        simp at hsplit
      obtain ⟨y, d, rfl⟩ := exists_cons_of_ne_nil hne
      have hhead := hbetter y mem_cons_self
      rw [levelsBefore, nil_append, cons_append,
        takeWhile_cons_of_neg (by simp [hhead])]
      rfl
    | append_singleton c y =>
      have hy := hbehind y (back_concat ..)
      rw [back_concat]
      rw [append_assoc, append_assoc, singleton_append] at h hfuel ⊢
      exact walkForward_from h hfuel hy

theorem omLadderFindInsertPos_eq (h : SideList slab (ladder.side isBid) isBid l)
    (hlt : ∀ i ∈ l, i < slab.capacity) (price : Nat) :
    omLadderFindInsertPos slab ladder price isBid =
      back none (levelsBefore slab isBid price l) := by
  have hfuel : l.length ≤ slab.capacity := by
    have hsub : l ⊆ range slab.capacity := fun i hi => mem_range.mpr (hlt i hi)
    simpa using (subperm_of_subset h.nodup hsub).length_le
  unfold omLadderFindInsertPos
  dsimp only
  rw [h.head]
  cases l with
  | nil => rfl
  | cons head rest =>
    dsimp only [front_cons]
    cases hhead : betterPrice isBid price (slab.slots head).price with
    | true =>
      rw [if_pos rfl, levelsBefore, takeWhile_cons_of_neg (by simp [hhead])]
      rfl
    | false =>
      rw [if_neg Bool.false_ne_true]
      split
      · next tail htail =>
        obtain ⟨htail, hbehind⟩ := Option.filter_eq_some_iff.mp htail
        rw [h.tail] at htail
        obtain ⟨a, ha⟩ : ∃ a, head :: rest = a ++ [tail] := by
          cases hl : head :: rest using reverseRecOn with
          | nil => cases hl
          | append_singleton a y =>
            rw [hl, back_concat] at htail
            cases htail
            exact ⟨a, rfl⟩
        rw [ha] at h ⊢
        have hall := h.behind_before (by simpa using hbehind)
        have hbefore : levelsBefore slab isBid price (a ++ [tail] ++ []) = a ++ [tail] ++ [] :=
          levelsBefore_append hall
        rw [append_nil] at hbefore
        rw [hbefore, back_concat]
      · split
        · next hint hhint =>
          have hmem := h.hint hint (Option.filter_eq_some_iff.mp hhint).1
          exact insertPosFromHint_eq h hfuel hmem
        · exact walkForward_eq (a := []) h hfuel

theorem omLadderFindInsertPos_place (h : SideList slab (ladder.side isBid) isBid l)
    (hnew : ∀ i ∈ l, (slab.slots i).price ≠ price) (hlt : ∀ i ∈ l, i < slab.capacity) :
    ∃ a b, l = a ++ b ∧ InsertPlace slab isBid price a b ∧
      omLadderFindInsertPos slab ladder price isBid = back none a := by
  have hsplit : levelsBefore slab isBid price l ++
      l.dropWhile (fun i => !betterPrice isBid price (slab.slots i).price) = l :=
    takeWhile_append_dropWhile
  refine ⟨_, _, hsplit.symm, ⟨fun i hi => ?_, fun i hi => ?_⟩, omLadderFindInsertPos_eq h hlt price⟩
  · have hbehind : betterPrice isBid price (slab.slots i).price = false := by
      simpa using all_eq_true.mp all_takeWhile i hi
    have hmem : i ∈ l := (takeWhile_sublist _).mem hi
    exact betterPrice_of_not hbehind (hnew i hmem).symm
  · cases hrest : l.dropWhile fun i => !betterPrice isBid price (slab.slots i).price with
    | nil =>
      rw [hrest] at hi
      cases hi
    | cons x b =>
      have hx : betterPrice isBid price (slab.slots x).price = true := by
        have hhead := head_dropWhile_not
          (fun i => !betterPrice isBid price (slab.slots i).price) (l := l) (by simp [hrest])
        simpa [hrest] using hhead
      rw [hrest] at hi hsplit
      rw [← hsplit] at h
      exact h.better_rest hx i hi

end Lists

section Links

variable {slab : OmMarketLevelSlab} {ladder : OmMarketLadder} {isBid : Bool} {l a b : List Nat}
  {x i : Nat} {before next : Option Nat} {f : OmMarketLevelSlot → OmMarketLevelSlot}
  {out : OmMarketLevelSlab × OmMarketLadder}

theorem side_setSide (ladder : OmMarketLadder) (isBid : Bool) (side : LadderSide) :
    (ladder.setSide isBid side).side isBid = side := by
  cases isBid <;> rfl

theorem side_setSide_not (ladder : OmMarketLadder) (isBid : Bool) (side : LadderSide) :
    (ladder.setSide isBid side).side (!isBid) = ladder.side (!isBid) := by
  cases isBid <;> rfl

@[simp] theorem priceToSlot_setSide (ladder : OmMarketLadder) (isBid : Bool) (side : LadderSide) :
    (ladder.setSide isBid side).priceToSlot = ladder.priceToSlot := by
  cases isBid <;> rfl

/-- The writes of a ladder operation: the links of the nodes in `l` at most. -/
structure LinksIn (slab slab' : OmMarketLevelSlab) (l : List Nat) : Prop where
  capacity : slab'.capacity = slab.capacity
  free : ∀ {free}, FreeLevels slab free → FreeLevels slab' free
  price : ∀ i, (slab'.slots i).price = (slab.slots i).price
  qty : ∀ i, (slab'.slots i).qty = (slab.slots i).qty
  other : ∀ i, i ∉ l → SameLevel (slab.slots i) (slab'.slots i)

theorem LinksIn.trans {slab' slab'' : OmMarketLevelSlab} (h : LinksIn slab slab' l)
    (h' : LinksIn slab' slab'' l) : LinksIn slab slab'' l where
  capacity := h'.capacity.trans h.capacity
  free hf := h'.free (h.free hf)
  price i := (h'.price i).trans (h.price i)
  qty i := (h'.qty i).trans (h.qty i)
  other i hi := (h.other i hi).trans (h'.other i hi)

theorem linksIn_modify (hx : x ∈ l) (hq0 : ∀ s, (f s).q0Next = s.q0Next)
    (hprice : ∀ s, (f s).price = s.price)
    (hqty : ∀ s, (f s).qty = s.qty) : LinksIn slab (slab.modify x f) l where
  capacity := rfl
  free hf := hf.congr rfl rfl rfl rfl fun _ _ => field_modify _ hq0
  price _ := field_modify _ hprice
  qty _ := field_modify _ hqty
  other i hi := by
    rw [slots_modify_ne (ne_of_mem_of_not_mem hx hi).symm]
    exact .refl _

theorem linksIn_modifyAt {idx : Option Nat} (hx : ∀ x, idx = some x → x ∈ l)
    (hq0 : ∀ s, (f s).q0Next = s.q0Next) (hprice : ∀ s, (f s).price = s.price)
    (hqty : ∀ s, (f s).qty = s.qty) : LinksIn slab (slab.modifyAt idx f) l := by
  cases idx with
  | none => exact ⟨rfl, id, fun _ => rfl, fun _ => rfl, fun _ _ => .refl _⟩
  | some x => exact linksIn_modify (hx x rfl) hq0 hprice hqty

theorem isNone_back_cons (y : Nat) (l : List Nat) : (back none (y :: l)).isNone = false := by
  cases h : back none (y :: l) with
  | none => cases back_eq_none_iff.mp h
  | some _ => rfl

theorem front_replace {l l' : List Nat} {y : Option Nat} (hy : y = front l' none) :
    (if (back none a).isNone then y else front (a ++ l) none) = front (a ++ l') none := by
  rw [hy, front_append, front_append]
  cases a with
  | nil => rfl
  | cons y a => rw [isNone_back_cons, if_neg Bool.false_ne_true]; rfl

theorem back_replace {l l' : List Nat} {y : Option Nat} (hy : back none l' = y) :
    (if (front b none).isNone then y else back none (l ++ b)) = back none (l' ++ b) := by
  rw [← hy, back_append, back_append]
  cases b <;> rfl

def linkBetween (slab : OmMarketLevelSlab) (x : Nat) (before next : Option Nat) :
    OmMarketLevelSlab :=
  let slab := slab.modify x fun s => { s with q1Prev := before, q1Next := next }
  let slab := slab.modifyAt next fun s => { s with q1Prev := some x }
  slab.modifyAt before fun s => { s with q1Next := some x }

theorem next_linkBetween (i : Nat) :
    ((linkBetween slab x before next).slots i).q1Next =
      if before = some i then some x else if i = x then next else (slab.slots i).q1Next := by
  unfold linkBetween
  dsimp only
  by_cases hi : before = some i
  · rw [slots_modifyAt_some hi, if_pos hi]
  · rw [slots_modifyAt_ne hi, if_neg hi]
    refine (field_modifyAt q1Next ?_).trans ?_
    · exact fun _ => rfl
    by_cases hix : i = x
    · rw [if_pos hix, hix, slots_modify_self]
    · rw [if_neg hix, slots_modify_ne hix]

theorem back_linkBetween (i : Nat) :
    ((linkBetween slab x before next).slots i).q1Prev =
      if next = some i then some x else if i = x then before else (slab.slots i).q1Prev := by
  unfold linkBetween
  dsimp only
  refine (field_modifyAt q1Prev ?_).trans ?_
  · exact fun _ => rfl
  by_cases hi : next = some i
  · rw [slots_modifyAt_some hi, if_pos hi]
  · rw [slots_modifyAt_ne hi, if_neg hi]
    by_cases hix : i = x
    · rw [if_pos hix, hix, slots_modify_self]
    · rw [if_neg hix, slots_modify_ne hix]

theorem linkBetween_linksIn (hx : x ∈ l) (hbefore : ∀ y, before = some y → y ∈ l)
    (hnext : ∀ y, next = some y → y ∈ l) : LinksIn slab (linkBetween slab x before next) l := by
  refine LinksIn.trans (LinksIn.trans (linksIn_modify hx ?_ ?_ ?_) (linksIn_modifyAt hnext ?_ ?_ ?_))
    (linksIn_modifyAt hbefore ?_ ?_ ?_)
  all_goals exact fun _ => rfl

theorem omLadderLinkAfter_eq (h : SideList slab (ladder.side isBid) isBid (a ++ b)) :
    omLadderLinkAfter slab ladder x (back none a) isBid =
      (linkBetween slab x (back none a) (front b none), ladder.setSide isBid
        { head := if (back none a).isNone then some x else (ladder.side isBid).head
          tail := if (front b none).isNone then some x else (ladder.side isBid).tail
          count := ((ladder.side isBid).count + 1) % 2 ^ 32
          hint := some x }) := by
  cases a using reverseRecOn with
  | nil =>
    have hhead : (ladder.side isBid).head = front b none := h.head
    simp only [omLadderLinkAfter, linkBetween, back_nil, hhead]
  | append_singleton a y =>
    have hnext : (slab.slots y).q1Next = front b none := by
      have hlinks := h.links
      rw [append_assoc, singleton_append] at hlinks
      exact hlinks.links_of_split.2
    simp only [omLadderLinkAfter, linkBetween, back_concat, hnext]

theorem omLadderLinkAfter_list (h : SideList slab (ladder.side isBid) isBid (a ++ b))
    (hx : x ∉ a ++ b) (hplace : InsertPlace slab isBid (slab.slots x).price a b)
    (hout : omLadderLinkAfter slab ladder x (back none a) isBid = out) :
    SideList out.1 (out.2.side isBid) isBid (a ++ x :: b) ∧ LinksIn slab out.1 (a ++ x :: b) ∧
      out.2.side (!isBid) = ladder.side (!isBid) ∧ out.2.priceToSlot = ladder.priceToSlot := by
  rw [omLadderLinkAfter_eq h] at hout
  subst hout
  have hnodup : (a ++ x :: b).Nodup := by
    rw [nodup_middle]
    exact nodup_cons.mpr ⟨hx, h.nodup⟩
  have hne : ∀ i ∈ a ++ b, i ≠ x := fun i hi he => hx (he ▸ hi)
  have hback : ∀ y, back none a = some y → y ∈ a := fun y => back_none_mem
  have hfront : ∀ y, front b none = some y → y ∈ b := fun y => front_mem
  have hbx : back none a ≠ some x := fun he => hx (by simp [hback x he])
  have hfx : front b none ≠ some x := fun he => hx (by simp [hfront x he])
  have hin : LinksIn slab (linkBetween slab x (back none a) (front b none)) (a ++ x :: b) :=
    linkBetween_linksIn (by simp) (fun y hy => by simp [hback y hy])
      fun y hy => by simp [hfront y hy]
  refine ⟨?_, hin, side_setSide_not .., priceToSlot_setSide ..⟩
  rw [side_setSide]
  refine ⟨?_, ?_, ?_, ?_, hnodup, ?_⟩
  · refine h.links.link hnodup ?_ ?_ (fun y hmem => ?_) fun y hmem => ?_
    · rw [back_linkBetween, if_neg hfx, if_pos rfl]
    · rw [next_linkBetween, if_neg hbx, if_pos rfl]
    · rw [next_linkBetween, if_neg (hne y hmem)]
    · rw [back_linkBetween, if_neg (hne y hmem)]
  · exact h.head ▸ front_replace rfl
  · rw [append_cons]
    exact h.tail ▸ back_replace (back_concat ..)
  · rintro y ⟨rfl⟩
    simp
  · have hsorted := h.sorted
    simp only [pairwise_append, pairwise_cons, hin.price] at hsorted ⊢
    obtain ⟨ha, hb, hab⟩ := hsorted
    refine ⟨ha, ⟨hplace.after, hb⟩, fun i hi j hj => ?_⟩
    rcases mem_cons.mp hj with rfl | hj
    · exact hplace.before i hi
    · exact hab i hi j hj

def unlinkBetween (slab : OmMarketLevelSlab) (x : Nat) (before next : Option Nat) :
    OmMarketLevelSlab :=
  let slab := slab.modifyAt before fun s => { s with q1Next := next }
  let slab := slab.modifyAt next fun s => { s with q1Prev := before }
  slab.modify x fun s => { s with q1Prev := none, q1Next := none }

theorem next_unlinkBetween (hi : i ≠ x) :
    ((unlinkBetween slab x before next).slots i).q1Next =
      if before = some i then next else (slab.slots i).q1Next := by
  unfold unlinkBetween
  dsimp only
  rw [slots_modify_ne hi]
  refine (field_modifyAt q1Next ?_).trans ?_
  · exact fun _ => rfl
  by_cases hb : before = some i
  · rw [slots_modifyAt_some hb, if_pos hb]
  · rw [slots_modifyAt_ne hb, if_neg hb]

theorem back_unlinkBetween (hi : i ≠ x) :
    ((unlinkBetween slab x before next).slots i).q1Prev =
      if next = some i then before else (slab.slots i).q1Prev := by
  unfold unlinkBetween
  dsimp only
  rw [slots_modify_ne hi]
  by_cases hn : next = some i
  · rw [slots_modifyAt_some hn, if_pos hn]
  · rw [slots_modifyAt_ne hn, if_neg hn]
    exact field_modifyAt q1Prev fun _ => rfl

theorem unlinkBetween_linksIn (hx : x ∈ l) (hbefore : ∀ y, before = some y → y ∈ l)
    (hnext : ∀ y, next = some y → y ∈ l) : LinksIn slab (unlinkBetween slab x before next) l := by
  unfold unlinkBetween
  refine LinksIn.trans (LinksIn.trans (linksIn_modifyAt hbefore ?_ ?_ ?_)
    (linksIn_modifyAt hnext ?_ ?_ ?_)) (linksIn_modify hx ?_ ?_ ?_)
  all_goals exact fun _ => rfl

theorem omLadderUnlink_eq (h : SideList slab (ladder.side isBid) isBid (a ++ x :: b)) :
    omLadderUnlink slab ladder x isBid =
      (unlinkBetween slab x (back none a) (front b none), ladder.setSide isBid
        { head := if (back none a).isNone then front b none else (ladder.side isBid).head
          tail := if (front b none).isNone then back none a else (ladder.side isBid).tail
          count := ((ladder.side isBid).count + (2 ^ 32 - 1)) % 2 ^ 32
          hint :=
            if ((ladder.side isBid).count + (2 ^ 32 - 1)) % 2 ^ 32 = 0 then none
            else if (ladder.side isBid).hint = some x then
              if (back none a).isSome then back none a else front b none
            else (ladder.side isBid).hint }) := by
  obtain ⟨hprev, hnext⟩ := h.links.links_of_split
  simp only [omLadderUnlink, unlinkBetween, hprev, hnext]

theorem omLadderUnlink_list (h : SideList slab (ladder.side isBid) isBid (a ++ x :: b))
    (hout : omLadderUnlink slab ladder x isBid = out) :
    SideList out.1 (out.2.side isBid) isBid (a ++ b) ∧ LinksIn slab out.1 (a ++ x :: b) ∧
      out.2.side (!isBid) = ladder.side (!isBid) ∧ out.2.priceToSlot = ladder.priceToSlot := by
  rw [omLadderUnlink_eq h] at hout
  subst hout
  have hx : x ∉ a ++ b := (nodup_cons.mp (nodup_middle.mp h.nodup)).1
  have hnodup : (a ++ b).Nodup := (nodup_cons.mp (nodup_middle.mp h.nodup)).2
  have hne : ∀ i ∈ a ++ b, i ≠ x := fun i hi he => hx (he ▸ hi)
  have hback : ∀ y, back none a = some y → y ∈ a := fun y => back_none_mem
  have hfront : ∀ y, front b none = some y → y ∈ b := fun y => front_mem
  have hin : LinksIn slab (unlinkBetween slab x (back none a) (front b none)) (a ++ x :: b) :=
    unlinkBetween_linksIn (by simp) (fun y hy => by simp [hback y hy])
      fun y hy => by simp [hfront y hy]
  refine ⟨?_, hin, side_setSide_not .., priceToSlot_setSide ..⟩
  rw [side_setSide]
  refine ⟨?_, ?_, ?_, ?_, hnodup, ?_⟩
  · exact h.links.unlink h.nodup (fun y hmem => next_unlinkBetween (hne y hmem))
      fun y hmem => back_unlinkBetween (hne y hmem)
  · exact h.head ▸ front_replace rfl
  · exact h.tail ▸ append_cons a x b ▸ back_replace rfl
  · dsimp only
    intro y hy
    split at hy
    · cases hy
    split at hy
    · split at hy
      · exact mem_append_left _ (hback y hy)
      · exact mem_append_right _ (hfront y hy)
    · next hhint =>
      have hmem := h.hint y hy
      rcases mem_append.mp hmem with hmem | hmem
      · exact mem_append_left _ hmem
      · rcases mem_cons.mp hmem with rfl | hmem
        · exact absurd hy hhint
        · exact mem_append_right _ hmem
  · have hsorted := h.sorted.sublist (List.Sublist.append_left (sublist_cons_self x b) a)
    exact hsorted.imp fun hij => by rwa [hin.price, hin.price]

end Links

end VeloxMatch
