import Mathlib.Data.List.NodupEquivFin

namespace VeloxMatch

open Function List

/-- Flags for `limit` things, and a list of those whose flag was raised. -/
structure DirtyList where
  limit : Nat
  flag : Nat → Bool
  list : List Nat

namespace DirtyList

def empty (limit : Nat) : DirtyList := ⟨limit, fun _ => false, []⟩

variable (d : DirtyList)

def mark (i : Nat) : DirtyList :=
  if i < d.limit then
    if d.flag i then d
    else
      { d with
        flag := update d.flag i true
        list := if d.list.length < d.limit then d.list ++ [i] else d.list }
  else d

def clear (i : Nat) : DirtyList :=
  { d with flag := update d.flag i false }

def compact : DirtyList :=
  { d with list := d.list.filter fun i => decide (i < d.limit) && d.flag i }

def markAll (is : List Nat) : DirtyList := is.foldl mark d

/-- Of the things that are touched, those whose flag goes up, in their order. -/
def fresh (d : DirtyList) : List Nat → List Nat
  | [] => []
  | i :: is =>
    if i < d.limit ∧ d.flag i = false then i :: (d.fresh is).filter (· ≠ i) else d.fresh is

/-- What finds no room in the list has an old entry there. -/
def KeepsListed (is : List Nat) : Prop :=
  ∀ i ∈ (d.fresh is).drop (d.limit - d.list.length), i ∈ d.list

/-- What finds room in the list has no old entry there. -/
def KeepsOnce (is : List Nat) : Prop :=
  ∀ i ∈ (d.fresh is).take (d.limit - d.list.length), i ∉ d.list

instance (is : List Nat) : Decidable (d.KeepsListed is) :=
  inferInstanceAs (Decidable (∀ i ∈ _, _))

instance (is : List Nat) : Decidable (d.KeepsOnce is) :=
  inferInstanceAs (Decidable (∀ i ∈ _, _))

variable {d : DirtyList} {i : Nat} {is js : List Nat}

theorem mem_fresh : i ∈ d.fresh is ↔ i ∈ is ∧ i < d.limit ∧ d.flag i = false := by
  induction is with
  | nil => simp [fresh]
  | cons j is ih =>
    unfold fresh
    by_cases hij : i = j <;> split <;> simp_all

theorem fresh_nodup (d : DirtyList) (is : List Nat) : (d.fresh is).Nodup := by
  induction is with
  | nil => exact nodup_nil
  | cons i is ih =>
    unfold fresh
    split
    · exact nodup_cons.mpr ⟨by simp, ih.filter _⟩
    · exact ih

theorem fresh_prefix (h : is <+: js) : d.fresh is <+: d.fresh js := by
  obtain ⟨more, rfl⟩ := h
  induction is with
  | nil => exact nil_prefix
  | cons i is ih =>
    rw [cons_append]
    unfold fresh
    split
    · exact (prefix_cons_inj i).mpr (ih.filter _)
    · exact ih

theorem KeepsListed.of_front (h : d.KeepsListed js) (hfront : is <+: js) : d.KeepsListed is := by
  obtain ⟨more, hmore⟩ := fresh_prefix (d := d) hfront
  intro i hi
  refine h i ?_
  rw [← hmore, drop_append]
  exact mem_append_left _ hi

theorem KeepsOnce.of_front (h : d.KeepsOnce js) (hfront : is <+: js) : d.KeepsOnce is := by
  obtain ⟨more, hmore⟩ := fresh_prefix (d := d) hfront
  intro i hi
  refine h i ?_
  rw [← hmore, take_append]
  exact mem_append_left _ hi

theorem mark_of_fresh (h : i < d.limit ∧ d.flag i = false) : d.mark i =
    { d with
      flag := update d.flag i true
      list := if d.list.length < d.limit then d.list ++ [i] else d.list } := by
  simp [mark, h]

theorem mark_of_not_fresh (h : ¬(i < d.limit ∧ d.flag i = false)) : d.mark i = d := by
  unfold mark
  split
  · next hi => exact if_pos (Bool.eq_true_of_not_eq_false fun hflag => h ⟨hi, hflag⟩)
  · rfl

theorem fresh_mark (h : i < d.limit ∧ d.flag i = false) (is : List Nat) :
    (d.mark i).fresh is = (d.fresh is).filter (· ≠ i) := by
  induction is with
  | nil => rfl
  | cons j is ih =>
    unfold fresh
    rw [ih, mark_of_fresh h]
    rcases eq_or_ne j i with rfl | hne
    · simp [h]
    · simp only [update_of_ne hne]
      split
      · rw [filter_cons_of_pos (by simpa using hne), filter_filter, filter_filter]
        exact congrArg (j :: ·) (filter_congr fun k _ => Bool.and_comm ..)
      · rfl

/-- What marking does: the flags of the fresh ones go up, and they are listed while there is
room. -/
theorem markAll_eq (d : DirtyList) (is : List Nat) : d.markAll is =
    { d with
      flag := fun i => d.flag i || decide (i ∈ d.fresh is)
      list := d.list ++ (d.fresh is).take (d.limit - d.list.length) } := by
  induction is generalizing d with
  | nil => simp [markAll, fresh]
  | cons i is ih =>
    have hcons : d.markAll (i :: is) = (d.mark i).markAll is := rfl
    rw [hcons]
    by_cases h : i < d.limit ∧ d.flag i = false
    · rw [ih, fresh_mark h, mark_of_fresh h, fresh, if_pos h]
      congr 1
      · funext j
        rcases eq_or_ne j i with rfl | hne
        · simp
        · simp [hne]
      · dsimp only
        split
        · next hroom =>
          obtain ⟨room, hr⟩ : ∃ room, d.limit - d.list.length = room + 1 :=
            ⟨d.limit - d.list.length - 1, by omega⟩
          have hr' : d.limit - (d.list ++ [i]).length = room := by
            rw [length_append, length_singleton]
            omega
          rw [hr, hr', take_succ_cons, append_assoc, singleton_append]
        · next hroom => rw [Nat.sub_eq_zero_of_le (Nat.le_of_not_lt hroom), take_zero,
            take_zero]
    · rw [mark_of_not_fresh h, ih, fresh, if_neg h]

/-- What is flagged is listed. -/
structure Listed (d : DirtyList) : Prop where
  bound : ∀ i ∈ d.list, i < d.limit
  listed : ∀ i, d.flag i = true → i ∈ d.list

/-- What is flagged is listed, and nothing is listed twice. -/
structure Sound (d : DirtyList) : Prop extends Listed d where
  nodup : d.list.Nodup

theorem Sound.empty (limit : Nat) : (DirtyList.empty limit).Sound :=
  ⟨⟨nofun, nofun⟩, nodup_nil⟩

theorem Listed.markAll (h : d.Listed) (hkeeps : d.KeepsListed is) : (d.markAll is).Listed := by
  rw [markAll_eq]
  refine ⟨fun i hi => ?_, fun i hi => ?_⟩
  · rcases mem_append.mp hi with hi | hi
    · exact h.bound i hi
    · exact (mem_fresh.mp (mem_of_mem_take hi)).2.1
  · simp only [Bool.or_eq_true, decide_eq_true_eq] at hi
    rcases hi with hi | hi
    · exact mem_append_left _ (h.listed i hi)
    · rw [← take_append_drop (d.limit - d.list.length) (d.fresh is)] at hi
      rcases mem_append.mp hi with hi | hi
      · exact mem_append_right _ hi
      · exact mem_append_left _ (hkeeps i hi)

/-- A list that is full and has no entry twice has them all. -/
theorem Sound.keepsListed (h : d.Sound) (honce : d.KeepsOnce is) : d.KeepsListed is := by
  intro i hi
  by_contra hnot
  have hsplit := d.fresh_nodup is
  rw [← take_append_drop (d.limit - d.list.length) (d.fresh is)] at hsplit
  have hfull : (d.fresh is).drop (d.limit - d.list.length) ≠ [] := ne_nil_of_mem hi
  have htake : ((d.fresh is).take (d.limit - d.list.length)).length =
      d.limit - d.list.length := by
    rw [length_take, Nat.min_eq_left]
    by_contra hlt
    exact hfull (drop_eq_nil_of_le (Nat.le_of_not_le hlt))
  have hnodup : (i :: (d.list ++ (d.fresh is).take (d.limit - d.list.length))).Nodup := by
    rw [nodup_cons, mem_append, not_or, nodup_append]
    exact ⟨⟨hnot, fun hmem => (nodup_append.mp hsplit).2.2 i hmem i hi rfl⟩, h.nodup,
      (nodup_append.mp hsplit).1, fun a ha b hb heq => honce b hb (heq ▸ ha)⟩
  have hsub : i :: (d.list ++ (d.fresh is).take (d.limit - d.list.length)) ⊆
      range d.limit := by
    intro j hj
    rw [mem_range]
    rcases mem_cons.mp hj with rfl | hj
    · exact (mem_fresh.mp (mem_of_mem_drop hi)).2.1
    rcases mem_append.mp hj with hj | hj
    · exact h.bound j hj
    · exact (mem_fresh.mp (mem_of_mem_take hj)).2.1
  have hle := (subperm_of_subset hnodup hsub).length_le
  rw [length_cons, length_append, htake, length_range] at hle
  omega

theorem Sound.markAll (h : d.Sound) (honce : d.KeepsOnce is) : (d.markAll is).Sound := by
  refine ⟨h.toListed.markAll (h.keepsListed honce), ?_⟩
  rw [markAll_eq]
  exact nodup_append.mpr ⟨h.nodup, (d.fresh_nodup is).take,
    fun a ha b hb heq => honce b hb (heq ▸ ha)⟩

theorem Listed.clear (h : d.Listed) (i : Nat) : (d.clear i).Listed := by
  refine ⟨h.bound, fun j hj => ?_⟩
  rcases eq_or_ne j i with rfl | hne
  · simp [DirtyList.clear] at hj
  · exact h.listed j (by simpa [DirtyList.clear, hne] using hj)

theorem Listed.compact (h : d.Listed) : d.compact.Listed := by
  refine ⟨fun i hi => h.bound i (mem_of_mem_filter hi), fun i hi => ?_⟩
  have hi : d.flag i = true := hi
  have hmem := h.listed i hi
  exact mem_filter.mpr ⟨hmem, by simp [h.bound i hmem, hi]⟩

theorem Sound.clear (h : d.Sound) (i : Nat) : (d.clear i).Sound :=
  ⟨h.toListed.clear i, h.nodup⟩

theorem Sound.compact (h : d.Sound) : d.compact.Sound := ⟨h.toListed.compact, h.nodup.filter _⟩

theorem Listed.mem_compact (h : d.Listed) : i ∈ d.compact.list ↔ d.flag i = true := by
  refine ⟨fun hi => ?_, fun hi => h.compact.listed i hi⟩
  have hkeep := (mem_filter.mp hi).2
  simp only [Bool.and_eq_true] at hkeep
  exact hkeep.2

end DirtyList

end VeloxMatch
