import Mathlib.Data.List.Induction
import Mathlib.Data.List.Nodup

namespace VeloxMatch

open List

variable {α : Type}

/-- The first node of a segment, or what follows the segment when it is empty. -/
def front (l : List α) (stop : Option α) : Option α :=
  match l with
  | [] => stop
  | x :: _ => some x

/-- The last node of a segment, or what precedes the segment when it is empty. -/
def back (before : Option α) : List α → Option α
  | [] => before
  | x :: l => back (some x) l

/-- The nodes of `l` are linked in order in both directions. The first node's back link
holds `before` and the last node's forward link holds `stop`. -/
def DSeg (next prev : α → Option α) (before : Option α) : List α → Option α → Prop
  | [], _ => True
  | x :: l, stop => prev x = before ∧ next x = front l stop ∧ DSeg next prev (some x) l stop

variable {next prev next' prev' : α → Option α} {before before' stop stop' : Option α}
  {a b l : List α} {x y : α}

@[simp] theorem front_nil (stop : Option α) : front [] stop = stop := rfl

@[simp] theorem front_cons (x : α) (l : List α) (stop : Option α) :
    front (x :: l) stop = some x := rfl

@[simp] theorem back_nil (before : Option α) : back before [] = before := rfl

@[simp] theorem back_cons (before : Option α) (x : α) (l : List α) :
    back before (x :: l) = back (some x) l := rfl

@[simp] theorem DSeg.nil : DSeg next prev before [] stop := trivial

theorem front_append (a b : List α) (stop : Option α) :
    front (a ++ b) stop = front a (front b stop) := by
  cases a <;> rfl

theorem back_append (before : Option α) (a b : List α) :
    back before (a ++ b) = back (back before a) b := by
  induction a generalizing before with
  | nil => rfl
  | cons x a ih => exact ih (some x)

theorem back_ne_nil (hl : l ≠ []) (before before' : Option α) : back before l = back before' l := by
  cases l with
  | nil => exact absurd rfl hl
  | cons x l => rfl

theorem back_concat (before : Option α) (a : List α) (x : α) : back before (a ++ [x]) = some x := by
  rw [back_append]
  rfl

theorem front_mem (h : front l none = some x) : x ∈ l := by
  cases l with
  | nil => simp at h
  | cons y l =>
    cases Option.some.inj h
    exact mem_cons_self

theorem back_mem (h : back before l = some x) : x ∈ l ∨ before = some x := by
  induction l generalizing before with
  | nil => exact Or.inr h
  | cons y l ih =>
    rcases ih h with hm | he
    · exact Or.inl (mem_cons_of_mem y hm)
    · cases Option.some.inj he
      exact Or.inl mem_cons_self

theorem back_none_mem (h : back none l = some x) : x ∈ l := by
  rcases back_mem h with hm | he
  · exact hm
  · simp at he

theorem front_eq_none_iff : front l none = none ↔ l = [] := by
  cases l <;> simp

theorem back_eq_none_iff : back none l = none ↔ l = [] := by
  induction l using reverseRecOn with
  | nil => simp
  | append_singleton l x ih => simp [back_concat]

theorem DSeg.append_iff :
    DSeg next prev before (a ++ b) stop ↔
      DSeg next prev before a (front b stop) ∧ DSeg next prev (back before a) b stop := by
  induction a generalizing before with
  | nil => simp
  | cons x a ih => simp only [cons_append, DSeg, front_append, ih, back_cons, and_assoc]

theorem DSeg.congr (h : DSeg next prev before l stop) (hn : ∀ x ∈ l, next' x = next x)
    (hp : ∀ x ∈ l, prev' x = prev x) : DSeg next' prev' before l stop := by
  induction l generalizing before with
  | nil => trivial
  | cons x l ih =>
    obtain ⟨h1, h2, h3⟩ := h
    refine ⟨(hp x (by simp)).trans h1, (hn x (by simp)).trans h2, ih h3 ?_ ?_⟩
    · exact fun y hy => hn y (by simp [hy])
    · exact fun y hy => hp y (by simp [hy])

variable [DecidableEq α]

theorem DSeg.retarget (h : DSeg next prev before l stop) (hnd : l.Nodup)
    (hn : ∀ x ∈ l, next' x = if back none l = some x then stop' else next x)
    (hp : ∀ x ∈ l, prev' x = prev x) : DSeg next' prev' before l stop' := by
  induction l generalizing before with
  | nil => trivial
  | cons x l ih =>
    obtain ⟨h1, h2, h3⟩ := h
    obtain ⟨hx, hnd'⟩ := nodup_cons.mp hnd
    have hnx := hn x mem_cons_self
    refine ⟨(hp x mem_cons_self).trans h1, ?_⟩
    cases l with
    | nil => exact ⟨hnx.trans (if_pos rfl), trivial⟩
    | cons y l =>
      refine ⟨hnx.trans ((if_neg fun he => hx (back_none_mem he)).trans h2), ih h3 hnd' ?_ ?_⟩
      · exact fun z hz => hn z (mem_cons_of_mem x hz)
      · exact fun z hz => hp z (mem_cons_of_mem x hz)

theorem DSeg.reback (h : DSeg next prev before l stop) (hnd : l.Nodup)
    (hp : ∀ x ∈ l, prev' x = if front l none = some x then before' else prev x)
    (hn : ∀ x ∈ l, next' x = next x) : DSeg next' prev' before' l stop := by
  cases l with
  | nil => trivial
  | cons x l =>
    obtain ⟨h1, h2, h3⟩ := h
    refine ⟨(hp x mem_cons_self).trans (if_pos rfl), (hn x mem_cons_self).trans h2,
      h3.congr (fun y hy => hn y (mem_cons_of_mem x hy)) fun y hy => ?_⟩
    refine (hp y (mem_cons_of_mem x hy)).trans (if_neg fun he => ?_)
    cases Option.some.inj he
    exact (nodup_cons.mp hnd).1 hy

omit [DecidableEq α] in
theorem DSeg.links_of_split (h : DSeg next prev before (a ++ x :: b) stop) :
    prev x = back before a ∧ next x = front b stop := by
  have hx := (DSeg.append_iff.mp h).2
  exact ⟨hx.1, hx.2.1⟩

/-- The nodes `m'` take the place of the nodes `m`; only their neighbours are redirected. -/
theorem DSeg.splice (m m' : List α) (h : DSeg next prev before (a ++ (m ++ b)) stop)
    (hnd : (a ++ b).Nodup) (hm : DSeg next' prev' (back before a) m' (front b stop))
    (hn : ∀ y ∈ a ++ b, next' y = if back none a = some y then front (m' ++ b) stop else next y)
    (hp : ∀ y ∈ a ++ b, prev' y =
      if front b none = some y then back (back before a) m' else prev y) :
    DSeg next' prev' before (a ++ (m' ++ b)) stop := by
  obtain ⟨ha, hmb⟩ := DSeg.append_iff.mp h
  have hb := (DSeg.append_iff.mp hmb).2
  obtain ⟨hda, hdb, hab⟩ := nodup_append.mp hnd
  have hdisj : ∀ y ∈ a, y ∉ b := fun y hy hy' => hab y hy y hy' rfl
  refine DSeg.append_iff.mpr ⟨?_, DSeg.append_iff.mpr ⟨hm, ?_⟩⟩
  · refine ha.retarget hda (fun y hy => hn y (mem_append_left b hy)) fun y hy => ?_
    exact (hp y (mem_append_left b hy)).trans (if_neg fun he => hdisj y hy (front_mem he))
  · refine hb.reback hdb (fun y hy => hp y (mem_append_right a hy)) fun y hy => ?_
    exact (hn y (mem_append_right a hy)).trans
      (if_neg fun he => hdisj y (back_none_mem he) hy)

omit [DecidableEq α] in
theorem nodup_of_middle (h : (a ++ x :: b).Nodup) : (a ++ b).Nodup :=
  (nodup_cons.mp (nodup_middle.mp h)).2

theorem DSeg.unlink (h : DSeg next prev before (a ++ x :: b) stop) (hnd : (a ++ x :: b).Nodup)
    (hn : ∀ y ∈ a ++ b, next' y = if back none a = some y then front b stop else next y)
    (hp : ∀ y ∈ a ++ b, prev' y = if front b none = some y then back before a else prev y) :
    DSeg next' prev' before (a ++ b) stop :=
  h.splice [x] [] (nodup_of_middle hnd) trivial hn hp

theorem DSeg.link (h : DSeg next prev before (a ++ b) stop) (hnd : (a ++ x :: b).Nodup)
    (hxp : prev' x = back before a) (hxn : next' x = front b stop)
    (hn : ∀ y ∈ a ++ b, next' y = if back none a = some y then some x else next y)
    (hp : ∀ y ∈ a ++ b, prev' y = if front b none = some y then some x else prev y) :
    DSeg next' prev' before (a ++ x :: b) stop :=
  h.splice [] [x] (nodup_of_middle hnd) ⟨hxp, hxn, trivial⟩ hn hp

theorem DSeg.replace (h : DSeg next prev before (a ++ x :: b) stop) (hnd : (a ++ x :: b).Nodup)
    (hyp : prev' y = back before a) (hyn : next' y = front b stop)
    (hn : ∀ z ∈ a ++ b, next' z = if back none a = some z then some y else next z)
    (hp : ∀ z ∈ a ++ b, prev' z = if front b none = some z then some y else prev z) :
    DSeg next' prev' before (a ++ y :: b) stop :=
  h.splice [x] [y] (nodup_of_middle hnd) ⟨hyp, hyn, trivial⟩ hn hp

/-- A list threaded through forward links only, ending in a null link. -/
def SSeg (next : α → Option α) : List α → Prop
  | [] => True
  | x :: l => next x = front l none ∧ SSeg next l

omit [DecidableEq α] in
theorem SSeg.congr (h : SSeg next l) (hn : ∀ x ∈ l, next' x = next x) : SSeg next' l := by
  induction l with
  | nil => trivial
  | cons x l ih =>
    refine ⟨(hn x (by simp)).trans h.1, ih h.2 ?_⟩
    intro y hy
    exact hn y (by simp [hy])

end VeloxMatch
