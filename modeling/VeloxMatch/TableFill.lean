import Mathlib.Data.List.Induction
import Mathlib.Data.List.Nodup

namespace VeloxMatch

open Function List

/-! Tables that loops fill entry by entry. -/

section Fill

variable {α β : Type}

theorem foldl_update_apply (f : Nat → β) (l : List Nat) (t : Nat → β) (i : Nat) :
    l.foldl (fun t i => update t i (f i)) t i = if i ∈ l then f i else t i := by
  induction l generalizing t with
  | nil => rfl
  | cons j l ih =>
    rw [foldl_cons, ih]
    by_cases hi : i ∈ l
    · rw [if_pos hi, if_pos (mem_cons_of_mem _ hi)]
    · rcases eq_or_ne i j with rfl | hne
      · rw [if_neg hi, if_pos mem_cons_self, update_self]
      · rw [if_neg hi, if_neg (by simp [hne, hi]), update_of_ne hne]

/-- A loop that writes the value of an item at its key, if it has one. -/
def writeKeys (key : α → Option Nat) (val : α → β) (t : Nat → Option β) (a : α) : Nat → Option β :=
  match key a with
  | none => t
  | some k => update t k (some (val a))

variable {key : α → Option Nat} {val : α → β} {k : Nat}

theorem writeKeys_of_ne {t : Nat → Option β} {a : α} (h : key a ≠ some k) :
    writeKeys key val t a k = t k := by
  unfold writeKeys
  cases hj : key a with
  | none => rfl
  | some j =>
    have hne : k ≠ j := fun he => h (he ▸ hj)
    exact update_of_ne hne _ _

theorem foldl_writeKeys_last (key : α → Option Nat) (val : α → β) (l : List α) (t : Nat → Option β)
    (k : Nat) :
    (∀ a ∈ l, key a ≠ some k) ∧ l.foldl (writeKeys key val) t k = t k ∨
      ∃ before a after, l = before ++ a :: after ∧ key a = some k ∧
        (∀ b ∈ after, key b ≠ some k) ∧ l.foldl (writeKeys key val) t k = some (val a) := by
  induction l using reverseRecOn with
  | nil => exact .inl ⟨nofun, rfl⟩
  | append_singleton l a ih =>
    rw [foldl_concat]
    by_cases ha : key a = some k
    · refine .inr ⟨l, a, [], rfl, ha, nofun, ?_⟩
      simp only [writeKeys, ha, update_self]
    rw [writeKeys_of_ne ha]
    have hrest : ∀ {l : List α}, (∀ b ∈ l, key b ≠ some k) → ∀ b ∈ l ++ [a], key b ≠ some k := by
      intro l hl b hb
      rcases mem_append.mp hb with hb | hb
      · exact hl b hb
      · exact mem_singleton.mp hb ▸ ha
    rcases ih with ⟨hnone, hkept⟩ | ⟨before, b, after, rfl, hb, hafter, hwritten⟩
    · exact .inl ⟨hrest hnone, hkept⟩
    · exact .inr ⟨before, b, after ++ [a], by simp, hb, hrest hafter, hwritten⟩

end Fill

/-- A table cut into buckets, and the place in each where the next item goes. -/
structure Buckets (β : Type) where
  cursor : Nat → Nat
  table : Nat → β

namespace Buckets

variable {α β : Type} (key : α → Nat) (val : α → β)

def put (b : Buckets β) (a : α) : Buckets β where
  cursor := update b.cursor (key a) (b.cursor (key a) + 1)
  table := update b.table (b.cursor (key a)) (val a)

/-- The bucket of a key begins at `start` and has room for the items of the key. -/
def HasRoom (start : Nat → Nat) (n : Nat) (l : List α) : Prop :=
  ∀ k < n, start k + l.countP (key · = k) ≤ start (k + 1)

variable {key val} {start : Nat → Nat} {n : Nat} {l : List α} {table : Nat → β}

theorem HasRoom.of_concat {a : α} (h : HasRoom key start n (l ++ [a])) : HasRoom key start n l := by
  intro k hk
  have hk := h k hk
  rw [countP_append] at hk
  omega

theorem HasRoom.mono (h : HasRoom key start n l) {j k : Nat} (hjk : j ≤ k) (hk : k ≤ n) :
    start j ≤ start k := by
  induction hjk with
  | refl => exact Nat.le_refl _
  | step _ ih =>
    have hprev := ih (Nat.le_of_succ_le hk)
    exact Nat.le_trans hprev (Nat.le_of_add_right_le (h _ hk))

theorem cursor_foldl_put (l : List α) (k : Nat) :
    (l.foldl (put key val) ⟨start, table⟩).cursor k = start k + l.countP (key · = k) := by
  induction l using reverseRecOn with
  | nil => rfl
  | append_singleton l a ih =>
    rw [foldl_concat, countP_append, countP_singleton]
    rcases eq_or_ne k (key a) with rfl | hne
    · simp only [put, update_self, ih, decide_true, if_true]
      omega
    · simp only [put, update_of_ne hne, ih, decide_eq_true_eq, if_neg hne.symm]
      rfl

theorem HasRoom.place_notMem {a : α} (h : HasRoom key start n (l ++ [a])) (ha : key a < n) {k : Nat}
    (hk : k < n) :
    start (key a) + l.countP (key · = key a) ∉ range' (start k) (l.countP (key · = k)) := by
  intro hmem
  rw [mem_range'_1] at hmem
  have hroom := h _ ha
  have hroom' := h k hk
  rw [countP_append, countP_singleton] at hroom hroom'
  rw [if_pos (by simp)] at hroom
  rcases Nat.lt_trichotomy k (key a) with hlt | rfl | hlt
  · have hle : start (k + 1) ≤ start (key a) := h.mono hlt (by omega)
    omega
  · omega
  · have hle : start (key a + 1) ≤ start k := h.mono hlt (by omega)
    omega

/-- In the end each bucket holds the values of the items of its key, in their order. -/
theorem map_table_foldl_put (hroom : HasRoom key start n l) (hkeys : ∀ a ∈ l, key a < n) {k : Nat}
    (hk : k < n) :
    (range' (start k) (l.countP (key · = k))).map
        (l.foldl (put key val) ⟨start, table⟩).table =
      (l.filter (key · = k)).map val := by
  induction l using reverseRecOn with
  | nil => rfl
  | append_singleton l a ih =>
    have ha : key a < n := hkeys a (by simp)
    have hput : (((l ++ [a]).foldl (put key val) ⟨start, table⟩).table) =
        update (l.foldl (put key val) ⟨start, table⟩).table
          (start (key a) + l.countP (key · = key a)) (val a) := by
      rw [foldl_concat, put, cursor_foldl_put]
    have hold := ih hroom.of_concat fun b hb => hkeys b (by simp [hb])
    have hkeep : (range' (start k) (l.countP (key · = k))).map
          (update (l.foldl (put key val) ⟨start, table⟩).table
            (start (key a) + l.countP (key · = key a)) (val a)) =
        (range' (start k) (l.countP (key · = k))).map
          (l.foldl (put key val) ⟨start, table⟩).table :=
      map_congr_left fun i hi => by
        have hne : i ≠ start (key a) + l.countP (key · = key a) := by
          rintro rfl
          exact hroom.place_notMem ha hk hi
        exact update_of_ne hne _ _
    rw [hput, countP_append, countP_singleton, filter_append, map_append]
    rcases eq_or_ne (key a) k with rfl | hne
    · rw [if_pos (by simp), range'_concat, map_append, hkeep, hold]
      simp
    · rw [if_neg (by simpa using hne), Nat.add_zero, hkeep, hold]
      simp [hne]

end Buckets

end VeloxMatch
