import Mathlib.Data.List.Basic
import Mathlib.Data.Nat.Bitwise
import Mathlib.Logic.Function.Basic

namespace VeloxMatch

open Function List

variable {capacity n t : Nat}

def isPowerOfTwo (v : Nat) : Bool := v != 0 && v &&& (v - 1) == 0

theorem exists_pow_of_land_pred (h0 : n ≠ 0) (h : n &&& (n - 1) = 0) : ∃ k, n = 2 ^ k := by
  induction n using Nat.strongRecOn with
  | ind n ih =>
    have hhalf : n / 2 &&& (n - 1) / 2 = 0 := by rw [← Nat.and_div_two, h]
    rcases Nat.mod_two_eq_zero_or_one n with heven | hodd
    · have hpred : (n - 1) / 2 = n / 2 - 1 := by omega
      rw [hpred] at hhalf
      obtain ⟨k, hk⟩ := ih (n / 2) (by omega) (by omega) hhalf
      exact ⟨k + 1, by rw [pow_succ, ← hk]; omega⟩
    · have hpred : (n - 1) / 2 = n / 2 := by omega
      rw [hpred, Nat.and_self] at hhalf
      exact ⟨0, by simp only [pow_zero]; omega⟩

theorem land_mask (h : isPowerOfTwo capacity = true) (n : Nat) :
    n &&& (capacity - 1) = n % capacity := by
  simp only [isPowerOfTwo, bne_iff_ne, ne_eq, Bool.and_eq_true, beq_iff_eq] at h
  obtain ⟨k, rfl⟩ := exists_pow_of_land_pred h.1 h.2
  exact Nat.and_two_pow_sub_one_eq_mod n k

theorem isPowerOfTwo_pos (h : isPowerOfTwo capacity = true) : 0 < capacity := by
  simp only [isPowerOfTwo, bne_iff_ne, ne_eq, Bool.and_eq_true] at h
  omega

theorem eq_of_mod_eq {p q : Nat} (h : p % capacity = q % capacity) (hp : p < q + capacity)
    (hq : q < p + capacity) : p = q := by
  have hpq : p - q = 0 := by
    rw [← Nat.mod_eq_of_lt (show p - q < capacity by omega), Nat.sub_mod_eq_zero_of_mod_eq h]
  have hqp : q - p = 0 := by
    rw [← Nat.mod_eq_of_lt (show q - p < capacity by omega), Nat.sub_mod_eq_zero_of_mod_eq h.symm]
  omega

theorem exists_last_position {r : Nat} (hr : r < capacity) (hn : r < n) :
    ∃ p, p < n ∧ n ≤ p + capacity ∧ p % capacity = r := by
  have hdiv := Nat.div_add_mod (n - 1 - r) capacity
  have hlt := Nat.mod_lt (n - 1 - r) (Nat.zero_lt_of_lt hr)
  refine ⟨r + capacity * ((n - 1 - r) / capacity), by omega, by omega, ?_⟩
  rw [Nat.add_mul_mod_self_left, Nat.mod_eq_of_lt hr]

/-- A cell of a ring: a stamp and what was written under it. -/
structure Cell (α : Type) where
  seq : Nat
  value : α
  deriving DecidableEq, Repr

/-- The cells of a ring into which the entries of `log` were written one after the other.
The write for position `p` leaves the stamp `p + 1`; a cell not yet written has its index. -/
structure Stamped {α : Type} (capacity : Nat) (log : List α) (cells : Nat → Cell α) : Prop where
  retained : ∀ p v, log[p]? = some v → log.length ≤ p + capacity →
    cells (p % capacity) = ⟨p + 1, v⟩
  untouched : ∀ i, i < capacity → log.length ≤ i → (cells i).seq = i

section Stamped

variable {α : Type} {capacity t : Nat} {log : List α} {cells : Nat → Cell α}

theorem Stamped.nil (h : ∀ i, i < capacity → (cells i).seq = i) : Stamped capacity [] cells :=
  ⟨fun _ _ hp => by simp at hp, fun i hi _ => h i hi⟩

variable (h : Stamped capacity log cells)
include h

theorem Stamped.push (v : α) :
    Stamped capacity (log ++ [v])
      (update cells (log.length % capacity) ⟨log.length + 1, v⟩) where
  retained := fun p u hp hle => by
    rw [length_append, length_singleton] at hle
    by_cases hlast : p = log.length
    · subst hlast
      rw [getElem?_concat_length] at hp
      cases hp
      rw [update_self]
    · have hlt : p < log.length := by
        obtain ⟨hlt, -⟩ := List.getElem?_eq_some_iff.mp hp
        rw [length_append, length_singleton] at hlt
        omega
      rw [getElem?_append_left hlt] at hp
      have hne : p % capacity ≠ log.length % capacity :=
        fun he => hlast (eq_of_mod_eq he (by omega) (by omega))
      rw [update_of_ne hne]
      exact h.retained p u hp (by omega)
  untouched := fun i hi hle => by
    rw [length_append, length_singleton] at hle
    have hne : i ≠ log.length % capacity := by
      have := Nat.mod_le log.length capacity
      omega
    rw [update_of_ne hne]
    exact h.untouched i hi (by omega)

/-- The stamp in the slot of position `t` tells whether `t` is still to come, is held, or was
written over. -/
theorem Stamped.seq_cases (hc : 0 < capacity) (t : Nat) :
    (log.length ≤ t ∧ (cells (t % capacity)).seq ≤ t) ∨
    (t < log.length ∧ log.length ≤ t + capacity ∧ (cells (t % capacity)).seq = t + 1) ∨
    (t + capacity < log.length ∧ t + 1 < (cells (t % capacity)).seq) := by
  have hr := Nat.mod_lt t hc
  have hle := Nat.mod_le t capacity
  by_cases hnew : log.length ≤ t % capacity
  · exact Or.inl ⟨by omega, by rw [h.untouched _ hr hnew]; exact hle⟩
  · obtain ⟨p, hp, hp', hpr⟩ := exists_last_position hr (Nat.lt_of_not_le hnew)
    have hcell := h.retained p log[p] (getElem?_eq_getElem hp) hp'
    rw [hpr] at hcell
    rw [hcell]
    by_cases ht : log.length ≤ t
    · exact Or.inl ⟨ht, by simp only; omega⟩
    · by_cases hheld : log.length ≤ t + capacity
      · have he : p = t := eq_of_mod_eq hpr (by omega) (by omega)
        exact Or.inr (Or.inl ⟨by omega, hheld, by simp only [he]⟩)
      · exact Or.inr (Or.inr ⟨by omega, by simp only; omega⟩)

theorem Stamped.seq_eq_iff (hc : 0 < capacity) :
    (cells (t % capacity)).seq = t + 1 ↔ t < log.length ∧ log.length ≤ t + capacity := by
  rcases h.seq_cases hc t with ⟨h1, h2⟩ | ⟨h1, h2, h3⟩ | ⟨h1, h2⟩ <;> omega

theorem Stamped.value_eq {v : α} (hv : log[t]? = some v) (hle : log.length ≤ t + capacity) :
    (cells (t % capacity)).value = v := by
  rw [h.retained t v hv hle]

end Stamped

end VeloxMatch
