import VeloxMatch.BookInsert
import Mathlib.Algebra.GroupWithZero.Nat
import Mathlib.Algebra.BigOperators.Group.List.Basic

namespace VeloxMatch

open List

def sumVolumes (ctx : OmOrderbookContext) : Nat → Option Nat → Nat → Option Nat
  | 0, _, _ => none
  | _ + 1, none, totalVolume => some totalVolume
  | fuel + 1, some orderIdx, totalVolume =>
    match omSlotFromIdx ctx.slab (some orderIdx) with
    | none => none
    | some order =>
      sumVolumes ctx fuel (ctx.slab.next .timeFifo order)
        ((totalVolume + (ctx.order order).volumeRemain) % 2 ^ 64)

def omOrderbookGetVolumeAtPrice (fuel : Nat) (ctx : OmOrderbookContext) (productId price : Nat)
    (isBid : Bool) : Option Nat :=
  match (findPriceLevelWithInsertionPoint ctx productId price isBid).1 with
  | none => some 0
  | some level => sumVolumes ctx fuel (some level) 0

/-- What the orders of a queue have left at a price. -/
def restingVolume (s : OmDualSlab) (slots : List Nat) (price : Nat) : Nat :=
  (slots.map fun i => if (s.order i).price = price then (s.order i).volumeRemain else 0).sum

section Queries

variable {ctx : OmOrderbookContext} {levels : List Level} {p price fuel : Nat} {b : Bool}

theorem sumVolumes_eq {before : Option Nat} {slots : List Nat} {total : Nat}
    (h : DSeg (ctx.slab.next .timeFifo) (ctx.slab.prev .timeFifo) before slots none)
    (hcap : ∀ i ∈ slots, i < ctx.slab.capacity) (hfuel : slots.length < fuel)
    (htotal : total < 2 ^ 64) :
    sumVolumes ctx fuel (front slots none) total =
      some ((total + (slots.map fun i => (ctx.order i).volumeRemain).sum) % 2 ^ 64) := by
  induction slots generalizing before total fuel with
  | nil =>
    obtain ⟨fuel, rfl⟩ := Nat.exists_eq_add_of_lt hfuel
    exact congrArg some (Nat.mod_eq_of_lt htotal).symm
  | cons i slots ih =>
    obtain ⟨fuel, rfl⟩ := Nat.exists_eq_add_of_lt hfuel
    have hi : omSlotFromIdx ctx.slab (some i) = some i := if_pos (hcap i (by simp))
    rw [front_cons, sumVolumes, hi]
    dsimp only
    rw [h.2.1, ih h.2.2 (fun j hj => hcap j (by simp [hj])) (by simp; omega)
      (Nat.mod_lt _ (by decide)), map_cons, sum_cons, Nat.mod_add_mod, Nat.add_assoc]

theorem restingVolume_append (s : OmDualSlab) (slots slots' : List Nat) :
    restingVolume s (slots ++ slots') price =
      restingVolume s slots price + restingVolume s slots' price := by
  rw [restingVolume, map_append, sum_append]
  rfl

theorem restingVolume_other {s : OmDualSlab} {slots : List Nat}
    (h : ∀ i ∈ slots, (s.order i).price ≠ price) : restingVolume s slots price = 0 := by
  refine sum_eq_zero fun v hv => ?_
  obtain ⟨i, hi, rfl⟩ := mem_map.mp hv
  exact if_neg (h i hi)

theorem getVolumeAtPrice_eq
    (h : ctx.Side p b levels)
    (hfuel : ctx.slab.capacity < fuel) :
    omOrderbookGetVolumeAtPrice fuel ctx p price b =
      some (restingVolume ctx.slab (queueOf levels) price % 2 ^ 64) := by
  have hother : ∀ ls ⊆ levels, (∀ l ∈ ls, (ctx.order l.head).price ≠ price) →
      restingVolume ctx.slab (queueOf ls) price = 0 := by
    refine fun ls hsub hne => restingVolume_other fun i hi => ?_
    obtain ⟨l, hl, hil⟩ := mem_queueOf.mp hi
    exact h.prices l (hsub hl) i hil ▸ hne l hl
  unfold omOrderbookGetVolumeAtPrice
  rcases findPriceLevel_cases h price with
    ⟨pre, l, post, rfl, rfl, hfind⟩ | ⟨pre, post, rfl, hpre, hpost, hfind⟩
  · obtain ⟨-, hpost, hpre⟩ := pairwise_append.mp h.sorted
    have hl : l ∈ pre ++ l :: post := by simp
    have hcap : ∀ i ∈ l.slots, i < ctx.slab.capacity := fun i hi =>
      h.lt_capacity i (mem_queueOf.mpr ⟨l, hl, hi⟩)
    have hlen : l.slots.length ≤ ctx.slab.capacity := by
      simpa using (subperm_of_subset (h.slots_nodup hl)
        fun i hi => mem_range.mpr (hcap i hi)).length_le
    have hsum : (l.slots.map fun i => (ctx.order i).volumeRemain).sum =
        restingVolume ctx.slab l.slots (ctx.order l.head).price :=
      congrArg sum (map_congr_left fun i hi => (if_pos (h.prices l hl i hi)).symm)
    have hfirst : restingVolume ctx.slab (queueOf pre) (ctx.order l.head).price = 0 :=
      hother pre (by simp) fun m hm he =>
        better_irrefl b _ (he ▸ hpre m hm l (by simp))
    have hlast : restingVolume ctx.slab (queueOf post) (ctx.order l.head).price = 0 :=
      hother post (by simp) fun m hm he =>
        better_irrefl b _ (he ▸ (pairwise_cons.mp hpost).1 m hm)
    rw [hfind, queueOf_append, queueOf_cons, restingVolume_append, restingVolume_append, hfirst,
      hlast, ← hsum]
    exact sumVolumes_eq (h.queues l hl) hcap (hlen.trans_lt hfuel) (by decide)
  · rw [hfind, hother _ (List.Subset.refl _) fun l hl he => ?_]
    · rfl
    · rcases mem_append.mp hl with hl | hl
      · exact better_irrefl b price (he ▸ hpre l hl)
      · exact better_irrefl b price (he ▸ hpost l hl)

end Queries

end VeloxMatch
