import VeloxMatch.OrgQueue
import VeloxMatch.Representation

namespace VeloxMatch

/-- A product and an organisation that a caller can name: below the limits of the book and, by
their types, on 16 bits. -/
structure InLimits (ctx : OmOrderbookContext) (productId orgId : Nat) : Prop where
  product : productId < ctx.maxProducts
  org : orgId < ctx.maxOrg
  productWidth : productId < 2 ^ 16
  orgWidth : orgId < 2 ^ 16

/-- Every organisation of every product has an empty queue with a head of its own in the array. -/
structure OrgHeadsApart (ctx : OmOrderbookContext) : Prop where
  empty : ∀ {p o}, InLimits ctx p o → ctx.orgHeads (orgIdx ctx p o) = none
  allocated : ∀ {p o}, InLimits ctx p o → orgIdx ctx p o < ctx.maxProducts * ctx.maxOrg
  injective : ∀ {p o p' o'}, InLimits ctx p o → InLimits ctx p' o' →
    orgIdx ctx p o = orgIdx ctx p' o' → p = p' ∧ o = o'

/-- The block of heads of each product, where the 32-bit index places it, lies below the 32-bit
bound of the loop that clears the array and behind the block of the first product. -/
def BlocksFit (maxProducts maxOrg : Nat) : Prop :=
  ∀ p < min maxProducts (2 ^ 16),
    p * maxOrg % 2 ^ 32 + min maxOrg (2 ^ 16) ≤ maxProducts * maxOrg % 2 ^ 32 ∧
      (0 < p → min maxOrg (2 ^ 16) ≤ p * maxOrg % 2 ^ 32)

theorem blocksFit_of_lt {maxProducts maxOrg : Nat} (h : maxProducts * maxOrg < 2 ^ 32) :
    BlocksFit maxProducts maxOrg := by
  intro p hp
  have hend : p * maxOrg + maxOrg ≤ maxProducts * maxOrg := by
    rw [← Nat.succ_mul]
    exact Nat.mul_le_mul_right _ (by omega)
  have hle : min maxOrg (2 ^ 16) ≤ maxOrg := Nat.min_le_left ..
  rw [Nat.mod_eq_of_lt h, Nat.mod_eq_of_lt (by omega : p * maxOrg < 2 ^ 32)]
  refine ⟨by omega, fun hpos => hle.trans ?_⟩
  exact Nat.le_mul_of_pos_left _ hpos

section Blocks

variable {slab : OmDualSlab} {wal : Option OmWalHandle} {maxProducts maxOrg p p' o o' : Nat}

theorem inLimits_freshBook :
    InLimits (freshBook slab wal maxProducts maxOrg) p o ↔
      p < min maxProducts (2 ^ 16) ∧ o < min maxOrg (2 ^ 16) := by
  rw [Nat.lt_min, Nat.lt_min]
  exact ⟨fun h => ⟨⟨h.product, h.productWidth⟩, h.org, h.orgWidth⟩,
    fun h => ⟨h.1.1, h.2.1, h.1.2, h.2.2⟩⟩

theorem orgIdx_freshBook :
    orgIdx (freshBook slab wal maxProducts maxOrg) p o = (p * maxOrg + o) % 2 ^ 32 := rfl

theorem orgHeads_freshBook_eq_none {i : Nat} :
    (freshBook slab wal maxProducts maxOrg).orgHeads i = none ↔
      i < maxProducts * maxOrg % 2 ^ 32 := by
  simp [freshBook]

theorem BlocksFit.index_eq (h : BlocksFit maxProducts maxOrg) (hp : p < min maxProducts (2 ^ 16))
    (ho : o < min maxOrg (2 ^ 16)) : (p * maxOrg + o) % 2 ^ 32 = p * maxOrg % 2 ^ 32 + o := by
  have hblock := (h p hp).1
  have hbound : maxProducts * maxOrg % 2 ^ 32 < 2 ^ 32 := Nat.mod_lt _ (by decide)
  rw [← Nat.mod_add_mod, Nat.mod_eq_of_lt (by omega)]

/-- The blocks of two products are apart: their distance is the place of a block. -/
theorem BlocksFit.index_ne (h : BlocksFit maxProducts maxOrg) (hlt : p < p')
    (hp' : p' < min maxProducts (2 ^ 16)) (ho : o < min maxOrg (2 ^ 16))
    (ho' : o' < min maxOrg (2 ^ 16)) : (p * maxOrg + o) % 2 ^ 32 ≠ (p' * maxOrg + o') % 2 ^ 32 := by
  obtain ⟨hend, hstart⟩ := h (p' - p) (by omega)
  have hstart := hstart (by omega)
  have hbound : maxProducts * maxOrg % 2 ^ 32 < 2 ^ 32 := Nat.mod_lt _ (by decide)
  have hsplit : p' * maxOrg = p * maxOrg + (p' - p) * maxOrg := by
    rw [← Nat.add_mul]
    congr 1
    omega
  generalize (p' - p) * maxOrg = distance at hend hstart hsplit
  rw [hsplit]
  omega

theorem BlocksFit.apart (h : BlocksFit maxProducts maxOrg) :
    OrgHeadsApart (freshBook slab wal maxProducts maxOrg) := by
  have hcleared : ∀ {p o}, InLimits (freshBook slab wal maxProducts maxOrg) p o →
      (p * maxOrg + o) % 2 ^ 32 < maxProducts * maxOrg % 2 ^ 32 := by
    intro p o hin
    obtain ⟨hp, ho⟩ := inLimits_freshBook.mp hin
    have hblock := (h p hp).1
    rw [h.index_eq hp ho]
    omega
  refine ⟨fun hin => ?_, fun hin => ?_, fun {p o p' o'} hin hin' heq => ?_⟩
  · exact orgHeads_freshBook_eq_none.mpr (hcleared hin)
  · exact (hcleared hin).trans_le (Nat.mod_le ..)
  · obtain ⟨hp, ho⟩ := inLimits_freshBook.mp hin
    obtain ⟨hp', ho'⟩ := inLimits_freshBook.mp hin'
    rcases Nat.lt_trichotomy p p' with hlt | rfl | hlt
    · exact absurd heq (h.index_ne hlt hp' ho ho')
    · rw [orgIdx_freshBook, orgIdx_freshBook, h.index_eq hp ho, h.index_eq hp ho'] at heq
      exact ⟨rfl, Nat.add_left_cancel heq⟩
    · exact absurd heq.symm (h.index_ne hlt hp ho' ho)

theorem OrgHeadsApart.blocksFit (h : OrgHeadsApart (freshBook slab wal maxProducts maxOrg)) :
    BlocksFit maxProducts maxOrg := by
  intro p hp
  have hcleared : ∀ o, o < min maxOrg (2 ^ 16) →
      (p * maxOrg + o) % 2 ^ 32 < maxProducts * maxOrg % 2 ^ 32 := fun o ho =>
    orgHeads_freshBook_eq_none.mp (h.empty (inLimits_freshBook.mpr ⟨hp, ho⟩))
  have hbound : maxProducts * maxOrg % 2 ^ 32 < 2 ^ 32 := Nat.mod_lt _ (by decide)
  have hplace : p * maxOrg % 2 ^ 32 < 2 ^ 32 := Nat.mod_lt _ (by decide)
  constructor
  · -- A block that crosses the end of the 32 bits has the last index of all.
    by_contra hover
    have hlast : min (min maxOrg (2 ^ 16)) (2 ^ 32 - p * maxOrg % 2 ^ 32) - 1 <
        min maxOrg (2 ^ 16) ∨ min maxOrg (2 ^ 16) = 0 := by omega
    rcases hlast with hlast | hnone
    · have hidx := hcleared _ hlast
      rw [← Nat.mod_add_mod, Nat.mod_eq_of_lt (by omega)] at hidx
      omega
    · have hzero : maxOrg = 0 := by omega
      simp [hzero] at hover
  · intro hpos
    by_contra hshort
    -- The first head of the block is one of the heads of the first product.
    have hsame : orgIdx (freshBook slab wal maxProducts maxOrg) p 0 =
        orgIdx (freshBook slab wal maxProducts maxOrg) 0 (p * maxOrg % 2 ^ 32) := by
      rw [orgIdx_freshBook, orgIdx_freshBook, Nat.add_zero, Nat.zero_mul, Nat.zero_add,
        Nat.mod_mod]
    have hzero := (h.injective (inLimits_freshBook.mpr ⟨hp, by omega⟩)
      (inLimits_freshBook.mpr ⟨by omega, Nat.not_le.mp hshort⟩) hsame).1
    omega

end Blocks

/-- A fresh book has a head of its own for every organisation of every product exactly when the
blocks of heads fit. -/
theorem org_heads_apart_iff {config : OmSlabConfig} {wal : Option OmWalHandle}
    {maxProducts maxOrg : UInt32} {ctx : OmOrderbookContext}
    (hinit : omOrderbookInit config wal maxProducts.toNat maxOrg.toNat = (.ok, some ctx)) :
    OrgHeadsApart ctx ↔ BlocksFit maxProducts.toNat maxOrg.toNat := by
  obtain ⟨-, rfl⟩ := omOrderbookInit_ok hinit
  exact ⟨OrgHeadsApart.blocksFit, BlocksFit.apart⟩

theorem org_heads_apart_iff_small :
    omOrderbookInit smallConfig none 3 5 =
        (.ok, some (freshBook (freshSlab smallConfig) none 3 5)) ∧
      OrgHeadsApart (freshBook (freshSlab smallConfig) none 3 5) := by
  have hinit : omOrderbookInit smallConfig none (3 : UInt32).toNat (5 : UInt32).toNat =
      (.ok, some (freshBook (freshSlab smallConfig) none 3 5)) := rfl
  exact ⟨hinit, (org_heads_apart_iff hinit).mpr (blocksFit_of_lt (by decide))⟩

/-- With all 16-bit products and organisations no head is cleared. -/
theorem org_heads_not_cleared :
    omOrderbookInit smallConfig none (65536 : UInt32).toNat (65536 : UInt32).toNat =
        (.ok, some (freshBook (freshSlab smallConfig) none 65536 65536)) ∧
      ¬ OrgHeadsApart (freshBook (freshSlab smallConfig) none 65536 65536) := by
  refine ⟨rfl, fun h => ?_⟩
  have hempty : (freshBook (freshSlab smallConfig) none 65536 65536).orgHeads 0 = none :=
    @OrgHeadsApart.empty _ h 0 0 ⟨by decide, by decide, by decide, by decide⟩
  exact absurd (orgHeads_freshBook_eq_none.mp hempty) (by decide)

end VeloxMatch
