import VeloxMatch.Bytes
import Mathlib.Data.BitVec

namespace VeloxMatch

/-! Reflected 32-bit cyclic redundancy checks, byte by byte through a table. -/

section Crc

variable (p : BitVec 32)

variable (c : BitVec 32)

def crcShift : BitVec 32 := (c >>> 1) ^^^ (if c.getLsbD 0 then p else 0#32)

def crcShifts : Nat → BitVec 32 → BitVec 32
  | 0, c => c
  | n + 1, c => crcShifts n (crcShift p c)

def crcTable (i : Nat) : BitVec 32 := crcShifts p 8 (BitVec.ofNat 32 i)

def byteWord (b : UInt8) : BitVec 32 := b.toBitVec.setWidth 32

def crcStep (b : UInt8) : BitVec 32 :=
  crcTable p ((c ^^^ byteWord b) &&& 0xFF#32).toNat ^^^ (c >>> 8)

def crcFold (bytes : List UInt8) : BitVec 32 := bytes.foldl (crcStep p) c

def bytesWord : List UInt8 → BitVec 32
  | [] => 0#32
  | b :: bs => byteWord b ^^^ (bytesWord bs <<< 8)

variable {p}

theorem crcShift_xor (a b : BitVec 32) : crcShift p (a ^^^ b) = crcShift p a ^^^ crcShift p b := by
  unfold crcShift
  rw [BitVec.ushiftRight_xor_distrib, BitVec.getLsbD_xor]
  have hpp : p ^^^ p = 0#32 := BitVec.xor_self
  cases a.getLsbD 0 <;> cases b.getLsbD 0
  · simp
  · simp [BitVec.xor_assoc]
  · simp only [Bool.xor_false, if_true, Bool.false_eq_true, if_false, BitVec.xor_zero]
    ac_rfl
  · simp only [Bool.xor_self, Bool.false_eq_true, if_false, if_true]
    rw [← hpp]
    ac_rfl

theorem crcShifts_xor (n : Nat) (a b : BitVec 32) :
    crcShifts p n (a ^^^ b) = crcShifts p n a ^^^ crcShifts p n b := by
  induction n generalizing a b with
  | zero => rfl
  | succ n ih => rw [crcShifts, crcShift_xor, ih, crcShifts, crcShifts]

theorem crcShifts_add (m n : Nat) (c : BitVec 32) :
    crcShifts p (m + n) c = crcShifts p n (crcShifts p m c) := by
  induction m generalizing c with
  | zero => rw [Nat.zero_add, crcShifts]
  | succ m ih => rw [Nat.succ_add, crcShifts, ih, crcShifts]

theorem eq_zero_of_crcShift (hp : p.getLsbD 31 = true) {c : BitVec 32}
    (h : crcShift p c = 0#32) : c = 0#32 := by
  have hlow : c.getLsbD 0 = false := by
    have htop := congrArg (·.getLsbD 31) h
    simp only [crcShift, BitVec.getLsbD_xor, BitVec.getLsbD_ushiftRight] at htop
    cases hc : c.getLsbD 0
    · rfl
    · rw [hc, if_pos rfl, hp] at htop
      simp at htop
  have hshift : c >>> 1 = 0#32 := by
    rwa [crcShift, hlow, if_neg Bool.false_ne_true, BitVec.xor_zero] at h
  refine BitVec.eq_of_getLsbD_eq fun i _ => ?_
  cases i with
  | zero => simpa using hlow
  | succ i =>
    have hbit := congrArg (·.getLsbD i) hshift
    simp only [BitVec.getLsbD_ushiftRight] at hbit
    rw [Nat.add_comm, hbit]
    simp

theorem eq_zero_of_crcShifts (hp : p.getLsbD 31 = true) {n : Nat} {c : BitVec 32}
    (h : crcShifts p n c = 0#32) : c = 0#32 := by
  induction n generalizing c with
  | zero => exact h
  | succ n ih => exact eq_zero_of_crcShift hp (ih h)

theorem crcShifts_injective (hp : p.getLsbD 31 = true) {n : Nat} {a b : BitVec 32}
    (h : crcShifts p n a = crcShifts p n b) : a = b := by
  have hzero : crcShifts p n (a ^^^ b) = 0#32 := by rw [crcShifts_xor, h, BitVec.xor_self]
  exact BitVec.xor_eq_zero_iff.mp (eq_zero_of_crcShifts hp hzero)

theorem crcShifts_of_low_clear {n : Nat} {c : BitVec 32} (h : ∀ i < n, c.getLsbD i = false) :
    crcShifts p n c = c >>> n := by
  induction n generalizing c with
  | zero => simp [crcShifts]
  | succ n ih =>
    have hshift : crcShift p c = c >>> 1 := by
      rw [crcShift, h 0 (Nat.succ_pos n), if_neg Bool.false_ne_true, BitVec.xor_zero]
    rw [crcShifts, hshift, ih, ← BitVec.shiftRight_add, Nat.add_comm]
    intro i hi
    rw [BitVec.getLsbD_ushiftRight, Nat.add_comm]
    exact h (i + 1) (Nat.succ_lt_succ hi)

theorem getLsbD_mask (i : Nat) : (0xFF#32).getLsbD i = decide (i < 8) := by
  have hmask : (0xFF#32).getLsbD i = (decide (i < 32) && Nat.testBit (2 ^ 8 - 1) i) := by
    rw [show (0xFF#32) = BitVec.ofNat 32 (2 ^ 8 - 1) from rfl, BitVec.getLsbD_ofNat]
  rw [hmask, Nat.testBit_two_pow_sub_one]
  by_cases h : i < 8
  · simp [h, show i < 32 by omega]
  · simp [h]

theorem crcStep_eq (b : UInt8) : crcStep p c b = crcShifts p 8 (c ^^^ byteWord b) := by
  have hsplit : c ^^^ byteWord b =
      ((c ^^^ byteWord b) &&& 0xFF#32) ^^^ (c &&& ~~~0xFF#32) := by
    refine BitVec.eq_of_getLsbD_eq fun i hi => ?_
    simp only [BitVec.getLsbD_xor, BitVec.getLsbD_and, BitVec.getLsbD_not, getLsbD_mask, byteWord,
      BitVec.getLsbD_setWidth, hi]
    by_cases h8 : i < 8
    · simp [h8]
    · simp [h8, BitVec.getLsbD_of_ge b.toBitVec i (by omega)]
  have hhigh : crcShifts p 8 (c &&& ~~~0xFF#32) = c >>> 8 := by
    rw [crcShifts_of_low_clear]
    · refine BitVec.eq_of_getLsbD_eq fun i _ => ?_
      simp only [BitVec.getLsbD_ushiftRight, BitVec.getLsbD_and, BitVec.getLsbD_not, getLsbD_mask]
      by_cases h : 8 + i < 32
      · simp [h]
      · simp [BitVec.getLsbD_of_ge c (8 + i) (by omega)]
    · intro i hi
      rw [BitVec.getLsbD_and, BitVec.getLsbD_not, getLsbD_mask]
      simp [hi]
  rw [hsplit, crcShifts_xor, hhigh, crcStep, crcTable, BitVec.ofNat_toNat, BitVec.setWidth_eq]

theorem crcFold_append (as bs : List UInt8) :
    crcFold p c (as ++ bs) = crcFold p (crcFold p c as) bs :=
  List.foldl_append

theorem crcFold_xor (c d : BitVec 32) (bytes : List UInt8) :
    crcFold p c bytes ^^^ crcFold p d bytes = crcShifts p (8 * bytes.length) (c ^^^ d) := by
  induction bytes generalizing c d with
  | nil => rfl
  | cons b bytes ih =>
    have hstep : crcStep p c b ^^^ crcStep p d b = crcShifts p 8 (c ^^^ d) := by
      rw [crcStep_eq, crcStep_eq, ← crcShifts_xor]
      congr 1
      rw [BitVec.xor_assoc, BitVec.xor_comm d, ← BitVec.xor_assoc (byteWord b), BitVec.xor_self,
        BitVec.zero_xor]
    rw [crcFold, List.foldl_cons, crcFold, List.foldl_cons]
    refine (ih _ _).trans ?_
    rw [hstep, ← crcShifts_add, List.length_cons, Nat.mul_succ, Nat.add_comm]

theorem bytesWord_eq (bytes : List UInt8) : bytesWord bytes = BitVec.ofNat 32 (leNat bytes) := by
  induction bytes with
  | nil => rfl
  | cons b bytes ih =>
    rw [bytesWord, ih, leNat]
    refine BitVec.eq_of_getLsbD_eq fun i hi => ?_
    have hbits := Nat.testBit_two_pow_mul_add (leNat bytes) b.toNat_lt i
    rw [Nat.add_comm b.toNat, BitVec.getLsbD_ofNat, show 256 = 2 ^ 8 from rfl, hbits]
    simp only [byteWord, BitVec.getLsbD_xor, BitVec.getLsbD_setWidth, BitVec.getLsbD_shiftLeft,
      BitVec.getLsbD_ofNat, hi]
    by_cases h8 : i < 8
    · simp [h8, BitVec.getLsbD]
    · simp [h8, BitVec.getLsbD_of_ge b.toBitVec i (by omega), show i - 8 < 32 by omega]

theorem crcFold_eq_bytesWord {bytes : List UInt8} (h : bytes.length ≤ 4) :
    crcFold p c bytes = crcShifts p (8 * bytes.length) (c ^^^ bytesWord bytes) := by
  induction bytes generalizing c with
  | nil => simp [crcFold, crcShifts, bytesWord]
  | cons b bytes ih =>
    have hlen : bytes.length ≤ 3 := Nat.le_of_succ_le_succ h
    have hlt : leNat bytes < 2 ^ 24 := by
      have hle : 256 ^ bytes.length ≤ 256 ^ 3 := Nat.pow_le_pow_right (by omega) hlen
      have hbound := leNat_lt bytes
      omega
    have hrest : crcShifts p 8 (bytesWord bytes <<< 8) = bytesWord bytes := by
      rw [crcShifts_of_low_clear]
      · rw [bytesWord_eq]
        refine BitVec.eq_of_getLsbD_eq fun i hi => ?_
        simp only [BitVec.getLsbD_ushiftRight, BitVec.getLsbD_shiftLeft, BitVec.getLsbD_ofNat]
        by_cases h24 : 8 + i < 32
        · simp [h24, hi]
        · have hzero : (leNat bytes).testBit i = false :=
            Nat.testBit_lt_two_pow (Nat.lt_of_lt_of_le hlt (Nat.pow_le_pow_right (by omega) (by omega)))
          simp [h24, hzero]
      · intro i hi
        simp [hi]
    rw [crcFold, List.foldl_cons]
    refine (ih _ (Nat.le_succ_of_le hlen)).trans ?_
    rw [crcStep_eq, List.length_cons, Nat.mul_succ, Nat.add_comm (8 * bytes.length), crcShifts_add,
      bytesWord, ← BitVec.xor_assoc, crcShifts_xor 8 (c ^^^ byteWord b), hrest]

theorem bytesWord_injective {as bs : List UInt8} (hlen : as.length = bs.length) (h4 : as.length ≤ 4)
    (h : bytesWord as = bytesWord bs) : as = bs := by
  have hbound : ∀ xs : List UInt8, xs.length ≤ 4 → leNat xs < 2 ^ 32 := fun xs hxs => by
    have hle : 256 ^ xs.length ≤ 256 ^ 4 := Nat.pow_le_pow_right (by omega) hxs
    have hlt := leNat_lt xs
    omega
  rw [bytesWord_eq, bytesWord_eq] at h
  have hnat := congrArg BitVec.toNat h
  rw [BitVec.toNat_ofNat, BitVec.toNat_ofNat, Nat.mod_eq_of_lt (hbound as h4),
    Nat.mod_eq_of_lt (hbound bs (hlen ▸ h4))] at hnat
  rw [← leBytes_leNat as, ← leBytes_leNat bs, hnat, hlen]

/-- Bytes that differ within four places leave different registers. -/
theorem eq_of_crcFold_eq (hp : p.getLsbD 31 = true) {c : BitVec 32} {as ws ws' bs : List UInt8}
    (hlen : ws.length = ws'.length) (h4 : ws.length ≤ 4)
    (h : crcFold p c (as ++ ws ++ bs) = crcFold p c (as ++ ws' ++ bs)) : ws = ws' := by
  rw [crcFold_append, crcFold_append, crcFold_append, crcFold_append] at h
  generalize crcFold p c as = d at h
  have hdiff := crcFold_xor (p := p) (crcFold p d ws) (crcFold p d ws') bs
  rw [h, BitVec.xor_self] at hdiff
  have heq := BitVec.xor_eq_zero_iff.mp (eq_zero_of_crcShifts hp hdiff.symm)
  rw [crcFold_eq_bytesWord d h4, crcFold_eq_bytesWord d (hlen ▸ h4), ← hlen] at heq
  have hword := crcShifts_injective hp heq
  exact bytesWord_injective hlen h4 ((BitVec.xor_right_inj d).mp hword)

/-- A message that is followed by its check word always leaves the same register. -/
theorem crcFold_trailer (c x : BitVec 32) {data trailer : List UInt8} (hlen : trailer.length = 4)
    (h : bytesWord trailer = crcFold p c data ^^^ x) :
    crcFold p c (data ++ trailer) = crcShifts p 32 x := by
  rw [crcFold_append, crcFold_eq_bytesWord _ (Nat.le_of_eq hlen), h, hlen, ← BitVec.xor_assoc,
    BitVec.xor_self, BitVec.zero_xor]

end Crc

end VeloxMatch
