import Mathlib.Data.List.Basic
import Mathlib.Algebra.Order.Group.Nat

namespace VeloxMatch

open List

def int64Max : Nat := 2 ^ 63 - 1
def uint64Max : Nat := 2 ^ 64 - 1

def leBytes : Nat → Nat → List UInt8
  | 0, _ => []
  | w + 1, n => UInt8.ofNat n :: leBytes w (n / 256)

def leNat : List UInt8 → Nat
  | [] => 0
  | b :: bs => b.toNat + 256 * leNat bs

@[simp] theorem leBytes_length (w n : Nat) : (leBytes w n).length = w := by
  induction w generalizing n with
  | zero => rfl
  | succ w ih => simp [leBytes, ih]

theorem leNat_leBytes (w n : Nat) : leNat (leBytes w n) = n % 256 ^ w := by
  induction w generalizing n with
  | zero => simp [leBytes, leNat, Nat.mod_one]
  | succ w ih =>
    have hb : (UInt8.ofNat n).toNat = n % 256 := by simp
    rw [leBytes, leNat, ih, hb, pow_succ, Nat.mul_comm (256 ^ w) 256, Nat.mod_mul]

theorem leNat_leBytes_of_lt {w n : Nat} (h : n < 256 ^ w) : leNat (leBytes w n) = n := by
  rw [leNat_leBytes, Nat.mod_eq_of_lt h]

theorem leNat_lt (bs : List UInt8) : leNat bs < 256 ^ bs.length := by
  induction bs with
  | nil => simp [leNat]
  | cons b bs ih =>
    have hb := b.toNat_lt
    simp only [leNat, length_cons, pow_succ]
    omega

theorem leNat_append (as bs : List UInt8) :
    leNat (as ++ bs) = leNat as + 256 ^ as.length * leNat bs := by
  induction as with
  | nil => simp [leNat]
  | cons a as ih =>
    rw [cons_append, leNat, ih, leNat, length_cons, pow_succ, Nat.mul_add,
      Nat.mul_left_comm, Nat.mul_assoc, Nat.add_assoc]

theorem leBytes_leNat (bs : List UInt8) : leBytes bs.length (leNat bs) = bs := by
  induction bs with
  | nil => rfl
  | cons b bs ih =>
    have hb := b.toNat_lt
    have hq : (b.toNat + 256 * leNat bs) / 256 = leNat bs := by omega
    have hr : UInt8.ofNat (b.toNat + 256 * leNat bs) = b := by
      apply UInt8.toNat_inj.mp
      simp only [UInt8.toNat_ofNat']
      omega
    simp only [length_cons, leNat, leBytes, hq, hr, ih]

def overwrite (old new : List UInt8) : List UInt8 :=
  new.take old.length ++ old.drop new.length

@[simp] theorem overwrite_length (old new : List UInt8) :
    (overwrite old new).length = old.length := by
  simp only [overwrite, length_append, length_take, length_drop]
  omega

theorem take_overwrite {old new : List UInt8} (h : new.length ≤ old.length) :
    (overwrite old new).take new.length = new := by
  simp [overwrite, take_of_length_le h]

def writeAt (buffer : List UInt8) (offset : Nat) (bytes : List UInt8) : List UInt8 :=
  buffer.take offset ++ overwrite (buffer.drop offset) bytes

@[simp] theorem writeAt_length (buffer : List UInt8) (offset : Nat) (bytes : List UInt8) :
    (writeAt buffer offset bytes).length = buffer.length := by
  simp only [writeAt, length_append, length_take, overwrite_length, length_drop]
  omega

theorem take_writeAt {buffer bytes : List UInt8} {offset : Nat}
    (h : offset + bytes.length ≤ buffer.length) :
    (writeAt buffer offset bytes).take (offset + bytes.length) = buffer.take offset ++ bytes := by
  have hfits : bytes.length ≤ (buffer.drop offset).length := by
    rw [length_drop]
    omega
  have hlen : (buffer.take offset).length = offset := by
    rw [length_take]
    omega
  rw [writeAt, take_append, take_of_length_le (by omega), hlen, Nat.add_sub_cancel_left,
    take_overwrite hfits]

/-- A buffer into which bytes are written at `used` and from which they are taken at `offset`. -/
structure ByteWindow where
  bytes : List UInt8
  used : Nat
  offset : Nat
  deriving DecidableEq, Repr

namespace ByteWindow

variable (w : ByteWindow)

def content : List UInt8 := (w.bytes.take w.used).drop w.offset

structure Valid (w : ByteWindow) : Prop where
  offset_le : w.offset ≤ w.used
  used_le : w.used ≤ w.bytes.length

def append (data : List UInt8) : ByteWindow :=
  { w with bytes := writeAt w.bytes w.used data, used := w.used + data.length }

def take (n : Nat) : ByteWindow := { w with offset := w.offset + n }

def compact : ByteWindow :=
  { bytes :=
      if 0 < w.offset ∧ 0 < w.used - w.offset then overwrite w.bytes w.content else w.bytes
    used := w.used - w.offset
    offset := 0 }

variable {w : ByteWindow} {data : List UInt8} {n : Nat}

theorem Valid.content_length (h : w.Valid) : w.content.length = w.used - w.offset := by
  have := h.used_le
  rw [content, length_drop, length_take]
  omega

theorem content_of_offset_eq_used (h : w.offset = w.used) : w.content = [] := by
  rw [content, h]
  exact drop_eq_nil_of_le (by rw [length_take]; omega)

theorem empty_content (bytes : List UInt8) : (ByteWindow.mk bytes 0 0).content = [] :=
  content_of_offset_eq_used rfl

theorem content_append (h : w.Valid) (hfits : w.used + data.length ≤ w.bytes.length) :
    (w.append data).content = w.content ++ data := by
  have hoff := h.offset_le
  have hused := h.used_le
  simp only [content, append, take_writeAt hfits]
  rw [drop_append_of_le_length]
  rw [length_take]
  omega

theorem Valid.append (h : w.Valid) (hfits : w.used + data.length ≤ w.bytes.length) :
    (w.append data).Valid where
  offset_le := Nat.le_add_right_of_le h.offset_le
  used_le := by simpa [ByteWindow.append] using hfits

theorem content_take : (w.take n).content = w.content.drop n := by
  rw [content, take, content, drop_drop]

theorem Valid.take (h : w.Valid) (hn : n ≤ w.content.length) : (w.take n).Valid where
  offset_le := by
    have hlen := h.content_length
    have hoff := h.offset_le
    simp only [ByteWindow.take]
    omega
  used_le := h.used_le

theorem content_compact (h : w.Valid) : w.compact.content = w.content := by
  have hoff := h.offset_le
  have hused := h.used_le
  have hlen := h.content_length
  simp only [compact, content, drop_zero]
  split
  · next hmove =>
    have hfits : w.content.length ≤ w.bytes.length := by omega
    rw [← hlen]
    exact take_overwrite hfits
  · next hmove =>
    rcases Nat.eq_zero_or_pos w.offset with h0 | h0
    · rw [h0, Nat.sub_zero, drop_zero]
    · have hempty : w.used - w.offset = 0 := by omega
      rw [hempty, take_zero, drop_eq_nil_of_le]
      rw [length_take]
      omega

@[simp] theorem compact_length : w.compact.bytes.length = w.bytes.length := by
  simp only [compact]
  split
  · exact overwrite_length _ _
  · rfl

theorem Valid.compact (h : w.Valid) : w.compact.Valid where
  offset_le := Nat.zero_le _
  used_le := by
    have := h.used_le
    rw [compact_length]
    simp only [ByteWindow.compact]
    omega

end ByteWindow

end VeloxMatch
