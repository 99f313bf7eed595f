import Mathlib.Data.UInt

/-!
# Fixed-width numbers in a byte sequence
-/

namespace Blktap.Lib

def be32 (byte : Nat → UInt8) (off : Nat) : Nat :=
  (byte off).toNat * 2 ^ 24 + (byte (off + 1)).toNat * 2 ^ 16 +
    (byte (off + 2)).toNat * 2 ^ 8 + (byte (off + 3)).toNat

def le32 (byte : Nat → UInt8) (off : Nat) : Nat :=
  (byte off).toNat + (byte (off + 1)).toNat * 2 ^ 8 +
    (byte (off + 2)).toNat * 2 ^ 16 + (byte (off + 3)).toNat * 2 ^ 24

theorem be32_congr {byte byte' : Nat → UInt8} {off off' : Nat}
    (same : ∀ i < 4, byte (off + i) = byte' (off' + i)) : be32 byte off = be32 byte' off' := by
  unfold be32
  have first := same 0 (by omega)
  have second := same 1 (by omega)
  have third := same 2 (by omega)
  have fourth := same 3 (by omega)
  simp only [Nat.add_zero] at first
  rw [first, second, third, fourth]

theorem le32_congr {byte byte' : Nat → UInt8} {off off' : Nat}
    (same : ∀ i < 4, byte (off + i) = byte' (off' + i)) : le32 byte off = le32 byte' off' := by
  unfold le32
  have first := same 0 (by omega)
  have second := same 1 (by omega)
  have third := same 2 (by omega)
  have fourth := same 3 (by omega)
  simp only [Nat.add_zero] at first
  rw [first, second, third, fourth]

theorem be32_ones_iff_le32 (byte : Nat → UInt8) (off : Nat) :
    be32 byte off = 2 ^ 32 - 1 ↔ le32 byte off = 2 ^ 32 - 1 := by
  unfold be32 le32
  have first := (byte off).toNat_lt
  have second := (byte (off + 1)).toNat_lt
  have third := (byte (off + 2)).toNat_lt
  have fourth := (byte (off + 3)).toNat_lt
  omega

/-- Byte `i` of a number of `size` bytes in network order. -/
def beByte (size value i : Nat) : UInt8 := UInt8.ofNat (value / 2 ^ (8 * (size - 1 - i)))

def leByte (value i : Nat) : UInt8 := UInt8.ofNat (value / 2 ^ (8 * i))

theorem uint8_ofNat_eq {value : Nat} {byte : UInt8} (same : value % 2 ^ 8 = byte.toNat) :
    UInt8.ofNat value = byte := by
  apply UInt8.toNat_inj.mp
  rw [UInt8.toNat_ofNat']
  exact same

theorem beByte_be32 (byte : Nat → UInt8) (off : Nat) {i : Nat} (small : i < 4) :
    beByte 4 (be32 byte off) i = byte (off + i) := by
  have first := (byte off).toNat_lt
  have second := (byte (off + 1)).toNat_lt
  have third := (byte (off + 2)).toNat_lt
  have fourth := (byte (off + 3)).toNat_lt
  unfold beByte be32
  apply uint8_ofNat_eq
  obtain rfl | rfl | rfl | rfl : i = 0 ∨ i = 1 ∨ i = 2 ∨ i = 3 := by omega
  all_goals
    simp only [Nat.reduceMul, Nat.reduceSub, Nat.reducePow, Nat.add_zero]
    omega

theorem leByte_le32 (byte : Nat → UInt8) (off : Nat) {i : Nat} (small : i < 4) :
    leByte (le32 byte off) i = byte (off + i) := by
  have first := (byte off).toNat_lt
  have second := (byte (off + 1)).toNat_lt
  have third := (byte (off + 2)).toNat_lt
  have fourth := (byte (off + 3)).toNat_lt
  unfold leByte le32
  apply uint8_ofNat_eq
  obtain rfl | rfl | rfl | rfl : i = 0 ∨ i = 1 ∨ i = 2 ∨ i = 3 := by omega
  all_goals
    simp only [Nat.reduceMul, Nat.reducePow, Nat.add_zero]
    omega

theorem le32_leByte {byte : Nat → UInt8} {off value : Nat} (small : value < 2 ^ 32) (same : ∀ i < 4, byte (off + i) = leByte value i) :
    le32 byte off = value := by
  have first := same 0 (by omega)
  have second := same 1 (by omega)
  have third := same 2 (by omega)
  have fourth := same 3 (by omega)
  unfold leByte at first second third fourth
  simp only [Nat.add_zero] at first
  unfold le32
  rw [first, second, third, fourth]
  simp only [UInt8.toNat_ofNat', Nat.reduceMul, Nat.reducePow]
  omega

theorem be32_lt (byte : Nat → UInt8) (off : Nat) : be32 byte off < 2 ^ 32 := by
  have first := (byte off).toNat_lt
  have second := (byte (off + 1)).toNat_lt
  have third := (byte (off + 2)).toNat_lt
  have fourth := (byte (off + 3)).toNat_lt
  unfold be32
  omega

theorem beByte_two (high low : Nat) {i : Nat} (bound : low < 2 ^ 32) (small : i < 8) :
    beByte 8 (high * 2 ^ 32 + low) i = if i < 4 then beByte 4 high i else beByte 4 low (i - 4) := by
  unfold beByte
  rw [← apply_ite UInt8.ofNat]
  apply uint8_ofNat_eq
  rw [UInt8.toNat_ofNat']
  obtain rfl | rfl | rfl | rfl | rfl | rfl | rfl | rfl :
      i = 0 ∨ i = 1 ∨ i = 2 ∨ i = 3 ∨ i = 4 ∨ i = 5 ∨ i = 6 ∨ i = 7 := by omega
  all_goals
    simp only [Nat.reduceMul, Nat.reduceSub, Nat.reducePow, Nat.reduceLT, if_true, if_false]
    omega

theorem be32_beByte {byte : Nat → UInt8} {off value : Nat} (bound : value < 2 ^ 32)
    (same : ∀ i < 4, byte (off + i) = beByte 4 value i) : be32 byte off = value := by
  have first := same 0 (by omega)
  have second := same 1 (by omega)
  have third := same 2 (by omega)
  have fourth := same 3 (by omega)
  unfold beByte at first second third fourth
  simp only [Nat.add_zero] at first
  unfold be32
  rw [first, second, third, fourth]
  simp only [UInt8.toNat_ofNat', Nat.reduceMul, Nat.reduceSub, Nat.reducePow]
  omega

end Blktap.Lib
