import Mathlib.Data.Int.Basic
import Mathlib.Algebra.Ring.Int.Defs
import Mathlib.Algebra.Ring.Nat

/-! # Signed 64-bit arithmetic -/

namespace Blktap.Lib

/-- A value of a `long` or of a `long long`; `none` where the computation overflows. -/
def int64 (x : Int) : Option Int := if -2 ^ 63 ≤ x ∧ x < 2 ^ 63 then some x else none

/-- The value of a `long` with the bits of a number. -/
def long (bits : Nat) : Int := (BitVec.ofNat 64 bits).toInt

theorem int64_eq {x y : Int} : int64 x = some y ↔ (-2 ^ 63 ≤ x ∧ x < 2 ^ 63) ∧ y = x := by
  unfold int64
  split
  · rename_i fits
    exact ⟨fun same => ⟨fits, (Option.some.inj same).symm⟩, fun ⟨_, same⟩ => same ▸ rfl⟩
  · rename_i fits
    exact ⟨fun same => (nomatch same), fun ⟨inside, _⟩ => absurd inside fits⟩

theorem int64_some {x : Int} (low : -2 ^ 63 ≤ x) (high : x < 2 ^ 63) : int64 x = some x :=
  int64_eq.mpr ⟨⟨low, high⟩, rfl⟩

theorem long_emod (bits : Nat) : long bits % 2 ^ 64 = (bits : Int) % 2 ^ 64 := by
  unfold long
  rw [BitVec.toInt_eq_toNat_bmod, BitVec.toNat_ofNat]
  exact Int.bmod_emod.trans (by omega)

theorem long_of_lt {bits : Nat} (small : bits < 2 ^ 63) : long bits = bits := by
  unfold long
  rw [BitVec.toInt_eq_toNat_bmod, BitVec.toNat_ofNat, Nat.mod_eq_of_lt (by omega)]
  exact Int.bmod_eq_of_le (by omega) (by omega)

end Blktap.Lib
