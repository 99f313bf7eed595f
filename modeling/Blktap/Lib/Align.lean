import Mathlib.Data.Nat.Basic

/-!
# Alignment

Places `x` such that what begins `lead` behind them begins on a multiple of `page`.
-/

namespace Blktap.Lib

/-- The first aligned place from `x` on -/
def alignTo (page lead x : Nat) : Nat :=
  if (x + lead) % page = 0 then x else x + (page - (x + lead) % page)

variable {page lead x y : Nat}

theorem le_alignTo : x ≤ alignTo page lead x := by
  unfold alignTo
  split
  · exact le_rfl
  · exact Nat.le_add_right _ _

theorem alignTo_aligned (positive : 0 < page) : (alignTo page lead x + lead) % page = 0 := by
  unfold alignTo
  split
  · assumption
  · have small : (x + lead) % page < page := Nat.mod_lt _ positive
    have split : page * ((x + lead) / page) + (x + lead) % page = x + lead := Nat.div_add_mod ..
    have whole : x + (page - (x + lead) % page) + lead = page * ((x + lead) / page + 1) := by
      rw [Nat.mul_add, Nat.mul_one]
      omega
    rw [whole, Nat.mul_mod_right]

theorem add_page_le (first : x % page = 0) (second : y % page = 0) (lt : x < y) : x + page ≤ y := by
  obtain ⟨i, rfl⟩ := Nat.dvd_of_mod_eq_zero first
  obtain ⟨j, rfl⟩ := Nat.dvd_of_mod_eq_zero second
  have lt : i < j := Nat.lt_of_mul_lt_mul_left lt
  calc page * i + page = page * (i + 1) := by rw [Nat.mul_add, Nat.mul_one]
    _ ≤ page * j := Nat.mul_le_mul_left page lt

theorem alignTo_lt (positive : 0 < page) : alignTo page lead x < x + page := by
  unfold alignTo
  split
  · exact Nat.lt_add_of_pos_right positive
  next other =>
    have some : 0 < (x + lead) % page := Nat.pos_of_ne_zero other
    have small : (x + lead) % page < page := Nat.mod_lt _ positive
    omega

theorem alignTo_le (positive : 0 < page) (le : x ≤ y) (aligned : (y + lead) % page = 0) : alignTo page lead x ≤ y := by
  by_contra later
  have apart : y + lead + page ≤ alignTo page lead x + lead :=
    add_page_le aligned (alignTo_aligned positive) (by omega)
  have near : alignTo page lead x < x + page := alignTo_lt positive
  omega

end Blktap.Lib
