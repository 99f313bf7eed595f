import Mathlib.Data.Nat.Count
import Mathlib.Logic.Function.Basic

/-!
# How many entries of a table hold a value

`holders table n b` counts the first `n` entries that are `some b`. It is the number that a reference
counter of `b` has to have.
-/

namespace Blktap.Lib
variable {β : Type} [DecidableEq β] {table table' : Nat → Option β} {n i : Nat} {b c : β} {v : Option β}

def holders (table : Nat → Option β) (n : Nat) (b : β) : Nat := Nat.count (fun i => table i = some b) n

def one (v : Option β) (b : β) : Nat := if v = some b then 1 else 0

@[simp] theorem one_none : one none b = 0 := rfl

@[simp] theorem one_self : one (some b) b = 1 := if_pos rfl

theorem one_other (other : c ≠ b) : one (some c) b = 0 := if_neg fun same => other (Option.some.inj same)

theorem holders_succ : holders table (n + 1) b = holders table n b + one (table n) b := Nat.count_succ ..

theorem holders_congr (same : ∀ i < n, table i = table' i) : holders table n b = holders table' n b := by
  induction n with
  | zero => rfl
  | succ n ih =>
      rw [holders_succ, holders_succ, ih fun i small => same i (Nat.lt_succ_of_lt small),
        same n (Nat.lt_succ_self n)]

theorem holders_update (table : Nat → Option β) (v : Option β) (b : β) (inside : i < n) :
    holders (Function.update table i v) n b + one (table i) b = holders table n b + one v b := by
  induction n with
  | zero => exact absurd inside (Nat.not_lt_zero i)
  | succ n ih =>
      rw [holders_succ, holders_succ]
      by_cases last : i = n
      · subst last
        have before : holders (Function.update table i v) i b = holders table i b :=
          holders_congr fun j small => Function.update_of_ne (Nat.ne_of_lt small) _ _
        rw [before, Function.update_self]
        omega
      · have earlier := ih (Nat.lt_of_le_of_ne (Nat.le_of_lt_succ inside) last)
        rw [Function.update_of_ne (Ne.symm last)]
        omega

theorem holders_pos : 0 < holders table n b ↔ ∃ i < n, table i = some b := by
  rw [Nat.pos_iff_ne_zero]
  exact Nat.count_ne_iff_exists

theorem holders_zero : holders table n b = 0 ↔ ∀ i < n, table i ≠ some b := by
  rw [← not_iff_not, ← ne_eq, ← Nat.pos_iff_ne_zero, holders_pos]
  simp

end Blktap.Lib
