import Mathlib.Logic.Function.Basic
import Mathlib.Data.Nat.ModEq
import Mathlib.Data.List.Basic

/-!
# A ring with free-running counters

Two counters that wrap at `word` run over a ring of `size` slots, and each of them is reduced to a slot when it is
used. The slots of a window are different when `size` divides `word`, or when the window does not reach `word`.
-/

namespace Blktap.Lib
variable {α : Type} {word size cons i j n : Nat} {ring : Nat → α} {x : α} {xs ys : List α}

def slot (word size i : Nat) : Nat := i % word % size

def put (word size : Nat) (ring : Nat → α) (place : Nat) : List α → Nat → α
  | [] => ring
  | x :: xs => put word size (Function.update ring (slot word size place) x) (place + 1) xs

/-- The slots from `cons` on have the values of the list. -/
def Holds (word size : Nat) (ring : Nat → α) (cons : Nat) (xs : List α) : Prop :=
  ∀ i < xs.length, xs[i]? = some (ring (slot word size (cons + i)))

/-- A window of `n` places that keeps its slots apart, if it is no longer than the ring. -/
def Unbroken (word size cons n : Nat) : Prop := size ∣ word ∨ cons + n ≤ word

instance : Decidable (Unbroken word size cons n) := inferInstanceAs (Decidable (_ ∨ _))

@[simp] theorem slot_mod : slot word size (cons % word + i) = slot word size (cons + i) := by
  simp [slot]

theorem put_congr {place place' : Nat} (same : place ≡ place' [MOD word]) :
    put word size ring place xs = put word size ring place' xs := by
  induction xs generalizing ring place place' with
  | nil => rfl
  | cons x xs ih =>
      have first : slot word size place = slot word size place' := congrArg (· % size) same
      rw [put, put, first]
      exact ih (same.add_right 1)

@[simp] theorem put_mod {place : Nat} : put word size ring (place % word) xs = put word size ring place xs :=
  put_congr (Nat.mod_modEq place word)

theorem Holds.nil : Holds word size ring cons [] := fun _ small => (Nat.not_lt_zero _ small).elim

theorem slot_ne (unbroken : Unbroken word size cons n) (lt : i < j) (small : j < n) (fits : n ≤ size) :
    slot word size (cons + i) ≠ slot word size (cons + j) := by
  have apart : ¬ cons + i ≡ cons + j [MOD size] := by
    intro same
    have divides : size ∣ cons + j - (cons + i) := (Nat.modEq_iff_dvd' (by omega)).mp same
    have le := Nat.le_of_dvd (by omega) divides
    omega
  rcases unbroken with divides | below
  · simpa only [slot, Nat.mod_mod_of_dvd _ divides, Nat.ModEq] using apart
  · simpa only [slot, Nat.mod_eq_of_lt (show cons + i < word by omega),
      Nat.mod_eq_of_lt (show cons + j < word by omega), Nat.ModEq] using apart

theorem Holds.snoc (holds : Holds word size ring cons xs) (unbroken : Unbroken word size cons n)
    (room : xs.length < n) (fits : n ≤ size) :
    Holds word size (Function.update ring (slot word size (cons + xs.length)) x) cons (xs ++ [x]) := by
  intro i small
  rw [List.length_append, List.length_singleton] at small
  rcases Nat.lt_succ_iff_lt_or_eq.mp small with old | rfl
  · rw [List.getElem?_append_left old, Function.update_of_ne (slot_ne unbroken old room fits)]
    exact holds i old
  · simp

theorem Holds.put (holds : Holds word size ring cons xs) (unbroken : Unbroken word size cons n)
    (room : xs.length + ys.length ≤ n) (fits : n ≤ size) :
    Holds word size (put word size ring (cons + xs.length) ys) cons (xs ++ ys) := by
  induction ys generalizing ring xs with
  | nil => simpa [Lib.put] using holds
  | cons y ys ih =>
      rw [List.length_cons] at room
      have next := ih (holds.snoc (x := y) unbroken (by omega) fits) (by simp; omega)
      simpa [Lib.put, Nat.add_assoc] using next

theorem Holds.append (holds : Holds word size ring cons (xs ++ ys)) : Holds word size ring (cons + xs.length) ys := by
  intro i small
  have here := holds (xs.length + i) (by simp; omega)
  rwa [List.getElem?_append_right (Nat.le_add_right _ _), Nat.add_sub_cancel_left, ← Nat.add_assoc] at here

theorem holds_mod : Holds word size ring (cons % word) xs ↔ Holds word size ring cons xs := by
  simp [Holds]

theorem Holds.head (holds : Holds word size ring cons (x :: xs)) : ring (slot word size cons) = x := by
  have here := holds 0 (by simp)
  simpa using here.symm

theorem Holds.tail (holds : Holds word size ring cons (x :: xs)) : Holds word size ring (cons + 1) xs :=
  show Holds word size ring (cons + [x].length) xs from Holds.append holds

end Blktap.Lib
