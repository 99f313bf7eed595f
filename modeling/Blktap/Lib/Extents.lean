import Mathlib.Data.List.Basic
import Mathlib.Tactic.Cases
import Mathlib.Algebra.Ring.Nat

/-! # Extents of a file -/

namespace Blktap.Lib

structure Extent where
  start : Nat
  size : Nat
  deriving DecidableEq

namespace Extent

def stop (extent : Extent) : Nat := extent.start + extent.size

def Apart (a b : Extent) : Prop := a.stop ≤ b.start ∨ b.stop ≤ a.start

instance (a b : Extent) : Decidable (Apart a b) := inferInstanceAs (Decidable (_ ∨ _))

def consecutive (start : Nat) : List Nat → List Extent
  | [] => []
  | size :: sizes => ⟨start, size⟩ :: consecutive (start + size) sizes

variable {start size limit : Nat} {sizes : List Nat} {extent : Extent}

theorem consecutive_append (start : Nat) (sizes more : List Nat) :
    consecutive start (sizes ++ more) =
      consecutive start sizes ++ consecutive (start + sizes.sum) more := by
  induction sizes generalizing start with
  | nil => rfl
  | cons size sizes ih => simp [consecutive, ih, Nat.add_assoc]

theorem consecutive_within (member : extent ∈ consecutive start sizes) :
    start ≤ extent.start ∧ extent.stop ≤ start + sizes.sum := by
  induction sizes generalizing start with
  | nil => simp [consecutive] at member
  | cons size sizes ih =>
      rw [List.sum_cons]
      rcases List.mem_cons.mp member with rfl | later
      · simp only [stop]
        omega
      · have inside := ih later
        omega

theorem consecutive_apart (start : Nat) (sizes : List Nat) :
    (consecutive start sizes).Pairwise Apart := by
  induction sizes generalizing start with
  | nil => exact .nil
  | cons size sizes ih =>
      apply List.Pairwise.cons _ (ih _)
      intro extent member
      exact .inl (consecutive_within member).1

theorem behind_consecutive (positive : 0 < size) (first : start ≤ limit)
    (apart : ∀ extent ∈ consecutive start sizes, Apart extent ⟨limit, size⟩) :
    start + sizes.sum ≤ limit := by
  induction sizes generalizing start with
  | nil => exact first
  | cons length sizes ih =>
      have here := apart ⟨start, length⟩ List.mem_cons_self
      have next : start + length ≤ limit := by
        rcases here with before | behind
        · exact before
        · have := behind
          simp only [stop] at this
          omega
      have rest := ih next fun extent member => apart extent (List.mem_cons_of_mem _ member)
      rw [List.sum_cons]
      omega

theorem foldl_consecutive (start : Nat) (sizes : List Nat) :
    (consecutive start sizes).foldl (fun limit extent => max limit extent.stop) start =
      start + sizes.sum := by
  induction sizes generalizing start with
  | nil => rfl
  | cons size sizes ih =>
      have next : max start (stop ⟨start, size⟩) = start + size :=
        Nat.max_eq_right (Nat.le_add_right _ _)
      rw [consecutive, List.foldl_cons, next, ih, List.sum_cons, Nat.add_assoc]

end Extent

end Blktap.Lib
