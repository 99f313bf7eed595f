import Mathlib.Data.List.Basic
import Mathlib.Tactic.Cases

/-! # Names joined by a mark -/

namespace Blktap.Lib
variable {α : Type} [DecidableEq α] {mark sep : α} {text rest front : List α}

def doubled (mark : α) : List α → List α
  | [] => []
  | c :: text => if c = mark then mark :: mark :: doubled mark text else c :: doubled mark text

/-- Two marks become one, a single one becomes `sep`. -/
def undouble (mark sep : α) : List α → List α
  | [] => []
  | [c] => if c = mark then [sep] else [c]
  | c :: d :: rest =>
      if c = mark then
        if d = mark then mark :: undouble mark sep rest else sep :: undouble mark sep (d :: rest)
      else c :: undouble mark sep (d :: rest)

def single (mark : α) : List α → Bool
  | [] => false
  | [c] => decide (c = mark)
  | c :: d :: rest =>
      if c = mark then if d = mark then single mark rest else true
      else single mark (d :: rest)

/-- The last place of `c`. -/
def lastIndex (c : α) : List α → Option Nat
  | [] => none
  | d :: text =>
      match lastIndex c text with
      | some i => some (i + 1)
      | none => if d = c then some 0 else none

theorem undouble_other {c : α} (other : c ≠ mark) : undouble mark sep (c :: rest) = c :: undouble mark sep rest := by
  cases rest with
  | nil => exact if_neg other
  | cons d rest => exact if_neg other

theorem undouble_mark (apart : rest.head? ≠ some mark) :
    undouble mark sep (mark :: rest) = sep :: undouble mark sep rest := by
  cases rest with
  | nil => exact if_pos rfl
  | cons d rest =>
      have other : d ≠ mark := fun same => apart (congrArg some same)
      exact (if_pos rfl).trans (if_neg other)

theorem undouble_marks : undouble mark sep (mark :: mark :: rest) = mark :: undouble mark sep rest :=
  (if_pos rfl).trans (if_pos rfl)

theorem undouble_doubled : undouble mark sep (doubled mark text ++ rest) = text ++ undouble mark sep rest := by
  induction text with
  | nil => rfl
  | cons c text ih =>
      by_cases same : c = mark
      · subst same
        rw [doubled, if_pos rfl, List.cons_append, List.cons_append, undouble_marks, ih, List.cons_append]
      · rw [doubled, if_neg same, List.cons_append, undouble_other same, ih, List.cons_append]

theorem head_doubled (apart : text.head? ≠ some mark) : (doubled mark text).head? ≠ some mark := by
  cases text with
  | nil => exact apart
  | cons c text =>
      have other : c ≠ mark := fun same => apart (congrArg some same)
      rw [doubled, if_neg other]
      exact apart

theorem mem_doubled {c : α} : c ∈ doubled mark text ↔ c ∈ text := by
  induction text with
  | nil => rfl
  | cons d text ih =>
      unfold doubled
      split
      case isTrue same => simp [same, ih]
      case isFalse => simp [ih]

theorem undouble_joined {first second : List α} (apart : second.head? ≠ some mark) :
    undouble mark sep (doubled mark first ++ mark :: doubled mark second) = first ++ sep :: second := by
  have back : undouble mark sep (doubled mark second ++ []) = second ++ undouble mark sep [] := undouble_doubled
  rw [List.append_nil] at back
  rw [undouble_doubled, undouble_mark (head_doubled apart), back]
  exact congrArg (first ++ sep :: ·) (List.append_nil second)

theorem lastIndex_none {c : α} : lastIndex c text = none ↔ c ∉ text := by
  induction text with
  | nil => simp [lastIndex]
  | cons d text ih =>
      unfold lastIndex
      cases found : lastIndex c text with
      | some i =>
          have present : c ∈ text := by
            by_contra absent
            rw [ih.mpr absent] at found
            cases found
          simp [present]
      | none =>
          have absent := ih.mp found
          by_cases same : d = c
          · simp [same]
          · simp [same, absent, Ne.symm same]

theorem lastIndex_last {c : α} (absent : c ∉ rest) : lastIndex c (front ++ c :: rest) = some front.length := by
  induction front with
  | nil =>
      rw [List.nil_append, lastIndex, lastIndex_none.mpr absent]
      exact if_pos rfl
  | cons d front ih =>
      rw [List.cons_append, lastIndex, ih]
      rfl

end Blktap.Lib
