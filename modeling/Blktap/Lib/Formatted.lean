import Mathlib.Data.List.Basic
import Mathlib.Algebra.Ring.Nat

/-!
# Formatted output into a bounded buffer

A cursor prints one text after the other with `snprintf`: what is left of the buffer bounds what is written, with a
NUL at the end, and the position moves on by the length of the whole text.
-/

namespace Blktap.Lib
section Memory
variable {α : Type} {mem : Nat → α} {place place' n n' i : Nat} {xs : List α}

/-- The values of the list stand at the places from `place` on. -/
def store (mem : Nat → α) (place : Nat) (xs : List α) (i : Nat) : α :=
  if place ≤ i then xs.getD (i - place) (mem i) else mem i

def load (mem : Nat → α) (place n : Nat) : List α := (List.range n).map fun i => mem (place + i)

@[simp] theorem store_nil : store mem place [] = mem := by
  funext i
  simp [store]

@[simp] theorem load_length : (load mem place n).length = n := by
  simp [load]

@[simp] theorem load_zero : load mem place 0 = [] := rfl

theorem load_add : load mem place (n + n') = load mem place n ++ load mem (place + n) n' := by
  simp [load, List.range_add, Function.comp_def, Nat.add_assoc]

theorem load_congr {mem' : Nat → α} (same : ∀ i, place ≤ i → i < place + n → mem i = mem' i) :
    load mem place n = load mem' place n := by
  apply List.map_congr_left
  intro i here
  exact same _ (Nat.le_add_right _ _) (Nat.add_lt_add_left (List.mem_range.mp here) _)

theorem store_before (before : i < place) : store mem place xs i = mem i := by
  simp [store, Nat.not_le.mpr before]

theorem store_after (after : place + xs.length ≤ i) : store mem place xs i = mem i := by
  have le : place ≤ i := by omega
  have past : xs.length ≤ i - place := by omega
  simp [store, le, List.getD_eq_getElem?_getD, List.getElem?_eq_none past]

theorem store_inside (inside : i < xs.length) : store mem place xs (place + i) = xs[i] := by
  simp [store, List.getD_eq_getElem?_getD, inside]

theorem load_store : load (store mem place xs) place xs.length = xs := by
  apply List.ext_getElem (by simp)
  intro i _ inside
  simp only [load, List.getElem_map, List.getElem_range]
  exact store_inside inside

theorem load_store_before (before : place + n ≤ place') : load (store mem place' xs) place n = load mem place n :=
  load_congr fun _ _ small => store_before (by omega)

end Memory

def intMax : Nat := 2 ^ 31 - 1

/-- What `snprintf` writes into `size` bytes -/
def snprintf (size : Nat) (text : List UInt8) : List UInt8 := if size = 0 then [] else text.take (size - 1) ++ [0]

/-- What `snprintf` returns, as a word: the length of the text, or -1 when it is no `int`. -/
def wouldBe (text : List UInt8) : Nat := if text.length ≤ intMax then text.length else 2 ^ 64 - 1

/-- A buffer of `size` bytes at `base`, and a position in it -/
structure Cursor where
  base : Nat
  size : Nat
  pos : Nat
  mem : Nat → UInt8

namespace Cursor
variable {c c' c'' : Cursor} {text text' : List UInt8}

def print (c : Cursor) (text : List UInt8) : Cursor :=
  { c with
    mem := store c.mem ((c.base + c.pos) % 2 ^ 64) (snprintf ((c.size + 2 ^ 64 - c.pos) % 2 ^ 64) text)
    pos := (c.pos + wouldBe text) % 2 ^ 64 }

@[simp] theorem print_base : (c.print text).base = c.base := rfl

@[simp] theorem print_size : (c.print text).size = c.size := rfl

def Printed (c : Cursor) (text : List UInt8) (c' : Cursor) : Prop :=
  ∃ pieces : List (List UInt8), pieces.flatten = text ∧ pieces.foldl print c = c'

theorem Printed.none : Printed c [] c := ⟨[], rfl, rfl⟩

theorem Printed.one : Printed c text (c.print text) := ⟨[text], by simp, rfl⟩

theorem Printed.append (first : Printed c text c') (second : Printed c' text' c'') :
    Printed c (text ++ text') c'' := by
  obtain ⟨pieces, rfl, rfl⟩ := first
  obtain ⟨pieces', rfl, rfl⟩ := second
  exact ⟨pieces ++ pieces', by simp, by simp⟩

structure Fits (c : Cursor) (n : Nat) : Prop where
  small : c.base + c.size ≤ intMax
  room : c.pos + n ≤ c.size

theorem Fits.print_pos (fits : Fits c text.length) : (c.print text).pos = c.pos + text.length := by
  have small := fits.small
  have room := fits.room
  have short : text.length ≤ intMax := by omega
  simp only [intMax] at small
  simp only [print, wouldBe, if_pos short]
  omega

theorem Fits.print_mem (fits : Fits c text.length) :
    (c.print text).mem = store c.mem (c.base + c.pos) (snprintf (c.size - c.pos) text) := by
  have small := fits.small
  have room := fits.room
  simp only [intMax] at small
  have place : (c.base + c.pos) % 2 ^ 64 = c.base + c.pos := Nat.mod_eq_of_lt (by omega)
  have rest : (c.size + 2 ^ 64 - c.pos) % 2 ^ 64 = c.size - c.pos := by omega
  simp only [print, place, rest]

theorem Fits.after {n : Nat} (fits : Fits c (text.length + n)) : Fits (c.print text) n := by
  have room := fits.room
  have here : Fits c text.length := ⟨fits.small, by omega⟩
  exact ⟨fits.small, by rw [here.print_pos, print_size]; omega⟩

theorem Fits.first {n : Nat} (fits : Fits c (text.length + n)) : Fits c text.length :=
  ⟨fits.small, by have := fits.room; omega⟩

theorem Printed.pos (printed : Printed c text c') (fits : Fits c text.length) : c'.pos = c.pos + text.length := by
  obtain ⟨pieces, rfl, rfl⟩ := printed
  induction pieces generalizing c with
  | nil => simp
  | cons piece pieces ih =>
      simp only [List.flatten_cons, List.length_append] at fits
      have rest := ih fits.after
      simp only [List.foldl_cons, List.flatten_cons, List.length_append] at rest ⊢
      rw [rest, fits.first.print_pos]
      omega

theorem snprintf_length {size : Nat} (room : text.length < size) : snprintf size text = text ++ [0] := by
  have positive : size ≠ 0 := by omega
  simp [snprintf, positive, List.take_of_length_le (show text.length ≤ size - 1 by omega)]

theorem Printed.same (printed : Printed c text c') : c'.base = c.base ∧ c'.size = c.size := by
  obtain ⟨pieces, rfl, rfl⟩ := printed
  induction pieces generalizing c with
  | nil => exact ⟨rfl, rfl⟩
  | cons piece pieces ih => exact @ih (c.print piece)

theorem Printed.fits (printed : Printed c text c') (fits : Fits c (text.length + 1)) :
    load c'.mem (c.base + c.pos) text.length = text ∧
      ∀ i, i < c.base + c.pos ∨ c.base + c.size ≤ i → c'.mem i = c.mem i := by
  obtain ⟨pieces, rfl, rfl⟩ := printed
  induction pieces generalizing c with
  | nil => simp
  | cons piece pieces ih =>
      simp only [List.flatten_cons, List.length_append, Nat.add_assoc] at fits
      have room := fits.room
      have here := fits.first
      have written := here.print_mem
      rw [snprintf_length (by omega)] at written
      obtain ⟨stands, kept⟩ := ih fits.after
      rw [here.print_pos] at stands kept
      simp only [print_base, print_size] at stands kept
      simp only [List.foldl_cons, List.flatten_cons, List.length_append]
      constructor
      · rw [load_add, Nat.add_assoc, stands]
        congr 1
        have same : load (pieces.foldl print (c.print piece)).mem (c.base + c.pos) piece.length =
            load (c.print piece).mem (c.base + c.pos) piece.length :=
          load_congr fun i _ small => kept i (Or.inl (by omega))
        rw [same, written]
        have both : load (store c.mem (c.base + c.pos) (piece ++ [0])) (c.base + c.pos) (piece ++ [0]).length =
            piece ++ [0] := load_store
        rw [List.length_append, load_add] at both
        exact (List.append_inj both (by simp)).1
      · intro i outside
        rw [kept i (by omega), written]
        rcases outside with before | after
        · exact store_before before
        · exact store_after (by rw [List.length_append, List.length_singleton]; omega)

def Ended (c : Cursor) : Prop := c.mem (c.base + min c.pos (c.size - 1)) = 0

theorem Ended.print (before : c.pos < c.size ∨ Ended c) (fits : Fits c text.length) : Ended (c.print text) := by
  have room := fits.room
  unfold Ended
  rw [fits.print_pos, fits.print_mem, print_base, print_size]
  by_cases full : c.size - c.pos = 0
  · have ended := before.resolve_left (by omega)
    have empty : text.length = 0 := by omega
    rw [Ended] at ended
    simpa [snprintf, full, empty] using ended
  · have length : (text.take (c.size - c.pos - 1)).length = min text.length (c.size - c.pos - 1) := by
      rw [List.length_take, Nat.min_comm]
    have place : c.base + min (c.pos + text.length) (c.size - 1) =
        c.base + c.pos + (text.take (c.size - c.pos - 1)).length := by omega
    rw [place, snprintf, if_neg full, store_inside (by simp)]
    simp

theorem Printed.full (printed : Printed c text c') (room : c.pos < c.size) (fits : Fits c text.length)
    (full : c.pos + text.length = c.size) : c'.mem (c.base + c.size - 1) = 0 := by
  have ends := printed.pos fits
  have same := printed.same
  suffices ended : c'.pos < c'.size ∨ Ended c' by
    rw [same.2] at ended
    have closed := ended.resolve_left (by omega)
    rw [Ended, same.1, same.2, ends, full] at closed
    rwa [show c.base + c.size - 1 = c.base + min c.size (c.size - 1) by omega]
  clear full ends same
  obtain ⟨pieces, rfl, rfl⟩ := printed
  replace room : c.pos < c.size ∨ Ended c := Or.inl room
  induction pieces generalizing c with
  | nil => exact room
  | cons piece pieces ih =>
      simp only [List.flatten_cons, List.length_append] at fits
      exact ih fits.after (Or.inr (Ended.print room fits.first))

end Cursor
end Blktap.Lib
