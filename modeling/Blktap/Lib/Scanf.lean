import Mathlib.Data.List.Basic
import Mathlib.Data.List.TakeWhile
import Mathlib.Algebra.Ring.Nat

/-!
# Formatted input

The conversions of `scanf` take a text and return a value and what is left of the text. `Renders` says what a line with
some columns looks like: each of them stands behind any number of blanks, and ends in front of a blank or of the end.
-/

namespace Blktap.Lib.Scanf

abbrev Text := List Char

def newline : Char := Char.ofNat 10
def nul : Char := Char.ofNat 0

def isSpace (c : Char) : Bool := c = ' ' || 9 ≤ c.toNat && c.toNat ≤ 13

def decimal (n : Nat) : Text := Nat.toDigits 10 n

def set (p : Char → Bool) (width : Nat) (t : Text) : Option (Text × Text) :=
  let w := (t.takeWhile p).take width
  if w = [] then none else some (w, t.drop w.length)

def word (width : Nat) (t : Text) : Option (Text × Text) := set (fun c => !isSpace c) width (t.dropWhile isSpace)

def sign : Text → Bool × Text
  | '-' :: t => (true, t)
  | '+' :: t => (false, t)
  | t => (false, t)

def number (t : Text) : Option ((Bool × Nat) × Text) :=
  let (negative, t) := sign (t.dropWhile isSpace)
  let digits := t.takeWhile Char.isDigit
  if digits = [] then none else some ((negative, Nat.ofDigitChars 10 digits 0), t.drop digits.length)

def toUnsigned (negative : Bool) (n : Nat) : Nat :=
  if 2 ^ 64 ≤ n then 2 ^ 64 - 1 else if negative then (2 ^ 64 - n) % 2 ^ 64 else n

/-- The value of a `long`, which is cut off at both ends -/
def toSigned (negative : Bool) (n : Nat) : Int :=
  if negative then -(min n (2 ^ 63) : Nat) else (min n (2 ^ 63 - 1) : Nat)

def unsigned (t : Text) : Option (Nat × Text) := (number t).map fun ((negative, n), t) => (toUnsigned negative n, t)

def unsigned32 (t : Text) : Option (Nat × Text) := (unsigned t).map fun (n, t) => (n % 2 ^ 32, t)

def signed32 (t : Text) : Option (Int × Text) :=
  (number t).map fun ((negative, n), t) => (Int.bmod (toSigned negative n) (2 ^ 32), t)

structure Line where
  text : Text
  ended : Bool

/-- The lines of a text, of `width` characters at most; reading ends behind a line without a newline. -/
def linesFrom (width : Nat) : Nat → Text → List Line
  | 0, _ => []
  | fuel + 1, t =>
      match set (· ≠ newline) width t with
      | none => []
      | some (line, t) =>
          match set (· = newline) width t with
          | none => [⟨line.takeWhile (· ≠ nul), false⟩]
          | some (_, t) => ⟨line.takeWhile (· ≠ nul), true⟩ :: linesFrom width fuel t

def lines (width : Nat) (t : Text) : List Line := linesFrom width t.length t

structure IsWord (w : Text) : Prop where
  some : w ≠ []
  space : ∀ c ∈ w, isSpace c = false
  nul : Scanf.nul ∉ w

theorem IsWord.of_all {w : Text} (some : w ≠ []) (space : (w.all fun c => !isSpace c) = true) (nul : Scanf.nul ∉ w) :
    IsWord w := by
  refine ⟨some, fun c member => ?_, nul⟩
  simpa using List.all_eq_true.mp space c member

inductive Renders : List Text → Text → Prop
  | nil {tail : Text} : (∀ c ∈ tail, c = ' ') → Renders [] tail
  | cons {gap w rest : Text} {columns : List Text} : (∀ c ∈ gap, c = ' ') → IsWord w → Renders columns rest →
      (∀ c ∈ rest.head?, c = ' ') → Renders (w :: columns) (gap ++ (w ++ rest))

section Conversions
variable {w t : Text} {columns : List Text} {width n : Nat}

theorem isSpace_blank : isSpace ' ' = true := rfl

theorem dropWhile_gap {gap : Text} (blank : ∀ c ∈ gap, c = ' ') (some : w ≠ []) (first : ∀ c ∈ w, isSpace c = false) :
    (gap ++ (w ++ t)).dropWhile isSpace = w ++ t := by
  rw [List.dropWhile_append_of_pos fun c member => by rw [blank c member]; rfl]
  cases w with
  | nil => exact absurd rfl some
  | cons c w => exact List.dropWhile_cons_of_neg (by simp [first c List.mem_cons_self])

theorem takeWhile_stop {p : Char → Bool} (inside : ∀ c ∈ w, p c = true) (stop : ∀ c ∈ t.head?, p c = false) :
    (w ++ t).takeWhile p = w := by
  rw [List.takeWhile_append_of_pos inside]
  cases t with
  | nil => simp
  | cons c t => simp [stop c rfl]

theorem set_stop {p : Char → Bool} (full : w ≠ []) (short : w.length ≤ width) (inside : ∀ c ∈ w, p c = true)
    (stop : ∀ c ∈ t.head?, p c = false) : set p width (w ++ t) = some (w, t) := by
  unfold set
  rw [takeWhile_stop inside stop, List.take_of_length_le short]
  simp [full]

theorem word_eq {gap : Text} (blank : ∀ c ∈ gap, c = ' ') (isWord : IsWord w) (short : w.length ≤ width)
    (stop : ∀ c ∈ t.head?, c = ' ') : word width (gap ++ (w ++ t)) = some (w, t) := by
  rw [word, dropWhile_gap blank isWord.some isWord.space]
  refine set_stop isWord.some short (fun c member => ?_) (fun c here => ?_)
  · rw [isWord.space c member]
    rfl
  · rw [stop c here]
    rfl

theorem word_renders (renders : Renders (w :: columns) t) (short : w.length ≤ width) :
    ∃ rest, word width t = some (w, rest) ∧ Renders columns rest := by
  cases renders with
  | cons blank isWord rest stop => exact ⟨_, word_eq blank isWord short stop, rest⟩

theorem sign_digits (digits : ∀ c ∈ w, c.isDigit = true) (some : w ≠ []) : sign (w ++ t) = (false, w ++ t) := by
  cases w with
  | nil => exact absurd rfl some
  | cons c w =>
      have digit := digits c List.mem_cons_self
      have minus : c ≠ '-' := by
        rintro rfl
        exact absurd digit (by decide)
      have plus : c ≠ '+' := by
        rintro rfl
        exact absurd digit (by decide)
      unfold sign
      split
      case h_1 same => exact absurd (List.cons.inj same).1 minus
      case h_2 same => exact absurd (List.cons.inj same).1 plus
      case h_3 => rfl

theorem decimal_digits : ∀ c ∈ decimal n, c.isDigit = true := fun _ =>
  Nat.isDigit_of_mem_toDigits (by decide) (by decide)

theorem decimal_isWord (n : Nat) : IsWord (decimal n) := by
  refine ⟨Nat.toDigits_ne_nil, fun c member => ?_, fun member => ?_⟩
  · have digit := decimal_digits c member
    cases space : isSpace c with
    | false => rfl
    | true =>
        simp only [isSpace, Bool.or_eq_true, decide_eq_true_eq, Bool.and_eq_true] at space
        rcases space with rfl | bounds
        · exact absurd digit (by decide)
        · simp only [Char.isDigit, Bool.and_eq_true, decide_eq_true_eq] at digit
          have least : 48 ≤ c.toNat := digit.1
          omega
  · exact absurd (decimal_digits _ member) (by decide)

theorem number_eq {gap : Text} (blank : ∀ c ∈ gap, c = ' ') (stop : ∀ c ∈ t.head?, c = ' ') :
    number (gap ++ (decimal n ++ t)) = some ((false, n), t) := by
  obtain ⟨full, space, -⟩ := decimal_isWord n
  unfold number
  rw [dropWhile_gap blank full space, sign_digits decimal_digits full]
  dsimp only
  rw [takeWhile_stop decimal_digits fun c here => by rw [stop c here]; rfl, if_neg full, List.drop_left, decimal,
    Nat.ofDigitChars_ten_toDigits]

theorem unsigned_eq {gap : Text} (blank : ∀ c ∈ gap, c = ' ') (stop : ∀ c ∈ t.head?, c = ' ') (small : n < 2 ^ 64) :
    unsigned (gap ++ (decimal n ++ t)) = some (n, t) := by
  have value : toUnsigned false n = n := by
    rw [toUnsigned, if_neg (Nat.not_le.mpr small), if_neg Bool.false_ne_true]
  rw [unsigned, number_eq blank stop, Option.map_some]
  dsimp only
  rw [value]

theorem number_renders (renders : Renders (decimal n :: columns) t) :
    ∃ rest, number t = some ((false, n), rest) ∧ Renders columns rest := by
  cases renders with
  | cons blank _ rest stop => exact ⟨_, number_eq blank stop, rest⟩

theorem unsigned_renders (renders : Renders (decimal n :: columns) t) (small : n < 2 ^ 64) :
    ∃ rest, unsigned t = some (n, rest) ∧ Renders columns rest := by
  cases renders with
  | cons blank _ rest stop => exact ⟨_, unsigned_eq blank stop small, rest⟩

theorem unsigned32_renders (renders : Renders (decimal n :: columns) t) (small : n < 2 ^ 32) :
    ∃ rest, unsigned32 t = some (n, rest) ∧ Renders columns rest := by
  obtain ⟨rest, run, renders⟩ := unsigned_renders renders (by omega)
  refine ⟨rest, ?_, renders⟩
  rw [unsigned32, run, Option.map_some]
  dsimp only
  rw [Nat.mod_eq_of_lt small]

theorem signed32_renders (renders : Renders (decimal n :: columns) t) (small : n < 2 ^ 31) :
    ∃ rest, signed32 t = some ((n : Int), rest) ∧ Renders columns rest := by
  obtain ⟨rest, run, renders⟩ := number_renders renders
  refine ⟨rest, ?_, renders⟩
  have value : toSigned false n = n := by
    rw [toSigned, if_neg Bool.false_ne_true, Nat.min_eq_left (by omega)]
  have whole : Int.bmod n (2 ^ 32) = n := by
    rw [Int.bmod_def]
    omega
  rw [signed32, run, Option.map_some]
  dsimp only
  rw [value, whole]

end Conversions

def asText (ls : List Text) : Text := (ls.map (· ++ [newline])).flatten

structure IsLine (width : Nat) (l : Text) : Prop where
  some : l ≠ []
  short : l.length ≤ width
  plain : ∀ c ∈ l, c ≠ newline ∧ c ≠ nul

section Lines
variable {l : Text} {ls : List Text} {columns : List Text} {width : Nat}

theorem length_le_asText (ls : List Text) : ls.length ≤ (asText ls).length := by
  induction ls with
  | nil => exact Nat.le_refl _
  | cons l ls ih =>
      simp only [asText, List.map_cons, List.flatten_cons, List.length_append, List.length_cons] at ih ⊢
      omega

theorem linesFrom_asText (fine : ∀ l ∈ ls, IsLine width l) {fuel : Nat} (enough : ls.length ≤ fuel) :
    linesFrom width fuel (asText ls) = ls.map fun l => ⟨l, true⟩ := by
  induction ls generalizing fuel with
  | nil =>
      cases fuel with
      | zero => rfl
      | succ fuel => simp [linesFrom, asText, set]
  | cons l ls ih =>
      obtain ⟨full, short, plain⟩ := fine l List.mem_cons_self
      have rest : ∀ l ∈ ls, IsLine width l := fun l member => fine l (List.mem_cons_of_mem _ member)
      have next : ∀ c ∈ (asText ls).head?, decide (c = newline) = false := by
        cases ls with
        | nil => nofun
        | cons other ls =>
            obtain ⟨full, -, plain⟩ := rest other List.mem_cons_self
            cases other with
            | nil => exact absurd rfl full
            | cons c other =>
                rintro d ⟨⟩
                exact decide_eq_false (plain c List.mem_cons_self).1
      obtain ⟨fuel, rfl⟩ := Nat.exists_eq_succ_of_ne_zero (Nat.ne_of_gt (Nat.lt_of_lt_of_le (Nat.succ_pos _) enough))
      have text : asText (l :: ls) = l ++ ([newline] ++ asText ls) := by simp [asText]
      have first : set (· ≠ newline) width (l ++ ([newline] ++ asText ls)) = some (l, [newline] ++ asText ls) :=
        set_stop full short (fun c member => decide_eq_true (plain c member).1) fun c here => by
          rw [← Option.some.inj here]
          rfl
      have second : set (· = newline) width ([newline] ++ asText ls) = some ([newline], asText ls) :=
        set_stop (List.cons_ne_nil _ _) ((List.length_pos_iff.mpr full).trans_le short)
          (fun c member => decide_eq_true (List.mem_singleton.mp member)) next
      have whole : l.takeWhile (· ≠ nul) = l :=
        List.takeWhile_eq_self_iff.mpr fun c member => decide_eq_true (plain c member).2
      rw [text, linesFrom, first]
      dsimp only
      rw [second]
      dsimp only
      rw [whole, ih rest (Nat.le_of_succ_le_succ enough), List.map_cons]

theorem lines_asText (fine : ∀ l ∈ ls, IsLine width l) : lines width (asText ls) = ls.map fun l => ⟨l, true⟩ :=
  linesFrom_asText fine (length_le_asText ls)

theorem Renders.plain (renders : Renders columns l) : ∀ c ∈ l, c ≠ newline ∧ c ≠ nul := by
  have blank : ' ' ≠ newline ∧ ' ' ≠ nul := by decide
  induction renders with
  | nil tail =>
      intro c member
      rw [tail c member]
      exact blank
  | cons gap isWord _ _ ih =>
      intro c member
      rcases List.mem_append.mp member with inGap | inRest
      · rw [gap c inGap]
        exact blank
      · rcases List.mem_append.mp inRest with inWord | inRest
        · refine ⟨?_, fun same => isWord.nul (same ▸ inWord)⟩
          rintro rfl
          exact absurd (isWord.space _ inWord) (by decide)
        · exact ih c inRest

def spaced (columns : List Text) : Text := (columns.map (' ' :: ·)).flatten

theorem renders_spaced (isWord : ∀ w ∈ columns, IsWord w) : Renders columns (spaced columns) := by
  induction columns with
  | nil => exact .nil nofun
  | cons w columns ih =>
      have rest := ih fun w member => isWord w (List.mem_cons_of_mem _ member)
      have text : spaced (w :: columns) = [' '] ++ (w ++ spaced columns) := rfl
      rw [text]
      refine .cons (fun c member => List.mem_singleton.mp member) (isWord w List.mem_cons_self) rest ?_
      cases columns with
      | nil => nofun
      | cons other columns => exact fun c here => (Option.some.inj here).symm

theorem count_asText (plain : ∀ l ∈ ls, ∀ c ∈ l, c ≠ newline) : (asText ls).count newline = ls.length := by
  induction ls with
  | nil => rfl
  | cons l ls ih =>
      have none : l.count newline = 0 := List.count_eq_zero.mpr fun member => plain l List.mem_cons_self _ member rfl
      have rest := ih fun l member => plain l (List.mem_cons_of_mem _ member)
      unfold asText at rest ⊢
      rw [List.map_cons, List.flatten_cons, List.count_append, List.count_append, none, rest, List.length_cons]
      simp [Nat.add_comm]

theorem length_le_of_mem (member : l ∈ ls) : l.length ≤ (asText ls).length := by
  induction ls with
  | nil => cases member
  | cons other ls ih =>
      unfold asText at ih ⊢
      rw [List.map_cons, List.flatten_cons, List.length_append, List.length_append]
      rcases List.mem_cons.mp member with rfl | behind
      · omega
      · have := ih behind
        omega

theorem column_length {w : Text} (renders : Renders columns l) (member : w ∈ columns) : w.length ≤ l.length := by
  induction renders with
  | nil => cases member
  | cons _ _ _ _ ih =>
      simp only [List.length_append]
      rcases List.mem_cons.mp member with rfl | behind
      · omega
      · have := ih behind
        omega

theorem Renders.isLine (renders : Renders columns l) (full : columns ≠ []) (short : l.length ≤ width) :
    IsLine width l := by
  refine ⟨?_, short, renders.plain⟩
  cases renders with
  | nil => exact absurd rfl full
  | cons _ isWord _ _ =>
      exact List.append_ne_nil_of_right_ne_nil _ (List.append_ne_nil_of_left_ne_nil isWord.some _)

end Lines

end Blktap.Lib.Scanf
