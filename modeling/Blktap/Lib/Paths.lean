import Mathlib.Algebra.BigOperators.Group.List.Basic
import Mathlib.Data.List.Lemmas
import Mathlib.Tactic.Cases

/-!
# Paths as strings

A path is read from the left: an empty name and `.` stay where they are, `..` goes to the directory above, and every
other name goes below. A canonical path is the text of the names from the root to it.
-/

namespace Blktap.Lib

structure Marks (α : Type) where
  slash : α
  dot : α
  apart : dot ≠ slash

namespace Marks
variable {α : Type} [DecidableEq α] (m : Marks α)

structure IsNode (name : List α) : Prop where
  some : name ≠ []
  noSlash : m.slash ∉ name
  notHere : name ≠ [m.dot]
  notUp : name ≠ [m.dot, m.dot]

def below (names : List (List α)) : List α := names.flatMap (m.slash :: ·)

def text (names : List (List α)) : List α := if names = [] then [m.slash] else m.below names

def Canonical (path : List α) : Prop := ∃ names, (∀ name ∈ names, m.IsNode name) ∧ path = m.text names

/-- From the directory that `names` lead to, by one name. -/
def step (names : List (List α)) (name : List α) : List (List α) :=
  if name = [] ∨ name = [m.dot] then names
  else if name = [m.dot, m.dot] then names.dropLast
  else names ++ [name]

def walk (names : List (List α)) (path : List α) : List (List α) := (path.splitOn m.slash).foldl m.step names

/-- What `path` leads to from the directory `dir`. -/
def resolve (dir path : List α) : List α := m.text (m.walk [] (dir ++ m.slash :: path))

/-- The directories of a path, `count` times the one above. -/
def ups (count : Nat) : List α := (List.replicate count [m.dot, m.dot, m.slash]).flatten

def shared : List (List α) → List (List α) → Nat
  | a :: as, b :: bs => if a = b then shared as bs + 1 else 0
  | _, _ => 0

variable {m} {names others : List (List α)} {name path rest : List α}

theorem walk_slash (names : List (List α)) (path rest : List α) :
    m.walk names (path ++ m.slash :: rest) = m.walk (m.walk names path) rest := by
  unfold walk
  rw [List.splitOn_append_cons_self, List.foldl_append]

theorem walk_name (noSlash : m.slash ∉ name) (names : List (List α)) : m.walk names name = m.step names name := by
  unfold walk
  rw [List.splitOn_eq_singleton noSlash]
  rfl

theorem walk_nil (names : List (List α)) : m.walk names [] = names := by
  rw [walk_name (List.not_mem_nil)]
  exact if_pos (.inl rfl)

theorem walk_root (names : List (List α)) (rest : List α) : m.walk names (m.slash :: rest) = m.walk names rest := by
  have split := walk_slash (m := m) names [] rest
  rw [walk_nil] at split
  exact split

theorem IsNode.walk (node : m.IsNode name) (names : List (List α)) : m.walk names name = names ++ [name] := by
  rw [walk_name node.noSlash]
  unfold step
  rw [if_neg (not_or.mpr ⟨node.some, node.notHere⟩), if_neg node.notUp]

omit [DecidableEq α] in
theorem below_cons (name : List α) (others : List (List α)) :
    m.below (name :: others) = m.slash :: (name ++ m.below others) := by
  unfold below
  rw [List.flatMap_cons, List.cons_append]

omit [DecidableEq α] in
theorem below_head (some : names ≠ []) : ∃ rest, m.below names = m.slash :: rest := by
  cases names with
  | nil => exact absurd rfl some
  | cons name others => exact ⟨_, below_cons name others⟩

theorem walk_below (nodes : ∀ name ∈ others, m.IsNode name) (names : List (List α)) :
    m.walk names (m.below others) = names ++ others := by
  induction others generalizing names with
  | nil =>
      rw [List.append_nil]
      exact walk_nil names
  | cons name others ih =>
      have node := nodes name List.mem_cons_self
      have ih := ih (fun name member => nodes name (List.mem_cons_of_mem _ member)) (names ++ [name])
      rw [below_cons, walk_root, List.append_cons]
      by_cases last : others = []
      · rw [last]
        change m.walk names (name ++ []) = _
        rw [List.append_nil, node.walk, List.append_nil]
      · obtain ⟨rest, head⟩ := below_head (m := m) last
        rw [head, walk_root] at ih
        rw [head, walk_slash, node.walk, ih]

theorem walk_text (nodes : ∀ name ∈ others, m.IsNode name) (names : List (List α)) :
    m.walk names (m.text others) = names ++ others := by
  unfold text
  split
  · rename_i root
    rw [walk_root, walk_nil, root, List.append_nil]
  · exact walk_below nodes names

theorem resolve_text (nodes : ∀ name ∈ names, m.IsNode name) (path : List α) :
    m.resolve (m.text names) path = m.text (m.walk names path) := by
  unfold resolve
  rw [walk_slash, walk_text nodes, List.nil_append]

theorem walk_here (names : List (List α)) (rest : List α) :
    m.walk names ([m.dot, m.slash] ++ rest) = m.walk names rest := by
  have noSlash : m.slash ∉ [m.dot] := by
    rw [List.mem_singleton]
    exact m.apart.symm
  have here : m.walk names [m.dot] = names := by
    rw [walk_name noSlash]
    exact if_pos (.inr rfl)
  rw [show [m.dot, m.slash] ++ rest = [m.dot] ++ m.slash :: rest from rfl, walk_slash, here]

theorem walk_up (names : List (List α)) (rest : List α) :
    m.walk names ([m.dot, m.dot, m.slash] ++ rest) = m.walk names.dropLast rest := by
  have noSlash : m.slash ∉ [m.dot, m.dot] := by
    simp only [List.mem_cons, List.not_mem_nil, or_false, or_self]
    exact m.apart.symm
  have up : m.walk names [m.dot, m.dot] = names.dropLast := by
    rw [walk_name noSlash]
    unfold step
    rw [if_neg (by simp), if_pos rfl]
  rw [show [m.dot, m.dot, m.slash] ++ rest = [m.dot, m.dot] ++ m.slash :: rest from rfl, walk_slash, up]

theorem walk_ups (count : Nat) (names : List (List α)) (rest : List α) :
    m.walk names (m.ups count ++ rest) = m.walk (names.take (names.length - count)) rest := by
  induction count generalizing names with
  | zero =>
      rw [Nat.sub_zero, List.take_length]
      rfl
  | succ count ih =>
      have split : m.ups (count + 1) ++ rest = [m.dot, m.dot, m.slash] ++ (m.ups count ++ rest) := by
        unfold ups
        rw [List.replicate_succ, List.flatten_cons, List.append_assoc]
      rw [split, walk_up, ih, List.length_dropLast, List.dropLast_eq_take, List.take_take]
      congr 2
      omega

theorem shared_le (as bs : List (List α)) : shared as bs ≤ as.length ∧ shared as bs ≤ bs.length := by
  induction as generalizing bs with
  | nil => exact ⟨Nat.zero_le _, Nat.zero_le _⟩
  | cons a as ih =>
      cases bs with
      | nil => exact ⟨Nat.zero_le _, Nat.zero_le _⟩
      | cons b bs =>
          have rest := ih bs
          unfold shared
          split
          · simp only [List.length_cons]
            omega
          · exact ⟨Nat.zero_le _, Nat.zero_le _⟩

theorem shared_comm (as bs : List (List α)) : shared as bs = shared bs as := by
  induction as generalizing bs with
  | nil => cases bs <;> rfl
  | cons a as ih =>
      cases bs with
      | nil => rfl
      | cons b bs =>
          unfold shared
          rw [ih bs]
          exact if_congr eq_comm rfl rfl

theorem shared_take (as bs : List (List α)) : as.take (shared as bs) = bs.take (shared as bs) := by
  induction as generalizing bs with
  | nil => simp [shared]
  | cons a as ih =>
      cases bs with
      | nil => simp [shared]
      | cons b bs =>
          unfold shared
          split
          · rename_i same
            rw [List.take_succ_cons, List.take_succ_cons, ih bs, same]
          · rfl

theorem walk_canonical (nodes : ∀ name ∈ names, m.IsNode name) : m.walk [] (m.text names) = names :=
  walk_text nodes []

theorem walk_across (names : List (List α)) (nodes : ∀ name ∈ others, m.IsNode name) :
    m.walk names (m.ups (names.length - shared names others.dropLast) ++
      m.below (others.drop (shared names others.dropLast))) = others := by
  have bounds := shared_le names others.dropLast
  have front : ∀ n ≤ others.dropLast.length, others.dropLast.take n = others.take n := by
    intro n short
    rw [List.length_dropLast] at short
    rw [List.dropLast_eq_take, List.take_take, Nat.min_eq_left short]
  have common : names.take (shared names others.dropLast) = others.take (shared names others.dropLast) :=
    (shared_take names others.dropLast).trans (front _ bounds.2)
  have kept : names.length - (names.length - shared names others.dropLast) = shared names others.dropLast := by omega
  rw [walk_ups, kept, walk_below (fun name member => nodes name (List.mem_of_mem_drop member)), common,
    List.take_append_drop]

end Marks

end Blktap.Lib
