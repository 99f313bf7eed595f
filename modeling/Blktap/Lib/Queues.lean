import Mathlib.Data.List.Flatten
import Mathlib.Data.List.Nodup
import Mathlib.Data.List.Range

/-!
# Entries in the queues of numbered slots

`queued queue n` are all entries of the first `n` queues. When one queue changes, the rest of them stays.
-/

namespace Blktap.Lib
variable {α : Type} {queue queue' : Nat → List α} {n b : Nat} {a : α}

def queued (queue : Nat → List α) (n : Nat) : List α := (List.range n).flatMap queue

theorem queued_nil (empty : ∀ b < n, queue b = []) : queued queue n = [] :=
  List.flatMap_eq_nil_iff.mpr fun b member => empty b (List.mem_range.mp member)

theorem queued_perm (small : b < n) (others : ∀ i, i ≠ b → queue' i = queue i) :
    ∃ rest, (queued queue n).Perm (queue b ++ rest) ∧ (queued queue' n).Perm (queue' b ++ rest) := by
  have first : (List.range n).Perm (b :: (List.range n).erase b) :=
    List.perm_cons_erase (List.mem_range.mpr small)
  refine ⟨((List.range n).erase b).flatMap queue, first.flatMap_right queue, ?_⟩
  have same : ((List.range n).erase b).flatMap queue' = ((List.range n).erase b).flatMap queue := by
    apply List.flatMap_congr
    intro i member
    exact others i (List.nodup_range.mem_erase_iff.mp member).1
  rw [← same]
  exact first.flatMap_right queue'

theorem queued_append (small : b < n) (others : ∀ i, i ≠ b → queue' i = queue i) (here : queue' b = queue b ++ [a]) :
    (queued queue' n).Perm (a :: queued queue n) := by
  obtain ⟨rest, before, after⟩ := queued_perm small others
  rw [here, List.append_assoc] at after
  exact (after.trans List.perm_middle).trans (before.symm.cons a)

theorem queued_pop (small : b < n) (others : ∀ i, i ≠ b → queue' i = queue i) (here : queue b = a :: queue' b) :
    (queued queue n).Perm (a :: queued queue' n) := by
  obtain ⟨rest, before, after⟩ := queued_perm small others
  rw [here] at before
  exact before.trans (after.symm.cons a)

end Blktap.Lib
