import Mathlib.Data.List.Nodup
import Mathlib.Data.List.Perm.Subperm
import Mathlib.Data.List.Range

/-!
# Free lists of numbered slots

A driver with `m` requests keeps the numbers of those that are free in a stack.
-/

namespace Blktap.Lib
variable {m i : Nat} {free rest : List Nat}

structure FreeList (m : Nat) (free : List Nat) : Prop where
  nodup : free.Nodup
  small : ∀ i ∈ free, i < m

theorem FreeList.all : FreeList m (List.range m).reverse :=
  ⟨List.nodup_reverse.mpr List.nodup_range, fun i member => by simpa using member⟩

theorem FreeList.length_lt (slots : FreeList m free) (small : i < m) (taken : i ∉ free) :
    free.length < m := by
  have nodup : (i :: free).Nodup := List.nodup_cons.mpr ⟨taken, slots.nodup⟩
  have subset : i :: free ⊆ List.range m := by
    intro j member
    rcases List.mem_cons.mp member with rfl | member
    · exact List.mem_range.mpr small
    · exact List.mem_range.mpr (slots.small j member)
  exact List.length_range (n := m) ▸ (nodup.subperm subset).length_le

theorem FreeList.cons (slots : FreeList m free) (small : i < m) (taken : i ∉ free) :
    FreeList m (i :: free) := by
  refine ⟨List.nodup_cons.mpr ⟨taken, slots.nodup⟩, fun j member => ?_⟩
  rcases List.mem_cons.mp member with rfl | member
  · exact small
  · exact slots.small j member

theorem FreeList.head (slots : FreeList m (i :: rest)) : i < m ∧ i ∉ rest ∧ FreeList m rest :=
  ⟨slots.small i List.mem_cons_self, (List.nodup_cons.mp slots.nodup).1, (List.nodup_cons.mp slots.nodup).2,
    fun j member => slots.small j (List.mem_cons_of_mem _ member)⟩

end Blktap.Lib
