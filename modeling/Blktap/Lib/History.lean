import Mathlib.Data.List.Basic
import Mathlib.Logic.Function.Basic

/-!
# Operations that overlap in time

A `History` numbers the operations that have begun, and says of each which ones had ended by then.
Operations that overlap have no order, so what a reader may be shown after some operations is the result of
any one that had not ended before one of these began. `Store` is a memory that operations store into.
-/

namespace Blktap.Lib

structure History where
  count : Nat
  ended : List Nat
  before : Nat → List Nat
  begun : ∀ n ∈ ended, n < count
  past : ∀ n, before n ⊆ ended

namespace History
variable {h : History} {n w : Nat} {must must' : Nat → Prop} {writer : Option Nat}

def fresh : History where
  count := 0
  ended := []
  before := fun _ => []
  begun := fun _ member => absurd member List.not_mem_nil
  past := fun _ => List.Subset.refl []

def start (h : History) : History where
  count := h.count + 1
  ended := h.ended
  before := Function.update h.before h.count h.ended
  begun := fun n member => Nat.lt_succ_of_lt (h.begun n member)
  past := fun n => by
    by_cases new : n = h.count
    · rw [new, Function.update_self]
      exact List.Subset.refl _
    · rw [Function.update_of_ne new]
      exact h.past n

def finish (h : History) (n : Nat) : History where
  count := h.count
  ended := if n < h.count then n :: h.ended else h.ended
  before := h.before
  begun := fun m member => by
    split at member
    · rcases List.mem_cons.mp member with rfl | old
      · assumption
      · exact h.begun m old
    · exact h.begun m member
  past := fun m => by
    split
    · exact List.Subset.trans (h.past m) (List.subset_cons_self _ _)
    · exact h.past m

theorem count_not_ended : h.count ∉ h.ended := fun member => Nat.lt_irrefl _ (h.begun _ member)

theorem mem_finish (begun : n < h.count) : w ∈ (h.finish n).ended ↔ w = n ∨ w ∈ h.ended := by
  change w ∈ (if n < h.count then n :: h.ended else h.ended) ↔ _
  rw [if_pos begun]
  exact List.mem_cons

theorem ended_finish : h.ended ⊆ (h.finish n).ended := by
  change h.ended ⊆ if n < h.count then n :: h.ended else h.ended
  split
  · exact List.subset_cons_self _ _
  · exact List.Subset.refl _

/-- No operation of `must` began after the writer had ended; `none` is what was there before all of them. -/
def Recent (h : History) (must : Nat → Prop) (writer : Option Nat) : Prop :=
  ∀ n, must n → ∃ w, writer = some w ∧ w ∉ h.before n

theorem Recent.mono (recent : h.Recent must writer) (fewer : ∀ n, must' n → must n) :
    h.Recent must' writer := fun n member => recent n (fewer n member)

theorem recent_live (live : n ∉ h.ended) : h.Recent must (some n) :=
  fun m _ => ⟨n, rfl, fun member => live (h.past m member)⟩

theorem recent_none (nothing : ∀ n, ¬ must n) : h.Recent must writer :=
  fun n member => absurd member (nothing n)

theorem Recent.start (recent : h.Recent must writer) (known : ∀ n, must n → n ≠ h.count) :
    h.start.Recent must writer := by
  intro n member
  obtain ⟨w, rfl, old⟩ := recent n member
  refine ⟨w, rfl, ?_⟩
  change w ∉ Function.update h.before h.count h.ended n
  rwa [Function.update_of_ne (known n member)]

theorem Recent.finish (recent : h.Recent must writer) : (h.finish n).Recent must writer := recent

end History

structure Store where
  content : Nat → Option (Option Nat)
  stored : Nat → Nat → Bool

namespace Store
variable {store : Store} {h : History} {n x : Nat}

def holding (present : Nat → Bool) : Store where
  content := fun x => if present x then some none else none
  stored := fun _ _ => false

def put (store : Store) (n x : Nat) : Store where
  content := Function.update store.content x (some (some n))
  stored := fun m y => store.stored m y || (m = n ∧ y = x)

def putOld (store : Store) (x : Nat) : Store :=
  { store with content := Function.update store.content x (some none) }

structure Recent (h : History) (store : Store) : Prop where
  empty : ∀ x, store.content x = none → ∀ n, store.stored n x = false
  recent : ∀ x writer, store.content x = some writer → h.Recent (fun n => store.stored n x = true) writer
  known : ∀ n x, store.stored n x = true → n < h.count
  wrote : ∀ n x, store.content x = some (some n) → store.stored n x = true

theorem Recent.start (recent : store.Recent h) : store.Recent h.start where
  empty := recent.empty
  recent x writer found :=
    (recent.recent x writer found).start fun n stored => Nat.ne_of_lt (recent.known n x stored)
  known n x stored := Nat.lt_succ_of_lt (recent.known n x stored)
  wrote := recent.wrote

theorem Recent.finish (recent : store.Recent h) : store.Recent (h.finish n) where
  empty := recent.empty
  recent x writer found := (recent.recent x writer found).finish
  known := recent.known
  wrote := recent.wrote

theorem put_other {y : Nat} (other : y ≠ x) (m : Nat) : (store.put n x).stored m y = store.stored m y := by
  simp [put, other]

theorem put_keeps {m y : Nat} (stored : store.stored m y = true) : (store.put n x).stored m y = true := by
  simp [put, stored]

theorem put_self : (store.put n x).stored n x = true := by simp [put]

theorem Recent.put (recent : store.Recent h) (begun : n < h.count) (live : n ∉ h.ended) :
    (store.put n x).Recent h where
  empty y found m := by
    have other : y ≠ x := by
      rintro rfl
      simp [Store.put] at found
    rw [put_other other]
    exact recent.empty y (by simpa [Store.put, other] using found) m
  recent y writer found := by
    by_cases same : y = x
    · subst same
      have writer_eq : some n = writer := by simpa [Store.put] using found
      exact writer_eq ▸ History.recent_live live
    · have found' : store.content y = some writer := by simpa [Store.put, same] using found
      simpa only [put_other same] using recent.recent y writer found'
  known m y stored := by
    by_cases own : m = n
    · exact own ▸ begun
    · exact recent.known m y (by simpa [Store.put, own] using stored)
  wrote m y found := by
    by_cases same : y = x
    · subst same
      have own : n = m := by simpa [Store.put] using found
      exact own ▸ put_self
    · exact put_keeps (recent.wrote m y (by simpa [Store.put, same] using found))

theorem Recent.putOld (recent : store.Recent h) (unused : ∀ n, store.stored n x = false) :
    (store.putOld x).Recent h where
  empty y found := by
    have other : y ≠ x := by
      rintro rfl
      simp [Store.putOld] at found
    exact recent.empty y (by simpa [Store.putOld, other] using found)
  recent y writer found := by
    by_cases same : y = x
    · subst same
      exact History.recent_none fun n stored => nomatch stored.symm.trans (unused n)
    · exact recent.recent y writer (by simpa [Store.putOld, same] using found)
  known := recent.known
  wrote n y found := by
    by_cases same : y = x
    · simp [Store.putOld, same] at found
    · exact recent.wrote n y (by simpa [Store.putOld, same] using found)

end Store

end Blktap.Lib
