import Blktap.Lib.History
import Mathlib.Order.Interval.Finset.Nat

/-! # What the guest has asked for and seen -/

namespace Blktap.Tapdisk
open Lib

structure Extent where
  sec : Nat
  secs : Nat

def Extent.sectors (extent : Extent) : Finset Nat := Finset.Ico extent.sec (extent.sec + extent.secs)

structure Reading where
  extent : Extent
  seen : List Nat
  got : Nat → Option (Option Nat)

structure Guest where
  history : History
  ask : Nat → Extent
  answers : Nat → List (Finset Nat × Int)
  reads : Nat
  reading : Nat → Reading
  seen_ended : ∀ r, (reading r).seen ⊆ history.ended

namespace Guest
variable {guest : Guest} {extent : Extent} {n r x : Nat} {part : Finset Nat} {res : Int} {writer : Option Nat}

def idle : Guest where
  history := .fresh
  ask := fun _ => ⟨0, 0⟩
  answers := fun _ => []
  reads := 0
  reading := fun _ => ⟨⟨0, 0⟩, [], fun _ => none⟩
  seen_ended := History.fresh.past

def answered (guest : Guest) (n : Nat) : Finset Nat :=
  (guest.answers n).foldr (fun answer sectors => answer.1 ∪ sectors) ∅

theorem mem_answered : x ∈ guest.answered n ↔ ∃ answer ∈ guest.answers n, x ∈ answer.1 := by
  unfold answered
  induction guest.answers n with
  | nil => simp
  | cons answer rest ih => simp [ih]

def startWrite (guest : Guest) (extent : Extent) : Guest where
  history := guest.history.start
  ask := Function.update guest.ask guest.history.count extent
  answers := guest.answers
  reads := guest.reads
  reading := guest.reading
  seen_ended := guest.seen_ended

def answer (guest : Guest) (n : Nat) (part : Finset Nat) (res : Int) : Guest where
  history :=
    if (guest.ask n).sectors ⊆ guest.answered n ∪ part then guest.history.finish n else guest.history
  ask := guest.ask
  answers := Function.update guest.answers n (guest.answers n ++ [(part, res)])
  reads := guest.reads
  reading := guest.reading
  seen_ended := fun r => by
    split
    · exact fun _ member => History.ended_finish (guest.seen_ended r member)
    · exact guest.seen_ended r

def startRead (guest : Guest) (extent : Extent) : Guest where
  history := guest.history
  ask := guest.ask
  answers := guest.answers
  reads := guest.reads + 1
  reading := Function.update guest.reading guest.reads ⟨extent, guest.history.ended, fun _ => none⟩
  seen_ended := fun r => by
    by_cases new : r = guest.reads
    · rw [new, Function.update_self]
      exact List.Subset.refl _
    · rw [Function.update_of_ne new]
      exact guest.seen_ended r

def fetch (guest : Guest) (r : Nat) (part : Finset Nat) (writer : Option Nat) : Guest where
  history := guest.history
  ask := guest.ask
  answers := guest.answers
  reads := guest.reads
  reading := Function.update guest.reading r
    { guest.reading r with got := fun x => if x ∈ part then some writer else (guest.reading r).got x }
  seen_ended := fun s => by
    by_cases same : s = r
    · rw [same, Function.update_self]
      exact guest.seen_ended r
    · rw [Function.update_of_ne same]
      exact guest.seen_ended s

theorem answer_history (whole : (guest.ask n).sectors ⊆ part) :
    (guest.answer n part res).history = guest.history.finish n :=
  if_pos (whole.trans Finset.subset_union_right)

theorem answer_count : (guest.answer n part res).history.count = guest.history.count := by
  unfold answer
  dsimp only
  split <;> rfl

theorem answer_before : (guest.answer n part res).history.before = guest.history.before := by
  unfold answer
  dsimp only
  split <;> rfl

theorem mem_ended_answer {m : Nat} (begun : n < guest.history.count) :
    m ∈ (guest.answer n part res).history.ended ↔
      m = n ∧ (guest.ask n).sectors ⊆ guest.answered n ∪ part ∨ m ∈ guest.history.ended := by
  unfold answer
  dsimp only
  split
  · rename_i all
    simp [History.mem_finish begun, all]
  · rename_i some
    simp [some]

theorem mem_answered_answer :
    x ∈ (guest.answer n part res).answered n ↔ x ∈ guest.answered n ∨ x ∈ part := by
  simp [mem_answered, answer, or_and_right, exists_or]

def Once (guest : Guest) (n : Nat) : Prop :=
  (guest.answers n).Pairwise (fun first second => Disjoint first.1 second.1) ∧
    ∀ answer ∈ guest.answers n, answer.1 ⊆ (guest.ask n).sectors

theorem Once.startWrite {m : Nat} (once : guest.Once m)
    (new : guest.answers guest.history.count = []) : (guest.startWrite extent).Once m := by
  unfold Once at once ⊢
  by_cases same : m = guest.history.count
  · simp [Guest.startWrite, same, new]
  · simpa [Guest.startWrite, same] using once

theorem Once.answer {m : Nat} (once : ∀ m, guest.Once m) (apart : Disjoint (guest.answered n) part)
    (inside : part ⊆ (guest.ask n).sectors) : (guest.answer n part res).Once m := by
  unfold Once
  by_cases same : m = n
  · subst same
    obtain ⟨disjoint, asked⟩ := once m
    simp only [Guest.answer, Function.update_self]
    refine ⟨List.pairwise_append.mpr ⟨disjoint, List.pairwise_singleton _ _, ?_⟩, ?_⟩
    · intro first member second found
      cases List.mem_singleton.mp found
      refine Finset.disjoint_left.mpr fun x inFirst => Finset.disjoint_left.mp apart ?_
      exact mem_answered.mpr ⟨first, member, inFirst⟩
    · intro first member
      rcases List.mem_append.mp member with old | new
      · exact asked first old
      · cases List.mem_singleton.mp new
        exact inside
  · simpa [Guest.answer, same, Once] using once m

def Succeeded (guest : Guest) (n : Nat) : Prop := ∀ answer ∈ guest.answers n, answer.2 = 0

def Due (guest : Guest) (r x n : Nat) : Prop :=
  n ∈ (guest.reading r).seen ∧ guest.Succeeded n ∧ x ∈ (guest.ask n).sectors

def Reads (guest : Guest) : Prop :=
  ∀ r x writer, (guest.reading r).got x = some writer → guest.history.Recent (guest.Due r x) writer

theorem Due.begun (due : guest.Due r x n) : n < guest.history.count :=
  guest.history.begun n (guest.seen_ended r due.1)

theorem due_startWrite (due : (guest.startWrite extent).Due r x n) : guest.Due r x n := by
  obtain ⟨seen, succeeded, inside⟩ := due
  have old : n ≠ guest.history.count := Nat.ne_of_lt (guest.history.begun n (guest.seen_ended r seen))
  refine ⟨seen, succeeded, ?_⟩
  simpa [Guest.startWrite, old] using inside

theorem due_answer {m : Nat} (live : n ∉ guest.history.ended) (due : (guest.answer n part res).Due r x m) :
    guest.Due r x m := by
  obtain ⟨seen, succeeded, inside⟩ := due
  have other : m ≠ n := by
    rintro rfl
    exact live (guest.seen_ended r seen)
  refine ⟨seen, ?_, inside⟩
  simpa [Guest.answer, Succeeded, other] using succeeded

theorem due_startRead (old : r ≠ guest.reads) (due : (guest.startRead extent).Due r x n) :
    guest.Due r x n := by
  obtain ⟨seen, due⟩ := due
  refine ⟨?_, due⟩
  simpa [Guest.startRead, old] using seen

theorem fetch_seen {s : Nat} : ((guest.fetch r part writer).reading s).seen = (guest.reading s).seen := by
  by_cases same : s = r <;> simp [Guest.fetch, same]

theorem due_fetch {s : Nat} (due : (guest.fetch r part writer).Due s x n) : guest.Due s x n :=
  ⟨fetch_seen ▸ due.1, due.2⟩

theorem Reads.startWrite (reads : guest.Reads) : (guest.startWrite extent).Reads := by
  intro r x writer found
  apply ((reads r x writer found).start fun n due => Nat.ne_of_lt due.begun).mono
  exact fun n due => due_startWrite due

theorem Reads.answer (reads : guest.Reads) (live : n ∉ guest.history.ended) :
    (guest.answer n part res).Reads := by
  intro r x writer found
  have recent : guest.history.Recent ((guest.answer n part res).Due r x) writer :=
    (reads r x writer found).mono fun m due => due_answer live due
  change (if _ then _ else _ : History).Recent _ _
  split
  · exact recent.finish
  · exact recent

theorem Reads.startRead (reads : guest.Reads) : (guest.startRead extent).Reads := by
  intro r x writer found
  by_cases new : r = guest.reads
  · simp [Guest.startRead, new] at found
  · have same : (guest.startRead extent).reading r = guest.reading r := Function.update_of_ne new _ _
    rw [same] at found
    exact (reads r x writer found).mono fun n due => due_startRead new due

theorem Reads.fetch (reads : guest.Reads)
    (recent : ∀ x ∈ part, guest.history.Recent (guest.Due r x) writer) : (guest.fetch r part writer).Reads := by
  intro s y writer' found
  by_cases read : s = r
  · subst read
    have got : ((guest.fetch s part writer).reading s).got y =
        if y ∈ part then some writer else (guest.reading s).got y := by simp [Guest.fetch]
    rw [got] at found
    split at found
    · rename_i member
      cases found
      exact (recent y member).mono fun n due => due_fetch due
    · exact (reads s y writer' found).mono fun n due => due_fetch due
  · have same : (guest.fetch r part writer).reading s = guest.reading s := Function.update_of_ne read ..
    rw [same] at found
    exact (reads s y writer' found).mono fun n due => due_fetch due

end Guest

end Blktap.Tapdisk
