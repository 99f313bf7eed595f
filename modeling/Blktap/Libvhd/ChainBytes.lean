import Blktap.Libvhd.LinkBytes

/-! # What a chain contributes to a byte read -/

namespace Blktap.Libvhd
open Lib

namespace ByteRange
variable {range : ByteRange}

def clears (range : ByteRange) (i p : Nat) : Prop :=
  range.coff i - range.off ≤ p ∧ p < range.coff i - range.off + range.csize i

def clearable (range : ByteRange) (i : Nat) : Prop :=
  range.off ≤ range.coff i ∧ range.coff i - range.off + range.csize i ≤ range.size

def ClearFits (range : ByteRange) (missing : Nat → Prop) : Prop :=
  ∀ nr < range.count, missing nr →
    (nr = 0 ∧ (range.count = 1 ∨ 512 ≤ range.size)) ∨
      (0 < nr ∧ range.firstSec = range.off / 512)

def spills (range : ByteRange) (missing : Nat → Prop) (p : Nat) : Prop :=
  missing 0 ∧ 1 < range.count ∧ p < 512

theorem count_pos (positive : 0 < range.size) : 0 < range.count := by
  unfold count
  omega

theorem nr_lt {p : Nat} (inside : p < range.size) : range.nr p < range.count := by
  rw [nr, if_pos inside, count]
  omega

theorem sector_nr {p : Nat} (inside : p < range.size) :
    (range.off + p) / 512 = range.off / 512 + range.nr p := by
  rw [nr, if_pos inside]
  omega

theorem sector_of_nr {p : Nat} (below : range.nr p < range.count) :
    (range.off + p) / 512 = range.off / 512 + range.nr p := by
  refine sector_nr ?_
  by_contra outside
  rw [nr, if_neg outside] at below
  omega

theorem secs_cases (positive : 0 < range.size) (small : range.count < 2 ^ 31 + 1) :
    (range.firstSec < range.lastSec ∧ range.lastSec = range.firstSec + range.count ∧
      range.secs = range.count) ∨
    (range.lastSec ≤ range.firstSec ∧
      (range.secs = range.count ∨ range.secs = range.count + 1)) := by
  unfold count at *
  unfold secs lastSec firstSec secsRoundUpNoZero secsRoundUp
  split <;> omega

theorem mapFits_small (fits : range.mapFits = true) :
    range.count < 2 ^ 31 + 1 := by
  unfold mapFits at fits
  obtain ⟨room, small⟩ := of_decide_eq_true fits
  omega

theorem clearTurn_ok {map : Nat → Bool} {buf after : Nat → UInt8} {i : Nat}
    (action : clearTurn range map buf i = .ok after) :
    (map (i - range.firstSec) = false → range.clearable i) ∧
      (∀ p, map (i - range.firstSec) = false → range.clears i p → after p = 0) ∧
      ∀ p, ¬ (map (i - range.firstSec) = false ∧ range.clears i p) → after p = buf p := by
  unfold clearTurn at action
  split at action
  · rename_i found
    cases action
    simp [found]
  · rename_i missing
    dsimp only at action
    split at action
    · cases action
    · rename_i fits
      cases action
      refine ⟨fun _ => ?_, fun p _ cleared => if_pos cleared, fun p kept => if_neg fun cleared =>
        kept ⟨Bool.eq_false_iff.mpr missing, cleared⟩⟩
      unfold clearable
      omega

theorem clearTurn_isOk {map : Nat → Bool} {i : Nat} (buf : Nat → UInt8)
    (fits : map (i - range.firstSec) = false → range.clearable i) :
    ∃ after, clearTurn range map buf i = .ok after := by
  unfold clearTurn
  split
  · exact ⟨_, rfl⟩
  · rename_i missing
    dsimp only
    rw [if_neg]
    · exact ⟨_, rfl⟩
    · have fits := fits (Bool.eq_false_iff.mpr missing)
      unfold clearable at fits
      omega

theorem clearTurns_ok {map : Nat → Bool} {buf after : Nat → UInt8} {indices : List Nat}
    (action : indices.foldlM (clearTurn range map) buf = .ok after) :
    (∀ i ∈ indices, map (i - range.firstSec) = false → range.clearable i) ∧
      (∀ p, (∃ i ∈ indices, map (i - range.firstSec) = false ∧ range.clears i p) → after p = 0) ∧
      ∀ p, (¬ ∃ i ∈ indices, map (i - range.firstSec) = false ∧ range.clears i p) →
        after p = buf p := by
  induction indices generalizing buf with
  | nil =>
      cases action
      simp
  | cons i rest ih =>
      obtain ⟨mid, turn, action⟩ := Outcome.bind_eq_ok.mp action
      obtain ⟨fits, zero, kept⟩ := clearTurn_ok turn
      obtain ⟨fitsRest, zeroRest, keptRest⟩ := ih action
      refine ⟨?_, fun p cleared => ?_, fun p outside => ?_⟩
      · simpa using ⟨fits, fitsRest⟩
      · by_cases later : ∃ i ∈ rest, map (i - range.firstSec) = false ∧ range.clears i p
        · exact zeroRest p later
        · simp only [List.mem_cons, exists_eq_or_imp, later, or_false] at cleared
          rw [keptRest p later, zero p cleared.1 cleared.2]
      · simp only [List.mem_cons, exists_eq_or_imp, not_or] at outside
        rw [keptRest p outside.2, kept p outside.1]

theorem clearTurns_isOk {map : Nat → Bool} {indices : List Nat} (buf : Nat → UInt8)
    (fits : ∀ i ∈ indices, map (i - range.firstSec) = false → range.clearable i) :
    ∃ after, indices.foldlM (clearTurn range map) buf = .ok after := by
  induction indices generalizing buf with
  | nil => exact ⟨buf, rfl⟩
  | cons i rest ih =>
      obtain ⟨mid, turn⟩ := clearTurn_isOk buf (fits i (List.mem_cons_self ..))
      obtain ⟨after, action⟩ := ih mid fun i member => fits i (List.mem_cons_of_mem _ member)
      exact ⟨after, Outcome.bind_eq_ok.mpr ⟨mid, turn, action⟩⟩

section Order
variable (positive : 0 < range.size) (small : range.count < 2 ^ 31 + 1)
  (order : range.firstSec < range.lastSec)
include positive small order

theorem clearable_iff {nr : Nat} (below : nr < range.count) :
    range.clearable (range.firstSec + nr) ↔
      (nr = 0 ∧ (range.count = 1 ∨ 512 ≤ range.size)) ∨
        (0 < nr ∧ range.firstSec = range.off / 512) := by
  have last : range.lastSec = range.firstSec + range.count := by
    rcases secs_cases positive small with ⟨_, last, _⟩ | ⟨wrapped, _⟩ <;> omega
  unfold clearable csize coff
  rw [last]
  unfold firstSec count at *
  by_cases first : nr = 0
  · subst first
    rw [if_pos (Nat.add_zero _)]
    split <;> omega
  · rw [if_neg (by omega)]
    split <;> omega

theorem clears_iff {nr p : Nat} (below : nr < range.count) (inside : p < range.size)
    (fits : range.clearable (range.firstSec + nr)) :
    range.clears (range.firstSec + nr) p ↔
      range.nr p = nr ∨ (nr = 0 ∧ 1 < range.count ∧ p < 512) := by
  have last : range.lastSec = range.firstSec + range.count := by
    rcases secs_cases positive small with ⟨_, last, _⟩ | ⟨wrapped, _⟩ <;> omega
  have cases := (clearable_iff positive small order below).mp fits
  unfold clears csize coff
  rw [last, ByteRange.nr, if_pos inside]
  unfold firstSec count at *
  by_cases first : nr = 0
  · subst first
    rw [if_pos (Nat.add_zero _)]
    split <;> omega
  · rw [if_neg (by omega)]
    split <;> omega

theorem clearMissing_ok {dest : Dest} {after : Nat → UInt8}
    (action : clearMissing range dest = .ok after) :
    range.ClearFits (fun nr => dest.map nr = false) ∧
      (∀ p < range.size, dest.map (range.nr p) = false ∨
        range.spills (fun nr => dest.map nr = false) p → after p = 0) ∧
      ∀ p < range.size, ¬ (dest.map (range.nr p) = false ∨
        range.spills (fun nr => dest.map nr = false) p) → after p = dest.buf p := by
  have last : range.lastSec - range.firstSec = range.count := by
    rcases secs_cases positive small with ⟨_, last, _⟩ | ⟨wrapped, _⟩ <;> omega
  obtain ⟨fits, zero, kept⟩ := clearTurns_ok action
  rw [last] at fits zero kept
  have index : ∀ nr < range.count,
      range.firstSec + nr ∈ List.range' range.firstSec range.count := by
    intro nr below
    simp only [List.mem_range'_1]
    omega
  have number : ∀ nr, range.firstSec + nr - range.firstSec = nr := fun nr => by omega
  have clearable : ∀ nr < range.count, dest.map nr = false →
      range.clearable (range.firstSec + nr) := fun nr below missing =>
    fits _ (index nr below) ((number nr).symm ▸ missing)
  refine ⟨fun nr below missing => ?_, fun p inside cleared => zero p ?_,
    fun p inside outside => kept p ?_⟩
  · exact (clearable_iff positive small order below).mp (clearable nr below missing)
  · rcases cleared with missing | ⟨missing, more, early⟩
    · refine ⟨_, index _ (nr_lt inside), by rwa [number], ?_⟩
      exact (clears_iff positive small order (nr_lt inside) inside
        (clearable _ (nr_lt inside) missing)).mpr (.inl rfl)
    · refine ⟨_, index 0 (by omega), by rwa [number], ?_⟩
      exact (clears_iff positive small order (by omega) inside
        (clearable 0 (by omega) missing)).mpr (.inr ⟨rfl, more, early⟩)
  · rintro ⟨i, member, missing, cleared⟩
    simp only [List.mem_range'_1] at member
    obtain ⟨nr, rfl⟩ : ∃ nr, i = range.firstSec + nr := ⟨i - range.firstSec, by omega⟩
    rw [number] at missing
    rcases (clears_iff positive small order (by omega) inside
      (clearable nr (by omega) missing)).mp cleared with same | ⟨first, more, early⟩
    · exact outside (.inl (same ▸ missing))
    · exact outside (.inr ⟨first ▸ missing, more, early⟩)

theorem clearMissing_isOk {dest : Dest}
    (fits : range.ClearFits fun nr => dest.map nr = false) :
    ∃ after, clearMissing range dest = .ok after := by
  have last : range.lastSec - range.firstSec = range.count := by
    rcases secs_cases positive small with ⟨_, last, _⟩ | ⟨wrapped, _⟩ <;> omega
  refine clearTurns_isOk _ fun i member missing => ?_
  rw [last] at member
  simp only [List.mem_range'_1] at member
  obtain ⟨nr, rfl⟩ : ∃ nr, i = range.firstSec + nr := ⟨i - range.firstSec, by omega⟩
  rw [show range.firstSec + nr - range.firstSec = nr by omega] at missing
  exact (clearable_iff positive small order (by omega)).mpr (fits nr (by omega) missing)

end Order

theorem clearMissing_wrapped (wrapped : range.lastSec ≤ range.firstSec) (dest : Dest) :
    clearMissing range dest = .ok dest.buf := by
  unfold clearMissing
  rw [Nat.sub_eq_zero_of_le wrapped]
  rfl

end ByteRange

end Blktap.Libvhd
