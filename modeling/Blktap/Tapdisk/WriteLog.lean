import Mathlib.Data.Nat.Count
import Blktap.Lib.Run
import Blktap.Tapdisk.Bounds

/-!
# The write log (`block-log.c`)
-/

namespace Blktap.Tapdisk.WriteLog
open Lib Bounds

def bitsPerLong : Nat := 64

structure DiskRange where
  sector : Nat
  count : Nat

def maxRanges : Nat := 8 * 1024 * 1024 / 2 / 16

structure TdlogState where
  size : Nat
  bytes : Nat
  writelog : Nat → Bool
  shm : Nat → DiskRange

def bitmapSize (sz : Nat) : Nat := (int (sz / 8 : Nat) % 2 ^ 64).toNat

/-- The bit that stands for a number of 64 bits, which the helpers take as an `int` -/
def bitOf (nr : Nat) : Nat := (int nr % 2 ^ 64).toNat

def writelogCreate (size : Nat) (shm : Nat → DiskRange) : TdlogState := ⟨size, bitmapSize size, fun _ => false, shm⟩

namespace TdlogState
variable (s : TdlogState)

def Allocated (bit : Nat) : Prop := (bit / bitsPerLong + 1) * 8 ≤ s.bytes

instance (bit : Nat) : Decidable (s.Allocated bit) := inferInstanceAs (Decidable (_ ≤ _))

def testBit (nr : Nat) : Option Bool := if s.Allocated (bitOf nr) then some (s.writelog (bitOf nr)) else none

def setBit (nr : Nat) : Option TdlogState :=
  if s.Allocated (bitOf nr) then some { s with writelog := Function.update s.writelog (bitOf nr) true } else none

def clearBit (nr : Nat) : Option TdlogState :=
  if s.Allocated (bitOf nr) then some { s with writelog := Function.update s.writelog (bitOf nr) false } else none

def writelogSet (sector : Nat) : Nat → Nat → TdlogState → Option TdlogState
  | 0, _, s => some s
  | n + 1, i, s => (s.setBit ((sector + i) % 2 ^ 64)).bind (writelogSet sector n (i + 1))

/-- Up to the next boundary of words, in at most `fuel` turns -/
def clearUp : Nat → Nat → TdlogState → Option (Nat × TdlogState)
  | 0, _, _ => none
  | fuel + 1, start, s =>
      if start % bitsPerLong = 0 then some (start, s)
      else (s.clearBit start).bind (clearUp fuel ((start + 1) % 2 ^ 64))

def clearDown : Nat → Nat → TdlogState → Option (Nat × TdlogState)
  | 0, _, _ => none
  | fuel + 1, stop, s =>
      if stop % bitsPerLong = 0 then some (stop, s) else (s.clearBit stop).bind (clearDown fuel (stop - 1))

def clearBytes (place n : Nat) : Option TdlogState :=
  if place + n ≤ s.bytes then
    some { s with writelog := fun i => if 8 * place ≤ i ∧ i < 8 * (place + n) then false else s.writelog i }
  else none

def spanBytes (start stop : Nat) : Nat := (stop + 2 ^ 64 - start) % 2 ^ 64 / 8

def writelogClear (start stop : Nat) : Option TdlogState :=
  (clearUp (bitsPerLong + 1) start s).bind fun (start, s) =>
    (clearDown (bitsPerLong + 1) (if stop = 0 then s.size else stop) s).bind fun (stop, s) =>
      s.clearBytes (start / bitsPerLong) (spanBytes start stop)

/-- The end of a range, where at most `fuel` sectors are left -/
def rangeEnd : Nat → Nat → Option Nat
  | 0, i => some i
  | fuel + 1, i =>
      if i < s.size then (s.testBit i).bind fun marked => if marked then rangeEnd fuel (i + 1) else some i
      else some i

def exportFrom : Nat → Nat → Nat → (Nat → DiskRange) → Option (Nat × (Nat → DiskRange))
  | 0, _, _, _ => none
  | fuel + 1, i, range, shm =>
      if i < s.size then
        (s.testBit i).bind fun marked =>
          if marked then
            (s.rangeEnd s.size (i + 1)).bind fun stop =>
              let shm := Function.update shm range ⟨i, (stop - i) % 2 ^ 32⟩
              if maxRanges ≤ range + 1 then some (stop, shm) else exportFrom fuel stop (range + 1) shm
          else exportFrom fuel (i + 1) range shm
      else some (i, Function.update shm range ⟨0, 0⟩)

def writelogExport : Option (Nat × TdlogState) :=
  (s.exportFrom (s.size + 1) 0 0 s.shm).map fun (i, shm) => (i, { s with shm })

end TdlogState

def ranges (shm : Nat → DiskRange) : List DiskRange := ((List.range maxRanges).map shm).takeWhile (·.count ≠ 0)

def Exported (shm : Nat → DiskRange) (sector : Nat) : Prop :=
  ∃ range ∈ ranges shm, range.sector ≤ sector ∧ sector < range.sector + range.count

structure Book where
  log : TdlogState
  dirty : Nat → Prop

inductive Event
  | write (sector count : Nat)
  | peek
  | get
  | clear

def step (b : Book) : Event → Option Book
  | .write sector count =>
      (TdlogState.writelogSet sector count 0 b.log).map fun log =>
        ⟨log, fun i => b.dirty i ∨ sector ≤ i ∧ i < sector + count⟩
  | .peek => b.log.writelogExport.map fun (_, log) => ⟨log, b.dirty⟩
  | .get =>
      b.log.writelogExport.bind fun (_, log) =>
        (log.writelogClear 0 0).map fun log => ⟨log, fun i => b.dirty i ∧ ¬Exported log.shm i⟩
  | .clear => (b.log.writelogClear 0 0).map fun log => ⟨log, fun _ => False⟩

def create (size : Nat) (shm : Nat → DiskRange) : Book := ⟨writelogCreate size shm, fun _ => False⟩

def Marked (b : Book) : Prop := ∀ i, b.dirty i ↔ i < b.log.size ∧ b.log.writelog i = true

def Admitted (b : Book) : Event → Prop
  | .write sector count => sector + count ≤ b.log.size ∧ count < 2 ^ 31
  | _ => True

/-- Nothing outside of the bitmap is used, and of what was written all is exported by a get or still marked, and nothing
else. -/
def Right (b : Book) (e : Event) : Prop :=
  ∃ c, step b e = some c ∧ Marked c ∧
    match e with
    | .get => ∀ i, Exported c.log.shm i ∨ (i < c.log.size ∧ c.log.writelog i = true) ↔ b.dirty i
    | _ => True

def Starts (s : TdlogState) (i : Nat) : Prop := s.writelog i = true ∧ (i = 0 ∨ s.writelog (i - 1) = false)

instance (s : TdlogState) : DecidablePred (Starts s) := fun _ => inferInstanceAs (Decidable (_ ∧ _))

def Fits (b : Book) : Event → Prop
  | .get => Nat.count (Starts b.log) b.log.size ≤ maxRanges
  | _ => True

section Count
variable {p : Nat → Prop} [DecidablePred p] {a b : Nat}

theorem count_eq_iff (le : a ≤ b) : Nat.count p b = Nat.count p a ↔ ∀ x, a ≤ x → x < b → ¬p x := by
  obtain ⟨n, rfl⟩ := Nat.le.dest le
  rw [Nat.count_add, Nat.add_eq_left, Nat.count_iff_forall_not]
  constructor
  · intro none x above below
    obtain ⟨k, rfl⟩ := Nat.le.dest above
    exact none k (by omega)
  · exact fun none k below => none (a + k) (by omega) (by omega)

end Count

section Runs
variable {s : TdlogState} {i j : Nat}

theorem count_run (starts : Starts s i) (run : ∀ x, i ≤ x → x < j → s.writelog x = true) (lt : i < j) :
    Nat.count (Starts s) j = Nat.count (Starts s) i + 1 := by
  rw [← Nat.count_succ_eq_succ_count_iff.mpr starts, count_eq_iff lt]
  intro x above below again
  rcases again.2 with zero | front
  · omega
  · rw [run (x - 1) (by omega) (by omega)] at front
    cases front

theorem count_rest (le : i ≤ j) (clear : i < j → s.writelog i = false) :
    Nat.count (Starts s) j = Nat.count (Starts s) i ↔ ∀ x, i ≤ x → x < j → s.writelog x ≠ true := by
  rw [count_eq_iff le]
  constructor
  · intro none x above below marked
    induction x, above using Nat.le_induction with
    | base =>
        rw [clear below] at marked
        cases marked
    | succ x above ih =>
        cases before : s.writelog x with
        | false => exact none (x + 1) (by omega) below ⟨marked, Or.inr before⟩
        | true => exact ih (by omega) before
  · exact fun none x above below starts => none x above below starts.1

end Runs

structure Shaped (s : TdlogState) : Prop where
  whole : 64 ∣ s.size
  small : s.size ≤ 2 ^ 31
  bytes : s.bytes = s.size / 8

section Bits
variable {s t : TdlogState} {i j n : Nat}

theorem bitOf_eq (small : i < 2 ^ 31) : bitOf i = i := by
  have same : int i = i := by
    rw [int, Int.bmod_def]
    omega
  have whole : (i : Int) % 2 ^ 64 = i := by omega
  unfold bitOf
  rw [same, whole, Int.toNat_natCast]

theorem bitmapSize_eq {size : Nat} (small : size ≤ 2 ^ 31) : bitmapSize size = size / 8 := by
  have same : int (size / 8 : Nat) = (size / 8 : Nat) := by
    rw [int, Int.bmod_def]
    omega
  have whole : ((size / 8 : Nat) : Int) % 2 ^ 64 = (size / 8 : Nat) := by omega
  unfold bitmapSize
  rw [same, whole, Int.toNat_natCast]

theorem Shaped.create {size : Nat} (whole : 64 ∣ size) (small : size ≤ 2 ^ 31) (shm : Nat → DiskRange) :
    Shaped (writelogCreate size shm) := by
  refine ⟨whole, small, ?_⟩
  unfold writelogCreate
  dsimp only
  rw [bitmapSize_eq small]

theorem Shaped.allocated (shaped : Shaped s) (inside : i < s.size) : bitOf i = i ∧ s.Allocated i := by
  obtain ⟨⟨k, size⟩, small, bytes⟩ := shaped
  refine ⟨bitOf_eq (by omega), ?_⟩
  unfold TdlogState.Allocated bitsPerLong
  rw [bytes, size]
  omega

theorem Shaped.testBit (shaped : Shaped s) (inside : i < s.size) : s.testBit i = some (s.writelog i) := by
  obtain ⟨bit, allocated⟩ := shaped.allocated inside
  rw [TdlogState.testBit, bit, if_pos allocated]

theorem Shaped.writelogSet (shaped : Shaped s) (sector : Nat) (n i : Nat) (inside : sector + i + n ≤ s.size) :
    ∃ writelog, TdlogState.writelogSet sector n i s = some { s with writelog } ∧
      ∀ x, writelog x = true ↔ s.writelog x = true ∨ sector + i ≤ x ∧ x < sector + i + n := by
  induction n generalizing s i with
  | zero => 
      refine ⟨s.writelog, rfl, fun x => ?_⟩
      have none : ¬(sector + i ≤ x ∧ x < sector + i + 0) := by omega
      simp only [none, or_false]
  | succ n ih =>
      obtain ⟨bit, allocated⟩ := @Shaped.allocated s (sector + i) shaped (by omega)
      have small := shaped.small
      have place : (sector + i) % 2 ^ 64 = sector + i := Nat.mod_eq_of_lt (by omega)
      let next : TdlogState := { s with writelog := Function.update s.writelog (sector + i) true }
      have set : s.setBit (sector + i) = some next := by
        rw [TdlogState.setBit, bit, if_pos allocated]
      have kept : Shaped next := ⟨shaped.whole, shaped.small, shaped.bytes⟩
      obtain ⟨writelog, run, bits⟩ := ih kept (i + 1) (by change _ ≤ s.size; omega)
      refine ⟨writelog, ?_, fun x => (bits x).trans ?_⟩
      · rw [TdlogState.writelogSet, place, set, Option.bind_some, run]
      · change Function.update s.writelog (sector + i) true x = true ∨ _ ↔ _
        rw [Function.update_apply]
        split_ifs with here
        · exact iff_of_true (Or.inl rfl) (Or.inr (by omega))
        · exact or_congr_right (by omega)

theorem clearUp_whole (fuel : Nat) (whole : i % bitsPerLong = 0) :
    TdlogState.clearUp (fuel + 1) i s = some (i, s) := by
  rw [TdlogState.clearUp, if_pos whole]

theorem clearDown_whole (fuel : Nat) (whole : i % bitsPerLong = 0) :
    TdlogState.clearDown (fuel + 1) i s = some (i, s) := by
  rw [TdlogState.clearDown, if_pos whole]

theorem spanBytes_zero (small : i ≤ 2 ^ 31) : TdlogState.spanBytes 0 i = i / 8 := by
  have whole : (i + 2 ^ 64 - 0) % 2 ^ 64 = i := by omega
  unfold TdlogState.spanBytes
  rw [whole]

def TdlogState.cleared (s : TdlogState) : TdlogState :=
  { s with writelog := fun i => if i < s.size then false else s.writelog i }

theorem TdlogState.not_cleared (s : TdlogState) (i : Nat) : ¬(i < s.cleared.size ∧ s.cleared.writelog i = true) := by
  rintro ⟨less, bit⟩
  change i < s.size at less
  change (if i < s.size then false else s.writelog i) = true at bit
  rw [if_pos less] at bit
  cases bit

theorem Shaped.writelogClear (shaped : Shaped s) : s.writelogClear 0 0 = some s.cleared := by
  obtain ⟨⟨k, size⟩, small, bytes⟩ := shaped
  have whole : s.size % bitsPerLong = 0 := by
    rw [size]
    exact Nat.mul_mod_right 64 k
  have same (i : Nat) : 8 * 0 ≤ i ∧ i < 8 * (0 + s.bytes) ↔ i < s.size := by omega
  unfold TdlogState.writelogClear
  rw [clearUp_whole _ (Nat.zero_mod _), Option.bind_some]
  dsimp only
  rw [if_pos rfl, clearDown_whole _ whole, Option.bind_some]
  dsimp only
  rw [Nat.zero_div, spanBytes_zero small, ← bytes, TdlogState.clearBytes, if_pos (Nat.zero_add _).le]
  simp only [same]
  rfl

end Bits

section Ranges
variable {shm : Nat → DiskRange} {n x : Nat}

def DiskRange.Has (range : DiskRange) (x : Nat) : Prop := range.sector ≤ x ∧ x < range.sector + range.count

theorem ranges_eq (some : ∀ k < n, (shm k).count ≠ 0) (le : n ≤ maxRanges) (ends : n < maxRanges → (shm n).count = 0) :
    ranges shm = (List.range n).map shm := by
  obtain ⟨m, max⟩ := Nat.le.dest le
  have front : ∀ range ∈ (List.range n).map shm, decide (range.count ≠ 0) = true := by
    intro range member
    obtain ⟨k, small, rfl⟩ := List.mem_map.mp member
    simpa using some k (List.mem_range.mp small)
  unfold ranges
  rw [← max, List.range_add, List.map_append, List.takeWhile_append_of_pos front]
  cases m with
  | zero => simp
  | succ m =>
      have stop := ends (by omega)
      simp [List.range_succ_eq_map, stop]

theorem exported_iff (some : ∀ k < n, (shm k).count ≠ 0) (le : n ≤ maxRanges)
    (ends : n < maxRanges → (shm n).count = 0) : Exported shm x ↔ ∃ k < n, (shm k).Has x := by
  unfold Exported
  rw [ranges_eq some le ends]
  simp [DiskRange.Has]

end Ranges

section Export
variable {s : TdlogState} {i j n range : Nat} {shm : Nat → DiskRange}

theorem Shaped.rangeEnd (shaped : Shaped s) (n i : Nat) (le : i ≤ s.size) (fuel : s.size - i ≤ n) :
    ∃ j, s.rangeEnd n i = some j ∧ i ≤ j ∧ j ≤ s.size ∧ (∀ x, i ≤ x → x < j → s.writelog x = true) ∧
      (j < s.size → s.writelog j = false) := by
  induction n generalizing i with
  | zero => exact ⟨i, rfl, le_rfl, le, fun x above below => by omega, fun lt => by omega⟩
  | succ n ih =>
      unfold TdlogState.rangeEnd
      by_cases inside : i < s.size
      · rw [if_pos inside, shaped.testBit inside, Option.bind_some]
        cases marked : s.writelog i with
        | false => exact ⟨i, rfl, le_rfl, le, fun x above below => by omega, fun _ => marked⟩
        | true =>
            obtain ⟨j, run, above, below, all, ends⟩ := ih (i + 1) inside (by omega)
            refine ⟨j, run, by omega, below, fun x least less => ?_, ends⟩
            by_cases first : x = i
            · rw [first, marked]
            · exact all x (by omega) less
      · rw [if_neg inside]
        exact ⟨i, rfl, le_rfl, le, fun x above below => by omega, fun lt => absurd lt inside⟩

structure Scanned (s : TdlogState) (i range : Nat) (shm : Nat → DiskRange) : Prop where
  inside : i ≤ s.size
  count : range = Nat.count (Starts s) i
  some : ∀ k < range, (shm k).count ≠ 0
  has : ∀ x, (∃ k < range, (shm k).Has x) ↔ x < i ∧ s.writelog x = true
  fresh : i < s.size → s.writelog i = true → Starts s i

theorem Scanned.skip (scanned : Scanned s i range shm) (inside : i < s.size) (clear : s.writelog i = false) :
    Scanned s (i + 1) range shm := by
  have none : ¬Starts s i := fun starts => by
    rw [starts.1] at clear
    cases clear
  refine ⟨inside, ?_, scanned.some, fun x => ?_, fun _ marked => ⟨marked, Or.inr clear⟩⟩
  · rw [scanned.count, Nat.count_succ_eq_count_iff.mpr none]
  · rw [scanned.has]
    refine and_congr_left fun marked => ?_
    have other : x ≠ i := by
      rintro rfl
      rw [marked] at clear
      cases clear
    omega

theorem Scanned.extend (scanned : Scanned s i range shm) (small : s.size ≤ 2 ^ 31) (first : s.writelog i = true)
    (lt : i < j) (below : j ≤ s.size) (run : ∀ x, i ≤ x → x < j → s.writelog x = true)
    (ends : j < s.size → s.writelog j = false) :
    Scanned s j (range + 1) (Function.update shm range ⟨i, (j - i) % 2 ^ 32⟩) := by
  have length : (j - i) % 2 ^ 32 = j - i := Nat.mod_eq_of_lt (by omega)
  have old : ∀ k < range, Function.update shm range ⟨i, (j - i) % 2 ^ 32⟩ k = shm k := fun k less =>
    Function.update_of_ne (Nat.ne_of_lt less) _ _
  refine ⟨below, ?_, fun k less => ?_, fun x => ?_, fun inside marked => ?_⟩
  · rw [scanned.count, count_run (scanned.fresh (by omega) first) run lt]
  · rcases Nat.lt_succ_iff_lt_or_eq.mp less with before | rfl
    · rw [old k before]
      exact scanned.some k before
    · rw [Function.update_self, length]
      dsimp only
      omega
  · have front := scanned.has x
    constructor
    · rintro ⟨k, less, has⟩
      rcases Nat.lt_succ_iff_lt_or_eq.mp less with before | rfl
      · rw [old k before] at has
        obtain ⟨less, marked⟩ := front.mp ⟨k, before, has⟩
        exact ⟨by omega, marked⟩
      · rw [Function.update_self, length] at has
        obtain ⟨least, less⟩ := has
        dsimp only at least less
        exact ⟨by omega, run x least (by omega)⟩
    · rintro ⟨less, marked⟩
      by_cases before : x < i
      · obtain ⟨k, small, has⟩ := front.mpr ⟨before, marked⟩
        refine ⟨k, by omega, ?_⟩
        rwa [old k small]
      · refine ⟨range, by omega, ?_⟩
        rw [Function.update_self, length]
        exact ⟨by dsimp only; omega, by dsimp only; omega⟩
  · rw [ends inside] at marked
    cases marked

theorem Shaped.exportFrom (shaped : Shaped s) (n i range : Nat) (shm : Nat → DiskRange)
    (scanned : Scanned s i range shm) (room : range < maxRanges) (fuel : s.size - i < n) :
    ∃ stop shm', s.exportFrom n i range shm = some (stop, shm') ∧
      (∀ x, Exported shm' x ↔ x < stop ∧ s.writelog x = true) ∧
      (Nat.count (Starts s) s.size ≤ maxRanges ↔ ∀ x, stop ≤ x → x < s.size → s.writelog x ≠ true) ∧ stop ≤ s.size := by
  induction n generalizing i range shm with
  | zero => omega
  | succ n ih =>
      unfold TdlogState.exportFrom
      by_cases inside : i < s.size
      · rw [if_pos inside, shaped.testBit inside, Option.bind_some]
        cases marked : s.writelog i with
        | false => exact ih (i + 1) range shm (scanned.skip inside marked) room (by omega)
        | true =>
            obtain ⟨j, found, above, below, run, ends⟩ := shaped.rangeEnd s.size (i + 1) inside (by omega)
            have all : ∀ x, i ≤ x → x < j → s.writelog x = true := fun x least less => by
              by_cases first : x = i
              · rw [first, marked]
              · exact run x (by omega) less
            have next := scanned.extend shaped.small marked above below all ends
            rw [if_pos rfl, found, Option.bind_some]
            dsimp only
            by_cases full : maxRanges ≤ range + 1
            · rw [if_pos full]
              refine ⟨j, _, rfl, fun x => ?_, ?_, below⟩
              · rw [exported_iff next.some (by omega) (fun less => by omega), next.has]
              · rw [← count_rest below ends, ← next.count]
                have more := Nat.count_monotone (Starts s) below
                rw [← next.count] at more
                omega
            · rw [if_neg full]
              exact ih j (range + 1) _ next (by omega) (by omega)
      · have whole : i = s.size := by have := scanned.inside; omega
        rw [if_neg inside]
        refine ⟨i, _, rfl, fun x => ?_, ?_, scanned.inside⟩
        · have old : ∀ k < range, Function.update shm range ⟨0, 0⟩ k = shm k := fun k less =>
            Function.update_of_ne (Nat.ne_of_lt less) _ _
          rw [exported_iff (n := range) (fun k less => by rw [old k less]; exact scanned.some k less) room.le
            (fun _ => by rw [Function.update_self]), ← scanned.has]
          exact exists_congr fun k => and_congr_right fun less => by rw [old k less]
        · rw [← whole, ← scanned.count]
          exact iff_of_true room.le fun x least less => by omega

theorem scanned_zero : Scanned s 0 0 shm :=
  ⟨Nat.zero_le _, (Nat.count_zero _).symm, nofun, fun x => by simp, fun _ marked => ⟨marked, Or.inl rfl⟩⟩

theorem Shaped.writelogExport (shaped : Shaped s) : ∃ stop shm, s.writelogExport = some (stop, { s with shm }) ∧
    (∀ x, Exported shm x ↔ x < stop ∧ s.writelog x = true) ∧
    (Nat.count (Starts s) s.size ≤ maxRanges ↔ ∀ x, stop ≤ x → x < s.size → s.writelog x ≠ true) ∧ stop ≤ s.size := by
  obtain ⟨stop, shm, run, exported, rest, below⟩ :=
    shaped.exportFrom (s.size + 1) 0 0 s.shm scanned_zero (by decide) (by omega)
  exact ⟨stop, shm, by rw [TdlogState.writelogExport, run, Option.map_some], exported, rest, below⟩

end Export

structure Kept (b : Book) : Prop where
  shaped : Shaped b.log
  marked : Marked b

section Kept
variable {b c : Book}

theorem Kept.write (kept : Kept b) {sector count : Nat} (inside : sector + count ≤ b.log.size) :
    ∃ c, step b (.write sector count) = some c ∧ Kept c := by
  obtain ⟨shaped, marked⟩ := kept
  obtain ⟨writelog, run, bits⟩ := shaped.writelogSet sector count 0 inside
  refine ⟨⟨{ b.log with writelog }, fun i => b.dirty i ∨ sector ≤ i ∧ i < sector + count⟩,
    by rw [step, run, Option.map_some], ⟨shaped.whole, shaped.small, shaped.bytes⟩, fun i => ?_⟩
  dsimp only
  rw [bits i, marked i, Nat.add_zero]
  constructor
  · rintro (⟨less, old⟩ | new)
    · exact ⟨less, Or.inl old⟩
    · exact ⟨by omega, Or.inr new⟩
  · rintro ⟨less, old | new⟩
    · exact Or.inl ⟨less, old⟩
    · exact Or.inr new

theorem Kept.peek (kept : Kept b) : ∃ c, step b .peek = some c ∧ Kept c := by
  obtain ⟨shaped, marked⟩ := kept
  obtain ⟨stop, shm, run, -⟩ := shaped.writelogExport
  exact ⟨⟨{ b.log with shm }, b.dirty⟩, by rw [step, run, Option.map_some],
    ⟨shaped.whole, shaped.small, shaped.bytes⟩, marked⟩

theorem Kept.clear (kept : Kept b) : ∃ c, step b .clear = some c ∧ Kept c := by
  obtain ⟨shaped, marked⟩ := kept
  refine ⟨⟨b.log.cleared, fun _ => False⟩, by rw [step, shaped.writelogClear, Option.map_some],
    ⟨shaped.whole, shaped.small, shaped.bytes⟩, fun i => iff_of_false not_false (b.log.not_cleared i)⟩

theorem Kept.get (kept : Kept b) : ∃ c, step b .get = some c ∧ Shaped c.log ∧
    (∀ i, ¬(i < c.log.size ∧ c.log.writelog i = true)) ∧ (∀ i, c.dirty i ↔ b.dirty i ∧ ¬Exported c.log.shm i) ∧
    ((∀ i, Exported c.log.shm i ↔ b.dirty i) ↔ Fits b .get) := by
  obtain ⟨shaped, marked⟩ := kept
  obtain ⟨stop, shm, run, exported, rest, below⟩ := shaped.writelogExport
  have next : Shaped { b.log with shm } := ⟨shaped.whole, shaped.small, shaped.bytes⟩
  have action : step b .get =
      some ⟨TdlogState.cleared { b.log with shm }, fun i => b.dirty i ∧ ¬Exported shm i⟩ := by
    rw [step, run, Option.bind_some]
    dsimp only
    rw [next.writelogClear, Option.map_some]
    rfl
  refine ⟨_, action, ⟨shaped.whole, shaped.small, shaped.bytes⟩, TdlogState.not_cleared { b.log with shm },
    fun i => Iff.rfl, ?_⟩
  · change _ ↔ Nat.count (Starts b.log) b.log.size ≤ maxRanges
    rw [rest]
    constructor
    · intro all x least less bit
      have here := (exported x).mp ((all x).mpr ((marked x).mpr ⟨less, bit⟩))
      omega
    · intro none i
      change Exported shm i ↔ _
      rw [exported, marked]
      refine and_congr_left fun bit => ⟨fun less => by omega, fun less => ?_⟩
      by_contra behind
      exact none i (by omega) less bit

theorem Kept.right_iff (kept : Kept b) {e : Event} (admitted : Admitted b e) : Right b e ↔ Fits b e := by
  cases e with
  | write sector count =>
      obtain ⟨c, run, keeps⟩ := kept.write admitted.1
      exact iff_of_true ⟨c, run, keeps.marked, trivial⟩ trivial
  | peek =>
      obtain ⟨c, run, keeps⟩ := kept.peek
      exact iff_of_true ⟨c, run, keeps.marked, trivial⟩ trivial
  | clear =>
      obtain ⟨c, run, keeps⟩ := kept.clear
      exact iff_of_true ⟨c, run, keeps.marked, trivial⟩ trivial
  | get =>
      obtain ⟨c, run, -, clear, dirty, all⟩ := kept.get
      rw [← all]
      constructor
      · rintro ⟨c', run', -, right⟩ i
        cases Option.some.inj (run.symm.trans run')
        exact (or_iff_left (clear i)).symm.trans (right i)
      · intro right
        refine ⟨c, run, fun i => iff_of_false ?_ (clear i), fun i => (or_iff_left (clear i)).trans (right i)⟩
        rw [dirty, right]
        exact fun both => both.2 both.1

theorem Kept.next {e : Event} (kept : Kept b) (admitted : Admitted b e) (fits : Fits b e) (action : step b e = some c) :
    Kept c := by
  obtain ⟨c', run, marked, -⟩ := (kept.right_iff admitted).mpr fits
  cases Option.some.inj (action.symm.trans run)
  refine ⟨?_, marked⟩
  cases e with
  | write sector count =>
      obtain ⟨c', run', keeps⟩ := kept.write admitted.1
      exact Option.some.inj (run'.symm.trans run) ▸ keeps.shaped
  | peek =>
      obtain ⟨c', run', keeps⟩ := kept.peek
      exact Option.some.inj (run'.symm.trans run) ▸ keeps.shaped
  | clear =>
      obtain ⟨c', run', keeps⟩ := kept.clear
      exact Option.some.inj (run'.symm.trans run) ▸ keeps.shaped
  | get =>
      obtain ⟨c', run', shaped, -⟩ := kept.get
      exact Option.some.inj (run'.symm.trans run) ▸ shaped

theorem Kept.create {size : Nat} (whole : 64 ∣ size) (small : size ≤ 2 ^ 31) (shm : Nat → DiskRange) :
    Kept (create size shm) :=
  ⟨Shaped.create whole small shm, fun _ => iff_of_false id fun both => Bool.false_ne_true both.2⟩

end Kept

/-- **The write log.** Where the sectors of a disk are whole words of bits with numbers that are an `int`, the bits are
right in every run whose gets fit in the shared map, and what happens next is right exactly if it is no get that does
not fit. -/
theorem writelog_right {size : Nat} {shm : Nat → DiskRange} {b : Book} (whole : 64 ∣ size) (small : size ≤ 2 ^ 31)
    (run : Run step (fun b e => Admitted b e ∧ Fits b e) (create size shm) b) :
    Marked b ∧ ∀ e, Admitted b e → (Right b e ↔ Fits b e) := by
  have kept : Kept b := run.invariant (fun _ _ _ kept good action => kept.next good.1 good.2 action)
    (Kept.create whole small shm)
  exact ⟨kept.marked, fun e => kept.right_iff⟩

theorem writelog_right_word : ∃ b : Book, b.dirty 5 ∧ Marked b ∧ (Right b .get ↔ Fits b .get) := by
  have kept : Kept (create 64 fun _ => ⟨0, 0⟩) := Kept.create ⟨1, rfl⟩ (by decide) _
  have admitted : Admitted (create 64 fun _ => ⟨0, 0⟩) (.write 5 1) := ⟨show 6 ≤ 64 by decide, by decide⟩
  obtain ⟨b, run, -⟩ := kept.write admitted.1
  obtain ⟨marked, right⟩ := writelog_right ⟨1, rfl⟩ (by decide) (Run.single ⟨admitted, trivial⟩ run)
  refine ⟨b, ?_, marked, right .get trivial⟩
  rw [step] at run
  obtain ⟨log, -, rfl⟩ := Option.map_eq_some_iff.mp run
  exact Or.inr ⟨le_rfl, by decide⟩

theorem eight_outside : ¬∀ (size : Nat) (shm : Nat → DiskRange) (b : Book), Run step Admitted (create size shm) b →
    Marked b ∧ ∀ e, Admitted b e → Right b e := by
  intro all
  have admitted : Admitted (create 8 fun _ => ⟨0, 0⟩) (.write 0 1) := ⟨show 1 ≤ 8 by decide, by decide⟩
  obtain ⟨c, run, -⟩ := (all 8 (fun _ => ⟨0, 0⟩) _ (.refl _)).2 (.write 0 1) admitted
  rw [step] at run
  obtain ⟨log, set, -⟩ := Option.map_eq_some_iff.mp run
  rw [TdlogState.writelogSet] at set
  obtain ⟨_, first, -⟩ := Option.bind_eq_some_iff.mp set
  unfold TdlogState.setBit at first
  split at first
  case isTrue allocated =>
    unfold TdlogState.Allocated at allocated
    rw [bitOf_eq (by decide)] at allocated
    change 8 ≤ bitmapSize 8 at allocated
    rw [bitmapSize_eq (by decide)] at allocated
    omega
  case isFalse => cases first

end Blktap.Tapdisk.WriteLog
