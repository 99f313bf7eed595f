import Blktap.Lib.Loop
import Mathlib.Algebra.Order.Group.Nat
import Mathlib.Data.Nat.Basic

/-!
# Transfers at an offset (`vhd_atomic_pio`)
-/

namespace Blktap.Libvhd
open Lib

inductive Answer
  | moved (bytes : Nat)
  /-- `EINTR` or `EAGAIN` -/
  | again
  | failed

inductive Direction
  | read
  | write

structure Memory where
  buf : Nat → UInt8
  file : Nat → UInt8

def Memory.move (dir : Direction) (off pos len : Nat) (m : Memory) : Memory :=
  match dir with
  | .read => { m with buf := fun i => if pos ≤ i ∧ i < pos + len then m.file (off + i) else m.buf i }
  | .write => { m with file := fun i =>
      if off + pos ≤ i ∧ i < off + pos + len then m.buf (i - off) else m.file i }

structure Transfer where
  dir : Direction
  n : Nat
  off : Nat

/-- The answers to the calls, and `st_size` as `fstat` gives it after each, or `none` where that fails. -/
structure Kernel where
  answer : Nat → Answer
  size : Nat → Option Nat

structure PioState where
  call : Nat
  pos : Nat
  stSize : Nat
  memory : Memory

def sectorsOf (res : Nat) : Nat := res / 512 * 512

def Kernel.stat (k : Kernel) (s : PioState) : Option Nat := if s.stSize = 0 then k.size s.call else some s.stSize

def pioTurn (p : Transfer) (k : Kernel) (s : PioState) : PioState ⊕ Int × Memory :=
  match k.answer s.call with
  | .again => .inl { s with call := s.call + 1 }
  | .failed => .inr (0, s.memory)
  | .moved bytes =>
      let res := min bytes (p.n - s.pos)
      let memory := s.memory.move p.dir p.off s.pos res
      if res = 0 then .inr (s.pos, s.memory)
      else if s.pos + res = p.n then .inr (p.n, memory)
      else
        match k.stat s with
        | none => .inr (-1, memory)
        | some size =>
            if p.off + s.pos + res = size then .inr ((s.pos + res : Nat), memory)
            else .inl ⟨s.call + 1, s.pos + sectorsOf res, size, memory⟩

def vhdAtomicPio (p : Transfer) (k : Kernel) (fuel : Nat) (memory : Memory) : Option (Int × Memory) :=
  loop (pioTurn p k) fuel ⟨0, 0, 0, memory⟩

theorem sectorsOf_le (res : Nat) : sectorsOf res ≤ res := Nat.div_mul_le_self res 512

theorem Memory.move_zero (dir : Direction) (off : Nat) (m : Memory) : m.move dir off 0 0 = m := by
  unfold Memory.move
  cases dir with
  | read =>
      have nothing : ∀ i, ¬ (0 ≤ i ∧ i < 0 + 0) := fun i both => Nat.not_lt_zero i both.2
      simp only [nothing, if_false]
  | write =>
      have nothing : ∀ i, ¬ (off + 0 ≤ i ∧ i < off + 0 + 0) := fun i both => absurd both.2 (Nat.not_lt_of_le both.1)
      simp only [nothing, if_false]

theorem Memory.move_move {dir : Direction} {off pos len got : Nat} (m : Memory) (inside : pos ≤ got) :
    (m.move dir off 0 got).move dir off pos len = m.move dir off 0 (max got (pos + len)) := by
  unfold Memory.move
  cases dir with
  | read =>
      dsimp only
      congr 1
      funext i
      by_cases now : pos ≤ i ∧ i < pos + len
      · rw [if_pos now, if_pos ⟨Nat.zero_le i, by omega⟩]
      · rw [if_neg now]
        by_cases before : i < got
        · rw [if_pos ⟨Nat.zero_le i, by omega⟩, if_pos ⟨Nat.zero_le i, by omega⟩]
        · rw [if_neg (by omega), if_neg (by omega)]
  | write =>
      dsimp only
      congr 1
      funext i
      by_cases now : off + pos ≤ i ∧ i < off + pos + len
      · rw [if_pos now, if_pos ⟨by omega, by omega⟩]
      · rw [if_neg now]
        by_cases before : off ≤ i ∧ i < off + got
        · rw [if_pos ⟨by omega, by omega⟩, if_pos ⟨by omega, by omega⟩]
        · rw [if_neg (by omega), if_neg (by omega)]

section Covers
variable {p : Transfer} {k : Kernel} {memory : Memory} {s t : PioState} {fuel : Nat}

def Covers (p : Transfer) (memory : Memory) (s : PioState) : Prop :=
  ∃ got, s.pos ≤ got ∧ got ≤ p.n ∧ s.memory = memory.move p.dir p.off 0 got

theorem Covers.next (covers : Covers p memory s) (next : pioTurn p k s = .inl t) : Covers p memory t := by
  obtain ⟨got, pos, most, same⟩ := covers
  unfold pioTurn at next
  split at next
  · cases next
    exact ⟨got, pos, most, same⟩
  · cases next
  rename_i bytes _
  dsimp only at next
  split at next
  · cases next
  split at next
  · cases next
  split at next
  · cases next
  split at next
  · cases next
  cases next
  have short := sectorsOf_le (min bytes (p.n - s.pos))
  refine ⟨max got (s.pos + min bytes (p.n - s.pos)), ?_, ?_, ?_⟩
  · dsimp only
    omega
  · omega
  · rw [same]
    exact memory.move_move pos

theorem Covers.leave {result : Int × Memory} (covers : Covers p memory s) (leave : pioTurn p k s = .inr result)
    (whole : result.1 = p.n) : result.2 = memory.move p.dir p.off 0 p.n := by
  obtain ⟨got, pos, most, same⟩ := covers
  unfold pioTurn at leave
  split at leave
  · cases leave
  · cases leave
    have none : p.n = 0 := (Int.ofNat.inj whole).symm
    have got' : got = p.n := by omega
    exact got' ▸ same
  rename_i bytes _
  dsimp only at leave
  split at leave
  · cases leave
    have all : s.pos = p.n := Int.ofNat.inj whole
    have got' : got = p.n := by omega
    exact got' ▸ same
  split at leave
  · rename_i _ last
    cases leave
    dsimp only
    rw [same, memory.move_move pos, last, Nat.max_eq_right most]
  rename_i other
  split at leave
  · cases leave
    exact absurd whole (by omega)
  split at leave
  · cases leave
    exact absurd (Int.ofNat.inj whole) other
  cases leave

theorem vhdAtomicPio_exact {result : Int × Memory} (returns : vhdAtomicPio p k fuel memory = some result)
    (whole : result.1 = p.n) : result.2 = memory.move p.dir p.off 0 p.n := by
  have start : Covers p memory ⟨0, 0, 0, memory⟩ := ⟨0, le_rfl, Nat.zero_le _, (memory.move_zero _ _).symm⟩
  exact loop_meets (P := fun result : Int × Memory => result.1 = p.n → result.2 = memory.move p.dir p.off 0 p.n)
    (fun _ _ covers next => Covers.next covers next) (fun _ _ covers leave => Covers.leave covers leave) start returns whole

end Covers

section Progress
variable {p : Transfer} {give : Nat → Nat} {size : Nat → Option Nat} {s : PioState} {j k : Nat}

def moving (give : Nat → Nat) (size : Nat → Option Nat) : Kernel := ⟨fun j => .moved (give j), size⟩

theorem moving_answer (j : Nat) : (moving give size).answer j = .moved (give j) := rfl

def progress (give : Nat → Nat) : Nat → Nat
  | 0 => 0
  | j + 1 => progress give j + sectorsOf (give j)

def known (size : Nat → Option Nat) : Nat → Nat
  | 0 => 0
  | j + 1 => if known size j = 0 then (size j).getD 0 else known size j

def Reaches (p : Transfer) (give : Nat → Nat) (size : Nat → Option Nat) (j : Nat) : Prop :=
  p.n ≤ progress give j + give j ∨ (known size j = 0 ∧ size j = none) ∨
    p.off + progress give j + give j = known size (j + 1)

def Stalls (p : Transfer) (give : Nat → Nat) (size : Nat → Option Nat) : Prop :=
  (∀ j, ¬ Reaches p give size j) ∧ ∃ k, ∀ j, k ≤ j → give j < 512

structure Follows (give : Nat → Nat) (size : Nat → Option Nat) (s : PioState) : Prop where
  pos : s.pos = progress give s.call
  stSize : s.stSize = known size s.call

theorem stat_eq (follows : Follows give size s) (works : ¬ (known size s.call = 0 ∧ size s.call = none)) :
    (moving give size).stat s = some (known size (s.call + 1)) := by
  unfold Kernel.stat known
  rw [follows.stSize]
  split
  case isTrue zero =>
    change size s.call = _
    cases answer : size s.call with
    | none => exact absurd ⟨zero, answer⟩ works
    | some value => rfl
  case isFalse => rfl

theorem pioTurn_next (follows : Follows give size s) (positive : 0 < give s.call)
    (goes : ¬ Reaches p give size s.call) :
    ∃ t, pioTurn p (moving give size) s = .inl t ∧ t.call = s.call + 1 ∧ Follows give size t := by
  have short : s.pos + give s.call < p.n := follows.pos ▸ Nat.lt_of_not_le fun all => goes (.inl all)
  have all : min (give s.call) (p.n - s.pos) = give s.call := Nat.min_eq_left (by omega)
  have stat := stat_eq follows fun fails => goes (.inr (.inl fails))
  have inside : p.off + s.pos + give s.call ≠ known size (s.call + 1) := follows.pos ▸ fun last => goes (.inr (.inr last))
  refine ⟨⟨s.call + 1, s.pos + sectorsOf (give s.call), known size (s.call + 1),
    s.memory.move p.dir p.off s.pos (give s.call)⟩, ?_, rfl, ?_, rfl⟩
  · unfold pioTurn
    rw [moving_answer]
    dsimp only
    rw [all, if_neg (Nat.ne_of_gt positive), if_neg (Nat.ne_of_lt short), stat]
    exact if_neg inside
  · exact congrArg (· + sectorsOf (give s.call)) follows.pos

theorem pioTurn_last (follows : Follows give size s) (reaches : Reaches p give size s.call) :
    ∃ result, pioTurn p (moving give size) s = .inr result := by
  unfold pioTurn
  rw [moving_answer]
  dsimp only
  split
  · exact ⟨_, rfl⟩
  split
  · exact ⟨_, rfl⟩
  rename_i some rest
  have pos := follows.pos
  have all : min (give s.call) (p.n - s.pos) = give s.call := by omega
  by_cases works : known size s.call = 0 ∧ size s.call = none
  · have fails : (moving give size).stat s = none := by
      unfold Kernel.stat
      rw [follows.stSize, if_pos works.1]
      exact works.2
    rw [fails]
    exact ⟨_, rfl⟩
  · rw [stat_eq follows works]
    rcases reaches with whole | fails | last
    · omega
    · exact absurd fails works
    · rw [all, pos]
      exact ⟨_, if_pos last⟩

theorem start_follows (memory : Memory) : Follows give size ⟨0, 0, 0, memory⟩ := ⟨rfl, rfl⟩

theorem pio_ends (memory : Memory) (reaches : Reaches p give size j) (positive : ∀ j, 0 < give j) :
    Ends (pioTurn p (moving give size)) ⟨0, 0, 0, memory⟩ := by
  refine ends_of_measure (I := fun s => s.call ≤ j ∧ Follows give size s) (fun s => j - s.call) ?_
    ⟨Nat.zero_le j, start_follows memory⟩
  rintro s t ⟨before, follows⟩ next
  have goes : ¬ Reaches p give size s.call := by
    intro last
    obtain ⟨result, leave⟩ := pioTurn_last follows last
    rw [leave] at next
    cases next
  have earlier : s.call < j := Nat.lt_of_le_of_ne before fun same => goes (same ▸ reaches)
  obtain ⟨u, goes', call, follows'⟩ := pioTurn_next follows (positive s.call) goes
  cases goes'.symm.trans next
  rw [call]
  exact ⟨⟨earlier, follows'⟩, by omega⟩

theorem pio_endless (memory : Memory) (goes : ∀ j, ¬ Reaches p give size j) (positive : ∀ j, 0 < give j) :
    ¬ Ends (pioTurn p (moving give size)) ⟨0, 0, 0, memory⟩ := by
  refine not_ends (I := Follows give size) (fun s follows => ?_) (start_follows memory)
  obtain ⟨t, next, _, follows'⟩ := pioTurn_next follows (positive s.call) (goes s.call)
  exact ⟨t, next, follows'⟩

theorem progress_mono (less : j ≤ k) : progress give j ≤ progress give k := by
  induction less with
  | refl => exact le_rfl
  | step _ ih => exact ih.trans (Nat.le_add_right _ _)

theorem slows (goes : ∀ j, ¬ Reaches p give size j) : ∃ k, ∀ j, k ≤ j → give j < 512 := by
  have bounded : ∀ j, progress give j < p.n := fun j => by
    have := Nat.lt_of_not_le fun all => goes j (.inl all)
    omega
  have settles : ∀ m k, p.n ≤ progress give k + m → ∃ k, ∀ j, k ≤ j → give j < 512 := by
    intro m
    induction m with
    | zero => exact fun k beyond => absurd (bounded k) (Nat.not_lt_of_le beyond)
    | succ m ih =>
        intro k beyond
        by_cases small : ∀ j, k ≤ j → give j < 512
        · exact ⟨k, small⟩
        · obtain ⟨j, later⟩ := not_forall.mp small
          obtain ⟨later, large⟩ := Classical.not_imp.mp later
          apply ih (j + 1)
          have grows : progress give k ≤ progress give j := progress_mono later
          have sector : 1 * 512 ≤ sectorsOf (give j) := Nat.mul_le_mul_right 512 (Nat.div_pos (by omega) (by decide))
          rw [progress]
          omega
  exact settles p.n 0 (Nat.le_add_left _ _)

/-- Where every call moves something, the transfer ends and is exact unless it stalls. -/
theorem vhdAtomicPio_iff (positive : ∀ j, 0 < give j) (memory : Memory) :
    ((∃ fuel result, vhdAtomicPio p (moving give size) fuel memory = some result) ∧
      ∀ fuel result, vhdAtomicPio p (moving give size) fuel memory = some result →
        result.1 = p.n → result.2 = memory.move p.dir p.off 0 p.n) ↔ ¬ Stalls p give size := by
  constructor
  · rintro ⟨ends, -⟩ ⟨goes, -⟩
    exact pio_endless memory goes positive ends
  · intro moves
    refine ⟨?_, fun fuel result => vhdAtomicPio_exact⟩
    by_contra endless
    have goes : ∀ j, ¬ Reaches p give size j := fun j reaches => endless (pio_ends memory reaches positive)
    exact moves ⟨goes, slows goes⟩

end Progress

theorem vhdAtomicPio_sectors :
    ((∃ fuel result, vhdAtomicPio ⟨.read, 1024, 0⟩ (moving (fun _ => 512) fun _ => some 4096) fuel ⟨fun _ => 0, fun _ => 1⟩
        = some result) ∧
      ∀ fuel result, vhdAtomicPio ⟨.read, 1024, 0⟩ (moving (fun _ => 512) fun _ => some 4096) fuel ⟨fun _ => 0, fun _ => 1⟩
        = some result → result.1 = 1024 →
        result.2 = Memory.move .read 0 0 1024 ⟨fun _ => 0, fun _ => 1⟩) ↔
    ¬ Stalls ⟨.read, 1024, 0⟩ (fun _ => 512) fun _ => some 4096 :=
  vhdAtomicPio_iff (p := ⟨.read, 1024, 0⟩) (fun _ => by decide) _

theorem bytes_endless : ¬ ∃ fuel result,
    vhdAtomicPio ⟨.read, 2, 0⟩ (moving (fun _ => 1) fun _ => some 4096) fuel ⟨fun _ => 0, fun _ => 1⟩ = some result := by
  have still : ∀ j, progress (fun _ => 1) j = 0 := by
    intro j
    induction j with
    | zero => rfl
    | succ j ih =>
        rw [progress, ih]
        rfl
  have size : ∀ j, known (fun _ => some 4096) (j + 1) = 4096 := by
    intro j
    unfold known
    induction j with
    | zero => rfl
    | succ j ih =>
        rw [known, ih]
        rfl
  refine pio_endless (p := ⟨.read, 2, 0⟩) _ (fun j => ?_) fun _ => Nat.one_pos
  rintro (whole | ⟨-, fails⟩ | last)
  · rw [still j] at whole
    dsimp only at whole
    omega
  · cases fails
  · rw [still j, size j] at last
    dsimp only at last
    omega

end Blktap.Libvhd
