import Blktap.Libvhdio.Transfer

/-! # The bytes of a partition -/

namespace Blktap.Libvhdio
open Lib

variable {σ : Type} (io : VhdIo σ)

def Transfer.reaches (s : Descriptor σ) : Transfer → Outcome (Option Libvhd.ByteRange)
  | .read count _ => io.range s.part s.part.noRead count s.off s.image
  | .write count _ => io.range s.part s.part.noWrite count s.off s.image
  | .pread count offset _ => io.range s.part s.part.noRead count offset s.image
  | .pwrite count offset _ => io.range s.part s.part.noWrite count offset s.image
  | .lseek offset whence => do
      let _ ← (Libvhdio.lseek offset whence s).1
      .ok none

def Transfer.writes : Transfer → Bool
  | .write _ _ => true
  | .pwrite _ _ _ => true
  | _ => false

def Partition.readOnly (part : Partition) : Bool := part.flags % 4 == 0

def Partition.Holds (part : Partition) (range : Libvhd.ByteRange) : Prop :=
  0 < range.size → part.start * 512 ≤ range.off ∧ range.off + range.size ≤ (part.start + part.size) * 512

structure Confined (s : Descriptor σ) (call : Transfer) : Prop where
  defined : call.reaches io s ≠ .undefined
  inside : ∀ range, call.reaches io s = .ok (some range) → s.part.Holds range
  refused : call.writes = true → s.part.readOnly = true → ∃ code, call.reaches io s = .error code

def VhdIo.Refuses (part : Partition) (count : UInt64) (offset : Int) (image : σ) : Prop :=
  part.Near offset ∧ ∃ code, io.admits image (part.asked count offset) = .error code

def VhdIo.Proper (part : Partition) (count : UInt64) (offset : Int) (image : σ) : Prop :=
  0 ≤ offset ∨ (count = 0 ∧ part.Near offset) ∨ io.Refuses part count offset image

def VhdIo.ReadProper (part : Partition) (count : UInt64) (offset : Int) (image : σ) : Prop :=
  part.Fits ∧ (part.noRead = true ∨ io.Proper part count offset image)

def VhdIo.WriteProper (part : Partition) (count : UInt64) (offset : Int) (image : σ) : Prop :=
  part.Fits ∧ io.Proper part count offset image ∧
    (part.readOnly = true → offset < part.size * 512 ∧ io.Refuses part count offset image)

def Transfer.Proper (s : Descriptor σ) : Transfer → Prop
  | .read count _ => io.ReadProper s.part count s.off s.image
  | .write count _ => io.WriteProper s.part count s.off s.image
  | .pread count offset _ => io.ReadProper s.part count offset s.image
  | .pwrite count offset _ => io.WriteProper s.part count offset s.image
  | .lseek offset whence => ∀ origin, s.origin whence = some origin →
      s.part.Fits ∧ Off64 (origin + offset)

section Range
variable {io} {part : Partition} {refused : Bool} {count : UInt64} {offset : Int} {image : σ}
  {range : Libvhd.ByteRange} {s : Descriptor σ} {code : Int}

theorem holds_asked (fits : part.Fits) (low : 0 ≤ offset) (before : ¬ part.size * 512 ≤ offset) :
    part.Holds (part.asked count offset) := by
  intro positive
  have start := part.start_lt
  have size := part.size_lt
  unfold Partition.Fits Off64 at fits
  have whole : (offset + part.start * 512) % 2 ^ 64 = offset + part.start * 512 :=
    Int.emod_eq_of_lt (by omega) (by omega)
  unfold Partition.asked at positive ⊢
  dsimp only at positive ⊢
  rw [whole]
  omega

theorem not_holds_asked (fits : part.Fits) (low : ¬ 0 ≤ offset) (near : part.Near offset) (some : count ≠ 0) :
    ¬ part.Holds (part.asked count offset) := by
  intro holds
  have start := part.start_lt
  have size := part.size_lt
  have positive : count.toNat ≠ 0 := fun zero => some (UInt64.toNat_inj.mp zero)
  unfold Partition.Fits Off64 at fits
  unfold Partition.Near Off64 at near
  unfold Partition.asked at holds
  obtain ⟨first, last⟩ := holds (by dsimp only; omega)
  dsimp only at first last
  by_cases below : 0 ≤ offset + part.start * 512
  · rw [Int.emod_eq_of_lt below (by omega)] at first
    omega
  · have wrapped : (offset + part.start * 512) % 2 ^ 64 = offset + part.start * 512 + 2 ^ 64 := by
      rw [← Int.add_emod_right, Int.emod_eq_of_lt (by omega) (by omega)]
    rw [wrapped] at last
    omega

theorem refuses_iff (near : part.Near offset) :
    io.Refuses part count offset image ↔ io.admits image (part.asked count offset) ≠ .ok () := by
  constructor
  · rintro ⟨_, code, refused⟩ taken
    rw [refused] at taken
    cases taken
  · intro refused
    exact ⟨near, (admits_cases ..).resolve_left refused⟩

theorem range_proper :
    (io.range part refused count offset image ≠ .undefined ∧
        ∀ range, io.range part refused count offset image = .ok (some range) → part.Holds range) ↔
      part.Fits ∧ (refused = true ∨ io.Proper part count offset image) := by
  by_cases fits : part.Fits
  case neg =>
    rw [range_overflow fits]
    exact iff_of_false (fun h => h.1 rfl) (fun h => fits h.1)
  cases refused with
  | true =>
      rw [range_refused fits]
      exact iff_of_true ⟨nofun, nofun⟩ ⟨fits, .inl rfl⟩
  | false =>
      by_cases behind : part.size * 512 ≤ offset
      · rw [range_behind fits behind]
        exact iff_of_true ⟨nofun, nofun⟩ ⟨fits, .inr (.inl (by omega))⟩
      by_cases near : part.Near offset
      case neg =>
        rw [range_far fits behind near]
        refine iff_of_false (fun h => h.1 rfl) ?_
        rintro ⟨_, h | low | ⟨_, h⟩ | ⟨h, _⟩⟩
        · cases h
        · unfold Partition.Near Partition.Fits Off64 at *
          omega
        · exact near h
        · exact near h
      rw [range_asked fits behind near]
      by_cases taken : io.admits image (part.asked count offset) = .ok ()
      · have takes : ¬ io.Refuses part count offset image := fun refuses => (refuses_iff near).mp refuses taken
        rw [taken, Outcome.ok_bind]
        have held : (∀ range, Outcome.ok (some (part.asked count offset)) = .ok (some range) → part.Holds range) ↔
            part.Holds (part.asked count offset) :=
          ⟨fun holds => holds _ rfl, fun holds range same => by cases same; exact holds⟩
        rw [held]
        by_cases low : 0 ≤ offset
        · exact iff_of_true ⟨nofun, holds_asked fits low behind⟩ ⟨fits, .inr (.inl low)⟩
        by_cases none : count = 0
        · refine iff_of_true ⟨nofun, fun positive => ?_⟩ ⟨fits, .inr (.inr (.inl ⟨none, near⟩))⟩
          unfold Partition.asked at positive
          rw [none] at positive
          exact absurd positive (by simp)
        · refine iff_of_false (fun h => not_holds_asked fits low near none h.2) ?_
          rintro ⟨_, h | h | ⟨h, _⟩ | h⟩
          · cases h
          · exact low h
          · exact none h
          · exact takes h
      · obtain ⟨code, refused⟩ := (admits_cases ..).resolve_left taken
        rw [refused]
        exact iff_of_true ⟨nofun, nofun⟩ ⟨fits, .inr (.inr (.inr ⟨near, code, refused⟩))⟩

theorem range_error (fits : part.Fits) :
    (∃ code, io.range part false count offset image = .error code) ↔
      offset < part.size * 512 ∧ io.Refuses part count offset image := by
  by_cases behind : part.size * 512 ≤ offset
  · rw [range_behind fits behind]
    exact iff_of_false nofun (fun h => by omega)
  by_cases near : part.Near offset
  case neg =>
    rw [range_far fits behind near]
    exact iff_of_false nofun (fun h => near h.2.1)
  rw [range_asked fits behind near]
  by_cases taken : io.admits image (part.asked count offset) = .ok ()
  · rw [taken]
    exact iff_of_false nofun fun h => (refuses_iff near).mp h.2 taken
  · obtain ⟨code, refused⟩ := (admits_cases ..).resolve_left taken
    rw [refused]
    exact iff_of_true ⟨code, rfl⟩ ⟨by omega, near, code, refused⟩

theorem onImage_refused {data : Nat → UInt8}
    (refuses : io.range s.part s.part.noWrite count offset s.image = .error code) :
    onImage (libvhdIoPwrite io s.part count offset data) s = (.error code, s) := by
  unfold onImage
  rw [pwrite_refused refuses]

theorem refused_unchanged {call : Transfer} (refused : call.reaches io s = .error code) :
    call.perform io s = (.error code, s) := by
  cases call with
  | read count buf =>
      change Libvhdio.read io count buf s = _
      unfold Libvhdio.read
      rw [Action.get_bind, pread_refused refused, Action.lift_error_bind]
  | write count data =>
      change Libvhdio.write io count data s = _
      unfold Libvhdio.write
      rw [Action.get_bind]
      exact Action.bind_error (onImage_refused refused)
  | pread count offset buf =>
      change Libvhdio.pread io count offset buf s = _
      unfold Libvhdio.pread
      rw [Action.get_bind, pread_refused refused]
      rfl
  | pwrite count offset data =>
      change Libvhdio.pwrite io count offset data s = _
      unfold Libvhdio.pwrite
      rw [Action.get_bind]
      exact onImage_refused refused
  | lseek offset whence =>
      change (Libvhdio.lseek offset whence s).1 >>= _ = _ at refused
      change Libvhdio.lseek offset whence s = _
      rcases lseek_cases s offset whence with ⟨newOff, -, result⟩ | ⟨code', result⟩ | result
      · rw [result] at refused
        cases refused
      · rw [result] at refused ⊢
        cases refused
        rfl
      · rw [result] at refused
        cases refused

end Range

theorem lseek_defined {s : Descriptor σ} {offset : Int} {whence : Whence} :
    (lseek offset whence s).1 ≠ .undefined ↔
      ∀ origin, s.origin whence = some origin → s.part.Fits ∧ Off64 (origin + offset) := by
  unfold lseek
  rw [Action.get_bind]
  cases s.origin whence with
  | none => exact iff_of_true nofun nofun
  | some origin =>
      dsimp only
      by_cases fits : s.part.Fits ∧ Off64 (origin + offset)
      · rw [if_neg (not_not_intro fits)]
        refine iff_of_true ?_ fun origin' same => Option.some.inj same ▸ fits
        split
        · exact nofun
        · exact nofun
      · rw [if_pos fits]
        exact iff_of_false (fun defined => defined rfl) fun all => fits (all origin rfl)

def Transfer.effect (range : Libvhd.ByteRange) (image : σ) : Transfer → σ
  | .write _ data => (io.write range data image).2
  | .pwrite _ _ data => (io.write range data image).2
  | _ => image

theorem pwrite_image (part : Partition) (count : UInt64) (offset : Int) (data : Nat → UInt8) (image : σ) :
    (libvhdIoPwrite io part count offset data image).2 =
      match io.range part part.noWrite count offset image with
      | .ok (some range) => (io.write range data image).2
      | _ => image := by
  unfold libvhdIoPwrite
  rw [Action.get_bind]
  rcases result : io.range part part.noWrite count offset image with (_ | range) | code | _
  · rfl
  · exact Action.bind_snd (m := io.write range data) (fun image => image) (fun _ _ => rfl) image
  · rfl
  · rfl

theorem unread {image : σ} (reached : Outcome (Option Libvhd.ByteRange)) :
    (match reached with
      | .ok (some _) => image
      | _ => image) = image := by
  rcases reached with (_ | range) | code | _ <;> rfl

theorem perform_image (s : Descriptor σ) (call : Transfer) :
    (call.perform io s).2.image =
      match call.reaches io s with
      | .ok (some range) => call.effect io range s.image
      | _ => s.image := by
  cases call with
  | read count buf =>
      refine Eq.trans ?_ (unread _).symm
      exact Action.bind_snd (m := Action.lift _) Descriptor.image (fun _ _ => rfl) s
  | write count data =>
      refine Eq.trans ?_ (pwrite_image io s.part count s.off data s.image)
      exact Action.bind_snd (m := onImage (libvhdIoPwrite io s.part count s.off data)) Descriptor.image
        (fun _ _ => rfl) s
  | pread count offset buf => exact (unread _).symm
  | pwrite count offset data => exact pwrite_image io s.part count offset data s.image
  | lseek offset whence =>
      refine Eq.trans ?_ (unread _).symm
      rcases lseek_cases s offset whence with ⟨newOff, -, result⟩ | ⟨code, result⟩ | result
      · exact congrArg (fun result => result.2.image) result
      · exact congrArg (fun result => result.2.image) result
      · exact congrArg (fun result => result.2.image) result

section Calls
variable {io} {s : Descriptor σ} {call : Transfer} {count : UInt64} {offset : Int}

theorem confined_read (kind : call.writes = false)
    (reaches : call.reaches io s = io.range s.part s.part.noRead count offset s.image) :
    Confined io s call ↔ io.ReadProper s.part count offset s.image := by
  rw [VhdIo.ReadProper, ← range_proper, ← reaches]
  constructor
  · exact fun confined => ⟨confined.defined, confined.inside⟩
  · intro ⟨defined, inside⟩
    exact { defined, inside, refused := fun writes => by rw [kind] at writes; cases writes }

theorem confined_write (kind : call.writes = true)
    (reaches : call.reaches io s = io.range s.part s.part.noWrite count offset s.image) :
    Confined io s call ↔ io.WriteProper s.part count offset s.image := by
  rw [noWrite_false] at reaches
  constructor
  · intro confined
    have ⟨defined, inside, _⟩ := confined
    rw [reaches] at defined inside
    have proper := range_proper.mp ⟨defined, inside⟩
    refine ⟨proper.1, proper.2.resolve_left nofun, fun readOnly => ?_⟩
    exact (range_error proper.1).mp (reaches ▸ confined.refused kind readOnly)
  · rintro ⟨fits, proper, readOnly⟩
    have ⟨defined, inside⟩ := range_proper.mpr (⟨fits, .inr proper⟩ : _ ∧ (false = true ∨ _))
    rw [← reaches] at defined inside
    exact {
      defined, inside
      refused := fun _ mode => reaches ▸ (range_error fits).mpr (readOnly mode) }

theorem confined_lseek {whence : Whence} :
    Confined io s (.lseek offset whence) ↔ (Transfer.lseek offset whence).Proper io s := by
  refine Iff.trans ?_ lseek_defined
  have reaches : (Transfer.lseek offset whence).reaches io s =
      (lseek offset whence s).1 >>= fun _ => .ok none := rfl
  constructor
  · intro confined overflow
    apply confined.defined
    rw [reaches, overflow]
    rfl
  · intro defined
    refine ⟨?_, ?_, nofun⟩
    · rcases lseek_cases s offset whence with ⟨newOff, -, result⟩ | ⟨code, result⟩ | result
      · rw [reaches, result]
        exact nofun
      · rw [reaches, result]
        exact nofun
      · exact absurd (by rw [result]) defined
    · intro range returns
      rcases lseek_cases s offset whence with ⟨newOff, -, result⟩ | ⟨code, result⟩ | result
      all_goals
        rw [reaches, result] at returns
        cases returns

end Calls

theorem confined_iff (s : Descriptor σ) (call : Transfer) : Confined io s call ↔ call.Proper io s := by
  cases call with
  | read count buf => exact confined_read rfl rfl
  | write count data => exact confined_write rfl rfl
  | pread count offset buf => exact confined_read rfl rfl
  | pwrite count offset data => exact confined_write rfl rfl
  | lseek offset whence => exact confined_lseek

def middle (flags : Nat) : Descriptor Libvhd.Handle where
  part := { start := 1, size := 2, flags, start_lt := by decide, size_lt := .inr (by decide) }
  off := 0
  image := fixedImage 4

theorem middle_not_confined :
    ¬ Confined (vhdIo .nothing fun _ => 0) (middle 2) (.pread 512 (-512) fun _ => 0) ∧
      ¬ Confined (vhdIo .nothing fun _ => 0) (middle 0) (.write 512 fun _ => 0) := by
  have fits : ∀ flags, (middle flags).part.Fits := by simp [Partition.Fits, Off64, middle]
  refine ⟨fun confined => ?_, fun confined => ?_⟩
  · have before : (Transfer.pread 512 (-512) fun _ => 0).reaches (vhdIo .nothing fun _ => 0) (middle 2) =
        .ok (some ⟨0, 512⟩) := by
      have reads : (middle 2).part.noRead = false := by simp [Partition.noRead, middle]
      have near : (middle 2).part.Near (-512) := by simp [Partition.Near, Off64, middle]
      rw [Transfer.reaches, reads, range_asked (fits 2) (by simp [middle]) near]
      simp [VhdIo.admits, Partition.asked, middle, vhdIo, fixedImage, Libvhd.vhdInitializeFooter]
    have held := confined.inside ⟨0, 512⟩ before (by simp)
    simp [middle] at held
  · have first : (Transfer.write 512 fun _ => 0).reaches (vhdIo .nothing fun _ => 0) (middle 0) =
        .ok (some ⟨512, 512⟩) := by
      have near : (middle 0).part.Near (middle 0).off := by simp [Partition.Near, Off64, middle]
      rw [Transfer.reaches, noWrite_false, range_asked (fits 0) (by simp [middle]) near]
      simp [VhdIo.admits, Partition.asked, middle, vhdIo, fixedImage, Libvhd.vhdInitializeFooter]
    obtain ⟨code, refused⟩ := confined.refused rfl rfl
    rw [first] at refused
    cases refused

end Blktap.Libvhdio
