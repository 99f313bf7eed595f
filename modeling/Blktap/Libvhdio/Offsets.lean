import Blktap.Lib.Run
import Blktap.Libvhdio.Transfer

/-! # The offset of a descriptor -/

namespace Blktap.Libvhdio
open Lib

variable {σ : Type} (io : VhdIo σ)

def VhdIo.readBytes (image : σ) (range : Libvhd.ByteRange) (buf : Nat → UInt8) : Outcome (Nat → UInt8) := do
  io.admits image range
  io.read image range buf

def VhdIo.writeBytes (range : Libvhd.ByteRange) (data : Nat → UInt8) : Action σ Unit := do
  let image ← Action.get
  Action.lift (io.admits image range)
  io.write range data

def Descriptor.rest (s : Descriptor σ) : Int := s.part.size * 512 - s.off

def Descriptor.expected (s : Descriptor σ) (ret : Nat) : Libvhd.ByteRange where
  off := s.part.start * 512 + s.off.toNat
  size := ret

def Moves (s : Descriptor σ) (count : UInt64) (effect : Reply → σ → Prop) :
    Outcome Reply × Descriptor σ → Prop
  | (.ok reply, t) => (reply.ret : Int) = min (count.toNat : Int) s.rest ∧ t.off = s.off + reply.ret ∧
      (0 < reply.ret → effect reply t.image)
  | (.error _, t) => t.off = s.off
  | (.undefined, _) => False

def Transfer.Tracks (s : Descriptor σ) : Transfer → Prop
  | .read count buf => Moves s count
      (fun reply _ => io.read s.image (s.expected reply.ret) buf = .ok reply.data) (Libvhdio.read io count buf s)
  | .write count data => Moves s count
      (fun reply image => image = (io.write (s.expected reply.ret) data s.image).2)
      (Libvhdio.write io count data s)
  | .lseek offset whence =>
      match Libvhdio.lseek offset whence s with
      | (.ok reply, t) => ∃ origin, s.origin whence = some origin ∧ t.off = origin + offset ∧ t.off = reply.ret
      | (.error _, t) => t.off = s.off
      | (.undefined, _) => False
  | call => (call.perform io s).2.off = s.off

def Descriptor.Takes {α : Type} (s : Descriptor σ) (count : UInt64) (answer : Outcome α) : Prop :=
  (0 < s.rest ∧ ∃ code, answer = .error code) ∨
    (count.toNat ≤ s.rest ∧ (0 < s.rest → ∃ a, answer = .ok a))

def Transfer.Fits (s : Descriptor σ) : Transfer → Prop
  | .read count buf => s.part.Fits ∧
      (s.part.noRead = true ∨ s.Takes count (io.readBytes s.image (s.part.asked count s.off) buf))
  | .write count data => s.part.Fits ∧ s.Takes count (io.writeBytes (s.part.asked count s.off) data s.image).1
  | .lseek offset whence => ∀ origin, s.origin whence = some origin → s.part.Fits ∧ Off64 (origin + offset)
  | _ => True

def Descriptor.InDisk (s : Descriptor σ) : Prop := 0 ≤ s.off ∧ s.off ≤ s.part.size * 512

def transferStep (s : Descriptor σ) (call : Transfer) : Option (Descriptor σ) :=
  match call.perform io s with
  | (.undefined, _) => none
  | (_, t) => some t

section Steps
variable {io} {s t : Descriptor σ} {count : UInt64} {buf data : Nat → UInt8}

theorem pread_behind (fits : s.part.Fits) (reads : s.part.noRead = false) (behind : s.rest ≤ 0) :
    libvhdIoPread io s.part count s.off buf s.image = .ok ⟨0, buf⟩ := by
  unfold Descriptor.rest at behind
  unfold libvhdIoPread
  rw [reads, range_behind fits (by omega)]
  rfl

theorem near_of_inDisk (fits : s.part.Fits) (inDisk : s.InDisk) : s.part.Near s.off := by
  unfold Descriptor.InDisk at inDisk
  unfold Partition.Near Partition.Fits Off64 at *
  omega

theorem pread_asked (fits : s.part.Fits) (reads : s.part.noRead = false) (inDisk : s.InDisk)
    (before : 0 < s.rest) :
    libvhdIoPread io s.part count s.off buf s.image =
      io.readBytes s.image (s.part.asked count s.off) buf >>= fun data =>
        .ok ⟨(s.part.asked count s.off).size, data⟩ := by
  unfold Descriptor.rest at before
  unfold libvhdIoPread VhdIo.readBytes
  rw [reads, range_asked fits (by omega) (near_of_inDisk fits inDisk)]
  rcases admits_cases io s.image (s.part.asked count s.off) with taken | ⟨code, refused⟩
  · rw [taken]
    rfl
  · rw [refused]
    rfl

theorem pwrite_behind (fits : s.part.Fits) (behind : s.rest ≤ 0) :
    libvhdIoPwrite io s.part count s.off data s.image = (.ok ⟨0, data⟩, s.image) := by
  unfold Descriptor.rest at behind
  unfold libvhdIoPwrite
  rw [Action.get_bind, noWrite_false, range_behind fits (by omega), Action.lift_ok_bind]
  rfl

theorem writeBytes_taken {image : σ} {range : Libvhd.ByteRange} (taken : io.admits image range = .ok ()) :
    io.writeBytes range data image = io.write range data image := by
  unfold VhdIo.writeBytes
  rw [Action.get_bind, taken, Action.lift_ok_bind]

theorem writeBytes_refused {image : σ} {range : Libvhd.ByteRange} {code : Int}
    (refused : io.admits image range = .error code) : io.writeBytes range data image = (.error code, image) := by
  unfold VhdIo.writeBytes
  rw [Action.get_bind, refused, Action.lift_error_bind]

theorem pwrite_asked (fits : s.part.Fits) (inDisk : s.InDisk) (before : 0 < s.rest) :
    libvhdIoPwrite io s.part count s.off data s.image =
      (io.writeBytes (s.part.asked count s.off) data >>= fun _ =>
        pure ⟨(s.part.asked count s.off).size, data⟩ : Action σ Reply) s.image := by
  unfold Descriptor.rest at before
  unfold libvhdIoPwrite
  rw [Action.get_bind, noWrite_false, range_asked fits (by omega) (near_of_inDisk fits inDisk)]
  rcases admits_cases io s.image (s.part.asked count s.off) with taken | ⟨code, refused⟩
  · rw [taken, Action.bind_congr (writeBytes_taken taken)]
    rfl
  · rw [refused, Action.bind_error (writeBytes_refused refused)]
    rfl

theorem asked_eq (fits : s.part.Fits) (inDisk : s.InDisk) :
    s.part.asked count s.off = s.expected (min count.toNat s.rest.toNat) := by
  have start := s.part.start_lt
  unfold Partition.Fits Off64 at fits
  unfold Descriptor.InDisk at inDisk
  unfold Partition.asked Descriptor.expected Descriptor.rest
  rw [Int.emod_eq_of_lt (by omega) (by omega)]
  congr 1
  omega

theorem advance_off (fits : s.part.Fits) (inDisk : s.InDisk) {ret : Nat} (some : ret ≤ count.toNat)
    (within : ret ≤ s.rest) : (s.advance count).off = s.off + ret ↔ count.toNat = ret := by
  unfold Partition.Fits Off64 at fits
  unfold Descriptor.InDisk at inDisk
  unfold Descriptor.rest at within
  have small := count.toNat_lt
  unfold Descriptor.advance
  dsimp only
  constructor
  · intro right
    have same := long_emod ((s.off + count.toNat) % 2 ^ 64).toNat
    rw [right] at same
    omega
  · intro all
    rw [all, Int.emod_eq_of_lt (by omega) (by omega), long_of_lt (by omega)]
    omega

theorem readBytes_ok {image : σ} {range : Libvhd.ByteRange} {bytes : Nat → UInt8}
    (answer : io.readBytes image range buf = .ok bytes) : io.read image range buf = .ok bytes := by
  unfold VhdIo.readBytes at answer
  rcases admits_cases io image range with taken | ⟨code, refused⟩
  · rwa [taken] at answer
  · rw [refused] at answer
    cases answer

theorem writeBytes_ok {image image' : σ} {range : Libvhd.ByteRange}
    (answer : io.writeBytes range data image = (.ok (), image')) : image' = (io.write range data image).2 := by
  rcases admits_cases io image range with taken | ⟨code, refused⟩
  · rw [writeBytes_taken taken] at answer
    rw [answer]
  · rw [writeBytes_refused refused] at answer
    cases answer

def Descriptor.finish (s : Descriptor σ) (count : UInt64) : Outcome Reply × σ → Outcome Reply × Descriptor σ
  | (.ok reply, image) => (.ok reply, { s with image }.advance count)
  | (.error code, image) => (.error code, { s with image })
  | (.undefined, image) => (.undefined, { s with image })

theorem read_eq (io : VhdIo σ) (s : Descriptor σ) (count : UInt64) (buf : Nat → UInt8) :
    Libvhdio.read io count buf s = s.finish count (libvhdIoPread io s.part count s.off buf s.image, s.image) := by
  unfold Libvhdio.read
  rw [Action.get_bind]
  rcases libvhdIoPread io s.part count s.off buf s.image with reply | code | _ <;> rfl

theorem write_eq (s : Descriptor σ) (count : UInt64) (data : Nat → UInt8) :
    Libvhdio.write io count data s = s.finish count (libvhdIoPwrite io s.part count s.off data s.image) := by
  unfold Libvhdio.write
  rw [Action.get_bind]
  have on : onImage (libvhdIoPwrite io s.part count s.off data) s =
      ((libvhdIoPwrite io s.part count s.off data s.image).1,
        { s with image := (libvhdIoPwrite io s.part count s.off data s.image).2 }) := rfl
  rcases result : libvhdIoPwrite io s.part count s.off data s.image with ⟨reply | code | _, image⟩
  · rw [result] at on
    exact Action.bind_ok.mpr ⟨reply, _, on, rfl⟩
  · rw [result] at on
    exact Action.bind_error on
  · rw [result] at on
    exact Action.bind_undefined on

def Descriptor.Cuts (s : Descriptor σ) (count : UInt64) (effect : Reply → σ → Prop) (result : Outcome Reply × σ) :
    Prop :=
  ∀ reply image, result = (.ok reply, image) →
    (reply.ret : Int) = min (count.toNat : Int) s.rest ∧ (0 < reply.ret → effect reply image)

theorem finish_moves {effect : Reply → σ → Prop} {result : Outcome Reply × σ} (fits : s.part.Fits)
    (inDisk : s.InDisk) (cuts : s.Cuts count effect result) :
    Moves s count effect (s.finish count result) ↔
      (∃ code, result.1 = .error code) ∨ (count.toNat ≤ s.rest ∧ ∃ reply, result.1 = .ok reply) := by
  rcases result with ⟨reply | code | _, image⟩
  · obtain ⟨ret, works⟩ := cuts reply image rfl
    have off : ({ s with image }.advance count).off = s.off + reply.ret ↔ count.toNat = reply.ret :=
      advance_off fits inDisk (by omega) (by omega)
    constructor
    · rintro ⟨-, right, -⟩
      have all := off.mp right
      exact .inr ⟨by omega, reply, rfl⟩
    · rintro (⟨code, failed⟩ | ⟨within, -⟩)
      · cases failed
      · exact ⟨ret, off.mpr (by omega), works⟩
  · exact iff_of_true rfl (.inl ⟨code, rfl⟩)
  · refine iff_of_false id ?_
    rintro (⟨code, failed⟩ | ⟨_, reply, returned⟩)
    · cases failed
    · cases returned

theorem read_tracks (inDisk : s.InDisk) :
    (Transfer.read count buf).Tracks io s ↔ (Transfer.read count buf).Fits io s := by
  unfold Transfer.Tracks Transfer.Fits
  dsimp only
  rw [read_eq]
  by_cases fits : s.part.Fits
  case neg =>
    rw [pread_overflow fits]
    exact iff_of_false id fun h => fits h.1
  rcases mode : s.part.noRead with _ | _
  case true =>
    rw [pread_refused (mode ▸ range_refused fits)]
    exact iff_of_true rfl ⟨fits, .inl rfl⟩
  by_cases before : 0 < s.rest
  · rw [pread_asked fits mode inDisk before, asked_eq fits inDisk, finish_moves fits inDisk]
    · rcases io.readBytes s.image (s.expected (min count.toNat s.rest.toNat)) buf with bytes | code | _
      all_goals simp [Descriptor.Takes, fits, before]
    · intro reply image same
      rcases answer : io.readBytes s.image (s.expected (min count.toNat s.rest.toNat)) buf with bytes | code | _
      all_goals
        rw [answer] at same
        cases same
      refine ⟨by unfold Descriptor.expected; dsimp only; omega, fun _ => ?_⟩
      exact readBytes_ok answer
  · have rest : s.rest = 0 := by
      unfold Descriptor.InDisk at inDisk
      unfold Descriptor.rest at *
      omega
    rw [pread_behind fits mode (by omega), finish_moves fits inDisk]
    · simp [Descriptor.Takes, fits, rest]
    · intro reply image same
      cases same
      exact ⟨by dsimp only; omega, nofun⟩

theorem write_tracks (inDisk : s.InDisk) :
    (Transfer.write count data).Tracks io s ↔ (Transfer.write count data).Fits io s := by
  unfold Transfer.Tracks Transfer.Fits
  dsimp only
  rw [write_eq]
  by_cases fits : s.part.Fits
  case neg =>
    rw [pwrite_overflow fits]
    exact iff_of_false id fun h => fits h.1
  by_cases before : 0 < s.rest
  · rw [pwrite_asked fits inDisk before, asked_eq fits inDisk, finish_moves fits inDisk]
    · rcases answer : io.writeBytes (s.expected (min count.toNat s.rest.toNat)) data s.image with ⟨_ | code | _, image⟩
      · rw [Action.bind_ok.mpr ⟨_, _, answer, rfl⟩]
        simp [Descriptor.Takes, fits, before]
      · rw [Action.bind_error answer]
        simp [Descriptor.Takes, fits, before]
      · rw [Action.bind_undefined answer]
        simp [Descriptor.Takes, fits, before]
    · intro reply image same
      obtain ⟨_, image', answer, same⟩ := Action.bind_ok.mp same
      cases same
      refine ⟨by unfold Descriptor.expected; dsimp only; omega, fun _ => ?_⟩
      exact writeBytes_ok answer
  · have rest : s.rest = 0 := by
      unfold Descriptor.InDisk at inDisk
      unfold Descriptor.rest at *
      omega
    rw [pwrite_behind fits (by omega), finish_moves fits inDisk]
    · simp [Descriptor.Takes, fits, rest]
    · intro reply image same
      cases same
      exact ⟨by dsimp only; omega, nofun⟩

theorem lseek_tracks {offset : Int} {whence : Whence} :
    (Transfer.lseek offset whence).Tracks io s ↔ (Transfer.lseek offset whence).Fits io s := by
  unfold Transfer.Tracks Transfer.Fits Libvhdio.lseek
  dsimp only
  rw [Action.get_bind]
  rcases start : s.origin whence with _ | origin
  · exact iff_of_true rfl nofun
  dsimp only
  by_cases fits : s.part.Fits ∧ Off64 (origin + offset)
  case neg =>
    rw [if_pos fits]
    exact iff_of_false id fun all => fits (all origin rfl)
  rw [if_neg (not_not_intro fits)]
  refine iff_of_true ?_ fun _ same => Option.some.inj same ▸ fits
  by_cases outside : origin + offset < 0 ∨ s.part.size * 512 < origin + offset
  · rw [if_pos outside]
    rfl
  · have positive : 0 ≤ origin + offset := by omega
    rw [if_neg outside]
    exact ⟨origin, rfl, rfl, (Int.toNat_of_nonneg positive).symm⟩

theorem tracks_iff (inDisk : s.InDisk) (call : Transfer) : call.Tracks io s ↔ call.Fits io s := by
  cases call with
  | read count buf => exact read_tracks inDisk
  | write count data => exact write_tracks inDisk
  | lseek offset whence => exact lseek_tracks
  | pread count offset buf => exact iff_of_true rfl trivial
  | pwrite count offset data => exact iff_of_true rfl trivial

theorem perform_part (io : VhdIo σ) (s : Descriptor σ) (call : Transfer) : (call.perform io s).2.part = s.part := by
  cases call with
  | read count buf =>
      exact Action.bind_snd (m := Action.lift _) Descriptor.part (fun _ _ => rfl) s
  | write count data =>
      exact Action.bind_snd (m := onImage (libvhdIoPwrite io s.part count s.off data)) Descriptor.part
        (fun _ _ => rfl) s
  | pread count offset buf => rfl
  | pwrite count offset data => rfl
  | lseek offset whence =>
      rcases lseek_cases s offset whence with ⟨newOff, -, result⟩ | ⟨code, result⟩ | result
      all_goals exact congrArg (fun result => result.2.part) result

theorem moves_inDisk {effect : Reply → σ → Prop} {result : Outcome Reply × Descriptor σ} (inDisk : s.InDisk)
    (moves : Moves s count effect result) (part : result.2.part = s.part) : result.2.InDisk := by
  unfold Descriptor.InDisk at *
  rw [part]
  rcases result with ⟨reply | code | _, t⟩
  · obtain ⟨ret, off, -⟩ := moves
    unfold Descriptor.rest at ret
    dsimp only
    omega
  · rwa [show t.off = s.off from moves]
  · exact moves.elim

theorem fits_inDisk (inDisk : s.InDisk) {call : Transfer} (fits : call.Fits io s) :
    (call.perform io s).2.InDisk := by
  have tracks := (tracks_iff inDisk call).mpr fits
  have part := perform_part io s call
  cases call with
  | read count buf =>
      unfold Transfer.Tracks at tracks
      exact moves_inDisk inDisk tracks part
  | write count data =>
      unfold Transfer.Tracks at tracks
      exact moves_inDisk inDisk tracks part
  | pread count offset buf => exact inDisk
  | pwrite count offset data => exact inDisk
  | lseek offset whence =>
      change (Libvhdio.lseek offset whence s).2.InDisk
      rcases lseek_cases s offset whence with ⟨newOff, inside, result⟩ | ⟨code, result⟩ | result
      · rw [result]
        exact inside
      · rwa [result]
      · rwa [result]

end Steps

/-- From the opening of the descriptor on, while the calls fit, the offset is in the disk; and the next call
does what an application expects exactly when it fits as well. -/
theorem offset_tracks {s t : Descriptor σ} (opened : s.off = 0)
    (run : Run (transferStep io) (fun s call => call.Fits io s) s t) :
    t.InDisk ∧ ∀ call : Transfer, call.Tracks io t ↔ call.Fits io t := by
  have inDisk : t.InDisk := by
    refine run.invariant ?_ (by unfold Descriptor.InDisk; omega)
    intro s call t inDisk fits action
    unfold transferStep at action
    have next := fits_inDisk inDisk fits
    rcases result : call.perform io s with ⟨reply | code | _, t'⟩
    all_goals
      rw [result] at action next
      cases action
      try exact next
  exact ⟨inDisk, tracks_iff inDisk⟩

def sector : Descriptor Libvhd.Handle where
  part := { start := 0, size := 1, flags := 2, start_lt := by decide, size_lt := .inl rfl }
  off := 0
  image := fixedImage 1

theorem sector_reads (size : Nat) (within : size ≤ 512) (buf : Nat → UInt8) :
    (vhdIo .nothing fun _ => 0).readBytes sector.image ⟨0, size⟩ buf =
      .ok fun p => sector.image.file.byte (0 + p) := by
  have taken : (vhdIo .nothing fun _ => 0).admits sector.image ⟨0, size⟩ = .ok () := by
    unfold VhdIo.admits
    rw [if_neg, if_neg]
    · simp
    · simp only [vhdIo, sector, fixedImage, Libvhd.vhdInitializeFooter]
      omega
  unfold VhdIo.readBytes
  rw [taken, Outcome.ok_bind]
  change Libvhd.vhdIoReadBytes _ _ _ = _
  unfold Libvhd.vhdIoReadBytes Libvhd.File.read
  rw [Libvhd.Below.under_top]
  have inDisk : ¬ sector.image.currSize < 0 + size := by
    change ¬ 1 * 512 < 0 + size
    omega
  have inFile : size = 0 ∨ 0 + size ≤ sector.image.file.size := by
    change size = 0 ∨ 0 + size ≤ 1 * 512 + 512
    omega
  exact (if_neg inDisk).trans ((if_pos rfl).trans (if_pos inFile))

theorem sector_part : sector.part.Fits ∧ sector.part.noRead = false := by
  simp [Partition.Fits, Off64, Partition.noRead, sector]

theorem sector_asked (count : UInt64) : sector.part.asked count sector.off = ⟨0, min count.toNat 512⟩ := by
  simp [Partition.asked, sector]

theorem sector_fits (count : UInt64) (buf : Nat → UInt8) :
    (Transfer.read count buf).Fits (vhdIo .nothing fun _ => 0) sector ↔ count.toNat ≤ 512 := by
  have rest : sector.rest = 512 := by simp [Descriptor.rest, sector]
  unfold Transfer.Fits Descriptor.Takes
  dsimp only
  rw [sector_asked, sector_reads _ (by omega), rest, sector_part.2]
  simp [sector_part.1]

theorem sector_passed :
    ¬ (Transfer.read 1024 fun _ => 0).Tracks (vhdIo .nothing fun _ => 0) sector := by
  rw [read_tracks (by simp [Descriptor.InDisk, sector]), sector_fits]
  simp

theorem offset_tracks_sector :
    ({ sector with off := 512 } : Descriptor Libvhd.Handle).InDisk ∧
      ∀ call : Transfer, call.Tracks (vhdIo .nothing fun _ => 0) { sector with off := 512 } ↔
        call.Fits (vhdIo .nothing fun _ => 0) { sector with off := 512 } := by
  have fits := (sector_fits 512 fun _ => 0).mpr (by simp)
  have action : transferStep (vhdIo .nothing fun _ => 0) sector (.read 512 fun _ => 0) =
      some { sector with off := 512 } := by
    have image : libvhdIoPread (vhdIo .nothing fun _ => 0) sector.part 512 sector.off (fun _ => 0) sector.image = _ :=
      pread_asked sector_part.1 sector_part.2 (by simp [Descriptor.InDisk, sector]) (by simp [Descriptor.rest, sector])
    rw [sector_asked, sector_reads _ (by simp), Outcome.ok_bind] at image
    have reads := read_eq (vhdIo .nothing fun _ => 0) sector 512 fun _ => 0
    rw [image] at reads
    unfold transferStep Transfer.perform
    dsimp only
    rw [reads]
    simp [Descriptor.finish, Descriptor.advance, sector, long_of_lt]
  exact offset_tracks _ rfl (.single fits action)

end Blktap.Libvhdio
