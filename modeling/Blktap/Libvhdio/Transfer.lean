import Blktap.Lib.Int64
import Blktap.Libvhd.Create
import Blktap.Libvhd.WriteBytes
import Blktap.Libvhdio.FdMap

/-!
# Reads and writes of a descriptor (`libvhdio.c`)
-/

namespace Blktap.Libvhdio
open Lib

def eperm : Int := 1

def Off64 (x : Int) : Prop := -2 ^ 63 ≤ x ∧ x < 2 ^ 63

instance (x : Int) : Decidable (Off64 x) :=
  decidable_of_iff (x.toNat < 2 ^ 63 ∧ (-x).toNat ≤ 2 ^ 63) (by unfold Off64; omega)

structure Partition where
  start : Nat
  size : Nat
  flags : Nat
  start_lt : start < 2 ^ 32
  size_lt : start = 0 ∨ size < 2 ^ 32

def Partition.Fits (part : Partition) : Prop := Off64 (part.size * 512)

def Partition.Near (part : Partition) (offset : Int) : Prop := Off64 (part.size * 512 - offset)

instance (part : Partition) : Decidable part.Fits := inferInstanceAs (Decidable (Off64 _))

instance (part : Partition) (offset : Int) : Decidable (part.Near offset) := inferInstanceAs (Decidable (Off64 _))

def le16 (byte : Nat → UInt8) (off : Nat) : Nat := (byte off).toNat + (byte (off + 1)).toNat * 2 ^ 8

theorem le32_lt (byte : Nat → UInt8) (off : Nat) : le32 byte off < 2 ^ 32 := by
  have first := (byte off).toNat_lt
  have second := (byte (off + 1)).toNat_lt
  have third := (byte (off + 2)).toNat_lt
  have fourth := (byte (off + 3)).toNat_lt
  unfold le32
  omega

def validTable (table : Nat → UInt8) : Bool :=
  le16 table 510 == 0xaa55 &&
    (List.range 4).all fun i => table (446 + 16 * i) == 0x80 || table (446 + 16 * i) == 0

def initPartition (currSize flags : Nat) (partition : Int) (table : Outcome (Nat → UInt8)) : Outcome Partition :=
  if partition < 0 ∨ 4 < partition then .error enoent
  else if partition = 0 then
    .ok { start := 0, size := currSize / 512, flags, start_lt := Nat.two_pow_pos 32, size_lt := .inl rfl }
  else do
    let table ← table
    let entry := 446 + 16 * (partition.toNat - 1)
    if !validTable table then .error einval
    else if le32 table (entry + 8) = 0 ∨ le32 table (entry + 12) = 0 then .error enoent
    else
      .ok { start := le32 table (entry + 8), size := le32 table (entry + 12), flags
            start_lt := le32_lt table _, size_lt := .inr (le32_lt table _) }

structure VhdIo (σ : Type) where
  currSize : σ → Nat
  typeDynamic : σ → Bool
  read : σ → Libvhd.ByteRange → (Nat → UInt8) → Outcome (Nat → UInt8)
  write : Libvhd.ByteRange → (Nat → UInt8) → Action σ Unit

def vhdIo (below : Libvhd.Below) (tmp : Nat → UInt8) : VhdIo Libvhd.Handle where
  currSize := fun s => s.currSize
  typeDynamic := fun s => s.typeDynamic
  read := fun s range buf => Libvhd.vhdIoReadBytes (below.under s.toVhd) range buf
  write := fun range data => Libvhd.vhdIoWriteBytes below range tmp data

def fixedImage (secs : Nat) : Libvhd.Handle :=
  let fixed := Libvhd.vhdInitializeFooter ⟨false, .empty, []⟩ .fixed (secs * 512)
  { fixed with oldBitmap_eq := fixed.bitmap_eq, file := ⟨secs * 512 + 512, fun p => UInt8.ofNat (p / 512)⟩ }

section Calls
variable {σ : Type} (io : VhdIo σ)

/-- `vhd_io_read_bytes` and `vhd_io_write_bytes` add offset and length in 64 bits; in a fixed image the
kernel refuses an offset that is negative as an `off64_t`. -/
def VhdIo.admits (image : σ) (range : Libvhd.ByteRange) : Outcome Unit :=
  if io.currSize image < (range.off + range.size) % 2 ^ 64 then .error 34
  else if io.typeDynamic image = false ∧ 2 ^ 63 ≤ range.off then .error einval
  else .ok ()

def Partition.asked (part : Partition) (count : UInt64) (offset : Int) : Libvhd.ByteRange where
  off := ((offset + part.start * 512) % 2 ^ 64).toNat
  size := min count.toNat (part.size * 512 - offset).toNat

def Partition.clip (part : Partition) (count : UInt64) (offset : Int) : Outcome (Option Libvhd.ByteRange) :=
  if part.size * 512 ≤ offset then .ok none
  else if part.Near offset then .ok (some (part.asked count offset))
  else .undefined

def VhdIo.range (part : Partition) (refused : Bool) (count : UInt64) (offset : Int) (image : σ) :
    Outcome (Option Libvhd.ByteRange) :=
  if ¬ part.Fits then .undefined
  else if refused then .error eperm
  else
    match part.clip count offset with
    | .ok (some range) => do
        io.admits image range
        .ok (some range)
    | clipped => clipped

def Partition.noRead (part : Partition) : Bool := part.flags &&& 1 != 0

def Partition.noWrite (part : Partition) : Bool := part.flags &&& 0 != 0

structure Reply where
  ret : Nat
  data : Nat → UInt8

def libvhdIoPread (part : Partition) (count : UInt64) (offset : Int) (buf : Nat → UInt8) (image : σ) :
    Outcome Reply := do
  match ← io.range part part.noRead count offset image with
  | none => .ok ⟨0, buf⟩
  | some range => do
      let data ← io.read image range buf
      .ok ⟨range.size, data⟩

def libvhdIoPwrite (part : Partition) (count : UInt64) (offset : Int) (data : Nat → UInt8) : Action σ Reply := do
  let image ← Action.get
  match ← Action.lift (io.range part part.noWrite count offset image) with
  | none => pure ⟨0, data⟩
  | some range => do
      io.write range data
      pure ⟨range.size, data⟩

structure Descriptor (σ : Type) where
  part : Partition
  off : Int
  image : σ

def Descriptor.advance (s : Descriptor σ) (count : UInt64) : Descriptor σ :=
  { s with off := long ((s.off + count.toNat) % 2 ^ 64).toNat }

def onImage {α : Type} (m : Action σ α) : Action (Descriptor σ) α := fun s =>
  ((m s.image).1, { s with image := (m s.image).2 })

def read (count : UInt64) (buf : Nat → UInt8) : Action (Descriptor σ) Reply := do
  let s ← Action.get
  let reply ← Action.lift (libvhdIoPread io s.part count s.off buf s.image)
  Action.modify fun s => s.advance count
  pure reply

def write (count : UInt64) (data : Nat → UInt8) : Action (Descriptor σ) Reply := do
  let s ← Action.get
  let reply ← onImage (libvhdIoPwrite io s.part count s.off data)
  Action.modify fun s => s.advance count
  pure reply

def pread (count : UInt64) (offset : Int) (buf : Nat → UInt8) : Action (Descriptor σ) Reply := do
  let s ← Action.get
  Action.lift (libvhdIoPread io s.part count offset buf s.image)

def pwrite (count : UInt64) (offset : Int) (data : Nat → UInt8) : Action (Descriptor σ) Reply := do
  let s ← Action.get
  onImage (libvhdIoPwrite io s.part count offset data)

inductive Whence
  | set
  | cur
  | end
  | other

def Descriptor.origin (s : Descriptor σ) : Whence → Option Int
  | .set => some 0
  | .cur => some s.off
  | .end => some (s.part.size * 512)
  | .other => none

def lseek (offset : Int) (whence : Whence) : Action (Descriptor σ) Reply := do
  let s ← Action.get
  match s.origin whence with
  | none => Action.fail einval
  | some origin =>
      let newOff := origin + offset
      if ¬ (s.part.Fits ∧ Off64 newOff) then Action.undefined
      else if newOff < 0 ∨ s.part.size * 512 < newOff then Action.fail einval
      else do
        Action.modify fun s => { s with off := newOff }
        pure ⟨newOff.toNat, fun _ => 0⟩

inductive Transfer
  | read (count : UInt64) (buf : Nat → UInt8)
  | write (count : UInt64) (data : Nat → UInt8)
  | pread (count : UInt64) (offset : Int) (buf : Nat → UInt8)
  | pwrite (count : UInt64) (offset : Int) (data : Nat → UInt8)
  | lseek (offset : Int) (whence : Whence)

def Transfer.perform : Transfer → Action (Descriptor σ) Reply
  | .read count buf => Libvhdio.read io count buf
  | .write count data => Libvhdio.write io count data
  | .pread count offset buf => Libvhdio.pread io count offset buf
  | .pwrite count offset data => Libvhdio.pwrite io count offset data
  | .lseek offset whence => Libvhdio.lseek offset whence

end Calls

section Range
variable {σ : Type} {io : VhdIo σ} {part : Partition} {refused : Bool} {count : UInt64} {offset : Int} {image : σ}
  {range : Libvhd.ByteRange} {s : Descriptor σ} {code : Int}

theorem admits_cases (io : VhdIo σ) (image : σ) (range : Libvhd.ByteRange) :
    io.admits image range = .ok () ∨ ∃ code, io.admits image range = .error code := by
  unfold VhdIo.admits
  split
  · exact .inr ⟨_, rfl⟩
  · split
    · exact .inr ⟨_, rfl⟩
    · exact .inl rfl

theorem noWrite_false : part.noWrite = false := by simp [Partition.noWrite]

theorem range_overflow (large : ¬ part.Fits) : io.range part refused count offset image = .undefined :=
  if_pos large

theorem range_refused (fits : part.Fits) : io.range part true count offset image = .error eperm :=
  if_neg (not_not_intro fits)

theorem range_behind (fits : part.Fits) (behind : part.size * 512 ≤ offset) :
    io.range part false count offset image = .ok none := by
  unfold VhdIo.range Partition.clip
  rw [if_neg (not_not_intro fits), if_pos behind]
  rfl

theorem range_far (fits : part.Fits) (before : ¬ part.size * 512 ≤ offset) (far : ¬ part.Near offset) :
    io.range part false count offset image = .undefined := by
  unfold VhdIo.range Partition.clip
  rw [if_neg (not_not_intro fits), if_neg before, if_neg far]
  rfl

theorem range_asked (fits : part.Fits) (before : ¬ part.size * 512 ≤ offset) (near : part.Near offset) :
    io.range part false count offset image =
      io.admits image (part.asked count offset) >>= fun _ => .ok (some (part.asked count offset)) := by
  unfold VhdIo.range Partition.clip
  rw [if_neg (not_not_intro fits), if_neg before, if_pos near]
  rfl

theorem lseek_cases (s : Descriptor σ) (offset : Int) (whence : Whence) :
    (∃ newOff : Int, (0 ≤ newOff ∧ newOff ≤ s.part.size * 512) ∧
        lseek offset whence s = (.ok ⟨newOff.toNat, fun _ => 0⟩, { s with off := newOff })) ∨
      (∃ code, lseek offset whence s = (.error code, s)) ∨ lseek offset whence s = (.undefined, s) := by
  unfold lseek
  rw [Action.get_bind]
  cases s.origin whence with
  | none => exact .inr (.inl ⟨_, rfl⟩)
  | some origin =>
      dsimp only
      split
      · exact .inr (.inr rfl)
      · split
        · exact .inr (.inl ⟨_, rfl⟩)
        · exact .inl ⟨origin + offset, by omega, rfl⟩

theorem pread_overflow {buf : Nat → UInt8} (large : ¬ part.Fits) :
    libvhdIoPread io part count offset buf image = .undefined := by
  unfold libvhdIoPread
  rw [range_overflow large]
  rfl

theorem pwrite_overflow {data : Nat → UInt8} (large : ¬ part.Fits) :
    libvhdIoPwrite io part count offset data image = (.undefined, image) := by
  unfold libvhdIoPwrite
  rw [Action.get_bind, range_overflow large]
  rfl

theorem pread_refused {buf : Nat → UInt8} (refuses : io.range part part.noRead count offset image = .error code) :
    libvhdIoPread io part count offset buf image = .error code := by
  unfold libvhdIoPread
  rw [refuses, Outcome.error_bind]

theorem pwrite_refused {data : Nat → UInt8} (refuses : io.range part part.noWrite count offset image = .error code) :
    libvhdIoPwrite io part count offset data image = (.error code, image) := by
  unfold libvhdIoPwrite
  rw [Action.get_bind, refuses, Action.lift_error_bind]

end Range

end Blktap.Libvhdio
