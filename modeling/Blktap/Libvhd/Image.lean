import Blktap.Lib.Bytes
import Blktap.Lib.Outcome

/-!
# Images and their block tables (`libvhd.c`)
-/

namespace Blktap.Libvhd
open Lib

def epipe : Int := 32
def eio : Int := 5
def einval : Int := 22
def erange : Int := 34

structure File where
  size : Nat
  byte : Nat → UInt8

def File.read (file : File) (off size : Nat) : Outcome (Nat → UInt8) :=
  if size = 0 ∨ off + size ≤ file.size then .ok fun i => file.byte (off + i)
  else if file.size ≤ off then .error (-epipe)
  else .error (-eio)

def secsRoundUp (bytes : Nat) : Nat := (bytes + 511) / 512 % 2 ^ 32

def secsRoundUpNoZero (bytes : Nat) : Nat :=
  if secsRoundUp bytes = 0 then 1 else secsRoundUp bytes

def vhdBytesPadded (bytes : Nat) : Nat := secsRoundUpNoZero bytes * 512

def ddBlkUnused : Nat := 2 ^ 32 - 1
def vhdBlockShift : Nat := 21

inductive DiskType
  | fixed
  | dynamic
  | diff
  deriving DecidableEq, Repr

structure Vhd where
  file : File
  type : DiskType
  currSize : Nat
  tableOffset : Nat
  maxBatSize : Nat
  blockSize : Nat
  /-- The creator is tapdisk 0.1, whose bitmaps are little-endian words. -/
  oldBitmap : Bool

def Vhd.typeDynamic (vhd : Vhd) : Bool := vhd.type != .fixed

def Vhd.spb (vhd : Vhd) : Nat := vhd.blockSize / 512

def Vhd.bmSecs (vhd : Vhd) : Nat := secsRoundUpNoZero (vhd.spb / 8)

def Vhd.slot (vhd : Vhd) (sector : Nat) : Nat := sector / vhd.spb % 2 ^ 32

/-- How many table entries `vhd_read_bat` converts: it counts blocks of 2 MiB whatever the image's
block size is. -/
def Vhd.batEntries (vhd : Vhd) : Nat := vhd.currSize / 2 ^ vhdBlockShift % 2 ^ 32

/-- `vhd_bat_t`: the first `entries` of the `len` words in the buffer are in host order, and past
`len` there is no memory. -/
structure Bat where
  entries : Nat
  len : Nat
  bat : Nat → Nat

def vhdReadBat (vhd : Vhd) : Outcome Bat :=
  if !vhd.typeDynamic then .error (-einval)
  else if vhd.maxBatSize < vhd.batEntries then .undefined
  else do
    let size := vhdBytesPadded (vhd.batEntries * 4)
    let buf ← vhd.file.read vhd.tableOffset size
    .ok { entries := vhd.batEntries, len := size / 4
          bat := fun i =>
            if i < vhd.batEntries then be32 buf (4 * i)
            else if i < size / 4 then le32 buf (4 * i)
            else 0 }

def testBit (addr : Nat → UInt8) (nr : Nat) : Bool :=
  (addr (nr / 8)).toNat.testBit (7 - nr % 8)

def oldTestBit (addr : Nat → UInt8) (nr : Nat) : Bool :=
  (addr (nr / 8)).toNat.testBit (nr % 8)

def vhdBitmapTest (vhd : Vhd) (map : Nat → UInt8) (nr : Nat) : Bool :=
  if vhd.oldBitmap then oldTestBit map nr else testBit map nr

def vhdReadBitmap (vhd : Vhd) (bat : Bat) (block : Nat) : Outcome (Nat → UInt8) :=
  if !vhd.typeDynamic then .error (-einval)
  else if bat.entries ≤ block then .error (-erange)
  else if bat.bat block = ddBlkUnused then .error (-einval)
  else vhd.file.read (bat.bat block * 512) (vhdBytesPadded (vhd.spb / 8))

def vhdReadBlock (vhd : Vhd) (bat : Bat) (block : Nat) : Outcome (Nat → UInt8) :=
  if !vhd.typeDynamic then .error (-einval)
  else if bat.entries ≤ block then .error (-erange)
  else if bat.bat block = ddBlkUnused then .error (-einval)
  else
    let off := (bat.bat block + vhd.bmSecs) * 512
    let stop := vhd.file.size - 512
    if stop < off + vhd.blockSize then
      if stop < off ∨ vhd.blockSize ≠ vhd.spb * 512 then .undefined
      else do
        let buf ← vhd.file.read off (stop - off)
        .ok fun i => if i < stop - off then buf i else 0
    else vhd.file.read off (vhd.spb * 512)

theorem File.read_ok {file : File} {off size : Nat} (fits : off + size ≤ file.size) :
    file.read off size = .ok fun i => file.byte (off + i) :=
  if_pos (.inr fits)

theorem File.read_ok_iff {file : File} {off size : Nat} (positive : 0 < size) :
    (file.read off size).isOk = true ↔ off + size ≤ file.size := by
  unfold File.read
  split
  · simp only [Outcome.isOk, true_iff]
    omega
  · split <;> simp only [Outcome.isOk, Bool.false_eq_true, false_iff] <;> omega

theorem File.read_eq {file : File} {off size : Nat} {buf : Nat → UInt8}
    (action : file.read off size = .ok buf) : buf = fun i => file.byte (off + i) := by
  unfold File.read at action
  split at action
  · exact (Outcome.ok.inj action).symm
  · split at action <;> cases action

theorem File.read_defined (file : File) (off size : Nat) : file.read off size ≠ .undefined := by
  unfold File.read
  split
  · simp
  · split <;> simp

theorem secsRoundUpNoZero_pos (bytes : Nat) : 0 < secsRoundUpNoZero bytes := by
  unfold secsRoundUpNoZero
  split <;> omega

end Blktap.Libvhd
