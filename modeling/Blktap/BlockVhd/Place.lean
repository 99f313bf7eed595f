import Blktap.BlockVhd.Open
import Blktap.Lib.Align
import Mathlib.Logic.Function.Basic

/-!
# The places of blocks (`block-vhd.c`, `libvhd.c`)

An image gets its blocks from the driver while that has it open, and from the library otherwise. What is kept is the
table of blocks on disk and in memory, the block whose place is reserved, and the writes whose place or sector is
worked out from the table. `placed` is the sector of a block with all its bits.
-/

namespace Blktap.BlockVhd.Place
open Lib Libvhd

structure BlockIo where
  op : VhdOp
  blk : Nat
  sec : Nat
  offset : Nat
  bytes : Nat

/-- The parts of `struct vhd_state` that blocks are placed with. `slot` and `batBuf` are the sector of the table that is
being written, and `failed` is the error of that write. -/
structure Driver where
  prealloc : Bool
  firstDb : Nat
  nextDb : Nat
  bat : Nat → Nat
  locked : Bool
  zeroing : Bool
  writeStarted : Bool
  failed : Bool
  pbwBlk : Nat
  pbwOffset : Nat
  slot : Nat
  batBuf : Nat → Nat
  io : List BlockIo

inductive User
  | nobody
  | driver (d : Driver)
  | library (bat : Nat → Nat)

structure Image where
  eom : Nat
  blockSize : Nat
  entries : Nat
  disk : Nat → Nat
  user : User
  placed : Nat → Option Nat

namespace Image

def spb (s : Image) : Nat := s.blockSize / 512
def bmSecs (s : Image) : Nat := secsRoundUpNoZero (s.spb / 8)

def span (s : Image) : Nat := s.bmSecs + s.spb

def memory (s : Image) : Nat → Nat :=
  match s.user with
  | .nobody => s.disk
  | .driver d => d.bat
  | .library bat => bat

/-- The loop of `find_next_free_block`; the sum wraps with 32 bits. -/
def nextFree (s : Image) (start : Nat) : Nat :=
  (List.range s.entries).foldl
    (fun next i =>
      if s.disk i ≠ ddBlkUnused ∧ next ≤ s.disk i then (s.disk i + s.spb + s.bmSecs) % 2 ^ 32 else next)
    start

def endOfData (s : Image) (bat : Nat → Nat) : Nat :=
  (List.range s.entries).foldl
    (fun max i => if bat i ≠ ddBlkUnused then Nat.max (bat i + (s.spb + s.bmSecs)) max else max)
    (s.eom / 512)

def close (s : Image) : Image :=
  { s with user := .nobody, placed := fun i => if s.disk i = ddBlkUnused then none else s.placed i }

end Image

namespace Driver

def initBat (d : Driver) : Driver :=
  { d with locked := false, writeStarted := false, failed := false, pbwBlk := 0, pbwOffset := 0 }

def scheduleBatWrite (d : Driver) : Driver :=
  let base := d.pbwBlk - d.pbwBlk % 128
  { d with
    slot := base * 4 % 2 ^ 32 / 4
    batBuf := fun i => if i = d.pbwBlk % 128 then d.pbwOffset % 2 ^ 32 else d.bat (base + i)
    writeStarted := true }

def scheduleZeroBmWrite (d : Driver) (spb bmSecs lbEnd : Nat) : Driver :=
  { d with
    zeroing := true
    io := ⟨.zeroBmWrite, d.pbwBlk, d.pbwBlk * spb % 2 ^ 32, lbEnd * 512, (d.pbwOffset - lbEnd + bmSecs) * 512⟩ :: d.io }

end Driver

variable (spp : Nat)

def openDriver (s : Image) (prealloc : Bool) : Driver where
  prealloc := prealloc
  firstDb := alignTo spp s.bmSecs (secsRoundUp s.eom)
  nextDb := s.nextFree (secsRoundUp s.eom)
  bat := s.disk
  locked := false
  zeroing := false
  writeStarted := false
  failed := false
  pbwBlk := 0
  pbwOffset := 0
  slot := 0
  batBuf := fun _ => 0
  io := []

def updateBat (s : Image) (d : Driver) (blk : Nat) (ok : Bool) : Driver :=
  if ok then
    { d with locked := true, pbwBlk := blk, pbwOffset := alignTo spp s.bmSecs d.nextDb }.scheduleZeroBmWrite
      s.spb s.bmSecs d.nextDb
  else d

def allocateBlock (s : Image) (d : Driver) (blk : Nat) (ok : Bool) : Driver :=
  let place := alignTo spp s.bmSecs d.nextDb
  let reserved := { d with pbwBlk := blk, nextDb := place, pbwOffset := place }
  if ok then { reserved with locked := true }.scheduleBatWrite else reserved

/-- A write to a block that is not allocated. An `ASSERT` fails when the table is locked for another block. -/
def allocate (s : Image) (d : Driver) (blk : Nat) (ok : Bool) : Option Driver :=
  if s.entries ≤ blk ∨ d.bat blk ≠ ddBlkUnused then none
  else if d.locked then (if d.pbwBlk = blk then some d else none)
  else if d.zeroing ∨ d.writeStarted then none
  else if d.prealloc then some (allocateBlock spp s d blk ok)
  else some (updateBat spp s d blk ok)

def finishZeroBmWrite (d : Driver) (ok : Bool) : Driver :=
  let d := { d with zeroing := false }
  if ok then d.scheduleBatWrite else d.initBat

def finishBatWrite (s : Image) (d : Driver) (ok : Bool) : Image :=
  if ok then
    { s with
      disk := fun i => if d.slot ≤ i ∧ i < d.slot + 128 then d.batBuf (i - d.slot) else s.disk i
      placed := Function.update s.placed d.pbwBlk (some d.pbwOffset)
      user := .driver { d with
        bat := Function.update d.bat d.pbwBlk (d.pbwOffset % 2 ^ 32)
        nextDb := d.pbwOffset + s.spb + s.bmSecs }.initBat }
  else { s with user := .driver { d with failed := true } }

def scheduleBitmap (s : Image) (d : Driver) (op : VhdOp) (blk : Nat) : Option Driver :=
  let offset := if d.bat blk = ddBlkUnused then d.pbwOffset else d.bat blk
  if s.entries ≤ blk ∨ (d.bat blk = ddBlkUnused ∧ ¬ (d.locked = true ∧ d.pbwBlk = blk)) then none
  else some { d with io := ⟨op, blk, blk * s.spb % 2 ^ 32, offset * 512, s.bmSecs * 512⟩ :: d.io }

def scheduleRedundantBmWrite (s : Image) (d : Driver) (blk : Nat) : Option Driver :=
  let padbmSize := paddedBitmapSize s.bmSecs (spp * 512)
  let padding := (padbmSize + 2 ^ 32 - s.bmSecs * 512 % 2 ^ 32) % 2 ^ 32
  if s.entries ≤ blk ∨ d.bat blk = ddBlkUnused ∨ d.bat blk = d.firstDb then none
  else some { d with io := ⟨.redundantBmWrite, blk, blk * s.spb % 2 ^ 32,
    (d.bat blk * 512 + 2 ^ 64 - padding) % 2 ^ 64, padbmSize / 512 * 512⟩ :: d.io }

def ioAllocateBlock (s : Image) (bat : Nat → Nat) (blk : Nat) (written noted : Bool) : Image :=
  let place := alignTo spp s.bmSecs (s.endOfData bat)
  let table := Function.update bat blk (place % 2 ^ 32)
  if written then
    { s with
      disk := if noted then table else s.disk
      user := .library table
      placed := Function.update s.placed blk (some place) }
  else s

inductive Event
  | opened (prealloc : Bool)
  | allocate (blk : Nat) (ok : Bool)
  | zeroed (ok : Bool)
  | batWritten (ok : Bool)
  | released
  | bitmap (write : Bool) (blk : Nat)
  | redundant (blk : Nat)
  | ioOpened
  | ioAllocate (blk : Nat) (written noted : Bool)
  | closed

def step (s : Image) (e : Event) : Option Image :=
  match s.user, e with
  | .nobody, .opened prealloc => some { s with user := .driver (openDriver spp s prealloc) }
  | .nobody, .ioOpened => some { s with user := .library s.disk }
  | .driver d, .allocate blk ok => (allocate spp s d blk ok).map fun d => { s with user := .driver d }
  | .driver d, .zeroed ok =>
      -- the block is worked out from the sector again, and an `ASSERT` compares it
      if d.zeroing ∧ d.pbwBlk * s.spb % 2 ^ 32 / s.spb = d.pbwBlk then
        some { s with user := .driver (finishZeroBmWrite d ok) }
      else none
  | .driver d, .batWritten ok => if d.writeStarted ∧ d.failed = false then some (finishBatWrite s d ok) else none
  | .driver d, .released => if d.failed then some { s with user := .driver d.initBat } else none
  | .driver d, .bitmap write blk =>
      (scheduleBitmap s d (if write then .bitmapWrite else .bitmapRead) blk).map fun d => { s with user := .driver d }
  | .driver d, .redundant blk => (scheduleRedundantBmWrite spp s d blk).map fun d => { s with user := .driver d }
  | .driver d, .closed => if d.locked then none else some s.close
  | .library bat, .ioAllocate blk written noted =>
      if s.entries ≤ blk ∨ bat blk ≠ ddBlkUnused then none else some (ioAllocateBlock spp s bat blk written noted)
  | .library _, .closed => some s.close
  | _, _ => none

def create (eom blockSize entries : Nat) : Image where
  eom := eom
  blockSize := blockSize
  entries := entries
  disk := fun _ => ddBlkUnused
  user := .nobody
  placed := fun _ => none

end Blktap.BlockVhd.Place
