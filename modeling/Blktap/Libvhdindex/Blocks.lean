import Blktap.Lib.Record
import Blktap.Libvhd.Device
import Blktap.Libvhd.Read

/-!
# The blocks of an index (`libvhd-index.c`)
-/

namespace Blktap.Libvhdindex
open Lib Libvhd

def enomem : Int := 12

structure Entry where
  fileId : UInt32
  offset : UInt32
  deriving DecidableEq

def Entry.zero : Entry := ⟨0, 0⟩

structure Block where
  table : List Entry
  entries_lt : table.length < 2 ^ 31

def vhdiCheckBlockSize (size : Nat) : Bool := ((List.range 32).filter fun i => size / 2 ^ i % 2 == 1).length == 1

structure Context where
  file : File
  vhdBlockSize : Nat
  blockSize_lt : vhdBlockSize < 2 ^ 32
  admitted : vhdiCheckBlockSize vhdBlockSize = true

def Context.spb (ctx : Context) : Nat := ctx.vhdBlockSize / 512

def entryOut (entry : Entry) : Nat → UInt8 := record [word entry.fileId.toNat, word entry.offset.toNat]

def entryIn (bytes : Nat → UInt8) (i : Nat) : Entry where
  fileId := UInt32.ofNat (be32 bytes (8 * i))
  offset := UInt32.ofNat (be32 bytes (8 * i + 4))

def tableOut (table : List Entry) (p : Nat) : UInt8 :=
  match table[p / 8]? with
  | some entry => entryOut entry (p % 8)
  | none => 0

structure Stop where
  code : Int
  bytes : Nat

/-- What the system does in a call: the `errno` from before it, the memory, and how the write fails -/
structure Io where
  errno : Int
  memory : Bool
  stop : Option Stop
  truncates : Bool

section Calls
variable (io : Io)

def vhdiSeek (off : Nat) : Action Context Unit :=
  if off % 2 ^ 32 = 2 ^ 32 - 1 ∧ io.errno ≠ 0 then Action.fail (-io.errno) else pure ()

def allocate : Action Context Unit :=
  if io.memory then pure () else Action.fail (-enomem)

def vhdiWrite (off size : Nat) (bytes : Nat → UInt8) : Action Context Unit := fun ctx =>
  match io.stop with
  | some stop => (.error stop.code, { ctx with file := ctx.file.put off (min (size - 1) stop.bytes) bytes })
  | none =>
      if maxTransfer < size then (.error (-eio), { ctx with file := ctx.file.put off maxTransfer bytes })
      else (.ok (), { ctx with file := ctx.file.put off size bytes })

def vhdiAppendBlock (block : Block) : Action Context Nat := do
  let ctx ← Action.get
  vhdiSeek io ctx.file.size
  let off := vhdBytesPadded ctx.file.size
  vhdiSeek io off
  allocate io
  match ← Action.attempt (vhdiWrite io off (block.table.length * 8) (tableOut block.table)) with
  | .ok () => pure (off / 512 % 2 ^ 32)
  | .error code => do
      if io.truncates then Action.modify fun ctx => { ctx with file := ctx.file.truncate off }
      Action.fail code

def vhdiWriteBlock (block : Block) (sector : UInt32) : Action Context Unit := do
  vhdiSeek io (sector.toNat * 512)
  let ctx ← Action.get
  let size := vhdBytesPadded (ctx.spb * 8)
  allocate io
  if size < block.table.length * 8 then Action.undefined
  else vhdiWrite io (sector.toNat * 512) size (tableOut block.table)

end Calls

def vhdiReadBlock (ctx : Context) (sector : Nat) : Outcome (List Entry) := do
  let bytes ← ctx.file.read (sector * 512) (vhdBytesPadded (ctx.spb * 8))
  .ok ((List.range ctx.spb).map (entryIn bytes))

inductive Op
  | append (io : Io) (block : Block)
  | write (io : Io) (block : Block) (sector : UInt32)

end Blktap.Libvhdindex
