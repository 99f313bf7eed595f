import Blktap.Libvhd.Create
import Blktap.Libvhd.Read

/-!
# Snapshots (`vhd_snapshot` and `vhd-util snapshot`)

A snapshot is a differencing image without a block. `vhd-util` passes over the images in which it finds no
block and links the snapshot to the first one in which it does, or to the raw file or the image at
the end of the chain. A snapshot that was linked so has the size of the parent that was named.
-/

namespace Blktap.Libvhd
open Lib

structure Stored where
  path : List UInt8
  stat : Outcome Nat
  relative : Outcome (List UInt8)
  file : File
  fileSize : UInt64
  sized : fileSize.toNat = file.size ∨ 2 ^ 64 - 4096 < fileSize.toNat

structure StoredVhd extends Stored where
  vhd : Vhd
  uuid : Nat → UInt8
  own : vhd.file = file
  fits : vhd.currSize < 2 ^ 64
  generated : ∃ i < 16, uuid i ≠ 0

inductive Backing
  | raw (stored : Stored)
  | base (image : StoredVhd) (other : image.vhd.type ≠ .diff)
  | differ (image : StoredVhd) (diff : image.vhd.type = .diff) (parent : Backing)

namespace Backing

def stored : Backing → Stored
  | raw stored => stored
  | base image _ => image.toStored
  | differ image _ _ => image.toStored

def isRaw : Backing → Bool
  | raw _ => true
  | _ => false

def size : Backing → Nat
  | raw stored => stored.file.size
  | base image _ => image.vhd.currSize
  | differ image _ _ => image.vhd.currSize

def paths : Backing → List (List UInt8)
  | raw stored => [stored.path]
  | base image _ => [image.path]
  | differ image _ parent => image.path :: parent.paths

def under (vhd : Vhd) : Backing → Chain
  | raw stored => .differRaw vhd stored.file
  | base image _ => .differ vhd (.base image.vhd)
  | differ image _ parent => .differ vhd (parent.under image.vhd)

def read (sector : Nat) : Backing → Outcome (Nat → UInt8)
  | raw stored => stored.file.read (sector * 512) 512
  | base image _ => vhdIoRead (.base image.vhd) sector 1
  | differ image _ parent => vhdIoRead (parent.under image.vhd) sector 1

def seen (raw : Bool) (backing : Backing) : Backing := if raw then .raw backing.stored else backing

def opened : Backing → Outcome (UInt64 × (Nat → UInt8))
  | raw _ => .error (-einval)
  | base image _ => .ok (UInt64.ofNat image.vhd.currSize, image.uuid)
  | differ image _ _ => .ok (UInt64.ofNat image.vhd.currSize, image.uuid)

def found (backing : Backing) : Outcome Parent := do
  let time ← backing.stored.stat
  .ok { path := backing.stored.path, time, fileSize := backing.stored.fileSize, image := backing.opened
        relative := backing.stored.relative }

end Backing

def vhdParentRaw (header : Nat → UInt8) : Bool := (List.range 16).all fun i => header (40 + i) == 0

def Backing.linked (parent : Backing) (file : File) : Outcome Chain := do
  let ctx ← vhdOpen file
  let header ← readHeaderAt file ctx.dataOffset
  if vhdParentRaw header then .ok (.differRaw ctx.toVhd parent.stored.file)
  else if parent.isRaw then .error (-einval)
  else .ok (parent.under ctx.toVhd)

structure Destination where
  nameLength : Nat
  target : Target
  stamp : Stamp

def snapshotRequest (dest : Destination) (bytes : UInt64) (parent : Backing) (mbytes : UInt64)
    (raw : Bool) : Request where
  nameLength := dest.nameLength
  parent := some parent.found
  bytes := bytes
  type := DiskType.diff.code
  mbytes := mbytes
  raw := raw

def vhdSnapshot (dest : Destination) (bytes : UInt64) (parent : Backing) (mbytes : UInt64)
    (raw : Bool) : Outcome Handle :=
  vhdCreate (.ok dest.target) dest.stamp (snapshotRequest dest bytes parent mbytes raw)

def emptyTable (bat : Bat) : Outcome Bool :=
  if (List.range (min bat.entries (2 ^ 31))).all fun i => bat.bat i == ddBlkUnused then
    if 2 ^ 31 ≤ bat.entries then .undefined else .ok true
  else .ok false

def vhdUtilFindSnapshotTarget : Backing → Outcome Backing
  | .raw _ => .error (-einval)
  | .base image other => .ok (.base image other)
  | .differ image diff parent => do
      let bat ← vhdReadBat image.vhd
      let empty ← emptyTable bat
      if !empty then .ok (.differ image diff parent)
      else if parent.isRaw then .ok parent
      else vhdUtilFindSnapshotTarget parent

def Backing.depth : Backing → Nat
  | .raw _ => 1
  | .base _ _ => 1
  | .differ _ _ parent => parent.depth + 1

def vhdUtilCheckDepth (backing : Backing) : Outcome Nat := do
  let _ ← backing.opened
  .ok backing.depth

structure Numeral where
  unsigned : UInt64
  signed : Int

inductive SnapshotOption
  | S (numeral : Numeral)
  | l (numeral : Numeral)
  | m
  | e

structure SnapshotOptions where
  msize : UInt64
  limit : Int
  raw : Bool
  emptyCheck : Bool

/-- The number of a case is also taken as the limit for the depth: the case of `-S` has no `break`. -/
def SnapshotOptions.take (options : SnapshotOptions) : SnapshotOption → SnapshotOptions
  | .S numeral => { options with msize := numeral.unsigned, limit := numeral.signed }
  | .l numeral => { options with limit := numeral.signed }
  | .m => { options with raw := true }
  | .e => { options with emptyCheck := false }

def snapshotOptions (options : List SnapshotOption) : SnapshotOptions :=
  options.foldl SnapshotOptions.take { msize := 0, limit := 0, raw := false, emptyCheck := true }

def snapshotTarget (options : SnapshotOptions) (supplied : Backing) :
    Outcome (Backing × UInt64 × Bool) :=
  if options.raw || !options.emptyCheck then .ok (supplied.seen options.raw, 0, options.raw)
  else do
    let backing ← vhdUtilFindSnapshotTarget supplied
    if supplied.stored.path ≠ backing.stored.path then do
      let image ← supplied.opened
      .ok (backing, image.1, backing.isRaw)
    else .ok (backing, 0, backing.isRaw)

def checkLimit (limit : Int) (backing : Backing) (raw : Bool) : Outcome Unit :=
  if limit = 0 ∨ raw = true then .ok ()
  else do
    let depth ← vhdUtilCheckDepth backing
    if limit < depth + 1 then .error (-enospc) else .ok ()

def vhdUtilSnapshot (dest : Destination) (given : List SnapshotOption) (supplied : Backing) :
    Outcome (Backing × Handle) := do
  let options := snapshotOptions given
  let (backing, size, raw) ← snapshotTarget options supplied
  checkLimit options.limit backing raw
  let t ← vhdSnapshot dest size backing (options.msize <<< 20) raw
  .ok (backing, t)

structure Supplied where
  backing : Backing
  distinct : backing.paths.Nodup

inductive SnapshotCall
  | library (bytes mbytes : UInt64) (raw : Bool)
  | command (given : List SnapshotOption)

namespace SnapshotCall

def raw : SnapshotCall → Bool
  | library _ _ raw => raw
  | command given => (snapshotOptions given).raw

def run (dest : Destination) (supplied : Supplied) : SnapshotCall → Outcome (Backing × Handle)
  | library bytes mbytes raw => do
      let t ← vhdSnapshot dest bytes (supplied.backing.seen raw) mbytes raw
      .ok (supplied.backing.seen raw, t)
  | command given => vhdUtilSnapshot dest given supplied.backing

end SnapshotCall

end Blktap.Libvhd
