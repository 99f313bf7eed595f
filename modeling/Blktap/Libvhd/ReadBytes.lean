import Blktap.Libvhd.Read

/-!
# Byte reads through a chain (`vhd_io_read_bytes`)
-/

namespace Blktap.Libvhd
open Lib

structure VectorEntry where
  off : Nat
  bytes : Nat
  buf : Nat

structure BlockVector where
  start : Nat
  buf : Nat
  array : List VectorEntry
  map : Nat → Bool

def vectorEntries (start buf cnt : Nat) : List VectorEntry → List VectorEntry
  | v :: rest =>
      if v.off + v.bytes = start then { v with bytes := v.bytes + cnt } :: rest
      else ⟨start, cnt, buf⟩ :: v :: rest
  | [] => [⟨start, cnt, buf⟩]

def vectorTurn (test : Nat → Bool) (blkEnd : Nat) (vec : BlockVector) (sec : Nat) : BlockVector :=
  let cnt := min (512 - vec.start % 512) (blkEnd - vec.start)
  let next := { vec with start := vec.start + cnt, buf := vec.buf + cnt }
  if !vec.map sec then next
  else if test sec then { next with array := vectorEntries vec.start vec.buf cnt vec.array }
  else { next with map := fun i => if i = sec then false else vec.map i }

def vhdBlockVectorInit (vhd : Vhd) (bat : Bat) (block : Nat) (map : Nat → Bool)
    (buf blkStart blkEnd : Nat) : Outcome BlockVector := do
  let firstSec := blkStart / 512
  let lastSec := secsRoundUpNoZero blkEnd
  let bitmap ← vhdReadBitmap vhd bat block
  .ok ((List.range' firstSec (lastSec - firstSec)).foldl
    (vectorTurn (vhdBitmapTest vhd bitmap) blkEnd) ⟨blkStart, buf, [], map⟩)

def vectorPread (file : File) (off : Nat) (buf : Nat → UInt8) (v : VectorEntry) :
    Outcome (Nat → UInt8) := do
  let data ← file.read (off + v.off) v.bytes
  .ok fun p => if v.buf ≤ p ∧ p < v.buf + v.bytes then data (p - v.buf) else buf p

def vhdBlockVectorRead (vhd : Vhd) (bat : Bat) (block : Nat) (array : List VectorEntry)
    (buf : Nat → UInt8) : Outcome (Nat → UInt8) :=
  if bat.entries ≤ block then .error (-erange)
  else if bat.bat block = ddBlkUnused then .error (-einval)
  else
    let off := (bat.bat block + vhd.bmSecs) % 2 ^ 32 * 512
    array.reverse.foldlM (vectorPread vhd.file off) buf

def readLinkBytesTurn (vhd : Vhd) (bat : Bat) (off size mapOff bufOff : Nat) (dest : Dest) :
    Outcome (Nat × Nat × Dest) :=
  let blkSize := vhd.spb * 512
  if blkSize = 0 then .undefined
  else
    let blk := off / blkSize % 2 ^ 32
    let blkOff := off % blkSize
    let bytes := min (blkSize - blkOff) size
    let firstSec := blkOff / 512
    let secs := secsRoundUpNoZero (blkOff + bytes) - firstSec
    if bat.len ≤ blk then .undefined
    else if bat.bat blk = ddBlkUnused then .ok (bytes, secs, dest)
    else do
      let blkmap := fun sec =>
        decide (firstSec ≤ sec ∧ sec < firstSec + secs) && !dest.map (mapOff + (sec - firstSec))
      let vec ← vhdBlockVectorInit vhd bat blk blkmap bufOff blkOff (blkOff + bytes)
      let buf ← vhdBlockVectorRead vhd bat blk vec.array dest.buf
      let map := fun i => dest.map i ||
        (decide (mapOff ≤ i ∧ i < mapOff + secs) && vec.map (firstSec + (i - mapOff)))
      .ok (bytes, secs, ⟨map, buf⟩)

def readLinkBytes (vhd : Vhd) (bat : Bat) : Nat → Nat → Nat → Nat → Nat → Dest → Outcome Dest
  | 0, _, _, _, _, _ => .undefined
  | fuel + 1, off, size, mapOff, bufOff, dest => do
      let (bytes, secs, dest) ← readLinkBytesTurn vhd bat off size mapOff bufOff dest
      if size - bytes = 0 then .ok dest
      else
        readLinkBytes vhd bat fuel (off + bytes) (size - bytes) (mapOff + secs) (bufOff + bytes) dest

structure ByteRange where
  off : Nat
  size : Nat

namespace ByteRange

def firstSec (range : ByteRange) : Nat := range.off / 512 % 2 ^ 32

def lastSec (range : ByteRange) : Nat := secsRoundUpNoZero (range.off + range.size)

def secs (range : ByteRange) : Nat := (range.lastSec + 2 ^ 32 - range.firstSec) % 2 ^ 32

def coff (range : ByteRange) (i : Nat) : Nat := if i = range.firstSec then range.off else i * 512

def csize (range : ByteRange) (i : Nat) : Nat :=
  if i = range.lastSec - 1 then (range.off + range.size - range.coff i) % 2 ^ 32 else 512

def count (range : ByteRange) : Nat := (range.off + range.size + 511) / 512 - range.off / 512

/-- The map that `calloc(1, ((last_sec - first_sec) + 7) >> 3)` returns has a bit for each, and the
bits are numbered by an `int`. -/
def mapFits (range : ByteRange) : Bool :=
  decide ((range.count + 7) / 8 ≤ (range.secs + 7) % 2 ^ 32 / 8 ∧ range.secs ≤ 2 ^ 31)

end ByteRange

def missingRun (range : ByteRange) (map : Nat → Bool) (i : Nat) : Nat :=
  ((List.range (range.lastSec - i)).takeWhile fun k => !map (i + k - range.firstSec)).length

/-- `__raw_read_link_bytes` from sector `i` on. It writes to the buffer and leaves the map alone, and
it takes `secs == last_sec - 1` for the end of the range. -/
def rawReadLinkBytes (raw : File) (range : ByteRange) (map : Nat → Bool) :
    Nat → Nat → (Nat → UInt8) → Outcome (Nat → UInt8)
  | 0, _, buf => .ok buf
  | fuel + 1, i, buf =>
      if range.lastSec ≤ i then .ok buf
      else if map (i - range.firstSec) then rawReadLinkBytes raw range map fuel (i + 1) buf
      else
        let secs := missingRun range map i
        let coff := range.coff i
        let csize :=
          if secs = range.lastSec - 1 then range.off + range.size - coff else secs * 512
        let got := min (min csize maxTransfer) (raw.size - coff)
        if coff < range.off ∨ range.size < coff - range.off + got then .undefined
        else if got ≠ csize then .error (-eio)
        else rawReadLinkBytes raw range map fuel (i + secs) fun p =>
          if coff - range.off ≤ p ∧ p < coff - range.off + csize then
            raw.byte (coff + (p - (coff - range.off)))
          else buf p

def clearTurn (range : ByteRange) (map : Nat → Bool) (buf : Nat → UInt8) (i : Nat) :
    Outcome (Nat → UInt8) :=
  if map (i - range.firstSec) then .ok buf
  else
    let start := range.coff i - range.off
    if range.coff i < range.off ∨ range.size < start + range.csize i then .undefined
    else .ok fun p => if start ≤ p ∧ p < start + range.csize i then 0 else buf p

def clearMissing (range : ByteRange) (dest : Dest) : Outcome (Nat → UInt8) :=
  (List.range' range.firstSec (range.lastSec - range.firstSec)).foldlM
    (clearTurn range dest.map) dest.buf

def readLayerBytes (vhd : Vhd) (range : ByteRange) (dest : Dest) : Outcome Dest := do
  let bat ← vhdReadBat vhd
  readLinkBytes vhd bat (range.size + 1) range.off range.size 0 0 dest

def dynamicReadBytes (range : ByteRange) : Chain → Dest → Outcome Dest
  | .base vhd, dest => readLayerBytes vhd range dest
  | .differRaw vhd raw, dest => do
      let dest ← readLayerBytes vhd range dest
      if dest.done range.secs then .ok dest
      else do
        let buf ← rawReadLinkBytes raw range dest.map (range.lastSec - range.firstSec)
          range.firstSec dest.buf
        .ok ⟨dest.map, buf⟩
  | .differ vhd parent, dest => do
      let dest ← readLayerBytes vhd range dest
      if dest.done range.secs then .ok dest else dynamicReadBytes range parent dest

def vhdIoReadBytes (chain : Chain) (range : ByteRange) (buf : Nat → UInt8) :
    Outcome (Nat → UInt8) :=
  let vhd := chain.top
  if vhd.currSize < range.off + range.size then .error (-erange)
  else if !vhd.typeDynamic then vhd.file.read range.off range.size
  else do
    let _ ← vhdReadBat vhd
    if !range.mapFits then .undefined
    else do
      let dest ← dynamicReadBytes range chain ⟨fun _ => false, buf⟩
      clearMissing range dest

end Blktap.Libvhd
