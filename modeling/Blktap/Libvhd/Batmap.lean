import Blktap.Libvhd.Image

/-!
# The map of full blocks and the end of the metadata (`libvhd.c`)
-/

namespace Blktap.Libvhd
open Lib

structure Locator where
  code : Nat
  dataSpace : Nat
  dataLen : Nat
  dataOffset : Nat
  deriving DecidableEq

/-- A `vhd_context_t`. `tapdisk` is whether the creator is tapdisk, and `crtrVer` the version it wrote. -/
structure Context extends Vhd where
  tapdisk : Bool
  crtrVer : Nat
  dataOffset : Nat
  loc : List Locator
  oldBitmap_eq : oldBitmap = (tapdisk && crtrVer == 1)

def Vhd.batmapHeaderOffset (vhd : Vhd) : Nat := vhd.tableOffset + vhdBytesPadded (vhd.maxBatSize * 4)

structure BatmapHeader where
  /-- `tdbatmap` -/
  cookie : Bool
  batmapOffset : Nat
  batmapSize : Nat
  batmapVersion : Nat
  checksum : Nat
  marker : UInt8
  deriving DecidableEq

def batmapCookie : List UInt8 := [0x74, 0x64, 0x62, 0x61, 0x74, 0x6d, 0x61, 0x70]

def batmapHeaderIn (buf : Nat → UInt8) : BatmapHeader where
  cookie := (List.range 8).map buf = batmapCookie
  batmapOffset := be32 buf 8 * 2 ^ 32 + be32 buf 12
  batmapSize := be32 buf 16
  batmapVersion := be32 buf 20
  checksum := be32 buf 24
  marker := buf 28

structure Batmap where
  header : BatmapHeader
  mapBytes : Nat
  map : Nat → UInt8

def vhdReadBatmapHeader (vhd : Vhd) : Outcome BatmapHeader := do
  let buf ← vhd.file.read vhd.batmapHeaderOffset 512
  .ok (batmapHeaderIn buf)

def BatmapHeader.valid (header : BatmapHeader) : Bool :=
  header.cookie && header.batmapVersion ≤ 0x00010002

def Context.hasBatmap (ctx : Context) : Bool :=
  if !ctx.typeDynamic || !ctx.tapdisk || ctx.crtrVer ≤ 1 then false
  else if 0x00010002 ≤ ctx.crtrVer then true
  else
    match vhdReadBatmapHeader ctx.toVhd with
    | .ok header => header.valid
    | _ => false

def Vhd.batmapBytes (vhd : Vhd) : Nat :=
  secsRoundUpNoZero (vhd.currSize / 2 ^ (vhdBlockShift + 3)) * 512

def Vhd.checksumBatmap (vhd : Vhd) (version : Nat) (map : Nat → UInt8) : Nat :=
  let sum := ((List.range vhd.batmapBytes).map fun i =>
    if version = 0x00010001 ∧ 128 ≤ (map i).toNat then (map i).toNat + (2 ^ 32 - 256)
    else (map i).toNat).sum
  2 ^ 32 - 1 - sum % 2 ^ 32

def vhdReadBatmap (ctx : Context) : Outcome Batmap :=
  if !ctx.hasBatmap then .error (-einval)
  else do
    let header ← vhdReadBatmapHeader ctx.toVhd
    if !header.valid then .error (-einval)
    else if header.batmapSize * 512 < ctx.batmapBytes then .undefined
    else do
      let map ← ctx.file.read header.batmapOffset ctx.batmapBytes
      if ctx.checksumBatmap header.batmapVersion map ≠ header.checksum then .error (-einval)
      else .ok { header, mapBytes := ctx.batmapBytes, map }

/-- `vhd_batmap_test`; a block inside `batmap_size` is looked up even when the buffer, which has the
size for the current disk, ends before it. -/
def Batmap.test (batmap : Batmap) (block : Nat) : Outcome Bool :=
  if batmap.header.batmapSize * 2 ^ 12 % 2 ^ 32 ≤ block then .ok false
  else if batmap.mapBytes ≤ block / 8 ∨ 2 ^ 31 ≤ block then .undefined
  else .ok (testBit batmap.map block)

def setBit (addr : Nat → UInt8) (nr : Nat) : Nat → UInt8 :=
  Function.update addr (nr / 8) (addr (nr / 8) ||| (0x80 >>> UInt8.ofNat (nr % 8)))

def Batmap.set (batmap : Batmap) (block : Nat) : Outcome Batmap :=
  if batmap.header.batmapSize * 2 ^ 12 % 2 ^ 32 ≤ block then .ok batmap
  else if batmap.mapBytes ≤ block / 8 ∨ 2 ^ 31 ≤ block then .undefined
  else .ok { batmap with map := setBit batmap.map block }

def Locator.size (loc : Locator) : Nat :=
  if loc.dataSpace < 512 then loc.dataSpace * 512
  else if loc.dataSpace % 512 = 0 then loc.dataSpace
  else 0

def vhdEndOfHeaders (ctx : Context) : Outcome Nat :=
  if !ctx.typeDynamic then .ok 0
  else do
    let eom := max (ctx.dataOffset + 1024)
      (ctx.tableOffset + vhdBytesPadded (ctx.maxBatSize * 4) % 2 ^ 32)
    let eom ←
      if ctx.hasBatmap then do
        let batmap ← vhdReadBatmap ctx
        .ok (max (max eom (ctx.batmapHeaderOffset + 512))
          (batmap.header.batmapOffset + batmap.header.batmapSize * 512))
      else .ok eom
    .ok (ctx.loc.foldl
      (fun eom loc => if loc.code = 0 then eom else max eom (loc.dataOffset + loc.size)) eom)

end Blktap.Libvhd
