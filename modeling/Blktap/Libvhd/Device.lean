import Blktap.Lib.Action
import Blktap.Libvhd.Batmap

/-!
# An image open for writing (`libvhd.c`)

A write to the device may fail, and then leaves the first sectors of its data behind. `faults` says
for the coming writes which of them do; when it is used up they all work.
-/

namespace Blktap.Libvhd
open Lib

def enospc : Int := 28

structure Fault where
  code : Int
  secs : Nat

def File.put (file : File) (off size : Nat) (data : Nat → UInt8) : File where
  size := if size = 0 then file.size else max file.size (off + size)
  byte := fun p =>
    if off ≤ p ∧ p < off + size then data (p - off)
    else if p < file.size then file.byte p
    else 0

theorem File.put_reach {file : File} {off size : Nat} {data : Nat → UInt8} (positive : 0 < size) :
    off + size ≤ (file.put off size data).size := by
  unfold File.put
  dsimp only
  rw [if_neg (Nat.ne_of_gt positive)]
  exact Nat.le_max_right _ _

def File.truncate (file : File) (size : Nat) : File where
  size := size
  byte := fun p => if p < size ∧ p < file.size then file.byte p else 0

/-- A `vhd_context_t` that is open for writing. `footer` has the bytes of the footer, and `spp` the sectors of a
page. -/
structure Handle extends Context where
  isBlock : Bool
  sparse : Bool
  spp : Nat
  spp_pos : 0 < spp
  footer : Nat → UInt8
  bat : Option Bat
  batmap : Option Batmap
  faults : List (Option Fault)

theorem Handle.bitmap_eq (s : Handle) : s.oldBitmap = (s.tapdisk && s.crtrVer == 1) := s.oldBitmap_eq

def Handle.put (s : Handle) (off size : Nat) (data : Nat → UInt8) : Handle :=
  { s with file := s.file.put off size data }

def Handle.roomFor (s : Handle) (off size : Nat) : Nat :=
  if s.isBlock then min size (s.file.size - off) else size

def vhdWrite (off size : Nat) (data : Nat → UInt8) : Action Handle Unit := fun s =>
  let rest := { s with faults := s.faults.tail }
  let room := s.roomFor off size
  match s.faults.head?.join with
  | some fault => (.error fault.code, rest.put off (min room (fault.secs * 512)) data)
  | none =>
      if room < size then (.error (-enospc), rest.put off room data)
      else (.ok (), rest.put off size data)

def vhdTruncate (size : Nat) : Action Handle Unit := fun s =>
  let rest := { s with faults := s.faults.tail }
  match s.faults.head?.join with
  | some fault => (.error fault.code, rest)
  | none => (.ok (), { rest with file := s.file.truncate size })

def vhdGetBat : Action Handle Unit := do
  let s ← Action.get
  if s.bat.isSome then pure ()
  else do
    let bat ← Action.lift (vhdReadBat s.toVhd)
    Action.modify fun s => { s with bat := some bat }

def loadedBat : Action Handle Bat := do
  let s ← Action.get
  match s.bat with
  | some bat => pure bat
  | none => Action.undefined

def Vhd.validBatmap (vhd : Vhd) (batmap : Batmap) : Bool :=
  vhd.checksumBatmap batmap.header.batmapVersion batmap.map == batmap.header.checksum

/-- `vhd_get_batmap`: a map that was changed since it was loaded is read again, for the sum in the
header in memory is not its sum. -/
def vhdGetBatmap : Action Handle Batmap := do
  let s ← Action.get
  if !s.hasBatmap then Action.fail (-einval)
  else
    match s.batmap.filter s.validBatmap with
    | some batmap => pure batmap
    | none => do
        Action.modify fun s => { s with batmap := none }
        let batmap ← Action.lift (vhdReadBatmap s.toContext)
        Action.modify fun s => { s with batmap := some batmap }
        pure batmap

def Context.headersEnd (ctx : Context) (batmap : Option BatmapHeader) : Nat :=
  let eom := max (ctx.dataOffset + 1024)
    (ctx.tableOffset + vhdBytesPadded (ctx.maxBatSize * 4) % 2 ^ 32)
  let eom :=
    match batmap with
    | some header =>
        max (max eom (ctx.batmapHeaderOffset + 512)) (header.batmapOffset + header.batmapSize * 512)
    | none => eom
  ctx.loc.foldl
    (fun eom loc => if loc.code = 0 then eom else max eom (loc.dataOffset + loc.size)) eom

def endOfHeaders : Action Handle Nat := do
  let s ← Action.get
  if !s.typeDynamic then pure 0
  else if s.hasBatmap then do
    let batmap ← vhdGetBatmap
    pure (s.headersEnd (some batmap.header))
  else pure (s.headersEnd none)

def Vhd.endOfExtents (vhd : Vhd) (headers : Nat) (bat : Bat) : Nat :=
  (List.range bat.entries).foldl
    (fun last i =>
      if bat.bat i = ddBlkUnused then last else max (bat.bat i + vhd.spb + vhd.bmSecs) last)
    (headers / 512)

def endOfData : Action Handle Nat := do
  let s ← Action.get
  if !s.typeDynamic then pure (s.file.size - 512)
  else do
    let headers ← endOfHeaders
    vhdGetBat
    let bat ← loadedBat
    pure (s.endOfExtents headers bat * 512)

/-- The bytes of the table as `vhd_write_bat` puts them on disk: the words after the entries were
never converted. -/
def Bat.bytes (bat : Bat) (p : Nat) : UInt8 :=
  if p / 4 < bat.entries then beByte 4 (bat.bat (p / 4)) (p % 4)
  else leByte (bat.bat (p / 4)) (p % 4)

def vhdWriteBat : Action Handle Unit := do
  let s ← Action.get
  let bat ← loadedBat
  vhdWrite s.tableOffset (vhdBytesPadded (bat.entries * 4)) bat.bytes

def oldSetBit (addr : Nat → UInt8) (nr : Nat) : Nat → UInt8 :=
  Function.update addr (nr / 8) (addr (nr / 8) ||| (1 <<< UInt8.ofNat (nr % 8)))

def vhdBitmapSet (vhd : Vhd) (map : Nat → UInt8) (nr : Nat) : Nat → UInt8 :=
  if vhd.oldBitmap then oldSetBit map nr else setBit map nr

def vhdWriteBitmap (block : Nat) (map : Nat → UInt8) : Action Handle Unit := do
  let s ← Action.get
  if !s.typeDynamic then Action.fail (-einval)
  else do
    let bat ← loadedBat
    if bat.entries ≤ block then Action.fail (-erange)
    else if bat.bat block = ddBlkUnused then Action.fail (-einval)
    else vhdWrite (bat.bat block * 512) (s.bmSecs * 512) map

def BatmapHeader.bytes (header : BatmapHeader) (p : Nat) : UInt8 :=
  if p < 8 then batmapCookie.getD p 0
  else if p < 16 then beByte 8 header.batmapOffset (p - 8)
  else if p < 20 then beByte 4 header.batmapSize (p - 16)
  else if p < 24 then beByte 4 header.batmapVersion (p - 20)
  else if p < 28 then beByte 4 header.checksum (p - 24)
  else if p = 28 then header.marker
  else 0

def writeBatmapSectors (batmap : Batmap) : Action Handle Unit := do
  let s ← Action.get
  if !s.hasBatmap then Action.fail (-einval)
  else if batmap.header.batmapSize * 512 < s.batmapBytes then Action.undefined
  else do
    vhdWrite batmap.header.batmapOffset s.batmapBytes batmap.map
    let checksum := s.checksumBatmap batmap.header.batmapVersion batmap.map
    vhdWrite s.batmapHeaderOffset 512 { batmap.header with checksum }.bytes

def vhdWriteBatmap (batmap : Batmap) : Action Handle Unit := do
  let _ ← Action.attempt (writeBatmapSectors batmap)
  pure ()

def footerCookie : List UInt8 := [0x63, 0x6f, 0x6e, 0x65, 0x63, 0x74, 0x69, 0x78]
def poisonCookie : List UInt8 := [0x76, 0x5f, 0x70, 0x6f, 0x69, 0x73, 0x6f, 0x6e]

def checksumFooter (footer : Nat → UInt8) : Nat :=
  let sum := ((List.range 512).map fun i => if 64 ≤ i ∧ i < 68 then 0 else (footer i).toNat).sum
  2 ^ 32 - 1 - sum % 2 ^ 32

def sealFooter (footer : Nat → UInt8) (p : Nat) : UInt8 :=
  if 64 ≤ p ∧ p < 68 then beByte 4 (checksumFooter footer) (p - 64) else footer p

def cookieIn (bytes : Nat → UInt8) : List UInt8 := (List.range 8).map bytes

def vhdWriteFooterAt (off : Nat) : Action Handle Unit := do
  let s ← Action.get
  if cookieIn s.footer ≠ footerCookie ∧ cookieIn s.footer ≠ poisonCookie then
    Action.fail (-einval)
  else vhdWrite off 512 (sealFooter s.footer)

def footerOffset : Action Handle Nat := do
  let s ← Action.get
  if s.isBlock then pure (s.file.size - 512) else endOfData

def vhdWriteFooter : Action Handle Unit := do
  let off ← footerOffset
  vhdWriteFooterAt off
  let s ← Action.get
  Action.when (s.isBlock = false) (vhdTruncate (off + 512))
  Action.when (s.typeDynamic = true) (vhdWriteFooterAt 0)

end Blktap.Libvhd
