import Blktap.Libvhd.ChangeParent
import Blktap.Libvhd.MapBounds

/-!
# Resizing an image (`vhd-util-resize.c`)

A dynamic image grows by entries of its table. With a journal, what is in the way of the longer table is moved first;
with `-f` the table must have been made long enough before. The journal itself is a file of its own, of which only
matters here whether work on it fails.
-/

namespace Blktap.Libvhd
open Lib Action

def enosys : Int := 38

structure Logged where
  bitmap : Option Int
  block : Option Int
  sync : Option Int

/-- A call of `vhd_util_resize`. `turns` bounds the loop that moves blocks, and `heap` is what is in memory that
`posix_memalign` gives. -/
structure Resize where
  file : File
  isBlock : Bool
  faults : List (Option Fault)
  megabytes : UInt64
  fast : Bool
  starts : Option Int
  syncs : Option Int
  logs : Nat → Logged
  commits : Option Int
  turns : Nat
  heap : Nat → Nat

namespace Resize

def call : Option Int → Action Handle Unit
  | some code => fail code
  | none => pure ()

section Tables

def hasBatmap (s : Handle) : Bool :=
  s.hasBatmap || (s.looksForBatmap && s.batmap.any fun batmap => batmap.header.valid)

def vhdGetBatmap : Action Handle Batmap := do
  let s ← get
  if !hasBatmap s then fail (-einval)
  else if s.batmap.any (fun batmap => batmap.mapBytes < s.batmapBytes) then undefined
  else
    match s.batmap.filter s.validBatmap with
    | some batmap => pure batmap
    | none => do
        modify fun s => { s with batmap := none }
        let batmap ← lift (vhdReadBatmap s.toContext)
        modify fun s => { s with batmap := some batmap }
        pure batmap

def getMap : Action Handle Unit := do
  let s ← get
  when (hasBatmap s = true) do
    let _ ← vhdGetBatmap
    pure ()

/-- The map of an image that has one. It was read before, unless the header has appeared since; then the code goes on
to copy from `NULL`. -/
def loadedMap : Action Handle (Option Batmap) := do
  let s ← get
  if !hasBatmap s then pure none
  else
    match s.batmap with
    | some batmap => pure (some batmap)
    | none => undefined

def endOfHeaders : Action Handle Nat := do
  let s ← get
  if !s.typeDynamic then pure 0
  else if hasBatmap s then do
    let batmap ← vhdGetBatmap
    pure (s.headersEnd (some batmap.header))
  else pure (s.headersEnd none)

def endOfData : Action Handle Nat := do
  let s ← get
  if !s.typeDynamic then pure (s.file.size - 512)
  else do
    let headers ← endOfHeaders
    vhdGetBat
    let bat ← loadedBat
    pure (s.endOfExtents headers bat * 512)

def footerOffset : Action Handle Nat := do
  let s ← get
  if s.isBlock then pure (s.file.size - 512) else endOfData

def vhdWriteFooter : Action Handle Unit := do
  let off ← footerOffset
  vhdWriteFooterAt off
  let s ← get
  when (s.isBlock = false) (vhdTruncate (off + 512))
  when (s.typeDynamic = true) (vhdWriteFooterAt 0)

def writeBatmapSectors (batmap : Batmap) : Action Handle Unit := do
  let s ← get
  if batmap.header.batmapSize * 512 < s.batmapBytes then undefined
  else do
    vhdWrite batmap.header.batmapOffset s.batmapBytes batmap.map
    let checksum := s.checksumBatmap batmap.header.batmapVersion batmap.map
    vhdWrite s.batmapHeaderOffset 512 { batmap.header with checksum }.bytes

def vhdWriteBatmap (batmap : Batmap) : Action Handle Unit := do
  let _ ← attempt (writeBatmapSectors batmap)
  pure ()

end Tables

section Blocks

def firstDataBlock (bat : Bat) : Nat × Nat :=
  (List.range bat.entries).foldl
    (fun first i =>
      if bat.bat i ≠ ddBlkUnused ∧ (first.2 = 0 ∨ bat.bat i < first.2) then (i, bat.bat i) else first)
    (0, 0)

def nextBlockOffset (vhd : Vhd) (bat : Bat) : Nat :=
  (List.range bat.entries).foldl
    (fun next i =>
      if bat.bat i = ddBlkUnused then next else max next ((bat.bat i + vhd.spb + vhd.bmSecs) % 2 ^ 32))
    0

def writePieces (map : Nat) : Nat → Nat → Nat → Action Handle Unit
  | 0, _, _ => pure ()
  | n + 1, off, size => do
      vhdWrite off (min size map) fun _ => 0
      writePieces map n (off + min size map) (size - min size map)

def vhdWriteZeros (off size : Nat) : Action Handle Unit :=
  let map := min size (2 ^ vhdBlockShift)
  if map = 0 then fail (-einval) else writePieces map ((size + map - 1) / map) off size

variable (r : Resize)

def vhdJournalAddBlock (turn block : Nat) : Action Handle Unit := do
  vhdGetBat
  let s ← get
  let bat ← loadedBat
  if bat.entries ≤ block then fail (-erange)
  else if bat.bat block = ddBlkUnused then pure ()
  else do
    let _ ← lift (vhdReadBitmap s.toVhd bat block)
    call (r.logs turn).bitmap
    let _ ← lift (vhdReadBlock s.toVhd bat block)
    call (r.logs turn).block
    call (r.logs turn).sync

def placed (bat : Bat) (block sector : Nat) : Bat :=
  { bat with bat := Function.update bat.bat block sector }

def vhdMoveBlock (turn src offset : Nat) : Action Handle Unit := do
  let bat ← loadedBat
  if bat.bat src = ddBlkUnused then fail (-einval)
  else do
    r.vhdJournalAddBlock turn src
    let s ← get
    let map ← lift (vhdReadBitmap s.toVhd bat src)
    vhdWrite offset (s.bmSecs * 512) map
    let s ← get
    let block ← lift (vhdReadBlock s.toVhd bat src)
    vhdWrite (offset + s.bmSecs * 512) (s.spb * 512) block
    modify fun s => { s with bat := some (placed bat src (offset / 512 % 2 ^ 32)) }
    vhdWriteZeros (bat.bat src * 512) ((s.bmSecs + s.spb) * 512)

def moveBlocks (eom : Nat) : Nat → Action Handle Unit
  | 0 => undefined
  | turn + 1 => do
      let s ← get
      let bat ← loadedBat
      let newOff := nextBlockOffset s.toVhd bat * 512
      let gap := (4096 - (newOff + s.bmSecs * 512) % 4096) % 4096
      when (gap ≠ 0) (vhdWriteZeros newOff gap)
      r.vhdMoveBlock turn (firstDataBlock bat).1 (newOff + gap)
      let bat ← loadedBat
      when ((firstDataBlock bat).2 * 512 ≤ eom) (moveBlocks eom turn)

end Blocks

section Metadata

inductive Part
  | header
  | bat
  | batmap
  | ploc
  | data
  deriving DecidableEq

def inRange (off start size : Nat) : Bool := start < off && off < start + size

def clobbers (s : Handle) (bat : Bat) (batmap : Option Batmap) (off : Nat) : Part → Bool
  | .header => inRange off s.dataOffset 1024
  | .bat => inRange off s.tableOffset (vhdBytesPadded (s.maxBatSize * 4))
  | .batmap => batmap.any fun batmap =>
      inRange off batmap.header.batmapOffset (vhdBytesPadded batmap.header.batmapSize)
  | .ploc => s.loc.any fun loc => loc.code != 0 && inRange off loc.dataOffset loc.size
  | .data =>
      let first := (firstDataBlock bat).2
      first != 0 && inRange off (first * 512) (2 ^ vhdBlockShift)

def vhdCheckForClobber (off : Nat) (skip : List Part) : Action Handle Unit := do
  let s ← get
  let bat ← loadedBat
  let batmap ← loadedMap
  let parts := [Part.header, .bat, .batmap, .ploc, .data].filter fun part => !skip.contains part
  when (off < 512 ∨ parts.any (clobbers s bat batmap off) = true) (fail (-einval))

def readLocators (file : File) (eob : Nat) : List Locator → Outcome (List (Option (Nat → UInt8)))
  | [] => .ok []
  | loc :: rest =>
      if loc.code = 0 ∨ loc.dataOffset < eob then do
        let names ← readLocators file eob rest
        .ok (none :: names)
      else do
        let name ← file.read loc.dataOffset loc.size
        let names ← readLocators file eob rest
        .ok (some name :: names)

def shiftLocators (needed : Nat) : List (Option (Nat → UInt8)) → Nat → Action Handle Unit
  | [], _ => pure ()
  | none :: rest, i => shiftLocators needed rest (i + 1)
  | some name :: rest, i => do
      let s ← get
      let loc := s.loc.getD i .unused
      vhdCheckForClobber (loc.dataOffset + needed + loc.size) [.ploc]
      vhdWrite (loc.dataOffset + needed) loc.size name
      modify fun s =>
        { s with oldBitmap_eq := s.bitmap_eq, loc := s.loc.set i { loc with dataOffset := loc.dataOffset + needed } }
      shiftLocators needed rest (i + 1)

def shiftMap (eob needed : Nat) (batmap : Batmap) : Batmap :=
  if eob < batmap.header.batmapOffset then
    { batmap with header := { batmap.header with batmapOffset := batmap.header.batmapOffset + needed } }
  else batmap

def vhdShiftMetadata (eob batNeeded mapNeeded : Nat) : Action Handle Unit := do
  let s ← get
  let names ← lift (readLocators s.file eob s.loc)
  shiftLocators (batNeeded + mapNeeded) names 0
  let s ← get
  when (hasBatmap s = true) (modify fun s => { s with batmap := s.batmap.map (shiftMap eob batNeeded) })

end Metadata

section Grow
variable (r : Resize)

def headerOut (s : Handle) (p : Nat) : UInt8 :=
  if 28 ≤ p ∧ p < 32 then beByte 4 s.maxBatSize (p - 28)
  else if (576 ≤ p ∧ p < 768) ∧ 16 ≤ (p - 576) % 24 then
    beByte 8 (s.loc.getD ((p - 576) / 24) .unused).dataOffset ((p - 576) % 24 - 16)
  else r.file.byte (s.dataOffset + p)

def mapBytes (blocks : Nat) : Nat := (blocks + 7) % 2 ^ 32 / 8

def extendBat (old entries : Nat) : Action Handle Unit := do
  let s ← get
  let bat ← loadedBat
  let bytes := vhdBytesPadded (old * 4)
  let newBytes := vhdBytesPadded (entries * 4)
  if bat.len * 4 < bytes ∨ newBytes < bytes ∨ (bat.entries < 2 ^ 31 ∧ 2 ^ 31 ≤ entries) then undefined
  else do
    let newBat : Bat :=
      { entries, len := newBytes / 4
        bat := fun i =>
          if bat.entries ≤ i ∧ i < entries then ddBlkUnused
          else if i < bytes / 4 then bat.bat i
          else r.heap i }
    vhdWrite s.tableOffset newBytes newBat.bytes
    modify fun s => { s with bat := some newBat }

def extendMap (old entries : Nat) (batmap : Batmap) : Action Handle Unit := do
  let bytes := vhdBytesPadded (mapBytes old)
  let newBytes := vhdBytesPadded (mapBytes entries)
  if batmap.mapBytes < bytes ∨ newBytes < bytes then undefined
  else do
    let newBatmap : Batmap :=
      { header := { batmap.header with batmapSize := secsRoundUpNoZero newBytes }
        mapBytes := newBytes
        map := fun i => if i < bytes then batmap.map i else 0 }
    vhdWriteBatmap newBatmap
    modify fun s => { s with batmap := some newBatmap }

def resizeTo (s : Handle) (size : Nat) : Handle :=
  { s with oldBitmap_eq := s.bitmap_eq, currSize := size, footer := MapBounds.resizeFooter s.footer size }

def checkEntries (entries : Nat) : Action Handle Unit := do
  let s ← get
  vhdCheckForClobber (s.tableOffset + vhdBytesPadded (entries * 4)) [.bat, .batmap]
  match ← loadedMap with
  | some batmap => vhdCheckForClobber (batmap.header.batmapOffset + vhdBytesPadded (mapBytes entries)) []
  | none => pure ()

def finishEntries (old entries : Nat) : Action Handle Unit := do
  match ← loadedMap with
  | none => pure ()
  | some batmap => do
      extendMap old entries batmap
      modify fun s => resizeTo s (entries * s.blockSize)
      vhdWriteFooter

def vhdAddBatEntries (entries : Nat) : Action Handle Unit := do
  let s ← get
  let newEntries := (s.maxBatSize + entries) % 2 ^ 32
  checkEntries newEntries
  modify fun s => { s with oldBitmap_eq := s.bitmap_eq, maxBatSize := newEntries }
  let t ← get
  vhdWriteHeader (r.headerOut t)
  r.extendBat s.maxBatSize newEntries
  finishEntries s.maxBatSize newEntries

def secsToBlocksUp (vhd : Vhd) (secs : Nat) : Nat :=
  (secs / vhd.spb + if secs % vhd.spb = 0 then 0 else 1) % 2 ^ 32

def shortage (needed avail : Nat) : Nat := if avail < needed then vhdBytesPadded (needed - avail) else 0

def mapRoom (s : Handle) (blocks : Nat) : Option Batmap → Nat × Nat
  | some batmap => (blocks / 8 + 1, (batmap.header.batmapSize * 512 + 2 ^ 64 - mapBytes s.maxBatSize) % 2 ^ 64)
  | none => (0, 0)

def clearWay (eom batNeeded mapNeeded : Nat) : Action Handle Unit := do
  let s ← get
  let bat ← loadedBat
  when ((firstDataBlock bat).2 ≠ 0) (r.moveBlocks (eom + (batNeeded + mapNeeded)) r.turns)
  vhdShiftMetadata (s.tableOffset + vhdBytesPadded (s.maxBatSize * 4)) batNeeded mapNeeded

def makeRoom (blocks : Nat) : Action Handle Unit := do
  let s ← get
  let batmap ← loadedMap
  let batNeeded := blocks * 4
  let batAvail := vhdBytesPadded (s.maxBatSize * 4) - s.maxBatSize * 4
  let (mapNeeded, mapAvail) := mapRoom s blocks batmap
  if batNeeded ≤ batAvail ∧ mapNeeded ≤ mapAvail then pure ()
  else do
    let eom ← endOfHeaders
    r.clearWay eom (shortage batNeeded batAvail) (shortage mapNeeded mapAvail)

def vhdDynamicGrow (secs : Nat) : Action Handle Unit := do
  let s ← get
  if s.spb = 0 then undefined
  else do
    r.makeRoom (secsToBlocksUp s.toVhd secs)
    r.vhdAddBatEntries (secsToBlocksUp s.toVhd secs)

def newSecs : Nat := r.megabytes.toNat * 2 ^ 11 % 2 ^ 64

def vhdDynamicResize : Action Handle Unit := do
  let s ← get
  if s.currSize / 512 = r.newSecs then pure ()
  else do
    vhdGetBat
    getMap
    if r.newSecs < s.currSize / 512 then fail (-enosys)
    else r.vhdDynamicGrow (r.newSecs - s.currSize / 512)

end Grow

section Util
variable (r : Resize)

def withCookie (cookie : List UInt8) (footer : Nat → UInt8) (p : Nat) : UInt8 :=
  if p < 8 then cookie.getD p 0 else footer p

/-- `vhd_journal_create` and `vhd_journal_disable_vhd`. A fixed disk has no table, so this is where it fails. -/
def vhdJournalCreate : Action Handle Unit := do
  vhdGetBat
  getMap
  call r.starts
  modify fun s => { s with footer := withCookie poisonCookie s.footer }
  vhdWriteFooter
  call r.syncs

def vhdJournalEnableVhd : Action Handle Unit := do
  let s ← get
  when (cookieIn s.footer = poisonCookie) do
    modify fun s => { s with footer := withCookie footerCookie s.footer }
    vhdWriteFooter

/-- `vhd_util_resize` with a journal. An error of `vhd_journal_remove` is not looked at. -/
def journaled : Action Handle Unit := do
  r.vhdJournalCreate
  r.vhdDynamicResize
  call r.commits
  let _ ← attempt vhdJournalEnableVhd
  pure ()

def vhdSetVirtSize (size : Nat) : Action Handle Unit := do
  let s ← get
  if s.maxBatSize < size / 2 ^ vhdBlockShift then fail (-einval)
  else do
    modify fun s => resizeTo s size
    vhdWriteFooter

def fastSize : Nat :=
  (r.megabytes.toNat * 2 ^ 20 % 2 ^ 64 + (2 ^ vhdBlockShift - 1)) % 2 ^ 64 / 2 ^ vhdBlockShift * 2 ^ vhdBlockShift

def vhdDynamicGrowFast : Action Handle Unit := do
  vhdGetBat
  getMap
  let s ← get
  if r.fastSize < s.currSize then fail (-einval)
  else when (r.fastSize ≠ s.currSize) (vhdSetVirtSize r.fastSize)

def opened : Outcome Handle := do
  let ctx ← vhdOpen r.file
  let footer ← readFooter r.file
  .ok { ctx with isBlock := r.isBlock, sparse := false, spp := 1, spp_pos := Nat.one_pos, footer, bat := none
                 batmap := none, faults := r.faults }

def vhdUtilResize : Outcome Handle := do
  let s ← r.opened
  if !s.tapdisk then .error (-einval)
  else
    match (if r.fast then r.vhdDynamicGrowFast else r.journaled) s with
    | (.ok (), t) => .ok t
    | (.error code, _) => .error code
    | (.undefined, _) => .undefined

end Util

end Resize

end Blktap.Libvhd
