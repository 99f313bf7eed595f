import Blktap.Libvhd.Chain
import Blktap.Libvhd.Headers

/-!
# The check of an image (`vhd-util-check.c`)

`vhd-util check` reads both footers, the header, the block table and the map of full blocks of a file, and with `-b` all
allocated blocks. A test returns a message, or none. Of the parents only the results are here.
-/

namespace Blktap.Libvhd.Check
open Lib

structure Options where
  ignoreFooter : Bool
  ignoreTimestamps : Bool
  checkData : Bool
  collectStats : Bool
  parents : Bool

structure Surroundings where
  now : Nat
  parentName : Outcome Unit
  parent : Nat → Outcome Unit
  parents : Outcome Unit

def timestampMaxSlack : Nat := 1800

def complaint (tests : List (Bool × String)) : Option String := (tests.find? Prod.fst).map Prod.snd

def vhdUtilCheckZeros (buf : Nat → UInt8) (size : Nat) : Nat := ((List.range size).find? fun i => buf i ≠ 0).getD 0

section Footers

def createdByTap (footer : Nat → UInt8) : Bool := (List.range 3).map (fun i => footer (28 + i)) == crtrApp.take 3

def hiddenByTap (footer : Nat → UInt8) : Bool :=
  footer 85 ≠ 0 && createdByTap footer && (be32 footer 32 == 1 || be32 footer 32 == 0x00010001)

def invalidSum (footer : Nat → UInt8) : Bool :=
  checksumFooter footer ≠ be32 footer 64 &&
    !(hiddenByTap footer && checksumFooter (Function.update footer 85 0) == be32 footer 64)

def inFuture (opts : Options) (now time : Nat) : Bool :=
  !opts.ignoreTimestamps && (now + timestampMaxSlack) % 2 ^ 32 < time

def validateFooter (opts : Options) (now : Nat) (footer : Nat → UInt8) : Option String :=
  complaint
    [(cookieIn footer ≠ footerCookie, "invalid cookie"),
      (invalidSum footer, "invalid checksum"),
      (be32 footer 8 / 2 % 2 = 0, "invalid 'reserved' feature"),
      (be32 footer 8 / 4 ≠ 0, "invalid extra features"),
      (be32 footer 12 ≠ 0x00010000, "invalid file format version"),
      (be32 footer 60 ≠ 3 ∧ be32 footer 60 ≠ 4 ∧ be64 footer 16 ≠ 2 ^ 64 - 1, "invalid data offset"),
      (inFuture opts now (be32 footer 24), "creation time in future"),
      (createdByTap footer && 0x00010003 < be32 footer 32, "unsupported tap creator version"),
      (vhdChs (be64 footer 48) < be32 footer 56, "geometry too large"),
      (be32 footer 60 ≠ 2 ∧ be32 footer 60 ≠ 3 ∧ be32 footer 60 ≠ 4, "invalid type"),
      (footer 84 ≠ 0 ∧ footer 84 ≠ 1, "invalid 'saved' state"),
      (footer 85 ≠ 0 ∧ footer 85 ≠ 1, "invalid 'hidden' state"),
      (vhdUtilCheckZeros (fun i => footer (86 + i)) 426 ≠ 0, "invalid 'reserved' bits")]

def sameFooter (first second : Nat → UInt8) : Bool := (List.range 512).all fun i => first i == second i

def footerSize (file : File) : Nat := if file.size % 512 = 0 then 512 else 511

def primaryFooter (file : File) (p : Nat) : UInt8 :=
  if p < footerSize file then file.byte (file.size - footerSize file + p) else 0

def checkBackup (opts : Options) (now : Nat) (file : File) (missing : Bool) : Outcome ((Nat → UInt8) × Bool) :=
  if file.size < 512 then .error (-eio)
  else if (validateFooter opts now file.byte).isSome then .error (-einval)
  else if sameFooter (primaryFooter file) file.byte then .ok (primaryFooter file, missing)
  else if opts.ignoreFooter then .ok (file.byte, missing)
  else if hiddenByTap file.byte && sameFooter (primaryFooter file) (Function.update file.byte 85 0) then
    .ok (primaryFooter file, missing)
  else .error (-einval)

def checkFooter (opts : Options) (now : Nat) (file : File) : Outcome ((Nat → UInt8) × Bool) :=
  if file.size < footerSize file then .error (-einval)
  else if (validateFooter opts now (primaryFooter file)).isSome then
    if opts.ignoreFooter then checkBackup opts now file true else .error (-einval)
  else if be32 (primaryFooter file) 60 = 2 then .ok (fun _ => 0, false)
  else checkBackup opts now file false

end Footers

section Header

def beforeFooter (size : Nat) : Nat := (size + 2 ^ 64 - 512) % 2 ^ 64

def validateHeader (size : Nat) (header : Nat → UInt8) : Option String :=
  complaint
    [(cookieIn header ≠ headerCookie, "invalid cookie"),
      (checksumHeader header ≠ be32 header 36, "invalid checksum"),
      (be32 header 24 ≠ 0x00010000, "invalid header version"),
      (be64 header 8 ≠ 2 ^ 64 - 1, "invalid data offset"),
      (be64 header 16 = 0 ∨ be64 header 16 % 512 ≠ 0 ∨
        beforeFooter size < (be64 header 16 + be32 header 28 * 4) % 2 ^ 64, "invalid table offset"),
      ((List.range 32).countP (fun i => (be32 header 32).testBit i) ≠ 1, "invalid block size"),
      (be32 header 60 ≠ 0, "invalid reserved bits"),
      (vhdUtilCheckZeros (fun i => header (768 + i)) 256 ≠ 0, "invalid reserved bits")]

def headerAt (file : File) (footer : Nat → UInt8) (p : Nat) : UInt8 := file.byte (be64 footer 16 + p)

def checkHeader (file : File) (footer : Nat → UInt8) : Outcome Unit :=
  if file.size < be64 footer 16 + 1024 then .error (-eio)
  else if (validateHeader file.size (headerAt file footer)).isSome then .error (-einval)
  else .ok ()

def vhdOpenAny (file : File) : Outcome (Context × (Nat → UInt8)) := do
  let footer ← readFooter file
  let fixed := contextIn file footer fun _ => 0
  if !fixed.typeDynamic then .ok (fixed, fun _ => 0)
  else do
    let header ← readHeaderAt file fixed.dataOffset
    .ok (contextIn file footer header, header)

/-- Byte `p` of the locators in memory. `vhd_header_in` swaps all numbers but `res`. -/
def locatorByte (header : Nat → UInt8) (p : Nat) : UInt8 :=
  let q := p % 24
  header (576 + p / 24 * 24 + if q < 12 then q / 4 * 4 + (3 - q % 4) else if q < 16 then q else 39 - q)

def validateNoParent (header : Nat → UInt8) : Option String :=
  complaint
    [(vhdUtilCheckZeros (fun i => header (64 + i)) 512 ≠ 0, "invalid non-null parent name"),
      (vhdUtilCheckZeros (locatorByte header) 192 ≠ 0, "invalid non-null parent locators"),
      ((List.range 16).any fun i => header (40 + i) ≠ 0, "invalid non-null parent uuid"),
      (be32 header 56 ≠ 0, "invalid non-zero parent timestamp")]

def checkDifferencingHeader (opts : Options) (env : Surroundings) (ctx : Context) (header : Nat → UInt8) :
    Outcome Unit :=
  if ctx.type = .diff then
    if inFuture opts env.now (be32 header 56) then .error (-einval)
    else if env.parentName = .ok () then .ok ()
    else .error (-einval)
  else if (validateNoParent header).isSome then .error (-einval)
  else .ok ()

end Header

section Parents

def validateParentLocator (size : Nat) (header : Nat → UInt8) (i : Nat) : Option String :=
  let loc := locatorIn header i
  if !validPlatformCode loc.code then some "invalid platform code"
  else if loc.code = 0 then
    complaint [(vhdUtilCheckZeros (fun p => locatorByte header (24 * i + p)) 24 ≠ 0, "non-zero locator")]
  else
    complaint
      [(loc.dataOffset = 0, "invalid data offset"),
        (loc.dataSpace = 0, "invalid data space"),
        (loc.dataLen = 0, "invalid data length"),
        (beforeFooter size < (loc.dataOffset + loc.size) % 2 ^ 64, "invalid size"),
        (be32 header (576 + 24 * i + 12) ≠ 0, "invalid reserved bits")]

/-- The loop of `vhd_util_check_parent_locators`: the codes that have been there, and whether a parent has been found -/
def checkLocators (env : Surroundings) (size : Nat) (header : Nat → UInt8) (seen : List Nat) (found : Bool) :
    List Nat → Outcome Bool
  | [] => .ok found
  | i :: rest =>
      let code := (locatorIn header i).code
      if (validateParentLocator size header i).isSome then .error (-einval)
      else if code = 0 then checkLocators env size header seen found rest
      else if code ∈ seen then .error (-einval)
      else if code ≠ macxCode ∧ code ≠ w2ruCode ∧ code ≠ w2kuCode then
        checkLocators env size header (code :: seen) found rest
      else do
        env.parent i
        checkLocators env size header (code :: seen) true rest

def checkParentLocators (env : Surroundings) (size : Nat) (header : Nat → UInt8) : Outcome Unit := do
  env.parentName
  let found ← checkLocators env size header [] false (List.range 8)
  if found then .ok () else .error (-einval)

end Parents

section Blocks

def visited (ctx : Context) : Nat := ctx.currSize / 2 ^ vhdBlockShift

def blockSize (ctx : Context) : Nat := ctx.spb + ctx.bmSecs

def dataWhereClear (ctx : Context) (bitmap data : Nat → UInt8) (i : Nat) : Bool :=
  vhdUtilCheckZeros (fun p => data (i * 512 + p)) 512 ≠ 0 && !vhdBitmapTest ctx.toVhd bitmap i

def off64 (n : Nat) : Int := Int.bmod n (2 ^ 64)

def endOfMap (ctx : Context) (eom : Int) : Outcome Int :=
  if ctx.hasBatmap then do
    let batmap ← vhdReadBatmap ctx
    .ok (max (max eom (off64 (ctx.batmapHeaderOffset + 512)))
      (off64 (batmap.header.batmapOffset + batmap.header.batmapSize * 512)))
  else .ok eom

/-- `vhd_end_of_headers`. Its offsets are signed; `vhdEndOfHeaders` is of those that are below 2^63. -/
def endOfHeaders (ctx : Context) : Outcome Int :=
  if !ctx.typeDynamic then .ok 0
  else do
    let eom ← endOfMap ctx (max (off64 (ctx.dataOffset + 1024))
      (off64 (ctx.tableOffset + vhdBytesPadded (ctx.maxBatSize * 4) % 2 ^ 32)))
    .ok (ctx.loc.foldl
      (fun eom loc => if loc.code = 0 then eom else max eom (off64 (loc.dataOffset + loc.size))) eom)

def checkBitmap (opts : Options) (ctx : Context) (bat : Bat) (block : Nat) : Outcome Unit := do
  let bitmap ← vhdReadBitmap ctx.toVhd bat block
  if opts.checkData then do
    let data ← vhdReadBlock ctx.toVhd bat block
    if (List.range ctx.spb).any (dataWhereClear ctx bitmap data) then .error (-einval) else .ok ()
  else .ok ()

def checkPair (ctx : Context) (bat : Bat) (i j : Nat) : Outcome Unit :=
  let off := bat.bat i
  let joff := bat.bat j
  let stop := (off + blockSize ctx) % 2 ^ 32
  let jstop := (joff + blockSize ctx) % 2 ^ 32
  if i = j ∨ joff = ddBlkUnused then .ok ()
  else if off = joff ∨ (joff < off ∧ off < jstop) ∨ (joff < stop ∧ stop < jstop) then .error (-einval)
  else .ok ()

def checkBlock (opts : Options) (missing : Bool) (ctx : Context) (bat : Bat) (eof : Nat) (eoh : Int) (i : Nat) :
    Outcome Unit :=
  let off := bat.bat i
  let stop := (off + blockSize ctx) % 2 ^ 32
  if off = ddBlkUnused then .ok ()
  else if off < eoh then .error (-einval)
  else if eof < stop ∧ ¬ (missing ∧ opts.ignoreFooter ∧ stop = eof + 1) then .error (-einval)
  else do
    (List.range (visited ctx)).forM (checkPair ctx bat i)
    if opts.checkData || opts.collectStats then checkBitmap opts ctx bat i else .ok ()

def roundedSize (size : Nat) : Outcome Nat :=
  if size % 512 = 0 then .ok size else if size % 512 = 511 then .ok (size + 1) else .error (-einval)

/-- `vhd_util_check_bat`. Behind the last `int` the index of the loop is undefined. -/
def checkBat (opts : Options) (missing : Bool) (ctx : Context) : Outcome Unit := do
  let eof ← roundedSize ctx.file.size
  let bat ← vhdReadBat ctx.toVhd
  let eoh ← endOfHeaders ctx
  if ctx.maxBatSize < visited ctx then .error (-einval)
  else do
    (List.range (visited ctx)).forM (checkBlock opts missing ctx bat ((eof - 512) / 512) (eoh / 512))
    if 2 ^ 31 ≤ visited ctx then .undefined else .ok ()

def validateBatmap (ctx : Context) (batmap : Batmap) : Option String :=
  complaint
    [(!batmap.header.cookie, "invalid cookie"),
      (0x00010002 < batmap.header.batmapVersion, "unsupported batmap version"),
      (ctx.checksumBatmap batmap.header.batmapVersion batmap.map ≠ batmap.header.checksum, "invalid checksum"),
      (batmap.header.batmapSize = 0, "invalid size zero"),
      (batmap.header.batmapSize * 2 ^ 12 % 2 ^ 32 < ctx.maxBatSize, "batmap-BAT size mismatch"),
      (batmap.header.batmapOffset = 0 ∨ batmap.header.batmapOffset % 512 ≠ 0, "invalid batmap offset"),
      (beforeFooter ctx.file.size < (batmap.header.batmapOffset + batmap.header.batmapSize * 512) % 2 ^ 64,
        "invalid batmap size")]

def checkFull (bat : Bat) (batmap : Batmap) (i : Nat) : Outcome Unit := do
  let full ← batmap.test i
  if full ∧ bat.bat i = ddBlkUnused then .error (-einval) else .ok ()

def checkBatmap (ctx : Context) : Outcome Unit := do
  let bat ← vhdReadBat ctx.toVhd
  let batmap ← vhdReadBatmap ctx
  if (validateBatmap ctx batmap).isSome then .error (-einval)
  else (List.range (visited ctx)).forM (checkFull bat batmap)

end Blocks

def checkMap (ctx : Context) : Outcome Unit := if ctx.hasBatmap then checkBatmap ctx else .ok ()

def vhdUtilCheckVhd (opts : Options) (env : Surroundings) (file : File) : Outcome Unit := do
  let footer ← checkFooter opts env.now file
  if be32 footer.1 60 ≠ 3 ∧ be32 footer.1 60 ≠ 4 then .ok ()
  else do
    checkHeader file footer.1
    let opened ← vhdOpenAny file
    checkDifferencingHeader opts env opened.1 opened.2
    checkBat opts footer.2 opened.1
    checkMap opened.1
    if opened.1.type = .diff then checkParentLocators env file.size opened.2 else .ok ()

def vhdUtilCheck (opts : Options) (env : Surroundings) (file : File) : Outcome Unit := do
  vhdUtilCheckVhd opts env file
  if opts.parents then env.parents else .ok ()

section Purpose

def footerStart (file : File) : Nat := file.size - footerSize file

def tablesEnd (ctx : Context) : Nat :=
  max (max (ctx.dataOffset + 1024) (ctx.tableOffset + vhdBytesPadded (ctx.maxBatSize * 4)))
    (match if ctx.hasBatmap then vhdReadBatmapHeader ctx.toVhd else .error 0 with
      | .ok header => max (ctx.batmapHeaderOffset + 512) (header.batmapOffset + header.batmapSize * 512)
      | _ => 0)

def metadataEnd (ctx : Context) : Nat :=
  ctx.loc.foldl (fun eom loc => if loc.code = 0 then eom else max eom (loc.dataOffset + loc.size)) (tablesEnd ctx)

def dataByte (ctx : Context) (entry s b : Nat) : Nat := (entry + ctx.bmSecs + s) * 512 + b

def Apart (ctx : Context) (entry entry' : Nat) : Prop :=
  entry + blockSize ctx ≤ entry' ∨ entry' + blockSize ctx ≤ entry

def FullBit (ctx : Context) (nr : Nat) : Prop :=
  ctx.hasBatmap = true ∧ ∃ header, vhdReadBatmapHeader ctx.toVhd = .ok header ∧ nr < header.batmapSize * 2 ^ 12 ∧
    testBit (fun p => ctx.file.byte (header.batmapOffset + p)) nr = true

structure SoundDisk (checkData : Bool) (file : File) (ctx : Context) : Prop where
  backup : ∀ p, 86 ≤ p → p < 512 → file.byte p = 0
  first : ∀ p, 60 ≤ p → p < 64 → headerAt file (primaryFooter file) p = 0
  second : ∀ p, 768 ≤ p → p < 1024 → headerAt file (primaryFooter file) p = 0
  start : ∀ i, ctx.allocated i → metadataEnd ctx ≤ ctx.entry i * 512
  stop : ∀ i, ctx.allocated i → (ctx.entry i + blockSize ctx) * 512 ≤ footerStart file
  apart : ∀ i j, ctx.allocated i → ctx.allocated j → i ≠ j → Apart ctx (ctx.entry i) (ctx.entry j)
  full : ∀ nr, FullBit ctx nr → ctx.allocated nr
  data : checkData = true → ∀ i s b, ctx.allocated i → s < ctx.spb → b < 512 →
    file.byte (dataByte ctx (ctx.entry i) s b) ≠ 0 → ctx.marks (ctx.entry i) s = true

structure Sound (checkData : Bool) (file : File) : Prop where
  footer : ∀ p, 86 ≤ p → p < 512 → primaryFooter file p = 0
  disk : be32 (primaryFooter file) 60 ≠ 2 → ∀ opened, vhdOpenAny file = .ok opened → SoundDisk checkData file opened.1

/-- What the check passes over in such an image is in order. -/
structure RestDisk (checkData : Bool) (file : File) (ctx : Context) : Prop where
  second : headerAt file (primaryFooter file) 768 = 0
  start : ∀ i, ctx.allocated i →
    visited ctx ≤ i ∨ 2 ^ 32 ≤ vhdBytesPadded (ctx.maxBatSize * 4) ∨ 2 ^ 63 ≤ metadataEnd ctx ∨
      ctx.entry i = metadataEnd ctx / 512 →
    metadataEnd ctx ≤ ctx.entry i * 512
  stop : ∀ i, ctx.allocated i → visited ctx ≤ i ∨ 2 ^ 32 ≤ ctx.entry i + blockSize ctx →
    (ctx.entry i + blockSize ctx) * 512 ≤ footerStart file
  apart : ∀ i j, ctx.allocated i → ctx.allocated j → i ≠ j →
    visited ctx ≤ i ∨ visited ctx ≤ j ∨
      (2 ^ 32 ≤ ctx.entry i + blockSize ctx ∧ 2 ^ 32 ≤ ctx.entry j + blockSize ctx) →
    Apart ctx (ctx.entry i) (ctx.entry j)
  full : ∀ nr, FullBit ctx nr → visited ctx ≤ nr → ctx.allocated nr
  data : checkData = true → ∀ i s b, ctx.allocated i → s < ctx.spb → b < 512 →
    visited ctx ≤ i ∨ b = 0 ∨ file.size - 512 ≤ dataByte ctx (ctx.entry i) s b →
    file.byte (dataByte ctx (ctx.entry i) s b) ≠ 0 → ctx.marks (ctx.entry i) s = true

structure Rest (checkData : Bool) (file : File) : Prop where
  footer : primaryFooter file 86 = 0
  disk : be32 (primaryFooter file) 60 ≠ 2 → ∀ opened, vhdOpenAny file = .ok opened → RestDisk checkData file opened.1

end Purpose

end Blktap.Libvhd.Check
