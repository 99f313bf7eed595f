import Blktap.Lib.Record
import Blktap.Libvhd.Footing
import Mathlib.Data.List.GetD

/-!
# Footer and header on disk (`libvhd.c`)
-/

namespace Blktap.Libvhd
open Lib

def DiskType.code : DiskType → Nat
  | .fixed => 2
  | .dynamic => 3
  | .diff => 4

def diskType? (code : Nat) : Option DiskType :=
  if code = 2 then some .fixed
  else if code = 3 then some .dynamic
  else if code = 4 then some .diff
  else none

def geomEncode (c h s : Nat) : Nat := c <<< 16 ||| h <<< 8 ||| s

def vhdChs (size : Nat) : Nat :=
  let secs := min (secsRoundUpNoZero size) (65535 * 16 * 255)
  let (spt, cth, heads) :=
    if 65535 * 16 * 63 ≤ secs then (255, secs / 255, 16)
    else
      let heads := max ((secs / 17 + 1023) / 1024) 4
      let (spt, cth, heads) :=
        if heads * 1024 ≤ secs / 17 ∨ 16 < heads then (31, secs / 31, 16)
        else (17, secs / 17, heads)
      if heads * 1024 ≤ cth then (63, secs / 63, 16) else (spt, cth, heads)
  geomEncode (cth / heads) heads spt

structure Stamp where
  time : Nat
  uuid : Nat → UInt8

def crtrApp : List UInt8 := [0x74, 0x61, 0x70, 0]

def footerOut (ctx : Context) (stamp : Stamp) (origSize : Nat) : Nat → UInt8 :=
  record [(8, fun p => footerCookie.getD p 0), word 2, word 0x00010000, double ctx.dataOffset,
    word stamp.time, (4, fun p => crtrApp.getD p 0), word ctx.crtrVer, word 0, double origSize,
    double ctx.currSize, word (vhdChs ctx.currSize), word ctx.type.code, word 0, (16, stamp.uuid)]

structure ParentStamp where
  uuid : Nat → UInt8
  time : Nat
  name : List UInt8

def ParentStamp.none : ParentStamp where
  uuid := fun _ => 0
  time := 0
  name := []

def headerCookie : List UInt8 := [0x63, 0x78, 0x73, 0x70, 0x61, 0x72, 0x73, 0x65]

def Locator.unused : Locator where
  code := 0
  dataSpace := 0
  dataLen := 0
  dataOffset := 0

def locatorOut (loc : Locator) : Nat → UInt8 :=
  record [word loc.code, word loc.dataSpace, word loc.dataLen, word 0, double loc.dataOffset]

def headerFront (ctx : Context) (parent : ParentStamp) : List Field :=
  [(8, fun p => headerCookie.getD p 0), double (2 ^ 64 - 1), double ctx.tableOffset,
    word 0x00010000, word ctx.maxBatSize, word ctx.blockSize, word 0, (16, parent.uuid),
    word parent.time, word 0, (512, fun p => parent.name.getD p 0)]

def headerOut (ctx : Context) (parent : ParentStamp) : Nat → UInt8 :=
  record (headerFront ctx parent ++
    [(192, fun p => locatorOut (ctx.loc.getD (p / 24) .unused) (p % 24))])

def checksumHeader (header : Nat → UInt8) : Nat :=
  let sum := ((List.range 1024).map fun i => if 36 ≤ i ∧ i < 40 then 0 else (header i).toNat).sum
  2 ^ 32 - 1 - sum % 2 ^ 32

def sealHeader (header : Nat → UInt8) (p : Nat) : UInt8 :=
  if 36 ≤ p ∧ p < 40 then beByte 4 (checksumHeader header) (p - 36) else header p

def macxCode : Nat := 0x4D616358
def w2kuCode : Nat := 0x57326B75
def w2ruCode : Nat := 0x57327275

def validPlatformCode (code : Nat) : Bool :=
  [0, 0x57693272, 0x5769326B, w2ruCode, w2kuCode, 0x4D616320, macxCode].contains code

def validHeader (header : Nat → UInt8) : Bool :=
  cookieIn header == headerCookie && be32 header 24 == 0x00010000 &&
    be64 header 8 == 2 ^ 64 - 1 &&
    (List.range 8).all (fun i => validPlatformCode (be32 header (576 + 24 * i))) &&
    checksumHeader header == be32 header 36

def readHeaderAt (file : File) (off : Nat) : Outcome (Nat → UInt8) := do
  let header ← file.read off 1024
  if validHeader header then .ok header else .error (-einval)

def locatorIn (header : Nat → UInt8) (i : Nat) : Locator where
  code := be32 header (576 + 24 * i)
  dataSpace := be32 header (576 + 24 * i + 4)
  dataLen := be32 header (576 + 24 * i + 8)
  dataOffset := be64 header (576 + 24 * i + 16)

def contextIn (file : File) (footer header : Nat → UInt8) : Context where
  file := file
  type := (diskType? (be32 footer 60)).getD .fixed
  currSize := be64 footer 48
  tableOffset := be64 header 16
  maxBatSize := be32 header 28
  blockSize := be32 header 32
  oldBitmap := (List.range 3).map (fun i => footer (28 + i)) == crtrApp.take 3 && be32 footer 32 == 1
  tapdisk := (List.range 3).map (fun i => footer (28 + i)) == crtrApp.take 3
  crtrVer := be32 footer 32
  dataOffset := be64 footer 16
  loc := (List.range 8).map (locatorIn header)
  oldBitmap_eq := rfl

def vhdOpen (file : File) : Outcome Context := do
  let footer ← readFooter file
  let fixed := contextIn file footer fun _ => 0
  if cookieIn footer = poisonCookie then .error (-einval)
  else if !fixed.typeDynamic then .ok fixed
  else do
    let header ← readHeaderAt file fixed.dataOffset
    .ok (contextIn file footer header)

structure Context.Encodes (ctx : Context) : Prop where
  currSize : ctx.currSize < 2 ^ 64
  dataOffset : ctx.dataOffset < 2 ^ 64
  crtrVer : ctx.crtrVer < 2 ^ 32
  tableOffset : ctx.tableOffset < 2 ^ 64
  maxBatSize : ctx.maxBatSize < 2 ^ 32
  blockSize : ctx.blockSize < 2 ^ 32
  locs : ctx.loc.length = 8
  loc : ∀ loc ∈ ctx.loc,
    loc.code < 2 ^ 32 ∧ loc.dataSpace < 2 ^ 32 ∧ loc.dataLen < 2 ^ 32 ∧ loc.dataOffset < 2 ^ 64

attribute [ext] Vhd Context

section Read
variable {ctx : Context} {stamp : Stamp} {orig : Nat} {parent : ParentStamp}
  {footer header : Nat → UInt8}

theorem sealFooter_front {p : Nat} (front : p < 64) : sealFooter footer p = footer p :=
  if_neg (by omega)

theorem DiskType.code_lt (type : DiskType) : type.code < 2 ^ 32 := by cases type <;> decide

theorem diskType_code (type : DiskType) : diskType? type.code = some type := by cases type <;> rfl

theorem footerOut_cookie : cookieIn (footerOut ctx stamp orig) = footerCookie := by
  unfold cookieIn footerOut footerCookie
  simp [record, List.range, List.range.loop]

theorem footer_fields (encodes : ctx.Encodes)
    (same : ∀ o < 512, footer o = sealFooter (footerOut ctx stamp orig) o) :
    be32 footer 60 = ctx.type.code ∧ be64 footer 48 = ctx.currSize ∧
      be32 footer 32 = ctx.crtrVer ∧ be64 footer 16 = ctx.dataOffset ∧
      (List.range 3).map (fun i => footer (28 + i)) = crtrApp.take 3 := by
  have front : ∀ p < 64, footer p = footerOut ctx stamp orig p := by
    intro p small
    rw [same p (by omega), sealFooter_front small]
  refine ⟨?_, ?_, ?_, ?_, ?_⟩
  · apply be32_record [(8, fun p => footerCookie.getD p 0), word 2, word 0x00010000,
      double ctx.dataOffset, word stamp.time, (4, fun p => crtrApp.getD p 0), word ctx.crtrVer,
      word 0, double orig, double ctx.currSize, word (vhdChs ctx.currSize)] _ ctx.type.code_lt
    intro i small
    exact front (60 + i) (by omega)
  · apply be64_record [(8, fun p => footerCookie.getD p 0), word 2, word 0x00010000,
      double ctx.dataOffset, word stamp.time, (4, fun p => crtrApp.getD p 0), word ctx.crtrVer,
      word 0, double orig] _ encodes.currSize
    intro i small
    exact front (48 + i) (by omega)
  · apply be32_record [(8, fun p => footerCookie.getD p 0), word 2, word 0x00010000,
      double ctx.dataOffset, word stamp.time, (4, fun p => crtrApp.getD p 0)] _ encodes.crtrVer
    intro i small
    exact front (32 + i) (by omega)
  · apply be64_record [(8, fun p => footerCookie.getD p 0), word 2, word 0x00010000] _
      encodes.dataOffset
    intro i small
    exact front (16 + i) (by omega)
  · have app : ∀ i < 3, footer (28 + i) = crtrApp.getD i 0 := by
      intro i small
      rw [front _ (by omega)]
      exact record_place [(8, fun p => footerCookie.getD p 0), word 2, word 0x00010000,
        double ctx.dataOffset, word stamp.time] 4 _ _ (by omega)
    simp [List.range, List.range.loop, app 0, app 1, app 2, crtrApp]

theorem locatorIn_out {i : Nat} (encodes : ctx.Encodes) (bound : i < 8)
    (same : ∀ p < 1024, header p = sealHeader (headerOut ctx parent) p) :
    locatorIn header i = ctx.loc.getD i .unused := by
  have bytes : ∀ o < 24, header (576 + 24 * i + o) = locatorOut (ctx.loc.getD i .unused) o := by
    intro o small
    have found := record_place (headerFront ctx parent) 192
      (fun p => locatorOut (ctx.loc.getD (p / 24) .unused) (p % 24)) []
      (show 24 * i + o < 192 by omega)
    have front : place (headerFront ctx parent) = 576 := by simp [place, headerFront, word, double]
    rw [front, ← Nat.add_assoc, show (24 * i + o) / 24 = i by omega,
      show (24 * i + o) % 24 = o by omega] at found
    rw [same _ (by omega), ← found]
    exact if_neg (by omega)
  have fits : (ctx.loc.getD i .unused).code < 2 ^ 32 ∧ (ctx.loc.getD i .unused).dataSpace < 2 ^ 32 ∧
      (ctx.loc.getD i .unused).dataLen < 2 ^ 32 ∧ (ctx.loc.getD i .unused).dataOffset < 2 ^ 64 := by
    apply encodes.loc
    rw [List.getD_eq_getElem _ _ (encodes.locs ▸ bound)]
    exact List.getElem_mem _
  generalize ctx.loc.getD i .unused = loc at bytes fits
  obtain ⟨code, dataSpace, dataLen, dataOffset⟩ := loc
  have bytes : ∀ o < 24, header (576 + 24 * i + o) =
      record [word code, word dataSpace, word dataLen, word 0, double dataOffset] o := bytes
  have first : be32 header (576 + 24 * i) = code :=
    be32_record [] _ fits.1 fun j small => (by rw [place, List.map_nil, List.sum_nil, Nat.zero_add]; exact bytes j (by omega))
  have second : be32 header (576 + 24 * i + 4) = dataSpace :=
    be32_record [word code] _ fits.2.1 fun j small => (by rw [Nat.add_assoc]; exact bytes (4 + j) (by omega))
  have third : be32 header (576 + 24 * i + 8) = dataLen :=
    be32_record [word code, word dataSpace] _ fits.2.2.1 fun j small => (by rw [Nat.add_assoc]; exact bytes (8 + j) (by omega))
  have fourth : be64 header (576 + 24 * i + 16) = dataOffset :=
    be64_record [word code, word dataSpace, word dataLen, word 0] _ fits.2.2.2
      fun j small => (by rw [Nat.add_assoc]; exact bytes (16 + j) (by omega))
  unfold locatorIn
  rw [first, second, third, fourth]

theorem header_fields (encodes : ctx.Encodes)
    (same : ∀ p < 1024, header p = sealHeader (headerOut ctx parent) p) :
    be64 header 16 = ctx.tableOffset ∧ be32 header 28 = ctx.maxBatSize ∧
      be32 header 32 = ctx.blockSize ∧ (List.range 8).map (locatorIn header) = ctx.loc := by
  have front : ∀ p < 36, header p = headerOut ctx parent p := by
    intro p small
    rw [same p (by omega)]
    exact if_neg (by omega)
  refine ⟨?_, ?_, ?_, ?_⟩
  · apply be64_record [(8, fun p => headerCookie.getD p 0), double (2 ^ 64 - 1)] _
      encodes.tableOffset
    intro i small
    exact front (16 + i) (by omega)
  · apply be32_record [(8, fun p => headerCookie.getD p 0), double (2 ^ 64 - 1),
      double ctx.tableOffset, word 0x00010000] _ encodes.maxBatSize
    intro i small
    exact front (28 + i) (by omega)
  · apply be32_record [(8, fun p => headerCookie.getD p 0), double (2 ^ 64 - 1),
      double ctx.tableOffset, word 0x00010000, word ctx.maxBatSize] _ encodes.blockSize
    intro i small
    exact front (32 + i) (by omega)
  · apply List.ext_getElem
    · simp [encodes.locs]
    · intro i low high
      have bound : i < 8 := by simpa using low
      rw [List.getElem_map, List.getElem_range, locatorIn_out encodes bound same,
        List.getD_eq_getElem _ _ high]

theorem contextIn_out (encodes : ctx.Encodes) (tapdisk : ctx.tapdisk = true)
    (same : ∀ o < 512, footer o = sealFooter (footerOut ctx stamp orig) o)
    (fields : be64 header 16 = ctx.tableOffset ∧ be32 header 28 = ctx.maxBatSize ∧
      be32 header 32 = ctx.blockSize ∧ (List.range 8).map (locatorIn header) = ctx.loc) :
    contextIn ctx.file footer header = ctx := by
  obtain ⟨type, currSize, crtrVer, dataOffset, app⟩ := footer_fields encodes same
  obtain ⟨tableOffset, maxBatSize, blockSize, loc⟩ := fields
  have known : (diskType? (be32 footer 60)).getD .fixed = ctx.type := by
    rw [type, diskType_code]
    rfl
  have old : ctx.oldBitmap = (be32 footer 32 == 1) := by
    rw [ctx.oldBitmap_eq, tapdisk, crtrVer, Bool.true_and]
  apply Context.ext
  all_goals simp only [contextIn, known, currSize, tableOffset, maxBatSize, blockSize, app, beq_self_eq_true,
    Bool.true_and, old, tapdisk, crtrVer, dataOffset, loc]

end Read

end Blktap.Libvhd
