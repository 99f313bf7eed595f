import Blktap.Libvhd.Headers

/-!
# Creating an image (`__vhd_create`)
-/

namespace Blktap.Libvhd
open Lib Action

def e2big : Int := 7
def enametoolong : Int := 36
def eilseq : Int := 84

/-- What the code finds of the parent; `size` is an error code, as a 64-bit number, when the file has none. -/
structure Parent where
  path : List UInt8
  time : Nat
  fileSize : UInt64
  image : Outcome (UInt64 × (Nat → UInt8))
  relative : Outcome (List UInt8)

structure Request where
  nameLength : Nat
  parent : Option (Outcome Parent)
  bytes : UInt64
  type : Nat
  mbytes : UInt64
  raw : Bool

/-- What `open` gives: a block device keeps what it has, a regular file is cut to nothing. -/
structure Target where
  isBlock : Bool
  device : File
  faults : List (Option Fault)

def File.empty : File where
  size := 0
  byte := fun _ => 0

def blocksUp (bytes : Nat) : Nat := (bytes + (2 ^ vhdBlockShift - 1)) % 2 ^ 64 / 2 ^ vhdBlockShift

def roundUp (bytes : Nat) : Nat := blocksUp bytes * 2 ^ vhdBlockShift

def vhdInitializeFooter (target : Target) (type : DiskType) (size : Nat) : Handle where
  file := if target.isBlock then target.device else .empty
  type := type
  currSize := size
  tableOffset := 0
  maxBatSize := 0
  blockSize := 0
  oldBitmap := false
  tapdisk := true
  crtrVer := 0x00010003
  dataOffset := 2 ^ 64 - 1
  loc := List.replicate 8 .unused
  oldBitmap_eq := rfl
  isBlock := target.isBlock
  sparse := false
  spp := 1
  spp_pos := Nat.one_pos
  footer := fun _ => 0
  bat := none
  batmap := none
  faults := target.faults

def basename (path : List UInt8) : List UInt8 :=
  if path = [] then [0x2e]
  else
    match (path.reverse.dropWhile (· == 0x2f)).takeWhile (· != 0x2f) with
    | [] => [0x2f]
    | name => name.reverse

def vhdInitializeHeaderParentName (path : List UInt8) : Outcome (List UInt8) :=
  let name := basename path
  if name = [] then .error (-einval)
  else if 256 < (name.takeWhile (· < 128)).length then .error (-e2big)
  else if name.any (128 ≤ ·) then .error (-eilseq)
  else .ok (name.flatMap fun c => [0, c])

def vhdInitializeHeader (found : Outcome Parent) (size : Nat) (raw : Bool) :
    Action Handle (Nat × ParentStamp) := do
  let s ← get
  if !s.typeDynamic then fail (-einval)
  else do
    modify fun s => { s with
      oldBitmap_eq := s.bitmap_eq
      tableOffset := 512 * 3, blockSize := 2 ^ vhdBlockShift, dataOffset := 512
      maxBatSize := blocksUp s.currSize % 2 ^ 32 }
    if s.type = .dynamic then pure (0, .none)
    else do
      let parent ← lift found
      let image ← lift (if raw then .ok (parent.fileSize, fun _ => 0) else parent.image)
      let psize := image.1.toNat
      let size := if size = 0 then psize else size
      if size < psize then fail (-einval)
      else do
        modify fun s => { s with oldBitmap_eq := s.bitmap_eq, currSize := size, maxBatSize := blocksUp size % 2 ^ 32 }
        let name ← lift (vhdInitializeHeaderParentName parent.path)
        pure (psize, { uuid := image.2, time := parent.time, name })

def Vhd.freshBatmap (vhd : Vhd) : Batmap where
  header :=
    { cookie := true
      batmapOffset := vhd.batmapHeaderOffset + vhdBytesPadded 32
      batmapSize := secsRoundUpNoZero ((vhd.maxBatSize + 7) % 2 ^ 32 / 8)
      batmapVersion := 0x00010002
      checksum := 0
      marker := 0 }
  mapBytes := secsRoundUpNoZero ((vhd.maxBatSize + 7) % 2 ^ 32 / 8) * 512
  map := fun _ => 0

def vhdCreateBatmap : Action Handle Unit := do
  let s ← get
  if !s.typeDynamic then fail (-einval)
  else do
    let batmap := s.freshBatmap
    modify fun s => { s with batmap := some batmap }
    vhdWriteBatmap batmap

def Vhd.freshBat (vhd : Vhd) : Bat where
  entries := vhd.maxBatSize
  len := vhdBytesPadded (vhd.maxBatSize * 4) / 4
  bat := fun i => if i < vhd.maxBatSize then ddBlkUnused else 0

def vhdCreateBat : Action Handle Unit := do
  let s ← get
  if !s.typeDynamic then fail (-einval)
  else if 2 ^ 31 ≤ s.maxBatSize then undefined
  else do
    modify fun s => { s with bat := some s.freshBat }
    vhdWriteBat

def vhdMacxEncodeLocation (name : List UInt8) : Outcome (List UInt8) :=
  let uri := [0x66, 0x69, 0x6c, 0x65, 0x3a, 0x2f, 0x2f] ++ name
  if uri.any (128 ≤ ·) then .error (-eilseq) else .ok uri

def windowsPath (name : List UInt8) : List UInt8 :=
  let uri :=
    if name.head? = some 0x2f then name
    else [0x2e, 0x5c] ++ if [0x2e, 0x2f].isPrefixOf name then name.drop 2 else name
  uri.map fun c => if c = 0x2f then 0x5c else c

def vhdW2uEncodeLocation (name : List UInt8) : Outcome (List UInt8) :=
  let uri := windowsPath name
  if uri.any (128 ≤ ·) then .error (-eilseq) else .ok (uri.flatMap fun c => [c, 0])

def encodeLocation (code : Nat) (name : List UInt8) : Outcome (List UInt8) :=
  if code = macxCode then vhdMacxEncodeLocation name else vhdW2uEncodeLocation name

def vhdParentLocatorWriteAt (found : Outcome Parent) (off code maxBytes i : Nat) :
    Action Handle Unit := do
  modify fun s => { s with oldBitmap_eq := s.bitmap_eq, loc := s.loc.set i .unused }
  let s ← get
  if s.type ≠ .diff then fail (-einval)
  else if code ≠ macxCode ∧ code ≠ w2kuCode ∧ code ≠ w2ruCode then fail (-einval)
  else do
    let parent ← lift found
    let name ← lift parent.relative
    let encoded ← lift (encodeLocation code name)
    let size := vhdBytesPadded encoded.length
    if 2 ^ 31 ≤ encoded.length ∨ 2 ^ 31 ≤ size then undefined
    else if maxBytes ≠ 0 ∧ maxBytes < size then fail (-enametoolong)
    else do
      vhdWrite off size fun p => encoded.getD p 0
      let loc : Locator :=
        { code, dataSpace := size, dataLen := encoded.length, dataOffset := off }
      modify fun s => { s with oldBitmap_eq := s.bitmap_eq, loc := s.loc.set i loc }

def writeLocators (found : Outcome Parent) : List Nat → Nat → Nat → Action Handle Unit
  | [], _, _ => pure ()
  | code :: codes, i, off => do
      vhdParentLocatorWriteAt found off code 0 i
      let s ← get
      writeLocators found codes (i + 1) (off + (s.loc.getD i .unused).size)

def locatorCodes : List Nat := [macxCode, w2kuCode, w2ruCode]

def vhdWriteParentLocators (found : Outcome Parent) : Action Handle Unit := do
  let s ← get
  if s.type ≠ .diff then fail (-einval)
  else
    match s.batmap with
    | none => undefined
    | some batmap =>
        let off := batmap.header.batmapOffset + batmap.header.batmapSize * 512
        writeLocators found locatorCodes 0 (if off % 512 = 0 then off else vhdBytesPadded off)

def writeBlocks : Nat → Nat → Action Handle Unit
  | 0, _ => pure ()
  | n + 1, pos => do
      vhdWrite pos (2 ^ vhdBlockShift) fun _ => 0
      writeBlocks n (pos + 2 ^ vhdBlockShift)

def vhdInitializeFixedDisk : Action Handle Unit := do
  let s ← get
  if s.type ≠ .fixed then fail (-einval)
  else if 2 ^ 31 ≤ s.currSize / 2 ^ vhdBlockShift then undefined
  else writeBlocks (s.currSize / 2 ^ vhdBlockShift) 0

def vhdSetVirtSizeNoWrite (size : Nat) : Action Handle Unit := do
  let s ← get
  if s.maxBatSize < size / 2 ^ vhdBlockShift then fail (-einval)
  else modify fun s => { s with oldBitmap_eq := s.bitmap_eq, currSize := size }

def vhdWriteHeaderAt (parent : ParentStamp) (off : Nat) : Action Handle Unit := do
  let s ← get
  let header := sealHeader (headerOut s.toContext parent)
  if !s.typeDynamic then fail (-einval)
  else if !validHeader header then fail (-einval)
  else vhdWrite off 1024 header

def Request.found (r : Request) : Outcome Parent := r.parent.getD (.error (-einval))

/-- `size`: with `mbytes` the image is created at that size first, and is given its own size later. -/
def Request.size (r : Request) : Nat :=
  roundUp (if r.mbytes ≠ 0 then r.mbytes.toNat else r.bytes.toNat)

def createMetadata (r : Request) : Action Handle (Nat × ParentStamp) := do
  let made ← vhdInitializeHeader r.found r.size r.raw
  vhdCreateBatmap
  vhdCreateBat
  let s ← get
  when (s.type = .diff) (vhdWriteParentLocators r.found)
  pure made

def createContents (r : Request) : Action Handle (Nat × ParentStamp) := do
  let s ← get
  if s.type = .fixed then do
    vhdInitializeFixedDisk
    pure (0, .none)
  else createMetadata r

def writeTrailer : Action Handle Unit := do
  let s ← get
  if s.isBlock ∧ s.file.size < 512 then fail (-einval)
  else vhdWriteFooterAt (if s.isBlock then s.file.size - 512 else s.file.size)

def createEnds (r : Request) (stamp : Stamp) (made : Nat × ParentStamp) : Action Handle Unit := do
  when (r.mbytes ≠ 0)
    (vhdSetVirtSizeNoWrite (if r.bytes ≠ 0 then roundUp r.bytes.toNat else made.1))
  modify fun s => { s with footer := footerOut s.toContext stamp s.currSize }
  let s ← get
  when (s.type ≠ .fixed) do
    vhdWriteFooterAt 0
    vhdWriteHeaderAt made.2 512
  writeTrailer

def vhdCreate (opened : Outcome Target) (stamp : Stamp) (r : Request) : Outcome Handle :=
  match diskType? r.type with
  | none => .error (-einval)
  | some type =>
      if type = .diff ∧ r.parent.isNone = true then .error (-einval)
      else if 1023 ≤ r.nameLength then .error (-enametoolong)
      else if r.bytes ≠ 0 ∧ r.mbytes ≠ 0 ∧ r.mbytes < r.bytes then .error (-einval)
      else do
        let target ← opened
        let create := createContents r >>= createEnds r stamp
        match create (vhdInitializeFooter target type r.size) with
        | (.ok (), t) => .ok t
        | (.error code, _) => .error code
        | (.undefined, _) => .undefined

end Blktap.Libvhd
