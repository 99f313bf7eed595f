import Blktap.Lib.Extents
import Blktap.Libvhd.Created
import Blktap.Libvhd.Laid

/-! # The regions of a new image -/

namespace Blktap.Libvhd
open Lib Action

def vhdEndOfData (ctx : Context) : Outcome Nat :=
  if !ctx.typeDynamic then .ok (ctx.file.size - 512)
  else do
    let headers ← vhdEndOfHeaders ctx
    let bat ← vhdReadBat ctx.toVhd
    .ok (ctx.endOfExtents headers bat * 512)

def Locator.extent (loc : Locator) : Extent := ⟨loc.dataOffset, loc.size⟩

def Handle.metadata (t : Handle) : List Extent :=
  if !t.typeDynamic then []
  else
    [⟨0, 512⟩, ⟨t.dataOffset, 1024⟩, ⟨t.tableOffset, vhdBytesPadded (t.maxBatSize * 4)⟩] ++
      (match t.batmap with
        | some batmap =>
            [⟨t.batmapHeaderOffset, 512⟩,
              ⟨batmap.header.batmapOffset, batmap.header.batmapSize * 512⟩]
        | none => []) ++
      (t.loc.filter (·.code ≠ 0)).map Locator.extent

def Handle.dataArea (t : Handle) (data : Nat) : Extent :=
  if t.typeDynamic then ⟨data, 0⟩ else ⟨0, t.currSize⟩

def Handle.regions (t : Handle) (data : Nat) : List Extent :=
  t.metadata ++ [t.dataArea data, ⟨t.file.size - 512, 512⟩]

/-- The image that was made is opened again: no two regions overlap, and neither the end of the headers
nor the start of the data is inside the metadata. -/
structure Handle.LaidOut (t : Handle) (ctx : Context) (headers data : Nat) : Prop where
  opens : vhdOpen t.file = .ok ctx
  headersEnd : vhdEndOfHeaders ctx = .ok headers
  dataStart : vhdEndOfData ctx = .ok data
  apart : (t.regions data).Pairwise Extent.Apart
  behind : ∀ region ∈ t.metadata, region.stop ≤ headers ∧ region.stop ≤ data

def Handle.WellLaid (t : Handle) : Prop := ∃ ctx headers data, t.LaidOut ctx headers data

def Request.madeSize (r : Request) : Nat :=
  if diskType? r.type = some .diff ∧ r.size = 0 then parentSize r.found r.raw else r.size

def Request.blocks (r : Request) : Nat := blocksUp r.madeSize % 2 ^ 32

def Request.parentSize (r : Request) : Nat :=
  if diskType? r.type = some .diff then Libvhd.parentSize r.found r.raw else 0

def Request.locatorSizes (r : Request) : List Nat :=
  if diskType? r.type = some .diff then
    locatorCodes.map fun code =>
      match locatorText r.found code with
      | .ok text => vhdBytesPadded text.length
      | _ => 0
  else []

def metadataEnd (blocks : Nat) (locators : List Nat) : Nat :=
  512 + 1024 + vhdBytesPadded (blocks * 4) + 512 + secsRoundUpNoZero ((blocks + 7) / 8) * 512 +
    locators.sum

def mapBytes (size : Nat) : Nat := secsRoundUpNoZero (size / 2 ^ (vhdBlockShift + 3)) * 512

def Request.mapFound (r : Request) (target : Target) (i : Nat) : UInt8 :=
  if i < mapBytes r.madeSize then 0
  else if target.isBlock then
    target.device.byte (512 + 1024 + vhdBytesPadded (r.blocks * 4) + 512 + i)
  else 0

/-- The sum over the batmap that is loaded is that of zeros. The batmap that is loaded is longer than the
one that was written only when the size for `mbytes` leaves 64 bits. -/
def Request.Blank (r : Request) (target : Target) : Prop :=
  ((List.range (mapBytes (r.endSize r.parentSize r.madeSize))).map fun i =>
    (r.mapFound target i).toNat).sum % 2 ^ 32 = 0

/-- The footer has a place of its own: behind the metadata on a device, and in a regular file behind what was written
last. -/
def Request.Clear (r : Request) (target : Target) : Prop :=
  if diskType? r.type = some .fixed then
    target.isBlock = true → r.endSize 0 r.size + 512 ≤ target.device.size
  else if target.isBlock = true then
    metadataEnd r.blocks r.locatorSizes + 512 ≤ target.device.size ∧ r.Blank target
  else
    diskType? r.type = some .dynamic →
      r.blocks < 4096 ∨ r.blocks % 4096 = 0 ∨ 7 < r.blocks % 4096

def File.Holds (file : File) (off size : Nat) (data : Nat → UInt8) : Prop :=
  off + size ≤ file.size ∧ ∀ i < size, file.byte (off + i) = data i

section Holds
variable {file : File} {off size off' size' : Nat} {data data' : Nat → UInt8}

theorem File.holds_put (positive : 0 < size) : (file.put off size data).Holds off size data := by
  refine ⟨File.put_reach positive, fun i small => ?_⟩
  rw [File.put_inside (by omega) (by omega), Nat.add_sub_cancel_left]

theorem File.Holds.put (holds : file.Holds off size data)
    (apart : off + size ≤ off' ∨ off' + size' ≤ off) :
    (file.put off' size' data').Holds off size data := by
  refine ⟨?_, fun i small => ?_⟩
  · apply Nat.le_trans holds.1
    unfold File.put
    dsimp only
    split
    · exact Nat.le_refl _
    · exact Nat.le_max_left _ _
  · have inside := holds.1
    rw [← holds.2 i small]
    unfold File.put
    dsimp only
    rw [if_neg (by omega), if_pos (by omega)]

theorem File.Holds.read (holds : file.Holds off size data) :
    ∃ buf, file.read off size = .ok buf ∧ ∀ i < size, buf i = data i :=
  ⟨_, File.read_ok holds.1, holds.2⟩

theorem File.Holds.front (holds : file.Holds off size data) (part : size' ≤ size) :
    file.Holds off size' data :=
  ⟨Nat.le_trans (Nat.add_le_add_left part _) holds.1, fun i small => holds.2 i (by omega)⟩

def File.Shows (file : File) (p : Nat) (value : UInt8) : Prop :=
  (p < file.size → file.byte p = value) ∧ (file.size ≤ p → value = 0)

theorem File.Shows.put {p : Nat} {value : UInt8} (shows : file.Shows p value)
    (outside : p < off ∨ off + size ≤ p) : (file.put off size data).Shows p value := by
  have apart : ¬ (off ≤ p ∧ p < off + size) := by omega
  refine ⟨fun inside => ?_, fun past => ?_⟩
  · unfold File.put
    dsimp only
    rw [if_neg apart]
    split
    · exact shows.1 ‹_›
    · exact (shows.2 (Nat.le_of_not_lt ‹_›)).symm
  · apply shows.2
    apply Nat.le_trans _ past
    unfold File.put
    dsimp only
    split
    · exact Nat.le_refl _
    · exact Nat.le_max_left _ _

theorem readFooter_last {own : Nat → UInt8} (valid : validFooter own = true)
    (holds : file.Holds (file.size - 512) 512 own) (large : 512 ≤ file.size) :
    ∃ footer, readFooter file = .ok footer ∧ ∀ o < 512, footer o = own o := by
  obtain ⟨buf, read, same⟩ := holds.read
  refine ⟨buf, ?_, same⟩
  unfold readFooter File.footerAt
  rw [if_neg (Nat.not_lt.mpr large), read, Outcome.ok_bind, validFooter_congr same, valid]
  rfl

theorem validHeader_congr {header header' : Nat → UInt8} (same : ∀ o < 1024, header' o = header o) :
    validHeader header' = validHeader header := by
  have sum : checksumHeader header' = checksumHeader header := by
    unfold checksumHeader
    have terms : (List.range 1024).map (fun i => if 36 ≤ i ∧ i < 40 then 0 else (header' i).toNat) =
        (List.range 1024).map fun i => if 36 ≤ i ∧ i < 40 then 0 else (header i).toNat := by
      apply List.map_congr_left
      intro i member
      rw [same i (List.mem_range.mp member)]
    rw [terms]
  have word : ∀ off, off + 4 ≤ 1024 → be32 header' off = be32 header off := fun off small =>
    be32_congr fun i bound => same _ (by omega)
  have codes : (List.range 8).all (fun i => validPlatformCode (be32 header' (576 + 24 * i))) =
      (List.range 8).all fun i => validPlatformCode (be32 header (576 + 24 * i)) := by
    rw [Bool.eq_iff_iff, List.all_eq_true, List.all_eq_true]
    have each : ∀ i ∈ List.range 8, be32 header' (576 + 24 * i) = be32 header (576 + 24 * i) :=
      fun i member => word _ (by have := List.mem_range.mp member; omega)
    exact forall₂_congr fun i member => by rw [each i member]
  have offset : be64 header' 8 = be64 header 8 := be64_congr fun i bound => same _ (by omega)
  unfold validHeader
  rw [cookieIn_congr fun o small => same o (by omega), word 24 (by decide), word 36 (by decide),
    offset, codes, sum]

end Holds

section Arithmetic
variable {blocks : Nat}

theorem wholeMap_iff (small : blocks < 2 ^ 32) :
    secsRoundUpNoZero ((blocks + 7) / 8) ≤ secsRoundUpNoZero (blocks / 8) ↔
      blocks < 4096 ∨ blocks % 4096 = 0 ∨ 7 < blocks % 4096 := by
  unfold secsRoundUpNoZero secsRoundUp
  split <;> split <;> omega

theorem secsRoundUpNoZero_mono {a b : Nat} (le : a ≤ b) (bound : b < 2 ^ 40) :
    secsRoundUpNoZero a ≤ secsRoundUpNoZero b := by
  unfold secsRoundUpNoZero secsRoundUp
  split <;> split <;> omega

end Arithmetic

end Blktap.Libvhd
