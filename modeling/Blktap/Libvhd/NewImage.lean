import Mathlib.Algebra.Group.Action.Defs
import Mathlib.Algebra.Order.BigOperators.Group.List
import Blktap.Libvhd.Layout

/-! # A new image on disk -/

namespace Blktap.Libvhd
open Lib Action

def locateAll (loc : List Locator) (i off : Nat) : List (Nat × List UInt8) → List Locator
  | [] => loc
  | (code, text) :: texts =>
      locateAll (loc.set i (locatorAt code text off)) (i + 1) (off + vhdBytesPadded text.length) texts

def Vhd.locatorStart (vhd : Vhd) : Nat :=
  vhd.freshBatmap.header.batmapOffset + vhd.freshBatmap.header.batmapSize * 512

structure Handle.Made (t : Handle) (texts : List (Nat × List UInt8)) : Prop where
  dynamic : t.typeDynamic = true
  tapdisk : t.tapdisk = true
  crtrVer : t.crtrVer = 0x00010003
  dataOffset : t.dataOffset = 512
  tableOffset : t.tableOffset = 1536
  blockSize : t.blockSize = 2 ^ 21
  small : t.maxBatSize < 2 ^ 31
  covers : t.currSize / 2 ^ 21 ≤ t.maxBatSize
  fits : t.currSize < 2 ^ 64
  batmap : t.batmap = some t.freshBatmap
  codes : texts = [] ∨ texts.map Prod.fst = locatorCodes
  lengths : ∀ entry ∈ texts, entry.2.length < 2 ^ 31 ∧ vhdBytesPadded entry.2.length < 2 ^ 31
  loc : t.loc = locateAll (List.replicate 8 .unused) 0 t.locatorStart texts

def textSizes (texts : List (Nat × List UInt8)) : List Nat :=
  texts.map fun entry => vhdBytesPadded entry.2.length

def Vhd.regionSizes (vhd : Vhd) (texts : List (Nat × List UInt8)) : List Nat :=
  [512, 1024, vhdBytesPadded (vhd.maxBatSize * 4), 512, vhd.freshBatmap.header.batmapSize * 512] ++
    textSizes texts

section Regions
variable {t : Handle} {texts : List (Nat × List UInt8)}

theorem sum_dvd {sizes : List Nat} (whole : ∀ size ∈ sizes, 512 ∣ size) : 512 ∣ sizes.sum := by
  induction sizes with
  | nil => exact Nat.dvd_zero _
  | cons size sizes ih =>
      rw [List.sum_cons]
      exact Nat.dvd_add (whole size List.mem_cons_self)
        (ih fun other member => whole other (List.mem_cons_of_mem _ member))

theorem Vhd.regionSizes_dvd (vhd : Vhd) (texts : List (Nat × List UInt8)) :
    512 ∣ (vhd.regionSizes texts).sum := by
  apply sum_dvd
  intro size member
  rcases List.mem_append.mp member with fixed | text
  · simp only [List.mem_cons, List.not_mem_nil, or_false] at fixed
    rcases fixed with rfl | rfl | rfl | rfl | rfl
    · decide
    · decide
    · exact Nat.dvd_mul_left _ _
    · decide
    · exact Nat.dvd_mul_left _ _
  · obtain ⟨entry, -, rfl⟩ := List.mem_map.mp text
    exact Nat.dvd_mul_left _ _

theorem locatorExtents (start : Nat) (codes : texts = [] ∨ texts.map Prod.fst = locatorCodes) :
    ((locateAll (List.replicate 8 .unused) 0 start texts).filter (·.code ≠ 0)).map Locator.extent =
      Extent.consecutive start (textSizes texts) := by
  rcases codes with rfl | codes
  · rfl
  · match texts, codes with
    | [(_, first), (_, second), (_, third)], codes =>
        simp only [List.map_cons, List.map_nil, locatorCodes, List.cons.injEq, and_true] at codes
        obtain ⟨rfl, rfl, rfl⟩ := codes
        have used : ∀ code text off, (locatorAt code text off).code = code := fun _ _ _ => rfl
        have extent : ∀ code text off, (locatorAt code text off).extent =
            ⟨off, vhdBytesPadded text.length⟩ := by
          intro code text off
          unfold Locator.extent
          rw [locatorAt_size]
          rfl
        simp [locateAll, textSizes, Extent.consecutive, List.replicate, used, extent, macxCode,
          w2kuCode, w2ruCode, Locator.unused]

theorem Handle.Made.metadata (made : t.Made texts) :
    t.metadata = Extent.consecutive 0 (t.regionSizes texts) := by
  have locs := locatorExtents t.locatorStart made.codes
  rw [← made.loc] at locs
  unfold Handle.metadata
  rw [made.dynamic, made.batmap, made.dataOffset, made.tableOffset, locs]
  unfold Vhd.regionSizes
  rw [Extent.consecutive_append]
  have header : t.batmapHeaderOffset = 1536 + vhdBytesPadded (t.maxBatSize * 4) := by
    unfold Vhd.batmapHeaderOffset
    rw [made.tableOffset]
  have map : t.freshBatmap.header.batmapOffset =
      1536 + vhdBytesPadded (t.maxBatSize * 4) + 512 := congrArg (· + 512) header
  simp [Extent.consecutive, header, map, Vhd.locatorStart]
  congr 1
  omega

theorem Handle.Made.locs (made : t.Made texts) : t.loc.length = 8 := by
  have length : ∀ (loc : List Locator) (i off : Nat) (texts : List (Nat × List UInt8)),
      (locateAll loc i off texts).length = loc.length := by
    intro loc i off texts
    induction texts generalizing loc i off with
    | nil => rfl
    | cons entry texts ih =>
        obtain ⟨code, text⟩ := entry
        rw [locateAll, ih, List.length_set]
  rw [made.loc, length, List.length_replicate]

theorem Handle.Made.behind (made : t.Made texts) (laid : t.WellLaid) :
    (t.regionSizes texts).sum ≤ t.file.size - 512 := by
  obtain ⟨ctx, headers, data, laid⟩ := laid
  have apart := laid.apart
  unfold Handle.regions at apart
  rw [made.metadata, List.pairwise_append] at apart
  have behind : 0 + (t.regionSizes texts).sum ≤ t.file.size - 512 := by
    apply Extent.behind_consecutive (show 0 < 512 by decide) (Nat.zero_le _)
    intro extent member
    exact apart.2.2 extent member _ (by simp)
  omega

theorem checksumBatmap_zero {vhd : Vhd} {version : Nat} {map : Nat → UInt8}
    (zero : ∀ i < vhd.batmapBytes, map i = 0) : vhd.checksumBatmap version map = 2 ^ 32 - 1 := by
  have terms : (List.range vhd.batmapBytes).map (fun i =>
      if version = 0x00010001 ∧ 128 ≤ (map i).toNat then (map i).toNat + (2 ^ 32 - 256)
      else (map i).toNat) = List.replicate vhd.batmapBytes 0 := by
    rw [List.eq_replicate_iff]
    refine ⟨by simp, ?_⟩
    intro term member
    obtain ⟨i, inside, rfl⟩ := List.mem_map.mp member
    rw [zero i (List.mem_range.mp inside)]
    simp
  unfold Vhd.checksumBatmap
  rw [terms]
  simp

theorem batmapHeaderIn_bytes {header : BatmapHeader} {buf : Nat → UInt8}
    (cookie : header.cookie = true) (offset : header.batmapOffset < 2 ^ 64)
    (size : header.batmapSize < 2 ^ 32) (version : header.batmapVersion < 2 ^ 32)
    (checksum : header.checksum < 2 ^ 32) (same : ∀ i < 29, buf i = header.bytes i) :
    batmapHeaderIn buf = header := by
  have field : ∀ i < 8, buf (8 + i) = beByte 8 header.batmapOffset i := by
    intro i small
    rw [same _ (by omega)]
    unfold BatmapHeader.bytes
    rw [if_neg (by omega), if_pos (by omega), Nat.add_sub_cancel_left]
  have first : be32 buf 8 * 2 ^ 32 + be32 buf 12 = header.batmapOffset := be64_beByte offset field
  have second : be32 buf 16 = header.batmapSize := by
    apply be32_beByte size
    intro i small
    rw [same _ (by omega)]
    unfold BatmapHeader.bytes
    rw [if_neg (by omega), if_neg (by omega), if_pos (by omega), Nat.add_sub_cancel_left]
  have third : be32 buf 20 = header.batmapVersion := by
    apply be32_beByte version
    intro i small
    rw [same _ (by omega)]
    unfold BatmapHeader.bytes
    rw [if_neg (by omega), if_neg (by omega), if_neg (by omega), if_pos (by omega),
      Nat.add_sub_cancel_left]
  have fourth : be32 buf 24 = header.checksum := by
    apply be32_beByte checksum
    intro i small
    rw [same _ (by omega)]
    unfold BatmapHeader.bytes
    rw [if_neg (by omega), if_neg (by omega), if_neg (by omega), if_neg (by omega),
      if_pos (by omega), Nat.add_sub_cancel_left]
  have front : (List.range 8).map buf = batmapCookie := by
    simp [List.range, List.range.loop, same, BatmapHeader.bytes, batmapCookie]
  unfold batmapHeaderIn
  rw [first, second, third, fourth, front, same 28 (by decide)]
  obtain ⟨_, _, _, _, _, _⟩ := header
  subst cookie
  simp [BatmapHeader.bytes]

structure Handle.Rooted (t : Handle) (stamp : Stamp) (parent : ParentStamp) : Prop where
  large : 512 ≤ t.file.size
  footer : t.file.Holds (t.file.size - 512) 512
    (sealFooter (footerOut t.toContext stamp t.currSize))
  header : t.file.Holds 512 1024 (sealHeader (headerOut t.toContext parent))
  valid : validHeader (sealHeader (headerOut t.toContext parent)) = true
  table : t.file.Holds 1536 (vhdBytesPadded (t.maxBatSize * 4)) t.freshBat.bytes

structure Handle.Filled (t : Handle) (stamp : Stamp) (parent : ParentStamp) (map : Nat → UInt8) :
    Prop where
  large : 512 ≤ t.file.size
  footer : t.file.Holds (t.file.size - 512) 512
    (sealFooter (footerOut t.toContext stamp t.currSize))
  header : t.file.Holds 512 1024 (sealHeader (headerOut t.toContext parent))
  valid : validHeader (sealHeader (headerOut t.toContext parent)) = true
  table : t.file.Holds 1536 (vhdBytesPadded (t.maxBatSize * 4)) t.freshBat.bytes
  mapHeader : t.file.Holds t.batmapHeaderOffset 512
    { t.freshBatmap.header with checksum := 2 ^ 32 - 1 }.bytes
  map : t.file.Holds t.freshBatmap.header.batmapOffset t.batmapBytes map
  fits : t.batmapBytes ≤ t.freshBatmap.header.batmapSize * 512

end Regions

section Opened
variable {t : Handle} {texts : List (Nat × List UInt8)} {stamp : Stamp} {parent : ParentStamp}
  {map : Nat → UInt8}

theorem vhdBytesPadded_small {bytes : Nat} (small : bytes < 2 ^ 40) :
    vhdBytesPadded bytes < 2 ^ 41 := by
  unfold vhdBytesPadded secsRoundUpNoZero secsRoundUp
  split <;> omega

theorem Handle.Made.start_small (made : t.Made texts) : t.locatorStart < 2 ^ 43 := by
  have table := @vhdBytesPadded_small (t.maxBatSize * 4) (by have := made.small; omega)
  have map := @vhdBytesPadded_small ((t.maxBatSize + 7) % 2 ^ 32 / 8) (by omega)
  have start : t.locatorStart = t.tableOffset + vhdBytesPadded (t.maxBatSize * 4) + 512 +
      vhdBytesPadded ((t.maxBatSize + 7) % 2 ^ 32 / 8) := rfl
  rw [start, made.tableOffset]
  omega

theorem locateAll_mem {loc : List Locator} {i off : Nat} {entry : Locator}
    (member : entry ∈ locateAll loc i off texts) :
    entry ∈ loc ∨ ∃ text ∈ texts, ∃ place, entry = locatorAt text.1 text.2 place ∧
      place ≤ off + (textSizes texts).sum := by
  induction texts generalizing loc i off with
  | nil => exact .inl member
  | cons text texts ih =>
      obtain ⟨code, text⟩ := text
      have sum : (textSizes ((code, text) :: texts)).sum =
          vhdBytesPadded text.length + (textSizes texts).sum := rfl
      rcases ih member with old | ⟨other, inside, place, same, bound⟩
      · rcases List.mem_or_eq_of_mem_set old with old | rfl
        · exact .inl old
        · exact .inr ⟨_, List.mem_cons_self, off, rfl, Nat.le_add_right _ _⟩
      · exact .inr ⟨other, List.mem_cons_of_mem _ inside, place, same, by omega⟩

theorem Handle.Made.encodes (made : t.Made texts) : t.toContext.Encodes := by
  have sizes : (textSizes texts).sum < 2 ^ 40 := by
    have each : ∀ size ∈ textSizes texts, size ≤ 2 ^ 31 := by
      intro size member
      obtain ⟨entry, inside, rfl⟩ := List.mem_map.mp member
      exact (made.lengths entry inside).2.le
    have few : (textSizes texts).length ≤ 3 := by
      rcases made.codes with rfl | codes
      · decide
      · have length := congrArg List.length codes
        rw [List.length_map] at length
        rw [textSizes, List.length_map, length]
        decide
    have bound := List.sum_le_card_nsmul _ _ each
    rw [smul_eq_mul] at bound
    omega
  have start := made.start_small
  refine ⟨made.fits, ?_, ?_, ?_, ?_, ?_, made.locs, ?_⟩
  · rw [made.dataOffset]
    decide
  · rw [made.crtrVer]
    decide
  · rw [made.tableOffset]
    decide
  · exact made.small.trans (by decide)
  · rw [made.blockSize]
    decide
  · intro loc member
    rw [made.loc] at member
    rcases locateAll_mem member with unused | ⟨text, inside, place, rfl, bound⟩
    · rw [List.eq_of_mem_replicate unused]
      decide
    · have lengths := made.lengths text inside
      have code : text.1 < 2 ^ 32 := by
        rcases made.codes with rfl | codes
        · cases inside
        · have known := List.mem_map_of_mem (f := Prod.fst) inside
          rw [codes] at known
          simp only [locatorCodes, List.mem_cons, List.not_mem_nil, or_false] at known
          rcases known with same | same | same <;> rw [same] <;> decide
      simp only [locatorAt]
      omega

theorem Handle.Filled.rooted (filled : t.Filled stamp parent map) : t.Rooted stamp parent :=
  ⟨filled.large, filled.footer, filled.header, filled.valid, filled.table⟩

theorem Handle.Rooted.readHeader (rooted : t.Rooted stamp parent) :
    ∃ header, readHeaderAt t.file 512 = .ok header ∧
      ∀ p < 1024, header p = sealHeader (headerOut t.toContext parent) p := by
  obtain ⟨header, read, same⟩ := rooted.header.read
  refine ⟨header, ?_, same⟩
  unfold readHeaderAt
  rw [read, Outcome.ok_bind, validHeader_congr same, rooted.valid, if_pos rfl]

theorem Handle.Rooted.opens (rooted : t.Rooted stamp parent) (made : t.Made texts) :
    vhdOpen t.file = .ok t.toContext := by
  have cookie : cookieIn (sealFooter (footerOut t.toContext stamp t.currSize)) = footerCookie := by
    have own : cookieIn (footerOut t.toContext stamp t.currSize) = footerCookie := footerOut_cookie
    rw [← own]
    apply List.map_congr_left
    intro o member
    exact sealFooter_front ((List.mem_range.mp member).trans (by decide))
  have valid : validFooter (sealFooter (footerOut t.toContext stamp t.currSize)) = true :=
    sealFooter_valid (.inl footerOut_cookie)
  obtain ⟨footer, read, same⟩ := readFooter_last valid rooted.footer rooted.large
  obtain ⟨type, -, -, dataOffset, -⟩ := footer_fields made.encodes same
  obtain ⟨header, readHeader, same'⟩ := rooted.readHeader
  have fields := header_fields made.encodes same'
  have context : contextIn t.file footer header = t.toContext :=
    contextIn_out made.encodes made.tapdisk same fields
  have kind : (contextIn t.file footer fun _ => 0).typeDynamic = true := by
    change ((diskType? (be32 footer 60)).getD .fixed != .fixed) = true
    rw [type, diskType_code]
    exact made.dynamic
  have place : (contextIn t.file footer fun _ => 0).dataOffset = 512 :=
    dataOffset.trans made.dataOffset
  unfold vhdOpen
  rw [read, Outcome.ok_bind, cookieIn_congr fun o small => same o (by omega), cookie,
    if_neg (by decide), kind, place, readHeader]
  simp only [Bool.not_true, Bool.false_eq_true, if_false, Outcome.ok_bind]
  rw [context]

theorem Handle.Filled.opens (filled : t.Filled stamp parent map) (made : t.Made texts) :
    vhdOpen t.file = .ok t.toContext :=
  filled.rooted.opens made

theorem Handle.Made.hasBatmap (made : t.Made texts) : t.hasBatmap = true := by
  unfold Context.hasBatmap
  rw [made.dynamic, made.tapdisk, made.crtrVer]
  rfl

theorem checksumBatmap_congr {vhd : Vhd} {map' : Nat → UInt8}
    (same : ∀ i < vhd.batmapBytes, map' i = map i) :
    vhd.checksumBatmap 0x00010002 map' = vhd.checksumBatmap 0x00010002 map := by
  have terms : ∀ i ∈ List.range vhd.batmapBytes, map' i = map i := fun i member =>
    same i (List.mem_range.mp member)
  unfold Vhd.checksumBatmap
  dsimp only
  rw [List.map_congr_left fun i member => by rw [terms i member]]

theorem Handle.Filled.readBatmap (filled : t.Filled stamp parent map) (made : t.Made texts) :
    (∃ batmap, vhdReadBatmap t.toContext = .ok batmap ∧
      batmap.header = { t.freshBatmap.header with checksum := 2 ^ 32 - 1 }) ∧
        t.checksumBatmap 0x00010002 map = 2 ^ 32 - 1 ∨
      vhdReadBatmap t.toContext = .error (-einval) ∧
        t.checksumBatmap 0x00010002 map ≠ 2 ^ 32 - 1 := by
  have start := made.start_small
  have last : t.locatorStart = t.freshBatmap.header.batmapOffset +
    t.freshBatmap.header.batmapSize * 512 := rfl
  obtain ⟨buf, read, same⟩ := filled.mapHeader.read
  have header : batmapHeaderIn buf = { t.freshBatmap.header with checksum := 2 ^ 32 - 1 } := by
    apply batmapHeaderIn_bytes rfl
    · change t.freshBatmap.header.batmapOffset < _
      omega
    · change t.freshBatmap.header.batmapSize < _
      unfold Vhd.freshBatmap secsRoundUpNoZero secsRoundUp
      dsimp only
      split <;> omega
    · exact show 0x00010002 < 2 ^ 32 by decide
    · exact show 2 ^ 32 - 1 < 2 ^ 32 by decide
    · intro i small
      exact same i (by omega)
  obtain ⟨loaded, readMap, same'⟩ := filled.map.read
  have valid : { t.freshBatmap.header with checksum := 2 ^ 32 - 1 : BatmapHeader }.valid = true := rfl
  have covered : ¬ t.freshBatmap.header.batmapSize * 512 < t.batmapBytes :=
    Nat.not_lt.mpr filled.fits
  have result : vhdReadBatmap t.toContext =
      if t.checksumBatmap 0x00010002 loaded ≠ 2 ^ 32 - 1 then .error (-einval)
      else .ok
        { header := { t.freshBatmap.header with checksum := 2 ^ 32 - 1 }
          mapBytes := t.batmapBytes, map := loaded } := by
    unfold vhdReadBatmap vhdReadBatmapHeader
    rw [made.hasBatmap, if_neg (by decide), read, Outcome.ok_bind, header, Outcome.ok_bind,
      valid, if_neg (by decide), if_neg covered]
    dsimp only
    rw [readMap, Outcome.ok_bind]
    rfl
  rw [result, checksumBatmap_congr same']
  by_cases sum : t.checksumBatmap 0x00010002 map = 2 ^ 32 - 1
  · rw [if_neg (not_not.mpr sum)]
    exact .inl ⟨⟨_, rfl, rfl⟩, sum⟩
  · rw [if_pos sum]
    exact .inr ⟨rfl, sum⟩

theorem foldl_locators (locs : List Locator) (eom : Nat) :
    locs.foldl (fun eom loc => if loc.code = 0 then eom else max eom (loc.dataOffset + loc.size)) eom =
      ((locs.filter (·.code ≠ 0)).map Locator.extent).foldl
        (fun limit extent => max limit extent.stop) eom := by
  induction locs generalizing eom with
  | nil => rfl
  | cons loc locs ih =>
      rw [List.foldl_cons, ih]
      by_cases unused : loc.code = 0
      · simp [unused]
      · simp [unused, Locator.extent, Extent.stop]

theorem Handle.Made.sum (made : t.Made texts) :
    (t.regionSizes texts).sum = t.locatorStart + (textSizes texts).sum := by
  have place : t.batmapHeaderOffset = t.tableOffset + vhdBytesPadded (t.maxBatSize * 4) := rfl
  have offset : t.freshBatmap.header.batmapOffset = t.batmapHeaderOffset + 512 := rfl
  unfold Vhd.regionSizes Vhd.locatorStart
  rw [List.sum_append, offset, place, made.tableOffset]
  simp only [List.sum_cons, List.sum_nil]
  omega

theorem Handle.Filled.endOfHeaders (filled : t.Filled stamp parent map) (made : t.Made texts)
    (sum : t.checksumBatmap 0x00010002 map = 2 ^ 32 - 1) :
    vhdEndOfHeaders t.toContext = .ok (t.regionSizes texts).sum := by
  obtain ⟨batmap, read, header⟩ := ((filled.readBatmap made).resolve_right fun other => other.2 sum).1
  have locs := locatorExtents t.locatorStart made.codes
  rw [← made.loc] at locs
  have place : t.batmapHeaderOffset = 1536 + vhdBytesPadded (t.maxBatSize * 4) := by
    unfold Vhd.batmapHeaderOffset
    rw [made.tableOffset]
  have offset : t.freshBatmap.header.batmapOffset =
      1536 + vhdBytesPadded (t.maxBatSize * 4) + 512 := congrArg (· + 512) place
  have start : max (max (max (512 + 1024) (1536 + vhdBytesPadded (t.maxBatSize * 4) % 2 ^ 32))
      (t.batmapHeaderOffset + 512)) (batmap.header.batmapOffset + batmap.header.batmapSize * 512) =
      t.locatorStart := by
    rw [header, place]
    unfold Vhd.locatorStart
    dsimp only
    rw [offset]
    omega
  unfold vhdEndOfHeaders
  rw [made.dynamic, if_neg (by decide), made.hasBatmap, if_pos rfl, read, Outcome.ok_bind, made.dataOffset,
    made.tableOffset]
  dsimp only
  rw [Outcome.ok_bind, start, foldl_locators, locs, Extent.foldl_consecutive, made.sum]

theorem Handle.Filled.sum_of_endOfHeaders (filled : t.Filled stamp parent map) (made : t.Made texts)
    {headers : Nat} (found : vhdEndOfHeaders t.toContext = .ok headers) :
    t.checksumBatmap 0x00010002 map = 2 ^ 32 - 1 := by
  rcases filled.readBatmap made with ⟨-, sum⟩ | ⟨failed, -⟩
  · exact sum
  · unfold vhdEndOfHeaders at found
    rw [made.dynamic, if_neg (by decide), made.hasBatmap, if_pos rfl, failed] at found
    cases found

theorem Handle.Rooted.readBat (rooted : t.Rooted stamp parent) (made : t.Made texts) :
    ∃ bat, vhdReadBat t.toVhd = .ok bat ∧ bat.entries = t.currSize / 2 ^ 21 ∧
      bat.len = vhdBytesPadded (t.currSize / 2 ^ 21 * 4) / 4 ∧
      ∀ i < t.maxBatSize, i < bat.len → bat.bat i = ddBlkUnused := by
  have small := made.small
  have covers := made.covers
  have entries : t.batEntries = t.currSize / 2 ^ 21 := Nat.mod_eq_of_lt (by
    unfold vhdBlockShift
    omega)
  have part : vhdBytesPadded (t.batEntries * 4) ≤ vhdBytesPadded (t.maxBatSize * 4) := by
    apply Nat.mul_le_mul_right
    apply secsRoundUpNoZero_mono
    · omega
    · omega
  obtain ⟨buf, read, same⟩ := (rooted.table.front part).read
  have whole : vhdBytesPadded (t.batEntries * 4) / 4 * 4 = vhdBytesPadded (t.batEntries * 4) := by
    unfold vhdBytesPadded
    omega
  have reach : t.batEntries * 4 ≤ vhdBytesPadded (t.batEntries * 4) := by
    unfold vhdBytesPadded secsRoundUpNoZero secsRoundUp
    split <;> omega
  have loaded : vhdReadBat t.toVhd = .ok
      { entries := t.batEntries
        len := vhdBytesPadded (t.batEntries * 4) / 4
        bat := fun i =>
          if i < t.batEntries then be32 buf (4 * i)
          else if i < vhdBytesPadded (t.batEntries * 4) / 4 then le32 buf (4 * i)
          else 0 } := by
    unfold vhdReadBat
    rw [made.dynamic, if_neg (by decide), if_neg (by omega), made.tableOffset]
    dsimp only
    rw [read, Outcome.ok_bind]
  refine ⟨_, loaded, entries, by rw [entries], ?_⟩
  intro i inside room
  dsimp only at room ⊢
  have ones : be32 buf (4 * i) = ddBlkUnused := by
    apply be32_beByte (by decide)
    intro j few
    rw [same _ (by omega)]
    unfold Bat.bytes Vhd.freshBat
    dsimp only
    rw [show (4 * i + j) / 4 = i by omega, show (4 * i + j) % 4 = j by omega, if_pos inside,
      if_pos inside]
  split
  · exact ones
  · exact (be32_ones_iff_le32 buf _).mp ones

theorem Handle.Filled.readBat (filled : t.Filled stamp parent map) (made : t.Made texts) :
    ∃ bat, vhdReadBat t.toVhd = .ok bat ∧ ∀ i < bat.entries, bat.bat i = ddBlkUnused := by
  obtain ⟨bat, read, entries, len, unused⟩ := filled.rooted.readBat made
  have covers := made.covers
  have small := made.small
  have reach := padded_le (t.currSize / 2 ^ 21 * 4) (by omega)
  exact ⟨bat, read, fun i inside => unused i (by omega) (by omega)⟩

theorem Handle.Filled.endOfData (filled : t.Filled stamp parent map) (made : t.Made texts)
    (sum : t.checksumBatmap 0x00010002 map = 2 ^ 32 - 1) :
    vhdEndOfData t.toContext = .ok (t.regionSizes texts).sum := by
  obtain ⟨bat, read, unused⟩ := filled.readBat made
  have same : ∀ headers, t.endOfExtents headers bat = headers / 512 := by
    intro headers
    unfold Vhd.endOfExtents
    have stays : ∀ (indices : List Nat) (last : Nat), (∀ i ∈ indices, i < bat.entries) →
        indices.foldl (fun last i => if bat.bat i = ddBlkUnused then last
          else max (bat.bat i + t.spb + t.bmSecs) last) last = last := by
      intro indices last inside
      induction indices generalizing last with
      | nil => rfl
      | cons i indices ih =>
          rw [List.foldl_cons, if_pos (unused i (inside i List.mem_cons_self))]
          exact ih last fun j member => inside j (List.mem_cons_of_mem _ member)
    exact stays _ _ fun i member => List.mem_range.mp member
  unfold vhdEndOfData
  rw [made.dynamic, if_neg (by decide), filled.endOfHeaders made sum, Outcome.ok_bind, read,
    Outcome.ok_bind, same, Nat.div_mul_cancel (t.regionSizes_dvd texts)]

theorem Handle.Filled.wellLaid (filled : t.Filled stamp parent map) (made : t.Made texts)
    (sum : t.checksumBatmap 0x00010002 map = 2 ^ 32 - 1)
    (behind : (t.regionSizes texts).sum ≤ t.file.size - 512) : t.WellLaid := by
  refine ⟨_, _, _, filled.opens made, filled.endOfHeaders made sum, filled.endOfData made sum, ?_, ?_⟩
  · have area : t.dataArea (t.regionSizes texts).sum = ⟨(t.regionSizes texts).sum, 0⟩ :=
      if_pos made.dynamic
    unfold Handle.regions
    rw [made.metadata, area, List.pairwise_append]
    refine ⟨Extent.consecutive_apart _ _, ?_, ?_⟩
    · apply List.Pairwise.cons _ (List.pairwise_singleton _ _)
      intro extent member
      rw [List.mem_singleton.mp member]
      exact .inl behind
    · intro region member other last
      have inside := (Extent.consecutive_within member).2
      rw [Nat.zero_add] at inside
      simp only [List.mem_cons, List.not_mem_nil, or_false] at last
      rcases last with rfl | rfl
      · exact .inl inside
      · exact .inl (inside.trans behind)
  · rw [made.metadata]
    intro region member
    have inside := (Extent.consecutive_within member).2
    rw [Nat.zero_add] at inside
    exact ⟨inside, inside⟩

end Opened

end Blktap.Libvhd
