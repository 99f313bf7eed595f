import Blktap.Libvhd.NewImage

/-! # The layout that `__vhd_create` makes -/

namespace Blktap.Libvhd
open Lib Action

def File.putAll (file : File) (off : Nat) : List (Nat × List UInt8) → File
  | [] => file
  | (_, text) :: texts =>
      (file.put off (vhdBytesPadded text.length) fun p => text.getD p 0).putAll
        (off + vhdBytesPadded text.length) texts

def Handle.prepared (h : Handle) (texts : List (Nat × List UInt8)) (file : File)
    (faults : List (Option Fault)) : Handle :=
  { h with
    oldBitmap_eq := h.bitmap_eq, batmap := some h.freshBatmap, bat := some h.freshBat
    loc := locateAll h.loc 0 h.locatorStart texts, file := file, faults := faults }

def Handle.metadataFile (h : Handle) (texts : List (Nat × List UInt8)) : File :=
  (((h.file.put h.freshBatmap.header.batmapOffset h.batmapBytes fun _ => 0).put
    h.batmapHeaderOffset 512 { h.freshBatmap.header with checksum := 2 ^ 32 - 1 }.bytes).put
    h.tableOffset (vhdBytesPadded (h.maxBatSize * 4)) h.freshBat.bytes).putAll h.locatorStart texts

section Metadata
variable {s t h v : Handle} {off size i : Nat} {data : Nat → UInt8} {texts : List (Nat × List UInt8)}
  {file : File} {r : Request} {made : Nat × ParentStamp}

theorem Handle.locatedAll_eq (s : Handle) (i off : Nat) (texts : List (Nat × List UInt8)) :
    s.locatedAll i off texts =
      { s with
        loc := locateAll s.loc i off texts, file := s.file.putAll off texts
        faults := s.faults.drop texts.length } := by
  induction texts generalizing s i off with
  | nil => rfl
  | cons entry texts ih =>
      obtain ⟨code, text⟩ := entry
      rw [Handle.locatedAll, ih]
      simp [Handle.located, Handle.wrote, Handle.put, locateAll, File.putAll]

theorem File.putAll_size (file : File) (off : Nat) (texts : List (Nat × List UInt8)) :
    (file.putAll off texts).size =
      if texts = [] then file.size else max file.size (off + (textSizes texts).sum) := by
  induction texts generalizing file off with
  | nil => rfl
  | cons entry texts ih =>
      obtain ⟨code, text⟩ := entry
      have positive := vhdBytesPadded_pos text.length
      have sum : (textSizes ((code, text) :: texts)).sum =
          vhdBytesPadded text.length + (textSizes texts).sum := rfl
      rw [File.putAll, ih, sum, if_neg (List.cons_ne_nil _ _)]
      unfold File.put
      dsimp only
      rw [if_neg positive.ne']
      split
      · rename_i last
        subst last
        simp [textSizes]
      · omega

theorem File.Holds.putAll (holds : file.Holds off size data) {start : Nat}
    (before : off + size ≤ start) : (file.putAll start texts).Holds off size data := by
  induction texts generalizing file start with
  | nil => exact holds
  | cons entry texts ih =>
      obtain ⟨code, text⟩ := entry
      exact ih (holds.put (.inl before)) (before.trans (Nat.le_add_right _ _))

theorem File.Shows.putAll {p start : Nat} {value : UInt8} (shows : file.Shows p value)
    (before : p < start) : (file.putAll start texts).Shows p value := by
  induction texts generalizing file start with
  | nil => exact shows
  | cons entry texts ih =>
      obtain ⟨code, text⟩ := entry
      exact ih (shows.put (.inl before)) (before.trans_le (Nat.le_add_right _ _))

theorem Handle.mapped_eq (h : Handle) :
    { h with batmap := some h.freshBatmap : Handle }.mapped h.freshBatmap =
      { h with
        batmap := some h.freshBatmap
        file := (h.file.put h.freshBatmap.header.batmapOffset h.batmapBytes fun _ => 0).put
          h.batmapHeaderOffset 512 { h.freshBatmap.header with checksum := 2 ^ 32 - 1 }.bytes
        faults := h.faults.tail.tail } := by
  have sum : h.checksumBatmap h.freshBatmap.header.batmapVersion h.freshBatmap.map = 2 ^ 32 - 1 :=
    checksumBatmap_zero fun _ _ => rfl
  rw [← sum]
  rfl

theorem Vhd.locatorStart_dvd {vhd : Vhd} (table : vhd.tableOffset = 1536) :
    vhd.locatorStart % 512 = 0 := by
  have start : vhd.locatorStart = vhd.tableOffset + vhdBytesPadded (vhd.maxBatSize * 4) + 512 +
      secsRoundUpNoZero ((vhd.maxBatSize + 7) % 2 ^ 32 / 8) * 512 := rfl
  rw [start, table]
  unfold vhdBytesPadded
  omega

theorem vhdWriteParentLocators_ok {found : Outcome Parent} {batmap : Batmap} {start : Nat}
    (diff : s.type = .diff) (loaded : s.batmap = some batmap)
    (last : start = batmap.header.batmapOffset + batmap.header.batmapSize * 512)
    (whole : start % 512 = 0) (locs : s.loc.length = 8)
    (action : vhdWriteParentLocators found s = (.ok (), t)) :
    ∃ texts : List (Nat × List UInt8), texts.map Prod.fst = locatorCodes ∧
      (∀ entry ∈ texts, Placed found entry.1 entry.2) ∧ t = s.locatedAll 0 start texts ∧
      (s.isBlock = true → t.file.size = s.file.size) := by
  unfold vhdWriteParentLocators at action
  rw [get_bind, if_neg (not_not.mpr diff), loaded] at action
  dsimp only at action
  rw [← last, if_pos whole] at action
  apply writeLocators_ok _ action
  rw [locs]
  decide

def Handle.tableFile (h : Handle) (file : File) (texts : List (Nat × List UInt8)) : File :=
  (file.put h.tableOffset (vhdBytesPadded (h.maxBatSize * 4)) h.freshBat.bytes).putAll h.locatorStart
    texts

theorem createMetadata_steps (dynamic : s.typeDynamic = true) (tapdisk : s.tapdisk = true)
    (crtrVer : s.crtrVer = 0x00010003) (locs : s.loc.length = 8) (same : s.currSize = r.size)
    (header : h = s.headed
      (if s.type = .diff ∧ r.size = 0 then parentSize r.found r.raw else r.size))
    (action : createMetadata r s = (.ok made, t)) :
    vhdInitializeHeader r.found r.size r.raw s = (.ok made, h) ∧ h.hasBatmap = true ∧
      h.maxBatSize < 2 ^ 31 ∧ ∃ v texts faults,
        vhdWriteBatmap h.freshBatmap { h with batmap := some h.freshBatmap } = (.ok (), v) ∧
        t = h.prepared texts (h.tableFile v.file texts) faults ∧
        (s.type ≠ .diff → texts = []) ∧
        (s.type = .diff → texts.map Prod.fst = locatorCodes ∧
          ∀ entry ∈ texts, Placed r.found entry.1 entry.2) ∧
        (s.isBlock = true → v.file.size = s.file.size ∧
          (h.tableFile v.file texts).size = s.file.size) := by
  unfold createMetadata at action
  obtain ⟨found, u, initialized, action⟩ := bind_ok.mp action
  obtain ⟨rfl, -⟩ := vhdInitializeHeader_ok same initialized
  rw [← header] at action initialized
  have type : h.type = s.type := by rw [header]; rfl
  have block : h.isBlock = s.isBlock := by rw [header]; rfl
  have size : h.file.size = s.file.size := by rw [header]; rfl
  have table : h.tableOffset = 1536 := by rw [header]; rfl
  have length : h.loc.length = 8 := by rw [header]; exact locs
  have has : h.hasBatmap = true := by
    have kind : h.typeDynamic = true := by rw [header]; exact dynamic
    have creator : h.tapdisk = true := by rw [header]; exact tapdisk
    have version : h.crtrVer = 0x00010003 := by rw [header]; exact crtrVer
    unfold Context.hasBatmap
    rw [kind, creator, version]
    rfl
  obtain ⟨_, v, first, action⟩ := bind_ok.mp action
  have mapped := vhdCreateBatmap_steps first
  obtain ⟨_, w, second, action⟩ := bind_ok.mp action
  obtain ⟨rfl, small, room⟩ := vhdCreateBat_ok second
  rw [get_bind] at action
  obtain ⟨_, x, third, action⟩ := bind_ok.mp action
  obtain ⟨rfl, rfl⟩ := pure_ok.mp action
  obtain ⟨file, faults, rfl, kept⟩ :=
    vhdWriteBatmap_rewrites (s := { h with batmap := some h.freshBatmap }) has mapped
  have kept' : s.isBlock = true → file.size = s.file.size := fun isBlock =>
    (kept (block.trans isBlock)).trans size
  have tabled : s.isBlock = true →
      (file.put h.tableOffset (vhdBytesPadded (h.maxBatSize * 4)) h.freshBat.bytes).size =
        s.file.size := by
    intro isBlock
    rw [← kept' isBlock]
    exact File.put_size_inside (room (block.trans isBlock))
  refine ⟨initialized, has, small, { h with
    oldBitmap_eq := h.bitmap_eq, batmap := some h.freshBatmap, file := file, faults := faults }, ?_⟩
  rcases when_ok.mp third with ⟨kind, written⟩ | ⟨kind, rfl⟩
  · have diff : s.type = .diff := type.symm.trans kind
    obtain ⟨texts, codes, placed, rfl, last⟩ := vhdWriteParentLocators_ok kind rfl
      (show h.locatorStart = _ from rfl) (Vhd.locatorStart_dvd table) length written
    rw [Handle.locatedAll_eq] at last ⊢
    refine ⟨texts, _, mapped, rfl, fun other => absurd diff other, fun _ => ⟨codes, placed⟩,
      fun isBlock => ⟨kept' isBlock, ?_⟩⟩
    exact (last (block.trans isBlock)).trans (tabled isBlock)
  · have other : s.type ≠ .diff := fun diff => kind (type.trans diff)
    exact ⟨[], _, mapped, rfl, fun _ => rfl, fun diff => absurd diff other,
      fun isBlock => ⟨kept' isBlock, tabled isBlock⟩⟩

theorem Handle.MapLeft.whole
    (left : { h with batmap := some h.freshBatmap : Handle }.MapLeft h.freshBatmap v)
    (covered : h.batmapBytes ≤ h.freshBatmap.header.batmapSize * 512)
    (enough : h.HasRoom h.locatorStart) :
    v.file = (h.file.put h.freshBatmap.header.batmapOffset h.batmapBytes fun _ => 0).put
      h.batmapHeaderOffset 512 { h.freshBatmap.header with checksum := 2 ^ 32 - 1 }.bytes := by
  have bo : h.freshBatmap.header.batmapOffset = h.batmapHeaderOffset + 512 := rfl
  have start : h.locatorStart = h.freshBatmap.header.batmapOffset +
    h.freshBatmap.header.batmapSize * 512 := rfl
  have mapEnd : h.freshBatmap.header.batmapOffset + h.batmapBytes ≤ h.locatorStart := by omega
  have headerEnd : h.batmapHeaderOffset + 512 ≤ h.locatorStart := by omega
  rcases left with ⟨rfl, -, -⟩ | ⟨full, -⟩
  · rw [h.mapped_eq]
  · rcases full with full | full
    · exact absurd (fun isBlock => mapEnd.trans (enough isBlock)) full
    · exact absurd (fun isBlock => headerEnd.trans (enough isBlock)) full

end Metadata

section Sizes
variable {r : Request} {size : Nat} {texts : List (Nat × List UInt8)}

theorem roundUp_lt (bytes : Nat) : roundUp bytes < 2 ^ 64 := by
  unfold roundUp blocksUp vhdBlockShift
  omega

theorem parentSize_lt (found : Outcome Parent) (raw : Bool) : parentSize found raw < 2 ^ 64 := by
  unfold parentSize
  split
  · split
    · exact UInt64.toNat_lt _
    · decide
  · decide

theorem Request.madeSize_lt (r : Request) : r.madeSize < 2 ^ 64 := by
  unfold Request.madeSize
  split
  · exact parentSize_lt _ _
  · exact roundUp_lt _

theorem covers_of_batmap (bound : size < 2 ^ 64) (small : blocksUp size % 2 ^ 32 < 2 ^ 31)
    (covered : secsRoundUpNoZero (size / 2 ^ (vhdBlockShift + 3)) ≤
      secsRoundUpNoZero ((blocksUp size % 2 ^ 32 + 7) % 2 ^ 32 / 8)) :
    size / 2 ^ 21 ≤ blocksUp size % 2 ^ 32 := by
  unfold secsRoundUpNoZero secsRoundUp blocksUp vhdBlockShift at covered
  unfold blocksUp vhdBlockShift at small ⊢
  split at covered <;> split at covered <;> omega

theorem textSizes_eq (diff : diskType? r.type = some .diff) (codes : texts.map Prod.fst = locatorCodes)
    (placed : ∀ entry ∈ texts, Placed r.found entry.1 entry.2) : textSizes texts = r.locatorSizes := by
  unfold Request.locatorSizes textSizes
  rw [if_pos diff, ← codes, List.map_map]
  apply List.map_congr_left
  intro entry member
  rw [Function.comp_apply, (placed entry member).encoded]

theorem regionSizes_sum {vhd : Vhd} (small : vhd.maxBatSize < 2 ^ 31) :
    (vhd.regionSizes texts).sum = metadataEnd vhd.maxBatSize (textSizes texts) := by
  have bits : (vhd.maxBatSize + 7) % 2 ^ 32 = vhd.maxBatSize + 7 := Nat.mod_eq_of_lt (by omega)
  unfold Vhd.regionSizes metadataEnd Vhd.freshBatmap
  rw [List.sum_append, bits]
  simp only [List.sum_cons, List.sum_nil]
  omega

end Sizes

section Created
variable {s h v t : Handle} {stamp : Stamp} {parent : ParentStamp} {size made : Nat}
  {texts : List (Nat × List UInt8)} {file : File} {faults : List (Option Fault)}

theorem Handle.trailed_size (large : v.isBlock = true → 512 ≤ v.file.size) :
    v.trailed.file.size = v.trailer + 512 := by
  change (v.file.put v.trailer 512 _).size = _
  unfold File.put Handle.trailer
  dsimp only
  rw [if_neg (by decide)]
  split
  · rename_i isBlock
    have := large isBlock
    omega
  · omega

def Handle.unfinished (h : Handle) (texts : List (Nat × List UInt8)) (file : File)
    (faults : List (Option Fault)) (size : Nat) (stamp : Stamp) (parent : ParentStamp) : Handle :=
  ((h.prepared texts file faults).sized size stamp).fronted parent

def Handle.finished (h : Handle) (texts : List (Nat × List UInt8)) (file : File)
    (faults : List (Option Fault)) (size : Nat) (stamp : Stamp) (parent : ParentStamp) : Handle :=
  (h.unfinished texts file faults size stamp parent).trailed

def Handle.mapFound (h : Handle) (i : Nat) : UInt8 :=
  if i < h.batmapBytes then 0
  else if h.isBlock then h.file.byte (h.freshBatmap.header.batmapOffset + i) else 0

theorem finished_rooted
    (t_eq : t = h.finished texts file faults size stamp parent)
    (v_eq : v = h.unfinished texts file faults size stamp parent)
    (large : v.isBlock = true → 512 ≤ v.file.size)
    (valid : validHeader (sealHeader (headerOut t.toContext parent)) = true)
    (holds : file.Holds 1536 (vhdBytesPadded (h.maxBatSize * 4)) h.freshBat.bytes)
    (behind : 1536 + vhdBytesPadded (h.maxBatSize * 4) ≤ v.trailer) : t.Rooted stamp parent := by
  have last : t = v.trailed := by rw [t_eq, v_eq]; rfl
  have size : t.file.size = v.trailer + 512 := by rw [last]; exact Handle.trailed_size large
  have bytes : t.file = ((file.put 0 512 (sealFooter v.footer)).put 512 1024
      (sealHeader (headerOut t.toContext parent))).put v.trailer 512 (sealFooter v.footer) := by
    rw [t_eq, v_eq]
    rfl
  refine ⟨by omega, ?_, ?_, valid, ?_⟩
  · rw [size, Nat.add_sub_cancel, bytes]
    have footer : v.footer = footerOut t.toContext stamp t.currSize := by
      rw [t_eq, v_eq]
      rfl
    rw [footer]
    exact File.holds_put (by decide)
  · rw [bytes]
    apply File.Holds.put _ (.inl (by omega))
    exact File.holds_put (by decide)
  · have same : t.freshBat = h.freshBat ∧ t.maxBatSize = h.maxBatSize := by
      rw [t_eq]
      exact ⟨rfl, rfl⟩
    rw [same.1, same.2, bytes]
    apply File.Holds.put _ (.inl behind)
    apply File.Holds.put _ (.inr (by omega))
    exact holds.put (.inr (by omega))

theorem finished_filled
    (t_eq : t = h.finished texts (h.metadataFile texts) faults size stamp parent)
    (v_eq : v = h.unfinished texts (h.metadataFile texts) faults size stamp parent)
    (table : h.tableOffset = 1536) (large : v.isBlock = true → 512 ≤ v.file.size)
    (valid : validHeader (sealHeader (headerOut t.toContext parent)) = true)
    (covered : h.batmapBytes ≤ h.freshBatmap.header.batmapSize * 512)
    (fits : t.batmapBytes ≤ h.freshBatmap.header.batmapSize * 512)
    (device : h.isBlock = true → h.locatorStart ≤ h.file.size)
    (regular : h.isBlock = false → h.file.size = 0) (behind : h.locatorStart ≤ v.trailer) :
    t.Filled stamp parent h.mapFound := by
  have last : t = v.trailed := by rw [t_eq, v_eq]; rfl
  have size : t.file.size = v.trailer + 512 := by rw [last]; exact Handle.trailed_size large
  have start : h.locatorStart = h.freshBatmap.header.batmapOffset +
    h.freshBatmap.header.batmapSize * 512 := rfl
  have map : h.freshBatmap.header.batmapOffset = h.batmapHeaderOffset + 512 := rfl
  have header : h.batmapHeaderOffset = 1536 + vhdBytesPadded (h.maxBatSize * 4) := by
    unfold Vhd.batmapHeaderOffset
    rw [table]
  have bytes : t.file = (((h.metadataFile texts).put 0 512 (sealFooter v.footer)).put 512 1024
      (sealHeader (headerOut t.toContext parent))).put v.trailer 512 (sealFooter v.footer) := by
    rw [t_eq, v_eq]
    rfl
  have reach : ∀ off size data, 1536 ≤ off → off + size ≤ v.trailer →
      (h.metadataFile texts).Holds off size data → t.file.Holds off size data := by
    intro off size data low high holds
    rw [bytes]
    apply File.Holds.put _ (.inl high)
    apply File.Holds.put _ (.inr (by omega))
    exact holds.put (.inr (by omega))
  have fresh : t.freshBatmap = h.freshBatmap ∧ t.batmapHeaderOffset = h.batmapHeaderOffset := by
    rw [t_eq]
    exact ⟨rfl, rfl⟩
  have rooted : t.Rooted stamp parent := by
    apply finished_rooted t_eq v_eq large valid _ (by omega)
    apply File.Holds.putAll _ (by omega)
    rw [table]
    exact File.holds_put (vhdBytesPadded_pos _)
  refine ⟨rooted.large, rooted.footer, rooted.header, valid, rooted.table, ?_, ?_, fresh.1 ▸ fits⟩
  · rw [fresh.1, fresh.2]
    apply reach _ _ _ (by omega) (by omega)
    apply File.Holds.putAll _ (by omega)
    apply File.Holds.put _ (.inr (by omega))
    exact File.holds_put (by decide)
  · rw [fresh.1]
    have zeros : t.file.Holds h.freshBatmap.header.batmapOffset h.batmapBytes fun _ => 0 := by
      apply reach _ _ _ (by omega) (by omega)
      apply File.Holds.putAll _ (by omega)
      apply File.Holds.put _ (.inr (by omega))
      apply File.Holds.put _ (.inr (by omega))
      exact File.holds_put h.batmapBytes_pos
    refine ⟨by omega, fun i inside => ?_⟩
    unfold Handle.mapFound
    by_cases written : i < h.batmapBytes
    · rw [if_pos written]
      exact zeros.2 i written
    · rw [if_neg written]
      -- behind the bytes that were written the file has what it had
      have before : h.file.Shows (h.freshBatmap.header.batmapOffset + i)
          (if h.isBlock then h.file.byte (h.freshBatmap.header.batmapOffset + i) else 0) := by
        cases isBlock : h.isBlock with
        | true =>
            have := device isBlock
            exact ⟨fun _ => rfl, fun past => by omega⟩
        | false =>
            have := regular isBlock
            exact ⟨fun inside => by omega, fun _ => rfl⟩
      have shows : t.file.Shows (h.freshBatmap.header.batmapOffset + i)
          (if h.isBlock then h.file.byte (h.freshBatmap.header.batmapOffset + i) else 0) := by
        rw [bytes]
        apply File.Shows.put _ (.inl (by omega))
        apply File.Shows.put _ (.inr (by omega))
        apply File.Shows.put _ (.inr (by omega))
        apply File.Shows.putAll _ (by omega)
        apply File.Shows.put _ (.inr (by omega))
        apply File.Shows.put _ (.inr (by omega))
        exact before.put (.inr (by omega))
      exact shows.1 (by omega)

theorem finished_made
    (t_eq : t = h.finished texts file faults size stamp parent)
    (h_eq : h = s.headed made) (dynamic : s.typeDynamic = true) (tapdisk : s.tapdisk = true)
    (crtrVer : s.crtrVer = 0x00010003) (locs : s.loc = List.replicate 8 .unused)
    (small : h.maxBatSize < 2 ^ 31) (covers : size / 2 ^ 21 ≤ h.maxBatSize) (fits : size < 2 ^ 64)
    (codes : texts = [] ∨ texts.map Prod.fst = locatorCodes)
    (lengths : ∀ entry ∈ texts, entry.2.length < 2 ^ 31 ∧ vhdBytesPadded entry.2.length < 2 ^ 31) :
    t.Made texts := by
  subst h_eq t_eq
  refine ⟨dynamic, tapdisk, crtrVer, rfl, rfl, rfl, small, covers, fits, rfl, codes, lengths, ?_⟩
  change locateAll s.loc 0 _ texts = _
  rw [locs]
  rfl

theorem unfinished_size
    (v_eq : v = h.unfinished texts (h.metadataFile texts) faults size stamp parent)
    (table : h.tableOffset = 1536) (empty : h.file.size = 0)
    (covered : h.batmapBytes ≤ h.freshBatmap.header.batmapSize * 512) :
    v.file.size = if texts = [] then h.freshBatmap.header.batmapOffset + h.batmapBytes
      else h.locatorStart + (textSizes texts).sum := by
  have positive := h.batmapBytes_pos
  have table' := vhdBytesPadded_pos (h.maxBatSize * 4)
  have start : h.locatorStart = h.freshBatmap.header.batmapOffset +
    h.freshBatmap.header.batmapSize * 512 := rfl
  have map : h.freshBatmap.header.batmapOffset = h.batmapHeaderOffset + 512 := rfl
  have header : h.batmapHeaderOffset = h.tableOffset + vhdBytesPadded (h.maxBatSize * 4) := rfl
  have front : v.file.size = max (max (h.metadataFile texts).size 512) 1536 := by
    rw [v_eq]
    rfl
  have metadata : (h.metadataFile texts).size =
      if texts = [] then h.freshBatmap.header.batmapOffset + h.batmapBytes
      else h.locatorStart + (textSizes texts).sum := by
    unfold Handle.metadataFile
    rw [File.putAll_size]
    unfold File.put
    dsimp only
    rw [if_neg positive.ne', if_neg table'.ne', if_neg (show ¬ 512 = 0 by decide), empty]
    split <;> omega
  rw [front, metadata]
  split <;> omega

end Created

end Blktap.Libvhd
