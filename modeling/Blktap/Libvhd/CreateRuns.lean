import Blktap.Libvhd.CreateLayout

/-!
# Which new images are well laid out
-/

namespace Blktap.Libvhd
open Lib Action

structure Handle.MadeFixed (t : Handle) : Prop where
  type : t.type = .fixed
  tapdisk : t.tapdisk = true
  crtrVer : t.crtrVer = 0x00010003
  dataOffset : t.dataOffset = 2 ^ 64 - 1
  header : t.tableOffset = 0 ∧ t.maxBatSize = 0 ∧ t.blockSize = 0
  fits : t.currSize < 2 ^ 64
  loc : t.loc = List.replicate 8 .unused

section Fixed
variable {t : Handle} {stamp : Stamp}

theorem Handle.MadeFixed.encodes (made : t.MadeFixed) : t.toContext.Encodes := by
  obtain ⟨table, entries, block⟩ := made.header
  refine ⟨made.fits, ?_, ?_, ?_, ?_, ?_, ?_, ?_⟩
  · rw [made.dataOffset]
    decide
  · rw [made.crtrVer]
    decide
  · rw [table]
    decide
  · rw [entries]
    decide
  · rw [block]
    decide
  · rw [made.loc]
    rfl
  · intro loc member
    rw [made.loc] at member
    rw [List.eq_of_mem_replicate member]
    decide

theorem Handle.MadeFixed.opens (made : t.MadeFixed) (large : 512 ≤ t.file.size)
    (footer : t.file.Holds (t.file.size - 512) 512
      (sealFooter (footerOut t.toContext stamp t.currSize))) :
    vhdOpen t.file = .ok t.toContext := by
  have own : cookieIn (footerOut t.toContext stamp t.currSize) = footerCookie := footerOut_cookie
  have cookie : cookieIn (sealFooter (footerOut t.toContext stamp t.currSize)) = footerCookie := by
    rw [← own]
    apply List.map_congr_left
    intro o member
    exact sealFooter_front ((List.mem_range.mp member).trans (by decide))
  obtain ⟨footer, read, same⟩ := readFooter_last (sealFooter_valid (.inl own)) footer large
  obtain ⟨table, entries, block⟩ := made.header
  have context : contextIn t.file footer (fun _ => 0) = t.toContext := by
    apply contextIn_out made.encodes made.tapdisk same
    rw [table, entries, block, made.loc]
    exact ⟨rfl, rfl, rfl, rfl⟩
  have kind : t.typeDynamic = false := by
    unfold Vhd.typeDynamic
    rw [made.type]
    rfl
  unfold vhdOpen
  rw [read, Outcome.ok_bind, cookieIn_congr fun o small => same o (by omega), cookie,
    if_neg (by decide), context, kind]
  rfl

theorem Handle.MadeFixed.wellLaid_iff (made : t.MadeFixed) (large : 512 ≤ t.file.size)
    (footer : t.file.Holds (t.file.size - 512) 512
      (sealFooter (footerOut t.toContext stamp t.currSize))) :
    t.WellLaid ↔ t.currSize ≤ t.file.size - 512 := by
  have kind : t.typeDynamic = false := by
    unfold Vhd.typeDynamic
    rw [made.type]
    rfl
  have nothing : t.metadata = [] := by
    unfold Handle.metadata
    rw [kind]
    rfl
  have regions : ∀ data, t.regions data = [⟨0, t.currSize⟩, ⟨t.file.size - 512, 512⟩] := by
    intro data
    unfold Handle.regions Handle.dataArea
    rw [nothing, kind]
    rfl
  constructor
  · rintro ⟨ctx, headers, data, laid⟩
    have apart := laid.apart
    rw [regions] at apart
    rcases (List.pairwise_pair.mp apart) with before | behind
    · simpa [Extent.stop] using before
    · simp only [Extent.stop] at behind
      omega
  · intro before
    have headers : vhdEndOfHeaders t.toContext = .ok 0 := by
      unfold vhdEndOfHeaders
      rw [kind]
      rfl
    have data : vhdEndOfData t.toContext = .ok (t.file.size - 512) := by
      unfold vhdEndOfData
      rw [kind]
      rfl
    refine ⟨_, _, _, made.opens large footer, headers, data, ?_, ?_⟩
    · rw [regions]
      exact List.pairwise_pair.mpr (.inl (by simpa [Extent.stop] using before))
    · rw [nothing]
      simp

end Fixed

section Create
variable {t u : Handle} {stamp : Stamp} {r : Request} {target : Target} {type : DiskType}
  {made : Nat × ParentStamp}

@[simp] theorem initialized_type (size : Nat) :
    (vhdInitializeFooter target type size).type = type := rfl

theorem vhdCreate_ok (created : vhdCreate (.ok target) stamp r = .ok t) :
    ∃ type made u, diskType? r.type = some type ∧
      createContents r (vhdInitializeFooter target type r.size) = (.ok made, u) ∧
      createEnds r stamp made u = (.ok (), t) := by
  unfold vhdCreate at created
  split at created
  · cases created
  rename_i type known
  split at created
  · cases created
  split at created
  · cases created
  split at created
  · cases created
  rw [Outcome.ok_bind] at created
  dsimp only at created
  split at created
  · rename_i result action
    cases created
    obtain ⟨made, u, first, second⟩ := bind_ok.mp action
    exact ⟨type, made, u, known, first, second⟩
  · cases created
  · cases created

theorem create_fixed_iff (known : diskType? r.type = some .fixed)
    (contents : createContents r (vhdInitializeFooter target .fixed r.size) = (.ok made, u))
    (ends : createEnds r stamp made u = (.ok (), t)) : t.WellLaid ↔ r.Clear target := by
  unfold createContents at contents
  rw [get_bind, initialized_type, if_pos rfl] at contents
  obtain ⟨_, v, first, contents⟩ := bind_ok.mp contents
  obtain ⟨rfl, rfl⟩ := pure_ok.mp contents
  unfold vhdInitializeFixedDisk at first
  rw [get_bind, initialized_type, if_neg (not_not.mpr rfl)] at first
  split at first
  · cases undefined_ok.mp first
  obtain ⟨file, faults, rfl, device, regular⟩ := writeBlocks_ok first
  obtain ⟨virtual, w, w_eq, sizes, written, -⟩ := createEnds_ok ends
  have t_eq := written rfl
  change (r.mbytes ≠ 0 → r.endSize 0 r.size / 2 ^ 21 ≤ 0) at virtual
  have size : t.currSize = r.endSize 0 r.size := by rw [t_eq, w_eq]; rfl
  have whole : r.size = r.size / 2 ^ 21 * 2 ^ 21 := by
    unfold Request.size roundUp vhdBlockShift
    omega
  have fits : r.size < 2 ^ 64 := roundUp_lt _
  have shorter : r.endSize 0 r.size ≤ r.size := by
    unfold Request.endSize at virtual ⊢
    split
    · exact Nat.le_refl _
    · rename_i given
      have zero := virtual given
      rw [if_neg given] at zero
      split
      · rename_i asked
        rw [if_pos asked] at zero
        unfold roundUp vhdBlockShift at zero ⊢
        omega
      · exact Nat.zero_le _
  have made : t.MadeFixed := by
    refine ⟨?_, ?_, ?_, ?_, ?_, ?_, ?_⟩
    all_goals rw [t_eq, w_eq]
    · rfl
    · rfl
    · rfl
    · rfl
    · exact ⟨rfl, rfl, rfl⟩
    · exact Nat.lt_of_le_of_lt shorter fits
    · rfl
  have large : w.isBlock = true → 512 ≤ w.file.size := by
    rw [w_eq]
    exact fun isBlock => (sizes isBlock).2
  have reach : t.file.size = w.trailer + 512 := by
    rw [t_eq]
    exact Handle.trailed_size large
  have footer : t.file.Holds (t.file.size - 512) 512
      (sealFooter (footerOut t.toContext stamp t.currSize)) := by
    rw [reach, Nat.add_sub_cancel, t_eq, w_eq]
    exact File.holds_put (by decide)
  rw [made.wellLaid_iff (by omega) footer, size, reach, Nat.add_sub_cancel]
  unfold Request.Clear
  rw [if_pos known]
  cases isBlock : target.isBlock with
  | true =>
      have isBlock' : w.isBlock = true := by rw [w_eq]; exact isBlock
      have start : w.file.size = target.device.size := by
        rw [w_eq]
        refine (device isBlock).trans ?_
        change (if target.isBlock = true then target.device else File.empty).size = _
        rw [if_pos isBlock]
      have trailer : w.trailer = target.device.size - 512 := by
        rw [← start]
        exact if_pos isBlock'
      have := large isBlock'
      rw [trailer]
      simp only [true_implies]
      omega
  | false =>
      have isBlock' : w.isBlock = false := by rw [w_eq]; exact isBlock
      have isRegular : ¬ w.isBlock = true := by simp [isBlock']
      have start : w.file.size = r.size := by
        rw [w_eq]
        refine (regular isBlock ?_).trans ?_
        · change 0 = (if target.isBlock = true then target.device else File.empty).size
          rw [isBlock]
          rfl
        · rw [Nat.zero_add]
          exact whole.symm
      have trailer : w.trailer = w.file.size := if_neg isRegular
      rw [trailer, start]
      simpa using shorter

structure Creation (r : Request) (target : Target) (stamp : Stamp) (t v : Handle)
    (texts : List (Nat × List UInt8)) (parent : ParentStamp) : Prop where
  made : t.Made texts
  last : t = v.trailed
  front : 512 ≤ v.file.size
  isBlock : v.isBlock = target.isBlock
  device : target.isBlock = true → v.file.size = target.device.size
  regular : target.isBlock = false → v.file.size =
    if texts = [] then t.freshBatmap.header.batmapOffset + mapBytes r.madeSize
    else (t.regionSizes texts).sum
  blocks : t.maxBatSize = r.blocks
  size : t.currSize = r.endSize r.parentSize r.madeSize
  names : textSizes texts = r.locatorSizes
  nameless : texts = [] ↔ diskType? r.type ≠ some .diff
  covered : mapBytes r.madeSize ≤ t.freshBatmap.header.batmapSize * 512
  filled : (t.regionSizes texts).sum ≤ v.trailer → t.Filled stamp parent (r.mapFound target)

structure Assembly (r : Request) (target : Target) (stamp : Stamp) (type : DiskType)
    (made : Nat × ParentStamp) (t h v : Handle) (texts : List (Nat × List UInt8))
    (faults : List (Option Fault)) : Prop where
  header : h = (vhdInitializeFooter target type r.size).headed r.madeSize
  initialized : vhdInitializeHeader r.found r.size r.raw (vhdInitializeFooter target type r.size) =
    (.ok made, h)
  has : h.hasBatmap = true
  mapped : vhdWriteBatmap h.freshBatmap { h with batmap := some h.freshBatmap } = (.ok (), v)
  last : t = h.finished texts (h.tableFile v.file texts) faults
    (r.endSize r.parentSize r.madeSize) stamp made.2
  valid : validHeader (sealHeader (headerOut t.toContext made.2)) = true
  psize : made.1 = r.parentSize
  covers : r.madeSize / 2 ^ 21 ≤ h.maxBatSize
  made : t.Made texts
  nameless : type ≠ .diff → texts = []
  names : type = .diff → texts.map Prod.fst = locatorCodes ∧
    ∀ entry ∈ texts, Placed r.found entry.1 entry.2
  device : target.isBlock = true → v.file.size = target.device.size ∧
    (h.tableFile v.file texts).size = target.device.size ∧ t.file.size = target.device.size

section Assembly
variable {h v : Handle} {texts : List (Nat × List UInt8)} {faults : List (Option Fault)}

theorem create_assembly (known : diskType? r.type = some type) (other : type ≠ .fixed)
    (contents : createContents r (vhdInitializeFooter target type r.size) = (.ok made, u))
    (ends : createEnds r stamp made u = (.ok (), t)) :
    ∃ h v texts faults, Assembly r target stamp type made t h v texts faults := by
  unfold createContents at contents
  rw [get_bind, initialized_type, if_neg other] at contents
  have kind : (vhdInitializeFooter target type r.size).typeDynamic = true := by
    unfold Vhd.typeDynamic
    rw [initialized_type]
    simpa using other
  have madeSize : (if type = .diff ∧ r.size = 0 then parentSize r.found r.raw else r.size) =
      r.madeSize := by
    unfold Request.madeSize
    rw [known]
    simp
  obtain ⟨h, h_eq⟩ : ∃ h, h = (vhdInitializeFooter target type r.size).headed r.madeSize := ⟨_, rfl⟩
  obtain ⟨initialized, has, small, v, texts, faults, mapped, rfl, noNames, names, device⟩ :=
    createMetadata_steps kind rfl rfl rfl rfl (h_eq.trans (by rw [initialized_type, madeSize]))
      contents
  rw [initialized_type] at noNames names
  have covered := vhdWriteBatmap_covers (s := { h with batmap := some h.freshBatmap }) has mapped
  have psize : made.1 = r.parentSize := by
    unfold Request.parentSize
    rw [(vhdInitializeHeader_ok rfl initialized).2, initialized_type, known]
    simp
  obtain ⟨virtual, w, rfl, sizes, -, written⟩ := createEnds_ok ends
  have current : (h.prepared texts (h.tableFile v.file texts) faults).currSize = r.madeSize := by
    rw [h_eq]
    rfl
  have type_eq : (h.prepared texts (h.tableFile v.file texts) faults).type = type := by
    rw [h_eq]
    rfl
  obtain ⟨t_eq, valid⟩ := written (type_eq ▸ other)
  rw [current, psize] at virtual t_eq valid
  -- the disk is no larger than the table
  have bound : r.madeSize < 2 ^ 64 := r.madeSize_lt
  have madeCovers : r.madeSize / 2 ^ 21 ≤ h.maxBatSize := by
    rw [h_eq] at small covered ⊢
    exact covers_of_batmap bound small (Nat.le_of_mul_le_mul_right covered (by decide))
  have covers : r.endSize r.parentSize r.madeSize / 2 ^ 21 ≤ h.maxBatSize := by
    by_cases plain : r.mbytes = 0
    · unfold Request.endSize
      rw [if_pos plain]
      exact madeCovers
    · exact virtual plain
  have fits : r.endSize r.parentSize r.madeSize < 2 ^ 64 := by
    unfold Request.endSize
    split
    · exact bound
    · split
      · exact roundUp_lt _
      · unfold Request.parentSize
        split
        · exact parentSize_lt _ _
        · decide
  have codes : texts = [] ∨ texts.map Prod.fst = locatorCodes := by
    by_cases diff : type = .diff
    · exact .inr (names diff).1
    · exact .inl (noNames diff)
  have lengths : ∀ entry ∈ texts, entry.2.length < 2 ^ 31 ∧ vhdBytesPadded entry.2.length < 2 ^ 31 := by
    intro entry member
    by_cases diff : type = .diff
    · have placed := (names diff).2 entry member
      exact ⟨placed.length, placed.size⟩
    · rw [noNames diff] at member
      cases member
  have done : t.Made texts :=
    finished_made t_eq h_eq kind rfl rfl rfl small covers fits codes lengths
  refine ⟨h, v, texts, faults, h_eq, initialized, has, mapped, t_eq, ?_, psize, madeCovers, done,
    noNames, names, ?_⟩
  · rw [t_eq]
    exact valid
  · intro onDevice
    have given : (vhdInitializeFooter target type r.size).file.size = target.device.size := by
      change (if target.isBlock = true then target.device else File.empty).size = _
      rw [if_pos onDevice]
    obtain ⟨mapSize, tableSize⟩ := device onDevice
    have block : (h.prepared texts (h.tableFile v.file texts) faults).isBlock = true := by
      rw [h_eq]
      exact onDevice
    exact ⟨mapSize.trans given, tableSize.trans given, (sizes block).1.trans (tableSize.trans given)⟩

theorem Assembly.last_write (assembly : Assembly r target stamp type made t h v texts faults) :
    ∃ w, w = h.unfinished texts (h.tableFile v.file texts) faults
        (r.endSize r.parentSize r.madeSize) stamp made.2 ∧
      t = w.trailed ∧ w.isBlock = target.isBlock ∧ 512 ≤ w.file.size ∧
      (target.isBlock = true → w.file.size = target.device.size) := by
  obtain ⟨w, w_eq⟩ : ∃ w, w = h.unfinished texts (h.tableFile v.file texts) faults
    (r.endSize r.parentSize r.madeSize) stamp made.2 := ⟨_, rfl⟩
  have last : t = w.trailed := assembly.last.trans (by rw [w_eq]; rfl)
  have isBlock : w.isBlock = target.isBlock := by
    rw [w_eq, assembly.header]
    rfl
  have front : 512 ≤ w.file.size := by
    rw [w_eq]
    exact Nat.le_trans (by decide) (File.put_reach (show 0 < 1024 by decide))
  refine ⟨w, w_eq, last, isBlock, front, fun onDevice => ?_⟩
  have whole := (assembly.device onDevice).2.2
  have reach : t.file.size = w.trailer + 512 := by
    rw [last]
    exact Handle.trailed_size fun _ => front
  have trailer : w.trailer = w.file.size - 512 := if_pos (isBlock.trans onDevice)
  omega

theorem Assembly.names_eq (assembly : Assembly r target stamp type made t h v texts faults)
    (known : diskType? r.type = some type) : textSizes texts = r.locatorSizes := by
  by_cases diff : type = .diff
  · have names := assembly.names diff
    exact textSizes_eq (known.trans (congrArg some diff)) names.1 names.2
  · rw [assembly.nameless diff]
    unfold Request.locatorSizes
    rw [if_neg (by rw [known]; simpa using diff)]
    rfl

theorem Assembly.nameless_iff (assembly : Assembly r target stamp type made t h v texts faults)
    (known : diskType? r.type = some type) : texts = [] ↔ diskType? r.type ≠ some .diff := by
  rw [known]
  by_cases diff : type = .diff
  · have some_ : texts ≠ [] := by
      intro none_
      have codes := (assembly.names diff).1
      rw [none_] at codes
      cases codes
    simp [diff, some_]
  · simp [diff, assembly.nameless diff]

theorem Assembly.rooted (assembly : Assembly r target stamp .diff made t h v texts faults) :
    t.Rooted stamp made.2 := by
  obtain ⟨w, w_eq, -, isBlock, front, device⟩ := assembly.last_write
  have table : h.tableOffset = 1536 := by rw [assembly.header]; rfl
  have start : h.locatorStart = h.tableOffset + vhdBytesPadded (h.maxBatSize * 4) + 512 +
    h.freshBatmap.header.batmapSize * 512 := rfl
  have named : texts ≠ [] := by
    intro none_
    have codes := (assembly.names rfl).1
    rw [none_] at codes
    cases codes
  have named_pos : 512 ≤ (textSizes texts).sum := by
    obtain ⟨entry, rest, rfl⟩ := List.exists_cons_of_ne_nil named
    have sum : (textSizes (entry :: rest)).sum =
        vhdBytesPadded entry.2.length + (textSizes rest).sum := rfl
    have := secsRoundUpNoZero_pos entry.2.length
    unfold vhdBytesPadded at sum
    omega
  have reach : h.locatorStart + (textSizes texts).sum ≤ (h.tableFile v.file texts).size := by
    unfold Handle.tableFile
    rw [File.putAll_size, if_neg named]
    exact Nat.le_max_right _ _
  have behind : h.locatorStart ≤ w.trailer := by
    cases onDevice : target.isBlock with
    | true =>
        have trailer : w.trailer = w.file.size - 512 := if_pos (isBlock.trans onDevice)
        have tableSize := (assembly.device onDevice).2.1
        have := device onDevice
        omega
    | false =>
        have trailer : w.trailer = w.file.size := if_neg (by rw [isBlock, onDevice]; decide)
        have size : w.file.size = max (max (h.tableFile v.file texts).size 512) 1536 := by
          rw [w_eq]
          rfl
        omega
  apply finished_rooted assembly.last w_eq (fun _ => front) assembly.valid _ (by omega)
  apply File.Holds.putAll _ (by omega)
  rw [table]
  exact File.holds_put (vhdBytesPadded_pos _)

end Assembly

theorem create_dynamic_ok (quiet : Quiet target.faults) (known : diskType? r.type = some type)
    (other : type ≠ .fixed)
    (contents : createContents r (vhdInitializeFooter target type r.size) = (.ok made, u))
    (ends : createEnds r stamp made u = (.ok (), t)) :
    ∃ v texts, Creation r target stamp t v texts made.2 := by
  obtain ⟨h, m, texts, faults, assembly⟩ := create_assembly known other contents ends
  obtain ⟨v, v_eq, last, isBlock, front, deviceSize⟩ := assembly.last_write
  have h_eq := assembly.header
  have t_eq := assembly.last
  have done := assembly.made
  have mapped := assembly.mapped
  have table : h.tableOffset = 1536 := by rw [h_eq]; rfl
  have blocks : h.maxBatSize = r.blocks := by rw [h_eq]; rfl
  have block : h.isBlock = target.isBlock := by rw [h_eq]; rfl
  have noFaults : h.faults = target.faults := by rw [h_eq]; rfl
  have opened : h.file = if target.isBlock = true then target.device else File.empty := by
    rw [h_eq]
    rfl
  have written' : h.batmapBytes = mapBytes r.madeSize := by rw [h_eq]; rfl
  have left := vhdWriteBatmap_ok (s := { h with batmap := some h.freshBatmap }) (noFaults ▸ quiet)
    assembly.has mapped
  have covered : h.batmapBytes ≤ h.freshBatmap.header.batmapSize * 512 :=
    vhdWriteBatmap_covers (s := { h with batmap := some h.freshBatmap }) assembly.has mapped
  have same : t.locatorStart = h.locatorStart ∧ t.freshBatmap = h.freshBatmap := by
    rw [t_eq]
    exact ⟨rfl, rfl⟩
  have sum := done.sum
  have filledOf : (target.isBlock = true → h.locatorStart ≤ target.device.size) →
      h.tableFile m.file texts = h.metadataFile texts := by
    intro room
    have enough : h.HasRoom h.locatorStart := by
      intro onDevice
      rw [opened, if_pos (block.symm.trans onDevice)]
      exact room (block.symm.trans onDevice)
    unfold Handle.tableFile
    rw [left.whole covered enough]
    rfl
  refine ⟨v, texts, done, last, front, isBlock, deviceSize, ?_, ?_, ?_, assembly.names_eq known,
    assembly.nameless_iff known, ?_, ?_⟩
  · intro regular
    have file_eq := filledOf fun onDevice => absurd onDevice (by simp [regular])
    rw [file_eq] at v_eq
    have empty : h.file.size = 0 := by
      rw [opened, if_neg (by simp [regular])]
      rfl
    rw [unfinished_size v_eq table empty covered, sum, same.1, same.2, written']
  · rw [t_eq]
    exact blocks
  · rw [t_eq]
    rfl
  · rw [same.2, ← written']
    exact covered
  · intro behind
    have start : h.locatorStart ≤ v.trailer := by omega
    have room : target.isBlock = true → h.locatorStart ≤ target.device.size := by
      intro onDevice
      have trailer : v.trailer = v.file.size - 512 := if_pos (isBlock.trans onDevice)
      have := deviceSize onDevice
      omega
    have file_eq := filledOf room
    have covers := done.covers
    have fits := done.fits
    rw [file_eq] at v_eq t_eq
    have fits' : t.batmapBytes ≤ h.freshBatmap.header.batmapSize * 512 := by
      have small : t.maxBatSize < 2 ^ 31 := done.small
      rw [← same.2]
      apply Nat.mul_le_mul_right
      unfold vhdBlockShift
      apply secsRoundUpNoZero_mono
      · omega
      · omega
    have found : h.mapFound = r.mapFound target := by
      have place : h.freshBatmap.header.batmapOffset =
          512 + 1024 + vhdBytesPadded (r.blocks * 4) + 512 := by
        have offset : h.freshBatmap.header.batmapOffset =
          h.tableOffset + vhdBytesPadded (h.maxBatSize * 4) + 512 := rfl
        rw [offset, table, blocks]
      funext i
      unfold Handle.mapFound Request.mapFound
      rw [written', block, opened, place]
      split
      · rfl
      · split <;> rfl
    rw [← found]
    apply finished_filled t_eq v_eq table (fun _ => front) assembly.valid covered fits' _ _ start
    · intro onDevice
      rw [opened, if_pos (block.symm.trans onDevice)]
      exact room (block.symm.trans onDevice)
    · intro regular
      rw [opened, if_neg (by rw [← block, regular]; decide)]
      rfl

section Iff
variable {v : Handle} {texts : List (Nat × List UInt8)} {parent : ParentStamp}

theorem Creation.checksum_iff (creation : Creation r target stamp t v texts parent) :
    t.checksumBatmap 0x00010002 (r.mapFound target) = 2 ^ 32 - 1 ↔ r.Blank target := by
  have bytes : t.batmapBytes = mapBytes (r.endSize r.parentSize r.madeSize) := by
    rw [← creation.size]
    rfl
  unfold Vhd.checksumBatmap Request.Blank
  rw [bytes]
  simp only [Nat.reduceEqDiff, false_and, if_false]
  omega

theorem Creation.wellLaid_iff (creation : Creation r target stamp t v texts parent) :
    t.WellLaid ↔ (t.regionSizes texts).sum ≤ v.trailer ∧ r.Blank target := by
  have reach : t.file.size = v.trailer + 512 := by
    rw [creation.last]
    exact Handle.trailed_size fun _ => creation.front
  rw [← creation.checksum_iff]
  constructor
  · intro laid
    have behind : (t.regionSizes texts).sum ≤ v.trailer := by
      have := creation.made.behind laid
      omega
    obtain ⟨ctx, headers, data, laid⟩ := laid
    have opens := (creation.filled behind).opens creation.made
    rw [laid.opens] at opens
    cases opens
    exact ⟨behind, (creation.filled behind).sum_of_endOfHeaders creation.made laid.headersEnd⟩
  · rintro ⟨behind, sum⟩
    exact (creation.filled behind).wellLaid creation.made sum (by omega)

theorem blank_regular (regular : target.isBlock = false) : r.Blank target := by
  have zero : ∀ i, (r.mapFound target i).toNat = 0 := by
    intro i
    unfold Request.mapFound
    rw [regular]
    simp
  unfold Request.Blank
  rw [List.map_congr_left fun i _ => zero i]
  simp

theorem Creation.clear_iff (creation : Creation r target stamp t v texts parent)
    (known : diskType? r.type = some type) (other : type ≠ .fixed) :
    (t.regionSizes texts).sum ≤ v.trailer ∧ r.Blank target ↔ r.Clear target := by
  have small : t.maxBatSize < 2 ^ 31 := creation.made.small
  have front := creation.front
  have sum : (t.regionSizes texts).sum = metadataEnd r.blocks r.locatorSizes := by
    rw [regionSizes_sum small, creation.blocks, creation.names]
  unfold Request.Clear
  rw [if_neg (by rw [known]; simpa using other)]
  cases isBlock : target.isBlock with
  | true =>
      have trailer : v.trailer = v.file.size - 512 := if_pos (creation.isBlock.trans isBlock)
      have size := creation.device isBlock
      rw [if_pos rfl, sum, trailer]
      apply and_congr_left
      intro _
      omega
  | false =>
      have trailer : v.trailer = v.file.size := if_neg (by rw [creation.isBlock, isBlock]; decide)
      have blank : r.Blank target := blank_regular isBlock
      rw [if_neg (by decide), trailer, creation.regular isBlock]
      simp only [blank, and_true]
      by_cases diff : type = .diff
      · have some_ : texts ≠ [] := fun none_ =>
          creation.nameless.mp none_ (known.trans (congrArg some diff))
        rw [if_neg some_, known, diff]
        simp
      · have none_ : texts = [] := creation.nameless.mpr (by rw [known]; simpa using diff)
        have dynamic : type = .dynamic := by
          cases type with
          | fixed => exact absurd rfl other
          | dynamic => rfl
          | diff => exact absurd rfl diff
        have bits : (r.blocks + 7) % 2 ^ 32 = r.blocks + 7 := Nat.mod_eq_of_lt (by
          have := creation.blocks
          omega)
        have made : r.madeSize = r.size := if_neg (by rw [known, dynamic]; simp)
        have whole : r.size / 2 ^ 21 * 2 ^ 21 = r.size := by
          unfold Request.size roundUp vhdBlockShift
          omega
        have mapSize : t.freshBatmap.header.batmapSize = secsRoundUpNoZero ((r.blocks + 7) / 8) := by
          unfold Vhd.freshBatmap
          dsimp only
          rw [creation.blocks, bits]
        have covered := creation.covered
        have table : r.size / 2 ^ 21 ≤ r.blocks := by
          rw [mapSize, made] at covered
          have few : r.blocks < 2 ^ 31 := creation.blocks ▸ small
          have fits : r.size < 2 ^ 64 := roundUp_lt _
          have entries : r.blocks = blocksUp r.size % 2 ^ 32 := by
            unfold Request.blocks
            rw [made]
          rw [entries] at few bits covered ⊢
          apply covers_of_batmap fits few
          rw [bits]
          exact Nat.le_of_mul_le_mul_right covered (by decide)
        have entries : r.blocks = r.size / 2 ^ 21 := by
          unfold Request.blocks at table ⊢
          rw [made] at table ⊢
          unfold blocksUp vhdBlockShift at table ⊢
          have fits : r.size < 2 ^ 64 := roundUp_lt _
          omega
        have used : r.size / 2 ^ (vhdBlockShift + 3) = r.blocks / 8 := by
          unfold vhdBlockShift
          omega
        have total := creation.made.sum
        have start : t.locatorStart = t.freshBatmap.header.batmapOffset +
          t.freshBatmap.header.batmapSize * 512 := rfl
        rw [if_pos none_, total, start, mapSize, made, none_, known, dynamic]
        unfold mapBytes textSizes
        rw [used, List.map_nil, List.sum_nil, Nat.add_zero, Nat.add_le_add_iff_left,
          Nat.mul_le_mul_right_iff (by decide)]
        simp only [true_implies]
        exact wholeMap_iff (by omega)

end Iff

theorem create_dynamic_iff (quiet : Quiet target.faults) (known : diskType? r.type = some type)
    (other : type ≠ .fixed)
    (contents : createContents r (vhdInitializeFooter target type r.size) = (.ok made, u))
    (ends : createEnds r stamp made u = (.ok (), t)) : t.WellLaid ↔ r.Clear target := by
  obtain ⟨v, texts, creation⟩ := create_dynamic_ok quiet known other contents ends
  rw [creation.wellLaid_iff, creation.clear_iff known other]

/-- An image that `__vhd_create` makes is well laid out when the footer at its end is clear of the
metadata, and only then. -/
theorem vhdCreate_wellLaid_iff (quiet : Quiet target.faults)
    (created : vhdCreate (.ok target) stamp r = .ok t) : t.WellLaid ↔ r.Clear target := by
  obtain ⟨type, made, u, known, contents, ends⟩ := vhdCreate_ok created
  cases type with
  | fixed => exact create_fixed_iff known contents ends
  | dynamic => exact create_dynamic_iff quiet known (by decide) contents ends
  | diff => exact create_dynamic_iff quiet known (by decide) contents ends

end Create

def newFile : Target where
  isBlock := false
  device := .empty
  faults := []

def dynamicDisk (bytes : UInt64) : Request where
  nameLength := 10
  parent := none
  bytes := bytes
  type := 3
  mbytes := 0
  raw := false

def someStamp : Stamp where
  time := 7
  uuid := fun _ => 3

theorem wellLaid_new_disk :
    ∃ t, vhdCreate (.ok newFile) someStamp (dynamicDisk 0x200000) = .ok t ∧ t.WellLaid := by
  obtain ⟨t, created⟩ := Outcome.isOk_iff.mp
    (by decide +kernel : (vhdCreate (.ok newFile) someStamp (dynamicDisk 0x200000)).isOk = true)
  refine ⟨t, created, (vhdCreate_wellLaid_iff (by decide) created).mpr ?_⟩
  unfold Request.Clear
  rw [if_neg (by decide), if_neg (by decide)]
  exact fun _ => .inl (by decide +kernel)

theorem footer_in_batmap :
    ∃ t, vhdCreate (.ok newFile) someStamp (dynamicDisk 0x200200000) = .ok t ∧ ¬ t.WellLaid := by
  obtain ⟨t, created⟩ := Outcome.isOk_iff.mp
    (by decide +kernel : (vhdCreate (.ok newFile) someStamp (dynamicDisk 0x200200000)).isOk = true)
  obtain ⟨type, made, u, known, contents, ends⟩ := vhdCreate_ok created
  have dynamic : type = .dynamic := by
    change some DiskType.dynamic = some type at known
    exact (Option.some.inj known).symm
  subst dynamic
  refine ⟨t, created, fun laid => ?_⟩
  have clear := (create_dynamic_iff (by decide) known (by decide) contents ends).mp laid
  unfold Request.Clear at clear
  rw [if_neg (by decide), if_neg (by decide)] at clear
  exact absurd (clear rfl) (by decide +kernel)

end Blktap.Libvhd
