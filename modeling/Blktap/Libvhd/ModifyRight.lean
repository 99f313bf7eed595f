import Blktap.Libvhd.CreateRuns
import Blktap.Libvhd.ModifyRuns

/-! # Killing the data of an image, with writes that fail -/

namespace Blktap.Libvhd
open Lib Action

namespace Modify

section Ends
variable {s t : Handle} {erased cleared sum : Nat}

theorem Stage.spared_iff (stage : Stage s erased cleared sum t.file) (fresh : Fresh s) :
    Spared s t ↔ (s.hasBatmap = true → sumLeft s cleared = sum) ∧
      (∀ nr, Check.FullBit s.toContext nr → nr / 8 < cleared ∨ erased ≤ nr) ∧
      ∀ block, s.allocated block → erased ≤ block →
        (s.entry block + s.bmSecs + s.spb) * 512 + 512 ≤ t.file.size ∧
          ∀ p, s.inExtent block p → t.file.byte p = s.file.byte p := by
  constructor
  · intro spared
    obtain ⟨sums, bits, extents⟩ := (stage.intact_iff fresh).mp spared.intact
    refine ⟨sums, bits, fun block allocated kept => ⟨extents block allocated kept, ?_⟩⟩
    exact (spared.blocks block (stage.allocated_iff.mpr ⟨allocated, kept⟩)).2
  · rintro ⟨sums, bits, blocks⟩
    have intact := (stage.intact_iff fresh).mpr
      ⟨sums, bits, fun block allocated kept => (blocks block allocated kept).1⟩
    refine ⟨⟨intact, stage.names⟩, fun block allocated => ⟨stage.entry_kept allocated, ?_⟩⟩
    have before := stage.allocated_iff.mp allocated
    exact (blocks block before.1 before.2).2

theorem chain_beneath {vhd : Vhd} (dynamic : vhd.typeDynamic = true) (none : ∀ block, ¬ vhd.allocated block)
    (chain : Chain) (top : chain.top = vhd) (sector o : Nat) : chain.byte sector o = chain.beneath sector o := by
  have absent : ¬ vhd.holds sector := fun held => none _ (held.2 dynamic).1
  cases chain with
  | base vhd' =>
      cases top
      exact if_neg absent
  | differRaw vhd' raw =>
      cases top
      exact if_neg absent
  | differ vhd' parent =>
      cases top
      exact if_neg absent

theorem Stage.emptied_iff (stage : Stage s erased cleared sum t.file) (fresh : Fresh s)
    (footer : s.isBlock = false → t.file.size = s.headers + 512) :
    Emptied s t ↔ (s.hasBatmap = true → sumLeft s cleared = sum) ∧
      (∀ nr, Check.FullBit s.toContext nr → nr / 8 < cleared ∨ erased ≤ nr) ∧
      ∀ block, s.allocated block → ¬ erased ≤ block := by
  have laid := fresh.intact.laid
  constructor
  · intro emptied
    obtain ⟨sums, bits, -⟩ := (stage.intact_iff fresh).mp emptied.intact
    exact ⟨sums, bits, fun block allocated kept => emptied.blocks block (stage.allocated_iff.mpr ⟨allocated, kept⟩)⟩
  · rintro ⟨sums, bits, gone⟩
    have intact := (stage.intact_iff fresh).mpr
      ⟨sums, bits, fun block allocated kept => absurd kept (gone block allocated)⟩
    have none : ∀ block, ¬ (reopened s t).allocated block := by
      intro block allocated
      have before := stage.allocated_iff.mp allocated
      exact gone block before.1 before.2
    refine ⟨⟨intact, stage.names⟩, none, fun nr set => none nr (intact.full nr set), ?_, fun regular => ?_⟩
    · intro chain top sector o
      exact chain_beneath intact.laid.dynamic none chain top sector o
    · rw [footer regular]
      exact congrArg (· + 512) (stage.headers laid).symm

end Ends

section Kinds
variable {s t : Handle} {erased cleared sum : Nat} {file : File}

theorem Middle.spared_iff (middle : Middle s erased cleared sum t.file) (fresh : Fresh s) :
    Spared s t ↔ (s.hasBatmap = true → sumLeft s cleared = sum) ∧
      ∀ nr, Check.FullBit s.toContext nr → nr / 8 < cleared ∨ erased ≤ nr := by
  refine (middle.toStage.spared_iff fresh).trans (and_congr_right fun _ => and_iff_left ?_)
  intro block allocated _
  refine ⟨?_, fun p inside => ?_⟩
  · rw [middle.size]
    exact fresh.intact.extents block allocated
  · exact middle.outside p (fresh.intact.laid.extent block allocated p inside)

theorem Middle.footed (middle : Middle s erased cleared sum file) (fresh : Fresh s) (has : s.hasBatmap = true)
    (secs : Nat) : Stage s erased cleared sum (footed s file (min 512 (secs * 512))) := by
  unfold Modify.footed
  rcases Nat.eq_zero_or_pos secs with rfl | some
  · rw [Nat.zero_mul, Nat.min_zero, File.put_nothing middle.past]
    exact middle.toStage
  · rw [Nat.min_eq_left (by omega)]
    exact middle.put_footer fresh has

theorem Middle.copied (middle : Middle s erased cleared sum file) (fresh : Fresh s) (has : s.hasBatmap = true)
    (secs : Nat) : Stage s erased cleared sum (copied s file (min 512 (secs * 512))) := by
  have stage : Stage s erased cleared sum ((Modify.footed s file 512).truncate (s.headers + 512)) := by
    apply (middle.put_footer fresh has).truncate fresh has
    intro o small
    refine (File.put_inside (Nat.le_add_right _ _) (by omega)).trans ?_
    rw [Nat.add_sub_cancel_left]
  unfold Modify.copied
  rcases Nat.eq_zero_or_pos secs with rfl | some
  · rw [Nat.zero_mul, Nat.min_zero, File.put_nothing stage.past]
    exact stage
  · rw [Nat.min_eq_left (by omega)]
    exact stage.put_copy fresh has

theorem Middle.footed_spared_iff (middle : Middle s s.batEntries cleared sum file) (fresh : Fresh s)
    (has : s.hasBatmap = true) (secs : Nat) (same : t.file = Modify.footed s file (min 512 (secs * 512))) :
    Spared s t ↔ sumLeft s cleared = sum ∧
      (∀ nr, Check.FullBit s.toContext nr → nr / 8 < cleared ∨ s.batEntries ≤ nr) ∧
      (secs = 0 ∨ SectorFree s) := by
  have stage := middle.footed fresh has secs
  rw [← same] at stage
  rw [stage.spared_iff fresh, forall_prop_of_true has]
  refine and_congr_right fun _ => and_congr_right fun _ => ?_
  have room := middle.room
  have size : t.file.size = s.file.size := by
    rw [same]
    exact (File.put_size_within (by omega)).trans middle.size
  constructor
  · intro kept
    refine or_iff_not_imp_left.mpr fun some block left o small inside => ?_
    rw [← (kept block left.1 left.2).2 _ inside, same]
    refine (File.put_inside (Nat.le_add_right _ _) (by omega)).trans ?_
    rw [Nat.add_sub_cancel_left]
  · intro free block allocated kept
    refine ⟨?_, fun p inside => ?_⟩
    · rw [size]
      exact fresh.intact.extents block allocated
    · rw [same]
      by_cases here : s.headers ≤ p ∧ p < s.headers + min 512 (secs * 512)
      · -- the footer lands on a block that is left, and has the bytes of its sector
        have sector := free.resolve_left (by omega) block ⟨allocated, kept⟩ (p - s.headers) (by omega)
        rw [show s.headers + (p - s.headers) = p by omega] at sector
        exact (File.put_inside here.1 here.2).trans (sector inside).symm
      · refine (File.put_outside middle.past here).trans ?_
        exact middle.outside p (fresh.intact.laid.extent block allocated p inside)

theorem copied_size {secs : Nat} : (Modify.copied s file (min 512 (secs * 512))).size = s.headers + 512 := by
  unfold Modify.copied
  refine File.put_size_within ?_
  change 0 + min 512 (secs * 512) ≤ s.headers + 512
  rw [Nat.zero_add]
  exact (Nat.min_le_left _ _).trans (Nat.le_add_left _ _)

theorem Middle.copied_spared_iff (middle : Middle s s.batEntries cleared sum file) (fresh : Fresh s)
    (has : s.hasBatmap = true) (secs : Nat) (same : t.file = Modify.copied s file (min 512 (secs * 512))) :
    Spared s t ↔ sumLeft s cleared = sum ∧
      (∀ nr, Check.FullBit s.toContext nr → nr / 8 < cleared ∨ s.batEntries ≤ nr) ∧
      ∀ block, Leftover s block → (s.entry block + s.bmSecs + s.spb) * 512 ≤ s.headers := by
  have stage := middle.copied fresh has secs
  rw [← same] at stage
  rw [stage.spared_iff fresh, forall_prop_of_true has]
  refine and_congr_right fun _ => and_congr_right fun _ => ?_
  have large := fresh.headers_large
  have footed := middle.put_footer fresh has
  have size : t.file.size = s.headers + 512 := by
    rw [same]
    exact copied_size
  constructor
  · intro kept block left
    have fits := (kept block left.1 left.2).1
    rw [size] at fits
    exact Nat.le_of_add_le_add_right fits
  · intro before block allocated kept
    -- the file ends behind the footer now, and what is left has to end in front of it
    have fits := before block ⟨allocated, kept⟩
    refine ⟨size ▸ Nat.add_le_add_right fits 512, fun p inside => ?_⟩
    have apart := fresh.intact.laid.extent block allocated p inside
    have high := inside.2
    have front : ¬ p < 512 := fun early => apart (.inl early)
    rw [same]
    refine (File.put_outside (File.truncate_past _ _) (by omega)).trans ?_
    refine (File.truncate_byte footed.past (by omega)).trans ?_
    exact (File.put_outside middle.past (by omega)).trans (middle.outside p apart)

end Kinds

section Right
variable {s t : Handle} {cleared sum : Nat} {file : File} {isBlock : Bool} {faults : List (Option Fault)}

theorem openImage_fresh (opened : openImage file isBlock faults = .ok s) (intact : Intact s.toContext) : Fresh s := by
  obtain ⟨ctx, opens, opened⟩ := Outcome.bind_eq_ok.mp opened
  obtain ⟨footer, read, opened⟩ := Outcome.bind_eq_ok.mp opened
  cases opened
  obtain ⟨_, header, _, _, _, same⟩ := vhdOpen_parts opens intact.laid.dynamic
  have here : ctx.file = file := by
    rw [same]
    rfl
  have room := intact.room
  have last := readFooter_valid intact.last (by omega)
  change readFooter ctx.file = .ok ctx.file.last at last
  rw [here, read] at last
  refine ⟨intact, rfl, rfl, ?_⟩
  change footer = ctx.file.last
  rw [here]
  exact Outcome.ok.inj last

theorem Fresh.wp_writeBat (fresh : Fresh s) {post : Unit → Handle → Prop} {stop : Int → Handle → Prop} :
    wp vhdWriteBat post stop (along s 0 s.file (some s.toVhd.table.erased) (memory s)) ↔
      match fault s 0 with
      | some fault => stop fault.code (along s 1 (s.file.put s.tableOffset
          (min (vhdBytesPadded (s.batEntries * 4)) (fault.secs * 512)) s.toVhd.table.erased.bytes)
            (some s.toVhd.table.erased) (memory s))
      | none => post () (along s 1 (s.file.put s.tableOffset (vhdBytesPadded (s.batEntries * 4))
          s.toVhd.table.erased.bytes) (some s.toVhd.table.erased) (memory s)) := by
  have loaded := fresh.intact.laid.loaded_le
  have behind := fresh.headers_behind
  have room := fresh.intact.room
  have start : s.tableOffset + vhdBytesPadded (s.maxBatSize * 4) = s.batmapHeaderOffset := rfl
  unfold vhdWriteBat
  rw [wp_bind, wp_get, wp_bind]
  refine wp_vhdWrite_along fun _ => ?_
  change s.tableOffset + vhdBytesPadded (s.batEntries * 4) ≤ s.file.size
  omega

theorem Fresh.right_iff (fresh : Fresh s) :
    Right s ↔ wp vhdWriteBat
      (fun _ t => wp clearBatmap
        (fun _ t => wp (when (t.isBlock = false) vhdWriteFooter) (fun _ t => ¬ Failed s t ∧ Emptied s t)
          (fun _ t => Spared s t) t)
        (fun _ t => Spared s t) t)
      (fun _ t => Spared s t) (along s 0 s.file (some s.toVhd.table.erased) (memory s)) := by
  have dynamic : ¬ (!s.typeDynamic) = true := by simp [show s.typeDynamic = true from fresh.intact.laid.dynamic]
  unfold Right vhdUtilModify
  rw [wp_bind, wp_get, if_neg dynamic, wp_bind]
  exact fresh.wp_zeroBat

theorem Fresh.sumLeft_zero (fresh : Fresh s) (has : s.hasBatmap = true) :
    sumLeft s 0 = s.batmapHeader.checksum := by
  rw [← (fresh.intact.map has).sum]
  exact checksum_congr fun i _ => if_neg (Nat.not_lt_zero i)

theorem mapWorks_iff (works : fault s 0 = none) (bat : Option Bat) (batmap : Option Batmap) :
    ¬ Failed s (along s (mapWrites s) file bat batmap) ↔ MapWorks s := by
  rw [along_failed]
  unfold MapWorks mapWrites
  constructor
  · intro none
    have first : fault s 1 = .none := by
      by_contra fails
      exact none ⟨1, by rw [if_neg fails]; decide, fails⟩
    refine ⟨first, ?_⟩
    by_contra fails
    exact none ⟨2, by rw [if_pos first]; decide, fails⟩
  · rintro ⟨first, second⟩ ⟨i, small, fails⟩
    rw [if_pos first] at small
    match i with
    | 0 => exact fails works
    | 1 => exact fails first
    | 2 => exact fails second

theorem footersWork_iff (works : fault s 0 = none) (footers : ∀ i < 3, footerFault s i = none) (bat : Option Bat)
    (batmap : Option Batmap) :
    ¬ Failed s (along s (mapWrites s + 3) file bat batmap) ↔ MapWorks s := by
  rw [← @mapWorks_iff s file works bat batmap, along_failed, along_failed]
  refine not_congr ⟨fun ⟨i, small, fails⟩ => ⟨i, ?_, fails⟩, fun ⟨i, small, fails⟩ => ⟨i, by omega, fails⟩⟩
  by_contra late
  have footer := footers (i - mapWrites s) (by omega)
  unfold footerFault at footer
  rw [show (if fault s 1 = none then 3 else 2) + (i - mapWrites s) = i by
    change mapWrites s + (i - mapWrites s) = i
    omega] at footer
  exact fails footer

theorem Stage.killed_iff (stage : Stage s s.batEntries cleared sum t.file) (fresh : Fresh s) (has : s.hasBatmap = true)
    (works : ¬ Failed s t ↔ MapWorks s) (footer : s.isBlock = false → t.file.size = s.headers + 512) :
    (¬ Failed s t ∧ Emptied s t) ↔ sumLeft s cleared = sum ∧
      (∀ nr, Check.FullBit s.toContext nr → nr / 8 < cleared ∨ s.batEntries ≤ nr) ∧
      MapWorks s ∧ ∀ block, ¬ Leftover s block := by
  rw [works, stage.emptied_iff fresh footer, forall_prop_of_true has]
  constructor
  · rintro ⟨map, sums, bits, gone⟩
    exact ⟨sums, bits, map, fun block left => gone block left.1 left.2⟩
  · rintro ⟨sums, bits, map, none⟩
    exact ⟨map, sums, bits, fun block allocated kept => none block ⟨allocated, kept⟩⟩

theorem Middle.end_iff (middle : Middle s s.batEntries cleared sum file) (fresh : Fresh s) (has : s.hasBatmap = true)
    (works : fault s 0 = none) :
    wp (when (s.isBlock = false) vhdWriteFooter) (fun _ t => ¬ Failed s t ∧ Emptied s t) (fun _ t => Spared s t)
        (along s (mapWrites s) file (some s.toVhd.table.erased) (some (clearedMap s))) ↔
      sumLeft s cleared = sum ∧
        (∀ nr, Check.FullBit s.toContext nr → nr / 8 < cleared ∨ s.batEntries ≤ nr) ∧
        (FootersFail s → FootersSpare s) ∧
        (¬ FootersFail s → MapWorks s ∧ ∀ block, ¬ Leftover s block) := by
  cases regular : s.isBlock with
  | true =>
      have fine : ¬ FootersFail s := fun fails => absurd fails.1 (by simp [regular])
      refine (middle.toStage.killed_iff fresh has (mapWorks_iff works _ _) (by simp [regular])).trans ?_
      simp [fine]
  | false =>
      obtain ⟨batmap, run⟩ := middle.toStage.wp_writeFooter (n := mapWrites s) fresh has regular
      refine (run _ _).trans ?_
      split
      · have fails : ∀ i < 3, footerFault s i ≠ none → FootersFail s := fun i small some => ⟨regular, i, small, some⟩
        rw [show fault s (mapWrites s) = footerFault s 0 from rfl,
          show fault s (mapWrites s + 1) = footerFault s 1 from rfl,
          show fault s (mapWrites s + 2) = footerFault s 2 from rfl]
        unfold FootersSpare
        -- the footer behind the metadata, the cut of the file, and the copy of the footer
        cases first : footerFault s 0 with
        | some fault0 =>
            refine (middle.footed_spared_iff fresh has fault0.secs rfl).trans ?_
            simp [fails 0 (by decide) (by simp [first])]
        | none =>
            cases second : footerFault s 1 with
            | some fault1 =>
                refine (middle.footed_spared_iff fresh has 1 rfl).trans ?_
                simp [fails 1 (by decide) (by simp [second])]
            | none =>
                cases third : footerFault s 2 with
                | some fault2 =>
                    refine (middle.copied_spared_iff fresh has fault2.secs rfl).trans ?_
                    simp [fails 2 (by decide) (by simp [third])]
                | none =>
                    have fine : ∀ i < 3, footerFault s i = none := by
                      intro i small
                      match i with
                      | 0 => exact first
                      | 1 => exact second
                      | 2 => exact third
                    have succeeds : ¬ FootersFail s := fun ⟨_, i, small, fails⟩ => fails (fine i small)
                    have stage := middle.copied fresh has 1
                    refine (stage.killed_iff (t := along s _ _ _ _) fresh has (footersWork_iff works fine _ _)
                      fun _ => copied_size).trans ?_
                    simp [succeeds]
      · rename_i differs
        -- the end of the headers is found by reading the map again, whose sum is not the one on disk
        refine iff_of_false (fun spared => ?_) fun rest => differs (.inr rest.1)
        exact differs (.inr (((middle.toStage.spared_iff fresh).mp spared).1 has))

theorem Fresh.loaded_whole (fresh : Fresh s) :
    s.batEntries ≤ vhdBytesPadded (s.batEntries * 4) / 4 ∧ 4 ∣ vhdBytesPadded (s.batEntries * 4) := by
  have covers := fresh.intact.laid.covers
  have small := fresh.intact.laid.batSize
  unfold vhdBytesPadded secsRoundUpNoZero secsRoundUp
  split <;> omega

theorem Fresh.tableFails_iff (fresh : Fresh s) (secs : Nat)
    (same : t.file = s.file.put s.tableOffset (min (vhdBytesPadded (s.batEntries * 4)) (secs * 512))
      s.toVhd.table.erased.bytes) :
    Spared s t ↔ ∀ nr, Check.FullBit s.toContext nr → nr < s.batEntries → secs * 128 ≤ nr := by
  have loaded := fresh.loaded_whole
  have middle := fresh.table (n := min (vhdBytesPadded (s.batEntries * 4)) (secs * 512)) (Nat.min_le_left _ _)
    (by omega)
  rw [← same] at middle
  rw [middle.spared_iff fresh, and_iff_right fun has => fresh.sumLeft_zero has]
  refine forall_congr' fun nr => imp_congr_right fun _ => ?_
  omega

theorem vhdUtilModify_right_iff (opened : openImage file isBlock faults = .ok s) (intact : Intact s.toContext) :
    Right s ↔ Condition s := by
  have fresh := openImage_fresh opened intact
  rw [fresh.right_iff, fresh.wp_writeBat]
  unfold Condition
  cases first : fault s 0 with
  | some fault0 => exact fresh.tableFails_iff fault0.secs rfl
  | none =>
      have loaded := fresh.loaded_whole
      have middle := fresh.table (n := vhdBytesPadded (s.batEntries * 4)) (Nat.le_refl _) loaded.2
      rw [Nat.min_eq_left loaded.1] at middle
      dsimp only
      rw [fresh.wp_clearBatmap]
      constructor
      · rintro ⟨⟨has, fits⟩, run⟩
        obtain ⟨file', sum, middle', sums, writes⟩ := middle.writeBatmap fresh has fits
        obtain ⟨sum, bits, fails, succeeds⟩ := (middle'.end_iff fresh has first).mp ((writes _ _ _).mp run)
        exact ⟨has, fits, sums.mp sum, bits, fails, succeeds⟩
      · rintro ⟨has, fits, sum, bits, fails, succeeds⟩
        obtain ⟨file', sum', middle', sums, writes⟩ := middle.writeBatmap fresh has fits
        refine ⟨⟨has, fits⟩, (writes _ _ _).mpr ?_⟩
        exact (middle'.end_iff fresh has first).mpr ⟨sums.mpr sum, bits, fails, succeeds⟩

end Right

section Sample

def blankFields : Context where
  file := .empty
  type := .dynamic
  currSize := 2 ^ 21
  tableOffset := 1536
  maxBatSize := 1
  blockSize := 2 ^ 21
  oldBitmap := false
  tapdisk := true
  crtrVer := 0x00010003
  dataOffset := 512
  loc := List.replicate 8 .unused
  oldBitmap_eq := rfl

def blankFooter : Nat → UInt8 := sealFooter (footerOut blankFields someStamp blankFields.currSize)

def blankFile : File where
  size := 3584
  byte := fun p =>
    if p < 512 then blankFooter p
    else if p < 1536 then sealHeader (Libvhd.headerOut blankFields .none) (p - 512)
    else if p < 1540 then 255
    else if 2048 ≤ p ∧ p < 2560 then { blankFields.freshBatmap.header with checksum := 2 ^ 32 - 1 }.bytes (p - 2048)
    else if 3072 ≤ p ∧ p < 3584 then blankFooter (p - 3072)
    else 0

def blank : Handle where
  toContext := blankFields.withFile blankFile
  isBlock := false
  sparse := false
  spp := 1
  spp_pos := Nat.one_pos
  footer := blankFile.last
  bat := none
  batmap := some blankFields.freshBatmap
  faults := []

theorem blank_made : blank.Made [] :=
  ⟨rfl, rfl, rfl, rfl, rfl, rfl, by decide, by decide, by decide, rfl, .inl rfl, nofun, rfl⟩

theorem blank_last : ∀ o < 512, blankFile.last o = blankFooter o := by
  intro o small
  change blankFile.byte (3072 + o) = _
  unfold blankFile
  dsimp only
  rw [if_neg (by omega), if_neg (by omega), if_neg (by omega), if_neg (by omega), if_pos (by omega)]
  exact congrArg blankFooter (Nat.add_sub_cancel_left 3072 o)

theorem blank_filled : blank.Filled someStamp .none fun _ => 0 := by
  refine ⟨by decide, ⟨by decide, blank_last⟩, ⟨by decide, fun i small => ?_⟩, by decide +kernel, ⟨by decide, ?_⟩,
    ⟨by decide, ?_⟩, ⟨by decide, ?_⟩, by decide⟩
  · change blankFile.byte (512 + i) = _
    unfold blankFile
    dsimp only
    rw [if_neg (by omega), if_pos (by omega), Nat.add_sub_cancel_left]
    rfl
  · decide +kernel
  · decide +kernel
  · decide +kernel

theorem blank_unallocated (block : Nat) : ¬ blank.allocated block := by
  rintro ⟨bound, used⟩
  have first : block = 0 := Nat.lt_one_iff.mp bound
  subst first
  exact used (by decide +kernel)

theorem blank_map {p : Nat} (inside : 2560 ≤ p ∧ p < 3072) : blankFile.byte p = 0 := by
  unfold blankFile
  dsimp only
  rw [if_neg (by omega), if_neg (by omega), if_neg (by omega), if_neg (by omega), if_neg (by omega)]

theorem blank_batmapHeader : blank.batmapHeader.batmapOffset = 2560 ∧ blank.batmapHeader.batmapSize = 1 := by
  decide +kernel

theorem blank_full (nr : Nat) : ¬ Check.FullBit blank.toContext nr := by
  rintro ⟨_, header, read, small, bit⟩
  rw [vhdReadBatmapHeader_ok (by decide)] at read
  cases read
  change nr < blank.batmapHeader.batmapSize * 2 ^ 12 at small
  change testBit (fun p => blankFile.byte (blank.batmapHeader.batmapOffset + p)) nr = true at bit
  rw [blank_batmapHeader.2] at small
  unfold testBit at bit
  dsimp only at bit
  rw [blank_batmapHeader.1, blank_map (by omega)] at bit
  simp at bit

theorem blank_laid : blank.Laid where
  dynamic := rfl
  blockSize := ⟨21, by decide, by decide, rfl⟩
  tableBytes := by decide
  batSize := by decide
  covers := by decide
  aligned := by decide
  front := by decide
  past := by
    intro p late
    change 3584 ≤ p at late
    unfold blank blankFile Context.withFile
    dsimp only
    rw [if_neg (by omega), if_neg (by omega), if_neg (by omega), if_neg (by omega), if_neg (by omega)]
  table := by decide
  marker := fun _ => by decide
  extent := fun block allocated => absurd allocated (blank_unallocated block)
  disjoint := fun block _ allocated => absurd allocated (blank_unallocated block)
  map := by
    intro _
    obtain ⟨offset, size⟩ := blank_batmapHeader
    unfold Context.inBatmap
    rw [offset, size]
    refine ⟨by decide, by decide, fun p inside => ⟨by omega, ?_, ?_⟩⟩
    · intro table
      have : p < 2048 := table.2
      omega
    · intro header
      have : p < 2560 := header.2
      omega

theorem blank_intact : Intact blank.toContext := by
  have headers : blank.headers = 3072 := by decide +kernel
  refine ⟨blank_filled.opens blank_made, ?_, ?_, blank_laid, fun _ => ⟨?_, ?_, ?_, ?_, ?_⟩, ?_, ?_, ?_, ?_, ?_, ?_, ?_⟩
  · exact (validFooter_congr blank_last).trans (sealFooter_valid (.inl footerOut_cookie))
  · exact (validFooter_congr fun o small => if_pos small).trans (sealFooter_valid (.inl footerOut_cookie))
  · decide
  · decide +kernel
  · decide +kernel
  · decide +kernel
  · decide +kernel
  · decide
  · rw [headers]
    decide
  · rw [headers]
    decide
  · intro p inside
    have header : 512 ≤ p ∧ p < 1536 := by
      rcases inside with header | ⟨loc, member, used, _⟩
      · exact header
      · exact absurd (congrArg Locator.code (List.eq_of_mem_replicate member)) used
    obtain ⟨offset, size⟩ := blank_batmapHeader
    rintro (front | table | ⟨_, mapHeader⟩ | ⟨_, map⟩)
    · omega
    · have : 1536 ≤ p := table.1
      omega
    · have : 2048 ≤ p := mapHeader.1
      omega
    · have := map.1
      omega
  · exact fun block allocated => absurd allocated (blank_unallocated block)
  · exact fun block allocated => absurd allocated (blank_unallocated block)
  · exact fun nr full => absurd full (blank_full nr)

def blankOpen : Handle := { blank with batmap := none }

theorem blankOpen_opened : openImage blankFile false [] = .ok blankOpen := by
  have opens : vhdOpen blankFile = .ok blank.toContext := blank_intact.opens
  have read : readFooter blankFile = .ok blankFile.last := readFooter_valid blank_intact.last (by decide)
  unfold openImage
  rw [opens, Outcome.ok_bind, read, Outcome.ok_bind]
  simp only [blankOpen, blank]

theorem blankOpen_right : Right blankOpen := by
  have works : ∀ i, fault blankOpen i = none := by
    intro i
    unfold fault
    rw [show blankOpen.faults = [] from rfl, List.drop_nil]
    rfl
  have intact : Intact blankOpen.toContext := blank_intact
  rw [vhdUtilModify_right_iff blankOpen_opened intact]
  unfold Condition
  rw [works]
  refine ⟨?_, ?_, .inl ⟨works 1, fun fault' fails => ?_⟩, fun nr full => ?_, fun fails => ?_, fun _ => ?_⟩
  · exact blank_made.hasBatmap
  · decide
  · rw [works] at fails
    cases fails
  · exact absurd full (blank_full nr)
  · obtain ⟨_, i, _, fails⟩ := fails
    exact absurd (works _) fails
  · exact ⟨⟨works 1, works 2⟩, fun block left => blank_unallocated block left.1⟩

end Sample

end Modify

end Blktap.Libvhd
