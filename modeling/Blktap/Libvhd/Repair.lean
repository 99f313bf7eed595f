import Blktap.Libvhd.ModifyRight
import Blktap.Libvhd.WriteFails

/-!
# Repairing an image (`vhd-util-repair.c`)

A write that fails may leave a regular file without a footer at its end. `vhd-util repair` opens the image by the
copy of the footer and writes both again.
-/

namespace Blktap.Libvhd.Repair
open Lib Action Modify

def vhdUtilRepair : Action Handle Unit := vhdWriteFooter

def repair (file : File) (faults : List (Option Fault)) : Outcome Unit × File :=
  match openImage file false faults with
  | .ok s => ((vhdUtilRepair s).1, (vhdUtilRepair s).2.file)
  | .error code => (.error code, file)
  | .undefined => (.undefined, file)

def onFile (s : Handle) (file : File) : Handle :=
  { s with oldBitmap_eq := s.bitmap_eq, file, bat := none, batmap := none, faults := [] }

/-- What a write that has stopped anywhere, and then repairs that have, make of the file. -/
structure Damaged (s : Handle) (sec secs : Nat) (file : File) : Prop where
  trails : s.Trails (s.blocksOf sec secs) (onFile s file)
  disk : (onFile s file).SoundDisk
  room : (onFile s file).Room
  spares : s.toVhd.Spares (onFile s file).toVhd (inRange sec secs)

structure Mended (s : Handle) (file : File) : Prop where
  valid : (onFile s file).Valid
  footed : (onFile s file).Footed

structure Ends (s : Handle) (file : File) (faults : List (Option Fault)) : Prop where
  opens : ∃ t, openImage file false faults = .ok t
  defined : (repair file faults).1 ≠ .undefined
  mends : (repair file faults).1 = .ok () → Mended s (repair file faults).2
  works : faults = [] → ((onFile s file).hasBatmap = true → (onFile s file).MapReadable) →
    (repair file faults).1 = .ok ()

section Headers
variable {s t : Handle}

theorem foldl_max_mono {α : Type} (list : List α) (skip : α → Prop) [DecidablePred skip] (last : α → Nat)
    {start start' : Nat} (less : start ≤ start') :
    list.foldl (fun n i => if skip i then n else max n (last i)) start ≤
      list.foldl (fun n i => if skip i then n else max n (last i)) start' := by
  induction list generalizing start start' with
  | nil => exact less
  | cons i rest ih =>
      refine ih ?_
      dsimp only
      split
      · exact less
      · omega

theorem headersEnd_le {ctx : Context} {batmap batmap' : Option BatmapHeader}
    (less : ∀ header, batmap = some header → ∃ header', batmap' = some header' ∧
      header.batmapOffset + header.batmapSize * 512 ≤ header'.batmapOffset + header'.batmapSize * 512) :
    ctx.headersEnd batmap ≤ ctx.headersEnd batmap' := by
  unfold Context.headersEnd
  refine foldl_max_mono _ (fun loc : Locator => loc.code = 0) _ ?_
  cases batmap with
  | none => cases batmap' <;> dsimp only <;> omega
  | some header =>
      obtain ⟨header', rfl, further⟩ := less header rfl
      dsimp only
      omega

theorem headers_le (fields : s.SameFields t) (areas : ∀ p, t.inMetadata p ↔ s.inMetadata p)
    (laid : s.toContext.Laid) : s.headers ≤ t.headers := by
  have same : ∀ batmap, t.headersEnd batmap = s.headersEnd batmap := by
    intro batmap
    rw [fields]
    rfl
  unfold Context.headers
  rw [same]
  apply headersEnd_le
  intro header found
  split at found
  · rename_i has
    cases found
    obtain ⟨_, size, apart⟩ := laid.map has
    have positive : 512 ≤ s.batmapBytes := by
      unfold Vhd.batmapBytes secsRoundUpNoZero
      split <;> omega
    -- metadata lie at the same places in both, so the last byte of the map has to be one in `t` too
    have last : s.inBatmap (s.batmapHeader.batmapOffset + s.batmapHeader.batmapSize * 512 - 1) :=
      ⟨by omega, by omega⟩
    obtain ⟨behind, outside, outside'⟩ := apart _ last
    have table : ∀ p, t.inTableArea p ↔ s.inTableArea p := fun p => by rw [fields]; rfl
    have marker : ∀ p, t.inBatmapHeader p ↔ s.inBatmapHeader p := fun p => by rw [fields]; rfl
    rcases (areas _).mpr (.inr (.inr (.inr ⟨has, last⟩))) with front | inside | ⟨_, inside⟩ | ⟨has', inside⟩
    · omega
    · exact absurd ((table _).mp inside) outside
    · exact absurd ((marker _).mp inside) outside'
    · rw [if_pos has']
      have := inside.2
      exact ⟨_, rfl, by omega⟩
  · cases found

end Headers

section Damaged
variable {s t : Handle} {below : Below} {sec secs block : Nat} {file : File}

theorem extent_le (bat : s.bat = none) (loaded : block < s.batEntries) (used : s.entry block ≠ ddBlkUnused) :
    s.entry block + s.bmSecs + s.spb ≤ s.dataEnd := by
  have inUse : s.tableInUse = s.toVhd.table := by
    unfold Handle.tableInUse
    rw [bat]
    rfl
  have ends := (endOfExtents_le.mp (Nat.le_refl s.dataEnd)).2 block
  rw [inUse, table_entry loaded] at ends
  have := ends loaded used
  omega

theorem soundDisk_of (disk : t.SoundDisk) (context : s.toContext = t.toContext) (batmap : s.batmap = none) :
    s.SoundDisk := by
  refine ⟨?_, ?_, fun map loaded => ?_⟩
  · rw [context]
    exact disk.laid
  · rw [context]
    exact disk.disk
  · rw [batmap] at loaded
    cases loaded

theorem damaged_of (laid : s.toContext.Laid) (bat : s.bat = none) (room : s.Room)
    (loaded : ∀ block ∈ s.blocksOf sec secs, block < s.batEntries)
    (trails : s.Trails (s.blocksOf sec secs) t) (disk : t.SoundDisk)
    (spares : s.toVhd.Spares t.toVhd (inRange sec secs)) : Damaged s sec secs t.file := by
  obtain ⟨file, same⟩ : ∃ file, t.file = file := ⟨_, rfl⟩
  have context : (onFile s file).toContext = t.toContext := by
    rw [trails.fields, ← same]
    rfl
  rw [same]
  obtain ⟨fields, -, size, device, whole, tail, areas, outside, kept, fresh⟩ := trails
  rw [← context] at size device whole tail areas outside kept fresh
  have fields' : s.SameFields (onFile s file) := rfl
  have ends : s.dataEnd ≤ (onFile s file).dataEnd := by
    refine endOfExtents_le.mpr ⟨?_, fun i bound used => ?_⟩
    · exact (Nat.div_le_div_right (headers_le fields' areas laid)).trans (Handle.headers_le _)
    · have inUse : s.tableInUse = s.toVhd.table := by
        unfold Handle.tableInUse
        rw [bat]
        rfl
      rw [inUse] at bound used ⊢
      have bound : i < s.batEntries := bound
      rw [table_entry bound] at used ⊢
      have entry := kept i ⟨bound.trans_le laid.covers, used⟩
      have last := @extent_le (onFile s file) i rfl bound (by rw [entry]; exact used)
      rw [entry] at last
      rw [Nat.add_right_comm]
      exact last
  refine ⟨⟨fields', ends, size, device, whole, tail, areas, outside, kept, fresh⟩, soundDisk_of disk context rfl,
    ⟨fun block allocated => ?_, fun looks => ?_⟩, ?_⟩
  · by_cases inTable : block < s.batEntries
    · exact extent_le rfl inTable allocated.2
    · have before : s.allocated block := by
        by_contra absent
        exact inTable (loaded block (fresh block allocated absent).1)
      rw [kept block before]
      exact (room.extents block before).trans ends
  · exact (room.marker looks).trans (Nat.mul_le_mul_right 512 ends)
  · rw [context]
    exact spares

theorem readFooter_last (footed : s.Footed) : readFooter s.file = .ok s.file.last := by
  refine readFooter_valid ?_ ((Nat.le_add_left _ _).trans footed.behind)
  rw [validFooter_congr footed.last]
  exact sealFooter_valid footed.cookie

theorem Damaged.opens (damaged : Damaged s sec secs file) {faults₀ : List (Option Fault)}
    (opened : openImage s.file false faults₀ = .ok s) (laid : s.toContext.Laid) (footed : s.Footed)
    (header : ∀ p, s.dataOffset ≤ p → p < s.dataOffset + 1024 → s.Outside p) (faults : List (Option Fault)) :
    ∃ footer, (∀ o < 512, footer o = sealFooter s.footer o) ∧
      openImage file false faults = .ok { onFile s file with footer, faults } := by
  obtain ⟨footer, read, own⟩ : ∃ footer, readFooter file = .ok footer ∧ ∀ o < 512, footer o = sealFooter s.footer o :=
    damaged.trails.finds_footer footed laid
  have read₀ := readFooter_last footed
  have size := damaged.trails.size
  have inside : s.dataOffset + 1024 ≤ file.size := by
    have before := (header (s.dataOffset + 1023) (by omega) (by omega)).1
    change s.dataEnd * 512 + 512 ≤ file.size at size
    omega
  unfold openImage at opened
  obtain ⟨ctx, opens, opened⟩ := Outcome.bind_eq_ok.mp opened
  rw [read₀, Outcome.ok_bind] at opened
  have same := Outcome.ok.inj opened
  have context : ctx = s.toContext := congrArg (fun s => s.toContext) same
  have isBlock : s.isBlock = false := congrArg (fun s => s.isBlock) same.symm
  have sparse : s.sparse = false := congrArg (fun s => s.sparse) same.symm
  have spp : s.spp = 1 := congrArg (fun s => s.spp) same.symm
  rw [context] at opens
  have opens' := vhdOpen_kept opens laid.dynamic read₀ read
    (fun o small _ => (own o small).trans (footed.last o small).symm)
    (fun p low high => damaged.trails.outside p (header p low high)) inside
  refine ⟨footer, own, ?_⟩
  unfold openImage
  rw [opens', Outcome.ok_bind, read, Outcome.ok_bind]
  simp only [onFile, Context.withFile, isBlock, sparse, spp]

end Damaged

section Footer
variable {s t : Handle} {sec secs : Nat} {file : File} {blocks : List Nat} {footer : Nat → UInt8}

theorem seal_again {first : Nat → UInt8} (own : ∀ o < 512, footer o = sealFooter first o) :
    ∀ o < 512, sealFooter footer o = sealFooter first o := by
  have same : checksumFooter footer = checksumFooter first :=
    checksumFooter_congr fun o small apart => (own o small).trans (if_neg apart)
  intro o small
  unfold sealFooter
  rw [same, own o small]
  unfold sealFooter
  split <;> rfl

theorem Handle.Trails.refooted (trails : s.Trails blocks t)
    (own : ∀ o < 512, sealFooter footer o = sealFooter s.footer o) :
    Handle.Trails blocks { s with footer } { t with footer } := by
  obtain ⟨fields, ends, size, device, whole, tail, areas, outside, kept, fresh⟩ := trails
  refine ⟨?_, ends, size, device, whole, fun misleads => tail ?_, areas, outside, kept, fresh⟩
  · unfold Handle.SameFields at *
    rw [fields]
  · refine misleads.imp (And.imp_right fun other same => other fun o small => ?_) id
    rw [same o small, ← own o small]

theorem footed_refooted (footed : s.Footed) (own : ∀ o < 512, footer o = sealFooter s.footer o) :
    Handle.Footed { s with footer } := by
  have again := seal_again own
  have cookie : cookieIn footer = cookieIn s.footer := by
    unfold cookieIn
    apply List.map_congr_left
    intro o member
    have := List.mem_range.mp member
    exact (own o (by omega)).trans (sealFooter_front (by omega))
  refine ⟨?_, footed.whole, fun o small => ?_, fun o small => ?_, footed.behind⟩
  · rw [cookie]
    exact footed.cookie
  · exact (footed.copy o small).trans (again o small).symm
  · exact (footed.last o small).trans (again o small).symm

theorem wp_footerAt (off : Nat) :
    wp (vhdWriteFooterAt off)
      (fun _ u => t.SameFields u ∧ u.file = t.file.put off 512 (sealFooter t.footer)) (fun _ _ => True) t := by
  unfold vhdWriteFooterAt
  simp only [wp_bind, wp_get, wp_ite, wp_fail]
  refine ⟨fun _ => trivial, fun _ => wp_vhdWrite (fun faults _ => ⟨rfl, rfl⟩) fun _ _ _ _ _ => trivial⟩

theorem wp_truncate (size : Nat) :
    wp (vhdTruncate size) (fun _ u => t.SameFields u ∧ u.file = t.file.truncate size) (fun _ _ => True) t :=
  wp_vhdTruncate (fun _ => ⟨rfl, rfl⟩) fun _ _ => trivial

theorem wp_vhdWriteFooter_footed (disk : t.SoundDisk) (room : t.Room) (regular : t.isBlock = false) :
    wp vhdWriteFooter
      (fun _ u => u.file.size = t.dataEnd * 512 + 512 ∧ ∀ o < 512, u.file.byte o = sealFooter t.footer o ∧
        u.file.byte (t.dataEnd * 512 + o) = sealFooter t.footer o) (fun _ _ => True) t := by
  have front := (disk.laid.front.trans (Nat.le_add_right _ _)).trans (Handle.table_le disk.laid)
  unfold vhdWriteFooter
  simp only [wp_bind]
  refine (wp_footerOffset disk room fun isBlock => ?_).mono ?_ fun _ _ _ => trivial
  · rw [isBlock] at regular
    cases regular
  rintro off u ⟨kept, -, -, last⟩
  obtain rfl : off = t.dataEnd * 512 := by
    unfold Handle.footedSize at last
    rw [if_neg (by simp [regular])] at last
    exact Nat.add_right_cancel last
  have footer : u.footer = t.footer := by rw [kept.fields]
  refine (wp_footerAt _).mono ?_ fun _ _ _ => trivial
  rintro _ v ⟨fields, put⟩
  simp only [wp_get, wp_when]
  have regular' : v.isBlock = false := by rw [fields, kept.fields]; exact regular
  have dynamic : v.typeDynamic = true := by rw [fields, kept.fields]; exact disk.laid.dynamic
  refine ⟨fun _ => (wp_truncate _).mono ?_ fun _ _ _ => trivial, fun block => absurd regular' block⟩
  rintro _ w ⟨fields', cut⟩
  refine ⟨fun _ => (wp_footerAt 0).mono ?_ fun _ _ _ => trivial, fun fixed => absurd dynamic fixed⟩
  rintro _ x ⟨-, copy⟩
  have own : w.footer = t.footer := by rw [fields', fields, footer]
  have past := (File.truncate_past v.file (t.dataEnd * 512 + 512))
  have size : w.file.size = t.dataEnd * 512 + 512 := by rw [cut]; rfl
  rw [copy, own]
  refine ⟨(File.put_size_within (by omega)).trans size, fun o small => ⟨?_, ?_⟩⟩
  · exact File.put_inside (Nat.zero_le _) (by omega)
  · rw [← cut] at past
    refine (File.put_outside past (by omega)).trans ?_
    have putPast := @File.put_past u.file (t.dataEnd * 512) 512 (sealFooter u.footer) kept.disk.laid.past
    rw [cut, File.truncate_byte (by rw [put]; exact putPast) (by omega), put]
    refine (File.put_inside (Nat.le_add_right _ _) (by omega)).trans ?_
    rw [Nat.add_sub_cancel_left, footer]

end Footer

section Repair
variable {s t : Handle} {below : Below} {sec secs : Nat} {file : File} {faults₀ : List (Option Fault)}
  {buf : Nat → UInt8}

theorem mended_of (damaged : Damaged s sec secs t.file) (footed : s.Footed) (sound : t.Sound)
    (context : (onFile s t.file).toContext = t.toContext) (size : t.file.size = t.dataEnd * 512 + 512)
    (written : ∀ o < 512, t.file.byte o = sealFooter s.footer o ∧
      t.file.byte (t.dataEnd * 512 + o) = sealFooter s.footer o) : Mended s t.file := by
  have ends : (onFile s t.file).dataEnd = t.dataEnd := by
    change (onFile s t.file).endOfExtents (onFile s t.file).headers (onFile s t.file).toVhd.table = _
    unfold Handle.dataEnd
    rw [context, sound.table]
  have behind : (onFile s t.file).dataEnd * 512 + 512 ≤ (onFile s t.file).file.size := by
    rw [ends]
    exact size.ge
  refine ⟨⟨fun _ => ⟨damaged.disk, rfl⟩, fun _ block allocated => ?_, fun fixed => ?_⟩,
    ⟨footed.cookie, damaged.trails.whole, fun o small => (written o small).1, fun o small => ?_, behind⟩⟩
  · have last := Nat.mul_le_mul_right 512 (damaged.room.extents block allocated)
    exact (Nat.add_le_add_right last 512).trans behind
  · rw [damaged.disk.laid.dynamic] at fixed
    cases fixed
  · refine Eq.trans ?_ (written o small).2
    change t.file.byte (t.file.size - 512 + o) = _
    rw [size, Nat.add_sub_cancel]

theorem openImage_fields (opened : openImage file false faults₀ = .ok s) : s.isBlock = false ∧ s.bat = none := by
  obtain ⟨_, _, opened⟩ := Outcome.bind_eq_ok.mp opened
  obtain ⟨_, _, opened⟩ := Outcome.bind_eq_ok.mp opened
  have same := Outcome.ok.inj opened
  exact ⟨congrArg (fun s => s.isBlock) same.symm, congrArg (fun s => s.bat) same.symm⟩

section Runs
variable (opened : openImage s.file false faults₀ = .ok s) (laid : s.toContext.Laid) (room : s.Room)
  (footed : s.Footed) (loaded : ∀ block ∈ s.blocksOf sec secs, block < s.batEntries)
  (header : ∀ p, s.dataOffset ≤ p → p < s.dataOffset + 1024 → s.Outside p)
include opened laid room footed loaded header

theorem Damaged.step (damaged : Damaged s sec secs file) (faults : List (Option Fault)) :
    Damaged s sec secs (repair file faults).2 ∧ Ends s file faults := by
  obtain ⟨isBlock, bat⟩ := openImage_fields opened
  obtain ⟨footer, own, opens⟩ := damaged.opens opened laid footed header faults
  -- the state in which the repair starts, with the footer that it has found
  obtain ⟨u, same⟩ : ∃ u, u = { onFile s file with footer, faults } := ⟨_, rfl⟩
  have again := seal_again own
  have trails : Handle.Trails (s.blocksOf sec secs) { s with footer } u :=
    same ▸ (Handle.Trails.refooted damaged.trails again).memory rfl rfl rfl
  have disk : u.SoundDisk := same ▸ soundDisk_of damaged.disk rfl rfl
  have room' : u.Room := same ▸ ⟨damaged.room.extents, damaged.room.marker⟩
  have regular : u.isBlock = false := same ▸ isBlock
  have fits : u.FooterFits := fun isBlock => by rw [regular] at isBlock; cases isBlock
  have sound : u.Sound := ⟨disk, same ▸ rfl⟩
  have left : ∀ t, u.Kept t → Handle.Trails (s.blocksOf sec secs) { s with footer } t → Damaged s sec secs t.file := by
    intro t kept trails
    have trails' := Handle.Trails.refooted trails fun o small => (again o small).symm
    have spares : s.toVhd.Spares t.toVhd (inRange sec secs) := by
      intro nr o apart small
      rw [kept.content nr o small, same]
      exact damaged.spares nr o apart small
    have disk := kept.disk
    have damaged' := damaged_of laid bat room loaded trails' ⟨disk.laid, disk.disk, disk.memory⟩ spares
    exact damaged'
  have run : wp vhdUtilRepair (fun _ t => Damaged s sec secs t.file ∧ Mended s t.file)
      (fun _ t => Damaged s sec secs t.file) u := by
    refine (((wp_vhdWriteFooter disk room' fits).and (wp_vhdWriteFooter_trails trails
      (footed_refooted footed own) disk room' fits)).and (wp_vhdWriteFooter_footed disk room' regular)).mono ?_ ?_
    · rintro _ t ⟨⟨⟨kept, _⟩, trails⟩, size, written⟩
      have damaged' := left t kept trails
      have named : u.footer = footer := by rw [same]
      refine ⟨damaged', mended_of damaged' footed (kept.sound sound) ?_ ?_ fun o small => ?_⟩
      · rw [trails.fields]
        rfl
      · rw [size, kept.ends]
      · rw [kept.ends, ← again o small, ← named]
        exact written o small
    · rintro _ t ⟨⟨kept, trails⟩, _⟩
      exact left t kept trails
  have works : faults = [] → ((onFile s file).hasBatmap = true → (onFile s file).MapReadable) →
      wp vhdUtilRepair (fun _ t => t.Clear) (fun _ _ => False) u := by
    intro quiet map
    refine works_vhdWriteFooter disk room' fits (same ▸ ⟨quiet, ?_, map⟩)
    exact (footed_refooted footed own).cookie
  obtain ⟨⟨result, t⟩, action⟩ : ∃ after, vhdUtilRepair u = after := ⟨_, rfl⟩
  have whole : repair file faults = (result, t.file) := by
    unfold repair
    rw [opens, ← same]
    dsimp only
    rw [action]
  rw [whole]
  cases result with
  | ok _ =>
      have mended := (run.ok action).2
      exact ⟨(run.ok action).1, ⟨_, opens⟩, by simp [whole], fun _ => whole ▸ mended, fun _ _ => by rw [whole]⟩
  | error code =>
      refine ⟨run.error action, ⟨_, opens⟩, by simp [whole], fun well => ?_, fun quiet map => ?_⟩
      · simp [whole] at well
      · exact ((works quiet map).error action).elim
  | undefined =>
      unfold wp at run
      rw [action] at run
      exact run.elim

end Runs

end Repair

section Sample

end Sample

end Blktap.Libvhd.Repair
