import Blktap.Libvhd.Keeps
import Blktap.Libvhd.NewImage
import Blktap.Libvhd.WriteImage

/-! # Writes that work -/

namespace Blktap.Libvhd
open Lib Action

def Context.inMapRead (ctx : Context) (p : Nat) : Prop :=
  ctx.inBatmapHeader p ∨
    ctx.batmapHeader.batmapOffset ≤ p ∧ p < ctx.batmapHeader.batmapOffset + ctx.batmapBytes

structure Context.MapReadable (ctx : Context) : Prop where
  header : ctx.batmapHeaderOffset + 512 ≤ ctx.file.size
  valid : ctx.batmapHeader.valid = true
  size : ctx.batmapBytes ≤ ctx.batmapHeader.batmapSize * 512
  fits : ctx.batmapHeader.batmapOffset + ctx.batmapBytes ≤ ctx.file.size
  sum : ctx.checksumBatmap ctx.batmapHeader.batmapVersion
    (fun i => ctx.file.byte (ctx.batmapHeader.batmapOffset + i)) = ctx.batmapHeader.checksum

section Readable
variable {ctx ctx' : Context} {batmap : Batmap}

theorem Context.MapReadable.read (readable : ctx.MapReadable) (has : ctx.hasBatmap = true) :
    ∃ batmap, vhdReadBatmap ctx = .ok batmap := by
  refine ⟨⟨ctx.batmapHeader, ctx.batmapBytes, fun i => ctx.file.byte (ctx.batmapHeader.batmapOffset + i)⟩, ?_⟩
  unfold vhdReadBatmap
  rw [if_neg (by simp [has]), vhdReadBatmapHeader_ok readable.header, Outcome.ok_bind,
    if_neg (by simp [readable.valid]), if_neg (Nat.not_lt.mpr readable.size), File.read_ok readable.fits,
    Outcome.ok_bind]
  exact if_neg (not_not.mpr readable.sum)

theorem batmapHeaderIn_congr {buf buf' : Nat → UInt8} (same : ∀ i < 29, buf' i = buf i) :
    batmapHeaderIn buf' = batmapHeaderIn buf := by
  have word : ∀ at_ : Nat, at_ + 4 ≤ 29 → be32 buf' at_ = be32 buf at_ :=
    fun at_ inside => be32_congr fun i small => same (at_ + i) (by omega)
  have cookie : (List.range 8).map buf' = (List.range 8).map buf :=
    List.map_congr_left fun i member => same i (by have := List.mem_range.mp member; omega)
  unfold batmapHeaderIn
  rw [cookie, word 8 (by decide), word 12 (by decide), word 16 (by decide), word 20 (by decide),
    word 24 (by decide), same 28 (by decide)]

theorem checksum_congr {vhd : Vhd} {version : Nat} {map map' : Nat → UInt8}
    (same : ∀ i < vhd.batmapBytes, map' i = map i) :
    vhd.checksumBatmap version map' = vhd.checksumBatmap version map := by
  unfold Vhd.checksumBatmap
  dsimp only
  rw [List.map_congr_left fun i member => by rw [same i (List.mem_range.mp member)]]

theorem Context.Laid.inMapRead (laid : ctx.Laid) (has : ctx.hasBatmap = true) {p : Nat} (inside : ctx.inMapRead p) :
    ctx.inBatmapHeader p ∨ ctx.inBatmap p := by
  refine inside.imp_right fun inMap => ⟨inMap.1, ?_⟩
  have room := (laid.map has).2.1
  omega

theorem Context.MapReadable.keeps (readable : ctx.MapReadable) (fields : ctx' = { ctx with file := ctx'.file })
    (keeps : ctx.file.Keeps ctx.inMapRead ctx'.file) : ctx'.MapReadable := by
  have offset : ctx'.batmapHeaderOffset = ctx.batmapHeaderOffset := by rw [fields]; rfl
  have bytes : ctx'.batmapBytes = ctx.batmapBytes := by rw [fields]; rfl
  have inHeader : ∀ i < 512, ctx.inMapRead (ctx.batmapHeaderOffset + i) :=
    fun i small => .inl ⟨Nat.le_add_right _ _, Nat.add_lt_add_left small _⟩
  have inMap : ∀ i < ctx.batmapBytes, ctx.inMapRead (ctx.batmapHeader.batmapOffset + i) :=
    fun i small => .inr ⟨Nat.le_add_right _ _, Nat.add_lt_add_left small _⟩
  have header : ctx'.batmapHeader = ctx.batmapHeader := by
    unfold Context.batmapHeader
    apply batmapHeaderIn_congr
    intro i small
    rw [offset]
    exact (keeps _ (inHeader i (by omega))).2
  have sums : ctx'.checksumBatmap = ctx.checksumBatmap := by rw [fields]; rfl
  have last := (keeps _ (inHeader 511 (by decide))).1
  have positive := ctx.batmapBytes_pos
  have lastMap := (keeps _ (inMap (ctx.batmapBytes - 1) (by omega))).1
  refine ⟨?_, ?_, ?_, ?_, ?_⟩
  · omega
  · rw [header]
    exact readable.valid
  · rw [header, bytes]
    exact readable.size
  · rw [header, bytes]
    omega
  · rw [header, sums, ← readable.sum]
    exact checksum_congr fun i small => (keeps _ (inMap i small)).2

end Readable

structure Handle.Clear (s : Handle) : Prop where
  faults : s.faults = []
  cookie : cookieIn s.footer = footerCookie ∨ cookieIn s.footer = poisonCookie
  map : s.hasBatmap = true → s.MapReadable

structure Handle.Clean (s t : Handle) : Prop where
  faults : t.faults = []
  keeps : s.hasBatmap = true → s.file.Keeps s.inMapRead t.file

section Clear
variable {s t u : Handle} {block off size : Nat} {data : Nat → UInt8}

theorem Handle.Clear.clean (clear : s.Clear) : s.Clean s := by
  refine ⟨clear.faults, fun has => File.Keeps.refl fun p inside => ?_⟩
  have readable := clear.map has
  rcases inside with header | map
  · exact header.2.trans_le readable.header
  · exact map.2.trans_le readable.fits

theorem Handle.Clean.clear (clean : s.Clean t) (clear : s.Clear) (fields : s.SameFields t)
    (has : t.hasBatmap = s.hasBatmap) : t.Clear := by
  have footer : t.footer = s.footer := by rw [fields]
  refine ⟨clean.faults, ?_, fun has' => ?_⟩
  · rw [footer]
    exact clear.cookie
  · rw [has] at has'
    exact (clear.map has').keeps (by rw [fields]) (clean.keeps has')

theorem Handle.Clean.wrote (clean : s.Clean t)
    (apart : s.hasBatmap = true → ∀ p, s.inMapRead p → p < off ∨ off + size ≤ p) :
    s.Clean (t.wrote off size data) := by
  refine ⟨?_, fun has => (clean.keeps has).put (apart has)⟩
  change t.faults.tail = []
  rw [clean.faults]
  rfl

theorem Handle.Clean.trans (first : s.Clean t) (second : t.Clean u) (has : t.hasBatmap = s.hasBatmap)
    (same : s.hasBatmap = true → t.inMapRead = s.inMapRead) : s.Clean u := by
  refine ⟨second.faults, fun has' => (first.keeps has').trans ?_⟩
  rw [← same has']
  exact second.keeps (has.trans has')

theorem Handle.Loads.clean (loads : s.Loads t) (clear : s.Clear) : s.Clean t := by
  have file : t.file = s.file := by rw [loads.fields]
  have faults : t.faults = s.faults := by rw [loads.fields]
  exact ⟨faults.trans clear.faults, fun has => file ▸ clear.clean.keeps has⟩

theorem Handle.Loads.clear (loads : s.Loads t) (clear : s.Clear) : t.Clear := by
  have faults : t.faults = s.faults := by rw [loads.fields]
  have footer : t.footer = s.footer := by rw [loads.fields]
  refine ⟨faults.trans clear.faults, footer ▸ clear.cookie, ?_⟩
  rw [loads.context]
  exact clear.map

theorem works_vhdWrite {post : Unit → Handle → Prop} {stop : Int → Handle → Prop} (none : s.faults = [])
    (positive : 0 < size) (room : s.HasRoom (off + size)) (done : post () (s.wrote off size data)) :
    wp (vhdWrite off size data) post stop s :=
  wp_vhdWrite_quiet (by rw [none]; rfl) positive (fun _ => done) fun full => absurd room full

theorem Handle.inMapRead_range (laid : s.toContext.Laid) (room : s.Room) (has : s.hasBatmap = true) {p : Nat}
    (inside : s.inMapRead p) : 512 ≤ p ∧ p < s.dataEnd * 512 := by
  rcases laid.inMapRead has inside with header | map
  · have last := room.marker (Context.looks_of_has has)
    have front := laid.front
    obtain ⟨low, high⟩ := header
    unfold Vhd.batmapHeaderOffset at low high last
    omega
  · have last := Handle.batmap_le laid has
    exact ⟨((laid.map has).2.2 p map).1, map.2.trans_le last⟩

theorem Handle.inMapRead_table (laid : s.toContext.Laid) (has : s.hasBatmap = true) {p : Nat}
    (inside : s.inMapRead p) : ¬ s.inTableArea p := by
  rcases laid.inMapRead has inside with header | map
  · intro table
    have low := header.1
    have high := table.2
    unfold Vhd.batmapHeaderOffset at low
    omega
  · exact ((laid.map has).2.2 p map).2.1

theorem Handle.inMapRead_extent (laid : s.toContext.Laid) (has : s.hasBatmap = true) {p : Nat}
    (inside : s.inMapRead p) (allocated : s.allocated block) : ¬ s.inExtent block p := by
  intro extent
  refine laid.extent block allocated p extent ?_
  rcases laid.inMapRead has inside with header | map
  · exact .inr (.inr (.inl ⟨Context.looks_of_has has, header⟩))
  · exact .inr (.inr (.inr ⟨has, map⟩))

end Clear

section Loading
variable {s t : Handle}

theorem works_getBat (laid : s.toContext.Laid) : wp vhdGetBat (fun _ _ => True) (fun _ _ => False) s := by
  unfold vhdGetBat
  simp only [wp_bind, wp_get, wp_ite, wp_pure, wp_modify]
  refine ⟨fun _ => trivial, fun _ => ?_⟩
  have fits : s.tableOffset + vhdBytesPadded (s.batEntries * 4) ≤ s.file.size :=
    (Nat.add_le_add_left laid.loaded_le _).trans laid.table
  unfold vhdReadBat
  rw [if_neg (by simp [laid.dynamic]), if_neg (Nat.not_lt.mpr laid.covers)]
  dsimp only
  rw [File.read_ok fits, Outcome.ok_bind, wp_lift_ok]
  trivial

theorem works_getBatmap (clear : s.Clear) (has : s.hasBatmap = true) :
    wp vhdGetBatmap (fun _ _ => True) (fun _ _ => False) s := by
  unfold vhdGetBatmap
  simp only [wp_bind, wp_get]
  rw [if_neg (by simp [has])]
  cases s.batmap.filter s.validBatmap with
  | some batmap => trivial
  | none =>
      obtain ⟨batmap, read⟩ := (clear.map has).read has
      simp only [wp_bind, wp_modify, read, wp_lift_ok, wp_pure]

theorem works_loadTables (sound : s.SoundDisk) (clear : s.Clear) :
    wp loadTables (fun _ _ => True) (fun _ _ => False) s := by
  unfold loadTables
  simp only [wp_bind, wp_get, wp_when]
  apply ((works_getBat sound.laid).and (wp_getBat sound.laid)).mono
  · rintro _ t ⟨_, loads, _⟩
    exact ⟨fun has => (works_getBatmap (loads.clear clear) has).imp fun _ _ _ => trivial, fun _ => trivial⟩
  · exact fun _ _ h => h.1

theorem works_endOfData (sound : s.SoundDisk) (clear : s.Clear) :
    wp endOfData (fun _ _ => True) (fun _ _ => False) s := by
  have table : ∀ t : Handle, t.toContext.Laid →
      wp vhdGetBat (fun _ u => wp loadedBat (fun _ _ => True) (fun _ _ => False) u) (fun _ _ => False) t := by
    intro t laid
    apply ((works_getBat laid).and (wp_getBat laid)).mono
    · rintro _ u ⟨_, _, loaded, _⟩
      rw [wp_loadedBat loaded]
      trivial
    · exact fun _ _ h => h.1
  unfold endOfData endOfHeaders
  simp only [wp_bind, wp_get, wp_ite, wp_pure]
  refine ⟨fun _ => trivial, fun _ => ⟨fun fixed => ?_, fun _ => ⟨fun has => ?_, fun _ => ?_⟩⟩⟩
  · simp [sound.laid.dynamic] at fixed
  · apply ((works_getBatmap clear has).and (wp_getBatmap sound)).mono
    · rintro batmap t ⟨_, loads, _⟩
      exact table t (loads.soundDisk sound).laid
    · exact fun _ _ h => h.1
  · exact table s sound.laid

end Loading

section Data
variable {s t u : Handle} {block sec cnt bound : Nat} {buf : Nat → UInt8}

theorem works_vhdWriteBat (none : s.faults = []) (laid : s.toContext.Laid) {bat : Bat} (loaded : s.bat = some bat)
    (entries : bat.entries = s.batEntries) : wp vhdWriteBat
      (fun _ t => t = s.wrote s.tableOffset (vhdBytesPadded (s.batEntries * 4)) bat.bytes) (fun _ _ => False) s := by
  have fits : s.tableOffset + vhdBytesPadded (s.batEntries * 4) ≤ s.file.size :=
    (Nat.add_le_add_left laid.loaded_le _).trans laid.table
  unfold vhdWriteBat
  simp only [wp_bind, wp_get]
  rw [wp_loadedBat loaded, entries]
  exact works_vhdWrite none (vhdBytesPadded_pos _) (fun _ => fits) rfl

theorem Handle.cleared_pos (s : Handle) (last : Nat) : 0 < s.cleared last := by
  have bitmap := secsRoundUpNoZero_pos (s.spb / 8)
  unfold Handle.cleared Vhd.bmSecs
  omega

theorem works_allocateAt (sound : s.Sound) (room : s.Room) (ready : s.Ready) (clear : s.Clear)
    (device : s.isBlock = true → s.nextEnd s.dataEnd * 512 ≤ s.file.size) :
    wp (allocateAt block (s.dataEnd * 512)) (fun _ t => s.Clean t) (fun _ _ => False) s := by
  have entries : s.tableInUse.entries = s.batEntries := by rw [sound.table]; rfl
  have behind : s.Leaves ({ s with faults := s.faults.tail }.put (s.dataEnd * 512) (s.cleared s.dataEnd * 512)
      fun _ => 0) := Handle.Leaves.put_behind sound.toSoundDisk
  have laid := (behind.soundDisk sound.toSoundDisk room).laid
  have clean : s.Clean (s.wrote (s.dataEnd * 512) (s.cleared s.dataEnd * 512) fun _ => 0) :=
    clear.clean.wrote fun has p inside => .inl (Handle.inMapRead_range sound.laid room has inside).2
  unfold allocateAt
  simp only [wp_bind, wp_get, Nat.mul_div_cancel _ (show 0 < 512 by omega)]
  apply works_vhdWrite clear.faults (Nat.mul_pos (s.cleared_pos _) (by decide))
  · intro isBlock
    have fits := device isBlock
    have most : s.dataEnd + s.cleared s.dataEnd ≤ s.nextEnd s.dataEnd := by
      unfold Handle.cleared Handle.nextEnd
      split <;> omega
    rw [← Nat.add_mul]
    exact (Nat.mul_le_mul_right 512 most).trans fits
  · rw [wp_loadedBat (show (s.wrote _ _ _).bat = _ from ready.table)]
    simp only [wp_modify]
    refine wp.imp (works_vhdWriteBat ?_ ?_ rfl entries) ?_
    · exact clean.faults
    · exact laid
    rintro _ u rfl
    refine Handle.Clean.wrote ⟨clean.faults, clean.keeps⟩ fun has p inside => ?_
    have apart := Handle.inMapRead_table sound.laid has inside
    have whole := sound.laid.loaded_le
    change p < s.tableOffset ∨ s.tableOffset + vhdBytesPadded (s.batEntries * 4) ≤ p
    by_contra within
    rw [not_or, Nat.not_lt, Nat.not_le] at within
    exact apart ⟨within.1, within.2.trans_le (Nat.add_le_add_left whole _)⟩

theorem works_allocateBlock (sound : s.Sound) (room : s.Room) (clear : s.Clear)
    (device : s.isBlock = true → s.nextEnd s.dataEnd * 512 ≤ s.file.size) :
    wp (allocateBlock block) (fun _ t => s.Clean t) (fun _ _ => False) s := by
  unfold allocateBlock
  simp only [wp_bind]
  apply ((works_endOfData sound.toSoundDisk clear).and (wp_endOfData sound.toSoundDisk)).mono
  · rintro _ t ⟨_, rfl, loads, ready⟩
    have last := loads.dataEnd
    change wp (allocateAt block (s.dataEnd * 512)) _ _ t
    rw [← last]
    have next : t.nextEnd t.dataEnd = s.nextEnd s.dataEnd := by
      rw [last, loads.fields]
      rfl
    apply (works_allocateAt (loads.sound sound) (loads.room room) ready (loads.clear clear) ?_).imp
    · intro _ u clean
      refine (loads.clean clear).trans clean ?_ fun _ => ?_
      · rw [loads.context]
      · rw [loads.context]
    · rw [next, loads.fields]
      exact device
  · exact fun _ _ h => h.1

theorem Vhd.part_le {vhd : Vhd} (entry : Nat) (inside : sec + cnt ≤ vhd.spb) :
    (entry + vhd.bmSecs + sec) * 512 + cnt * 512 ≤ (entry + vhd.bmSecs + vhd.spb) * 512 := by
  rw [← Nat.add_mul, Nat.add_assoc (entry + vhd.bmSecs)]
  exact Nat.mul_le_mul_right 512 (Nat.add_le_add_left inside _)

theorem works_allocated (sound : s.Sound) (room : s.Room) (loaded : block < s.batEntries)
    (fits : ¬ s.allocated block → s.freeEntry < ddBlkUnused) (ready : s.Ready) (clear : s.Clear)
    (device : s.isBlock = true → bound * 512 ≤ s.file.size)
    (last : (if s.allocated block then s.dataEnd else s.nextEnd s.dataEnd) ≤ bound) (written : Nat → Prop) :
    wp (when (s.tableInUse.bat block = ddBlkUnused) (allocateBlock block))
      (fun _ t => (s.Turn block written t ∧ t.Sound ∧ t.allocated block ∧ t.Ready) ∧ t.Clear ∧
        s.file.size ≤ t.file.size) (fun _ _ => False) s := by
  have works : wp (when (s.tableInUse.bat block = ddBlkUnused) (allocateBlock block)) (fun _ t => s.Clean t)
      (fun _ _ => False) s := by
    rw [wp_when]
    refine ⟨fun unused => works_allocateBlock sound room clear fun isBlock => ?_, fun _ => clear.clean⟩
    have absent : ¬ s.allocated block := by
      rw [sound.laid.allocated_iff loaded, ← sound.table]
      exact not_not.mpr unused
    rw [if_neg absent] at last
    exact (Nat.mul_le_mul_right 512 last).trans (device isBlock)
  apply ((Steps.when (grows_allocateBlock block)).wp
    (works.and (wp_allocated sound room loaded fits written ready))).mono
  · rintro _ t ⟨⟨clean, turn, rest⟩, grown⟩
    refine ⟨⟨turn, rest⟩, clean.clear clear turn.writes.fields (turn.writes.edit.hasBatmap sound.laid), grown.2⟩
  · exact fun _ _ h => h.1.1

theorem works_writeData (sound : s.Sound) (room : s.Room) (loaded : block < s.batEntries)
    (inside : sec + cnt ≤ s.spb) (fits : ¬ s.allocated block → s.freeEntry < ddBlkUnused)
    (covers : s.Covers block) (ready : s.Ready) (clear : s.Clear) (positive : 0 < cnt)
    (device : s.isBlock = true → bound * 512 ≤ s.file.size)
    (last : (if s.allocated block then s.dataEnd else s.nextEnd s.dataEnd) ≤ bound) :
    wp (writeData block sec cnt buf) (fun _ t => t.Clear ∧ s.file.size ≤ t.file.size) (fun _ _ => False) s := by
  have len : s.batEntries ≤ s.tableInUse.len := by
    rw [sound.table]
    exact table_len
  unfold writeData
  simp only [wp_bind, wp_get, wp_ite]
  rw [wp_loadedBat ready.table]
  refine ⟨fun short => absurd (len.trans short) (Nat.not_le.mpr loaded), fun _ => ?_⟩
  apply (works_allocated sound room loaded fits ready clear device last (s.inTurn block sec cnt)).imp
  rintro _ t ⟨⟨turn, sound', allocated, ready'⟩, clear', grown⟩
  have spb : t.spb = s.spb := by rw [turn.writes.fields]; rfl
  have entries : t.batEntries = s.batEntries := by rw [turn.writes.fields]; rfl
  have isBlock : t.isBlock = s.isBlock := by rw [turn.writes.fields]
  have entry : t.tableInUse.bat block = t.entry block := by
    rw [sound'.table, table_entry (entries ▸ loaded)]
  rw [wp_loadedBat ready'.table, entry]
  have inside' : sec + cnt ≤ t.spb := spb ▸ inside
  have extent : t.HasRoom ((t.entry block + t.bmSecs + sec) * 512 + cnt * 512) := by
    intro device'
    rw [isBlock] at device'
    have most := (turn.room.extents block allocated).trans (turn.last.trans last)
    exact (Vhd.part_le _ inside').trans (((Nat.mul_le_mul_right 512 most).trans (device device')).trans grown)
  have works : wp (vhdWrite ((t.entry block + t.bmSecs + sec) * 512) (cnt * 512) buf)
      (fun _ u => u = t.wrote ((t.entry block + t.bmSecs + sec) * 512) (cnt * 512) buf) (fun _ _ => False) t :=
    works_vhdWrite clear'.faults (Nat.mul_pos positive (by decide)) extent rfl
  apply (works.and (wp_writeSectors sound' allocated inside')).mono
  · rintro _ u ⟨wrote, stores, soundData, -, -, -⟩
    have clearData : u.Clear := by
      have clean : t.Clean u := by
        rw [wrote]
        refine clear'.clean.wrote fun has p inMap => ?_
        have apart := Handle.inMapRead_extent sound'.laid has inMap allocated
        by_contra within
        rw [not_or, Nat.not_lt, Nat.not_le] at within
        have low : t.entry block ≤ t.entry block + t.bmSecs + sec :=
          (Nat.le_add_right _ _).trans (Nat.le_add_right _ _)
        exact apart ⟨(Nat.mul_le_mul_right 512 low).trans within.1, within.2.trans_le (Vhd.part_le _ inside')⟩
      exact clean.clear clear' stores.writes.fields (stores.edit.hasBatmap sound'.laid)
    have size : t.file.size ≤ u.file.size := by
      rw [wrote]
      exact File.le_put_size ..
    have reach : (t.entry block + t.bmSecs + sec) * 512 + cnt * 512 ≤ u.file.size := by
      rw [wrote]
      exact File.put_reach (Nat.mul_pos positive (by decide))
    have allocated' := (stores.allocated_iff sound'.laid).mpr allocated
    have entryData : t.tableInUse.bat block = u.entry block := by
      rw [entry, stores.entry sound'.laid allocated.1]
    have entriesData : t.tableInUse.entries = s.batEntries := by
      rw [sound'.table]
      exact entries
    have covers' : u.Covers block := (covers.edit turn.writes.edit sound.laid).edit stores.edit sound'.laid
    apply (wp_batmapTest soundData.toSoundDisk covers').imp
    rintro full w ⟨rfl, _⟩
    refine ⟨fun _ => ⟨clearData, grown.trans size⟩, fun _ => ?_⟩
    unfold vhdReadBitmap
    rw [if_neg (by simp [soundData.laid.dynamic]), entriesData, if_neg (Nat.not_le.mpr loaded), entryData,
      if_neg allocated'.2]
    have bitmap : w.entry block * 512 + vhdBytesPadded (w.spb / 8) ≤ w.file.size := by
      have same := stores.entry sound'.laid allocated.1
      have bm : w.bmSecs = t.bmSecs := by rw [stores.fields]; rfl
      change w.entry block * 512 + w.bmSecs * 512 ≤ _
      rw [same, bm, ← Nat.add_mul]
      refine (Nat.mul_le_mul_right 512 (Nat.le_add_right _ sec)).trans ((Nat.le_add_right _ _).trans reach)
    rw [File.read_ok bitmap, wp_lift_ok]
    exact ⟨clearData, grown.trans size⟩
  · exact fun _ _ h => h.1

end Data

section Marks
variable {s t u : Handle} {block sec cnt : Nat} {map : Nat → UInt8} {batmap : Batmap}

theorem checksumBatmap_lt (vhd : Vhd) (version : Nat) (map : Nat → UInt8) :
    vhd.checksumBatmap version map < 2 ^ 32 :=
  (Nat.sub_le _ _).trans_lt (by decide)

theorem Context.MapReadable.mapped (readable : s.MapReadable) (loaded : batmap.LoadedFrom s.toContext)
    (laid : s.toContext.Laid) : (s.mapped batmap).MapReadable := by
  let header : BatmapHeader :=
    { batmap.header with checksum := s.checksumBatmap batmap.header.batmapVersion batmap.map }
  have offset : batmap.header.batmapOffset = s.batmapHeader.batmapOffset := by rw [loaded.header]
  have size : batmap.header.batmapSize = s.batmapHeader.batmapSize := by rw [loaded.header]
  have version : batmap.header.batmapVersion = s.batmapHeader.batmapVersion := by rw [loaded.header]
  have grows : s.file.size ≤ (s.mapped batmap).file.size :=
    (File.le_put_size ..).trans (File.le_put_size ..)
  have written : (s.mapped batmap).batmapHeader = header := by
    apply batmapHeaderIn_bytes (show header.cookie = true from loaded.cookie)
    · change batmap.header.batmapOffset < _
      rw [offset]
      have high := be32_lt (fun i => s.file.byte (s.batmapHeaderOffset + i)) 8
      have low := be32_lt (fun i => s.file.byte (s.batmapHeaderOffset + i)) 12
      unfold Context.batmapHeader batmapHeaderIn
      dsimp only
      omega
    · change batmap.header.batmapSize < _
      rw [size]
      exact be32_lt _ _
    · change batmap.header.batmapVersion < _
      rw [version]
      exact be32_lt _ _
    · exact checksumBatmap_lt ..
    · intro i small
      refine (File.put_inside (Nat.le_add_right _ _) (Nat.add_lt_add_left (by omega) _)).trans ?_
      rw [Nat.add_sub_cancel_left]
  have bytes : ∀ i < s.batmapBytes,
      (s.mapped batmap).file.byte (s.batmapHeader.batmapOffset + i) = batmap.map i := by
    intro i small
    have room := (laid.map loaded.has).2.1
    have inMap : s.inBatmap (s.batmapHeader.batmapOffset + i) := ⟨Nat.le_add_right _ _, by omega⟩
    have apart := ((laid.map loaded.has).2.2 _ inMap).2.2
    refine (File.put_outside (File.put_past laid.past) apart).trans ?_
    rw [offset]
    refine (File.put_inside (Nat.le_add_right _ _) (Nat.add_lt_add_left small _)).trans ?_
    rw [Nat.add_sub_cancel_left]
  refine ⟨readable.header.trans grows, ?_, ?_, ?_, ?_⟩
  · rw [written]
    have valid := readable.valid
    unfold BatmapHeader.valid at valid ⊢
    rw [← version] at valid
    rw [Bool.and_eq_true] at valid ⊢
    exact ⟨loaded.cookie, valid.2⟩
  · rw [written]
    exact readable.size.trans (Nat.le_of_eq (congrArg (· * 512) size.symm))
  · rw [written]
    change batmap.header.batmapOffset + s.batmapBytes ≤ _
    rw [offset]
    exact readable.fits.trans grows
  · rw [written]
    change s.checksumBatmap batmap.header.batmapVersion (fun i =>
      (s.mapped batmap).file.byte (batmap.header.batmapOffset + i)) = _
    rw [offset]
    exact checksum_congr bytes

theorem works_vhdWriteBatmap (readable : s.MapReadable) (loaded : batmap.LoadedFrom s.toContext)
    (laid : s.toContext.Laid) (none : s.faults = []) :
    wp (vhdWriteBatmap batmap) (fun _ t => t = s.mapped batmap) (fun _ _ => False) s := by
  have room := (laid.map loaded.has).2.1
  have offset : batmap.header.batmapOffset = s.batmapHeader.batmapOffset := by rw [loaded.header]
  have size : batmap.header.batmapSize = s.batmapHeader.batmapSize := by rw [loaded.header]
  unfold vhdWriteBatmap writeBatmapSectors
  simp only [wp_bind, wp_pure, wp_attempt, wp_get]
  rw [if_neg (by simp [loaded.has]), if_neg (by rw [size]; exact Nat.not_lt.mpr room)]
  simp only [wp_bind]
  apply works_vhdWrite none s.batmapBytes_pos
  · intro _
    rw [offset]
    exact readable.fits
  · apply works_vhdWrite
    · change s.faults.tail = []
      rw [none]
      rfl
    · decide
    · exact fun _ => readable.header.trans (File.le_put_size ..)
    · rfl

theorem works_batmapSet (sound : s.Sound) (has : s.hasBatmap = true) (ready : s.Ready)
    (covers : s.Covers block) (full : s.full block) (clear : s.Clear) :
    wp (batmapSet block) (fun _ t => t.Clear) (fun _ _ => False) s := by
  obtain ⟨batmap, some⟩ := Option.isSome_iff_exists.mp (ready.map has)
  obtain ⟨batmap', action, loaded'⟩ := (sound.memory batmap some).set covers full
  unfold batmapSet
  simp only [wp_bind, wp_get, some, action, wp_lift_ok, wp_modify]
  refine wp.imp (works_vhdWriteBatmap ?_ loaded' ?_ ?_) ?_
  · exact clear.map has
  · exact sound.laid
  · exact clear.faults
  rintro _ t rfl
  refine ⟨?_, clear.cookie, fun _ => ?_⟩
  · change s.faults.tail.tail = []
    rw [clear.faults]
    rfl
  · exact Context.MapReadable.mapped (s := { s with batmap := Option.some batmap' }) (clear.map has) loaded' sound.laid

theorem works_writeMarks (sound : s.Sound) (loaded : block < s.batEntries) (allocated : s.allocated block)
    (ready : s.Ready) (covers : s.Covers block) (clear : s.Clear)
    (device : s.isBlock = true → (s.entry block + s.bmSecs + s.spb) * 512 ≤ s.file.size)
    (disk : ∀ i, map i = s.file.byte (s.entry block * 512 + i)) :
    wp (writeMarks block sec cnt map) (fun _ t => t.Clear) (fun _ _ => False) s := by
  have entries : s.tableInUse.entries = s.batEntries := by rw [sound.table]; rfl
  have entry : s.tableInUse.bat block = s.entry block := by rw [sound.table, table_entry loaded]
  have positive : 0 < s.bmSecs * 512 := vhdBytesPadded_pos _
  have inside : s.entry block * 512 + s.bmSecs * 512 ≤ (s.entry block + s.bmSecs + s.spb) * 512 := by
    rw [← Nat.add_mul]
    exact Nat.mul_le_mul_right 512 (Nat.le_add_right _ _)
  have works : wp (vhdWriteBitmap block (vhdBitmapSets s.toVhd sec cnt map))
      (fun _ t => t = s.wrote (s.entry block * 512) (s.bmSecs * 512) (vhdBitmapSets s.toVhd sec cnt map))
      (fun _ _ => False) s := by
    unfold vhdWriteBitmap
    simp only [wp_bind, wp_get]
    rw [if_neg (by simp [sound.laid.dynamic])]
    simp only [wp_bind]
    rw [wp_loadedBat ready.table, entries, entry, if_neg (Nat.not_le.mpr loaded), if_neg allocated.2]
    exact works_vhdWrite clear.faults positive (fun isBlock => inside.trans (device isBlock)) rfl
  unfold writeMarks
  simp only [wp_bind, wp_get, wp_when]
  apply (works.and (wp_vhdWriteBitmap sound loaded allocated ready disk)).mono
  · rintro _ t ⟨wrote, marked, sound', ready', _, tests⟩
    have clear' : t.Clear := by
      have clean : s.Clean t := by
        rw [wrote]
        refine clear.clean.wrote fun has p inMap => ?_
        have apart := Handle.inMapRead_extent sound.laid has inMap allocated
        by_contra within
        rw [not_or, Nat.not_lt, Nat.not_le] at within
        exact apart ⟨within.1, within.2.trans_le inside⟩
      exact clean.clear clear marked.stores.writes.fields (marked.stores.edit.hasBatmap sound.laid)
    have spb : t.spb = s.spb := by rw [marked.stores.fields]; rfl
    refine ⟨fun found => ?_, fun _ => clear'⟩
    obtain ⟨has, whole⟩ := found
    have full : t.full block := by
      refine ⟨(marked.stores.allocated_iff sound.laid).mpr allocated, fun nr small => ?_⟩
      rw [marked.stores.entry sound.laid allocated.1, ← tests nr (spb ▸ small)]
      exact List.all_eq_true.mp whole nr (List.mem_range.mpr small)
    exact works_batmapSet sound' has ready' (covers.edit marked.stores.edit sound.laid) full clear'
  · exact fun _ _ h => h.1

end Marks

section Footer
variable {s t : Handle} {off : Nat}

theorem Handle.Leaves.clear (leaves : s.Leaves t) (clean : s.Clean t) (sound : s.SoundDisk) (room : s.Room)
    (clear : s.Clear) : t.Clear := by
  have writes := leaves.writes sound room 0
  exact clean.clear clear writes.fields (writes.edit.hasBatmap sound.laid)

theorem works_vhdWriteFooterAt (sound : s.SoundDisk) (room : s.Room) (clear : s.Clear)
    (apart : off = 0 ∨ s.dataEnd * 512 ≤ off) (fits : s.HasRoom (off + 512)) :
    wp (vhdWriteFooterAt off) (fun _ t => t.Clear) (fun _ _ => False) s := by
  have leaves : s.Leaves ({ s with faults := s.faults.tail }.put off 512 (sealFooter s.footer)) := by
    refine Handle.leaves_put sound (apart.imp_left fun front => ?_)
    rw [front]
  have clean : s.Clean (s.wrote off 512 (sealFooter s.footer)) := by
    refine clear.clean.wrote fun has p inside => ?_
    have range := Handle.inMapRead_range sound.laid room has inside
    rcases apart with rfl | behind
    · exact .inr range.1
    · exact .inl (range.2.trans_le behind)
  unfold vhdWriteFooterAt
  simp only [wp_bind, wp_get, wp_ite, wp_fail]
  refine ⟨fun other => clear.cookie.elim other.1 other.2, fun _ => ?_⟩
  exact works_vhdWrite clear.faults (by decide) fits (leaves.clear clean sound room clear)

theorem works_vhdTruncate (sound : s.SoundDisk) (room : s.Room) (clear : s.Clear) (last : off = s.dataEnd * 512) :
    wp (vhdTruncate (off + 512)) (fun _ t => t.Clear) (fun _ _ => False) s := by
  subst last
  have leaves : s.Leaves { s with
      faults := s.faults.tail, file := s.file.truncate (s.dataEnd * 512 + 512) } := Handle.leaves_truncate sound room
  unfold wp vhdTruncate
  dsimp only
  have quiet : s.faults.head?.join = none := by rw [clear.faults]; rfl
  rw [quiet]
  refine leaves.clear ⟨?_, fun has p inside => ?_⟩ sound room clear
  · change s.faults.tail = []
    rw [clear.faults]
    rfl
  · have range := Handle.inMapRead_range sound.laid room has inside
    exact ⟨range.2.trans_le (Nat.le_add_right _ _), leaves.kept p range.1 range.2⟩

theorem works_footerOffset (sound : s.SoundDisk) (clear : s.Clear) :
    wp footerOffset (fun _ t => s.Loads t) (fun _ _ => False) s := by
  unfold footerOffset
  simp only [wp_bind, wp_get, wp_ite, wp_pure]
  refine ⟨fun _ => .refl s, fun _ => ?_⟩
  apply ((works_endOfData sound clear).and (wp_endOfData sound)).mono
  · exact fun _ _ h => h.2.2.1
  · exact fun _ _ h => h.1

theorem works_vhdWriteFooter (sound : s.SoundDisk) (room : s.Room) (fits : s.FooterFits) (clear : s.Clear) :
    wp vhdWriteFooter (fun _ t => t.Clear) (fun _ _ => False) s := by
  unfold vhdWriteFooter
  simp only [wp_bind]
  apply ((works_footerOffset sound clear).and (wp_footerOffset sound room fits)).mono
  · rintro off t ⟨loads, kept, file, behind, last⟩
    have isBlock : t.isBlock = s.isBlock := by rw [kept.fields]
    have apart : off = 0 ∨ t.dataEnd * 512 ≤ off := .inr (kept.ends ▸ behind)
    have room' : t.HasRoom (off + 512) := by
      intro device
      rw [isBlock] at device
      rw [last, file]
      unfold Handle.footedSize
      rw [if_pos device]
    apply ((works_vhdWriteFooterAt kept.disk kept.room (loads.clear clear) apart room').and
      (wp_vhdWriteFooterAt kept.disk kept.room apart)).mono
    · rintro _ u ⟨clear', footed, size⟩
      have kept' := kept.trans footed
      have finish : ∀ w : Handle, w.Clear → w.SoundDisk → w.Room →
          (u.typeDynamic = true → wp (vhdWriteFooterAt 0) (fun _ t => t.Clear) (fun _ _ => False) w) ∧
          (¬ u.typeDynamic = true → w.Clear) :=
        fun w clear disk room => ⟨fun _ => works_vhdWriteFooterAt disk room clear (.inl rfl) fun _ => disk.laid.some,
          fun _ => clear⟩
      simp only [wp_get, wp_when]
      refine ⟨fun regular => ?_, fun _ => finish u clear' kept'.disk kept'.room⟩
      have ends : off = u.dataEnd * 512 := by
        have regular' : s.isBlock = false := by
          rw [kept'.fields] at regular
          exact regular
        unfold Handle.footedSize at last
        rw [if_neg (by simp [regular'])] at last
        rw [kept'.ends]
        exact Nat.add_right_cancel last
      have cut : wp (vhdTruncate (off + 512)) (fun _ w => w.SoundDisk ∧ w.Room) (fun _ _ => True) u := by
        apply wp_vhdTruncate
        · intro faults
          rw [ends]
          have leaves : u.Leaves { u with
              faults, file := u.file.truncate (u.dataEnd * 512 + 512) } := Handle.leaves_truncate kept'.disk kept'.room
          exact ⟨leaves.soundDisk kept'.disk kept'.room, leaves.room_of kept'.disk kept'.room⟩
        · exact fun _ _ => trivial
      apply ((works_vhdTruncate kept'.disk kept'.room clear' ends).and cut).mono
      · rintro _ w ⟨clear, disk, room⟩
        exact finish w clear disk room
      · exact fun _ _ h => h.1
    · exact fun _ _ h => h.1
  · exact fun _ _ h => h.1

end Footer

section Write
variable {s t u : Handle} {block sec cnt sector secs bound : Nat} {buf : Nat → UInt8}

theorem works_turn (sound : s.Sound) (room : s.Room) (loaded : block < s.batEntries)
    (inside : sec + cnt ≤ s.spb) (fits : ¬ s.allocated block → s.freeEntry < ddBlkUnused)
    (covers : s.Covers block) (ready : s.Ready) (clear : s.Clear) (positive : 0 < cnt)
    (device : s.isBlock = true → bound * 512 ≤ s.file.size)
    (last : (if s.allocated block then s.dataEnd else s.nextEnd s.dataEnd) ≤ bound) :
    wp (writeData block sec cnt buf)
      (fun map t => wp (attempt (writeMarksOf block sec cnt map))
        (fun result u => result = .ok () ∧ u.Clear ∧ s.file.size ≤ u.file.size) (fun _ _ => False) t)
      (fun _ _ => False) s := by
  apply ((works_writeData sound room loaded inside fits covers ready clear positive device last).and
    (wp_writeData sound room loaded inside fits covers ready)).mono
  · rintro map t ⟨⟨clear', grown⟩, turn, sound', allocated, ready', -, unmarked⟩
    have entries : t.batEntries = s.batEntries := by rw [turn.writes.fields]; rfl
    have isBlock : t.isBlock = s.isBlock := by rw [turn.writes.fields]
    have most := (turn.room.extents block allocated).trans (turn.last.trans last)
    rw [wp_attempt]
    cases map with
    | none => exact ⟨rfl, clear', grown⟩
    | some map =>
        apply ((grows_writeMarksOf block sec cnt (some map)).wp (works_writeMarks sound' (entries ▸ loaded) allocated
          ready' (covers.edit turn.writes.edit sound.laid) clear' ?_ unmarked)).mono
        · exact fun _ u h => ⟨rfl, h.1, grown.trans h.2.2⟩
        · exact fun _ _ h => h.1.elim
        · intro device'
          rw [isBlock] at device'
          exact ((Nat.mul_le_mul_right 512 most).trans (device device')).trans grown
  · exact fun _ _ h => h.1

theorem Handle.WriteFits.turn_last {blocks : List Nat} (fits : s.WriteFits blocks bound) (member : block ∈ blocks) :
    (if s.allocated block then s.dataEnd else s.nextEnd s.dataEnd) ≤ bound := by
  refine Nat.le_trans ?_ fits.ends
  split
  · exact s.le_endAfter blocks _
  · exact s.nextEnd_le _ member ‹_›

theorem works_writeLoop (fuel : Nat) (enough : secs < fuel) (some : 0 < secs) (sound : s.Sound) (room : s.Room)
    (ready : s.Ready) (clear : s.Clear) {blocks : List Nat} (fits : s.WriteFits blocks bound)
    (device : s.isBlock = true → bound * 512 ≤ s.file.size)
    (among : ∀ block ∈ s.blocksOf sector secs, block ∈ blocks) :
    wp (writeLoop fuel sector secs buf) (fun result t => result = .ok () ∧ t.Clear) (fun _ _ => False) s := by
  induction fuel generalizing s sector secs buf with
  | zero => exact absurd enough (Nat.not_lt_zero _)
  | succ fuel ih =>
      have positive : 0 < s.spb := Vhd.spb_pos sound.laid.blockSize
      have member : sector / s.spb ∈ blocks := among _ (blocksOf_first sector secs)
      have loaded := fits.loaded _ member
      have slot : s.slot sector = sector / s.spb :=
        Nat.mod_eq_of_lt (loaded.trans (Nat.mod_lt _ (by decide)))
      have offset := Nat.mod_lt sector positive
      unfold writeLoop
      simp only [wp_bind, wp_get]
      rw [if_neg (Nat.ne_of_gt positive), slot]
      generalize count : min secs (s.spb - sector % s.spb) = cnt
      have inside : sector % s.spb + cnt ≤ s.spb := by omega
      have first : 0 < cnt := by omega
      simp only [wp_bind]
      apply ((works_turn sound room loaded inside (fits.free member) (fits.covers _ member) ready clear first device
        (fits.turn_last member)).and
        (wp_turn sound room loaded inside (fits.free member) (fits.covers _ member) ready)).mono
      · rintro map t ⟨works, turns⟩
        apply (works.and turns).mono
        · rintro _ u ⟨⟨rfl, clear', grown⟩, turn, finished⟩
          have finished := finished rfl
          dsimp only
          by_cases last : secs - cnt = 0
          · rw [if_pos last, wp_pure]
            exact ⟨rfl, clear'⟩
          · rw [if_neg last]
            have spb : u.spb = s.spb := by rw [turn.writes.fields]; rfl
            have isBlock : u.isBlock = s.isBlock := by rw [turn.writes.fields]
            obtain ⟨next, after⟩ := blocksOf_turn positive (count ▸ last)
            rw [count] at next after
            have moved := fits.turn member turn finished.allocated sound.laid
            apply ih (by omega) (by omega) finished.sound turn.room finished.ready clear' moved
            · rw [isBlock]
              exact fun device' => (device device').trans grown
            · intro block inRest
              have same : u.blocksOf (sector + cnt) (secs - cnt) = s.blocksOf (sector + cnt) (secs - cnt) := by
                unfold Vhd.blocksOf
                rw [spb]
              rw [same] at inRest
              exact among block (after ▸ List.mem_cons_of_mem _ inRest)
        · exact fun _ _ h => h.1
      · exact fun _ _ h => h.1

theorem works_dynamicWrite (sound : s.Sound) (clear : s.Clear) {blocks : List Nat} (allows : s.Allows blocks bound)
    (some : 0 < secs) (among : ∀ block ∈ s.blocksOf sector secs, block ∈ blocks)
    (inDisk : (sector + secs) * 512 ≤ s.currSize) :
    wp (dynamicWrite sector secs buf) (fun _ t => s.Written blocks bound sector secs buf t ∧ t.Clear)
      (fun _ _ => False) s := by
  suffices works : wp (dynamicWrite sector secs buf) (fun _ t => t.Clear) (fun _ _ => False) s from
    ((wp_dynamicWrite sound allows among inDisk).and works).mono (fun _ _ h => h) fun _ _ h => h.2
  unfold dynamicWrite
  simp only [wp_bind]
  apply ((works_loadTables sound.toSoundDisk clear).and (wp_loadTables sound.toSoundDisk)).mono
  · rintro _ t ⟨-, loads, ready⟩
    have kept := loads.keeps sound.toSoundDisk allows.room
    have file : t.file = s.file := by rw [loads.fields]
    have isBlock : t.isBlock = s.isBlock := by rw [kept.fields]
    have size : t.currSize = s.currSize := by rw [kept.fields]
    have allows' := kept.allows allows fun _ => file ▸ Nat.le_refl _
    have blocks' : t.blocksOf sector secs = s.blocksOf sector secs := by
      unfold Vhd.blocksOf
      rw [kept.fields]
      rfl
    have among' : ∀ block ∈ t.blocksOf sector secs, block ∈ blocks := by
      rw [blocks']
      exact among
    have device : t.isBlock = true → bound * 512 ≤ t.file.size := fun device =>
      (Nat.le_add_right _ _).trans (allows'.device device)
    have enough : secs < secs + 1 := Nat.lt_succ_self _
    have sound' := kept.sound sound
    have works := (grows_writeLoop (secs + 1) sector secs buf).wp (works_writeLoop (secs + 1) enough some sound'
      allows'.room ready (loads.clear clear) allows'.fits device among')
    apply (works.and (wp_writeLoop (secs + 1) enough sound' allows'.room ready allows'.fits among'
      (size ▸ inDisk))).mono
    · rintro result u ⟨⟨⟨rfl, clear'⟩, grown⟩, left, -⟩
      have fits := left.fields.footerFits allows'.device grown.2 left.ends
      rw [wp_attempt]
      apply (works_vhdWriteFooter left.disk left.room fits clear').mono
      · exact fun _ _ clear => clear
      · exact fun _ _ h => h.elim
    · exact fun _ _ h => h.1.1
  · exact fun _ _ h => h.1

end Write

end Blktap.Libvhd
