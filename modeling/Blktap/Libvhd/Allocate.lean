import Blktap.Libvhd.Footing
import Blktap.Libvhd.WriteRules

/-! # New blocks -/

namespace Blktap.Libvhd
open Lib Action

structure Handle.Writes (block : Nat) (s t : Handle) : Prop where
  fields : t = { s with file := t.file, bat := t.bat, batmap := t.batmap, faults := t.faults }
  edit : s.toContext.Edit block t.toContext

section Writes
variable {s t u : Handle} {block : Nat}

theorem Handle.Writes.trans (first : s.Writes block t) (second : t.Writes block u)
    (laid : s.toContext.Laid) : s.Writes block u := by
  refine ⟨?_, first.edit.trans second.edit laid⟩
  rw [second.fields, first.fields]

theorem Handle.Loads.writes (loads : s.Loads t) (laid : s.toContext.Laid) (block : Nat) :
    s.Writes block t := by
  refine ⟨?_, ?_⟩
  · rw [loads.fields]
  · rw [loads.context]
    exact .refl laid

theorem Context.Edit.headers {ctx ctx' : Context} (edit : ctx.Edit block ctx')
    (laid : ctx.Laid) : ctx'.headers = ctx.headers := by
  have fields : ∀ header, ctx'.headersEnd header = ctx.headersEnd header := by
    intro header
    rw [edit.fields]
    rfl
  unfold Context.headers
  rw [edit.hasBatmap laid, fields]
  split
  · rename_i has
    rw [edit.batmapHeader (Context.looks_of_has has), headersEnd_checksum]
  · rfl

theorem Vhd.table_congr {vhd vhd' : Vhd} (fields : vhd' = { vhd with file := vhd'.file })
    (same : ∀ k < vhdBytesPadded (vhd.batEntries * 4),
      vhd'.file.byte (vhd.tableOffset + k) = vhd.file.byte (vhd.tableOffset + k)) :
    vhd'.table = vhd.table := by
  have entries : vhd'.batEntries = vhd.batEntries := by rw [fields]; rfl
  have offset : vhd'.tableOffset = vhd.tableOffset := by rw [fields]
  have bound : vhd.batEntries < 2 ^ 32 := Nat.mod_lt _ (by omega)
  have padded := padded_le (vhd.batEntries * 4) (by omega)
  unfold Vhd.table
  rw [entries, offset, Bat.mk.injEq]
  refine ⟨rfl, rfl, ?_⟩
  funext i
  split
  · apply be32_congr
    intro k small
    exact same _ (by omega)
  · split
    · apply le32_congr
      intro k small
      exact same _ (by omega)
    · rfl

theorem padded_mono {bytes bytes' : Nat} (le : bytes ≤ bytes') (small : bytes' < 2 ^ 40) :
    vhdBytesPadded bytes ≤ vhdBytesPadded bytes' := by
  unfold vhdBytesPadded secsRoundUpNoZero secsRoundUp
  split <;> split <;> omega

theorem Context.Laid.loaded_le {ctx : Context} (laid : ctx.Laid) :
    vhdBytesPadded (ctx.batEntries * 4) ≤ vhdBytesPadded (ctx.maxBatSize * 4) := by
  have covers := laid.covers
  have size := laid.batSize
  exact padded_mono (by omega) (by omega)

theorem Context.Laid.allocated_iff {ctx : Context} (laid : ctx.Laid)
    (loaded : block < ctx.batEntries) :
    ctx.allocated block ↔ ctx.toVhd.table.bat block ≠ ddBlkUnused := by
  rw [table_entry loaded]
  exact and_iff_right (Nat.lt_of_lt_of_le loaded laid.covers)

theorem table_bytes {vhd : Vhd} {p : Nat} (small : p < vhdBytesPadded (vhd.batEntries * 4)) :
    vhd.table.bytes p = vhd.file.byte (vhd.tableOffset + p) := by
  have split : 4 * (p / 4) + p % 4 = p := Nat.div_add_mod p 4
  have last : p % 4 < 4 := Nat.mod_lt _ (by omega)
  have four : vhdBytesPadded (vhd.batEntries * 4) % 4 = 0 := by
    unfold vhdBytesPadded
    omega
  unfold Bat.bytes Vhd.table
  dsimp only
  by_cases loaded : p / 4 < vhd.batEntries
  · rw [if_pos loaded, if_pos loaded, beByte_be32 _ _ last, split]
  · rw [if_neg loaded, if_neg loaded, if_pos (by omega), leByte_le32 _ _ last, split]

theorem Batmap.LoadedFrom.edit {ctx ctx' : Context} {batmap : Batmap}
    (loaded : batmap.LoadedFrom ctx) (edit : ctx.Edit block ctx') (laid : ctx.Laid)
    (full : ctx.full block → ctx'.full block) : batmap.LoadedFrom ctx' := by
  refine ⟨(edit.hasBatmap laid).trans loaded.has, ?_, loaded.cookie, ?_,
    edit.soundMap laid loaded.sound full⟩
  · rw [loaded.header, edit.batmapHeader (Context.looks_of_has loaded.has)]
  · rw [loaded.mapBytes, edit.fields]
    rfl

theorem Context.SoundBatmap.edit {ctx ctx' : Context} (sound : ctx.SoundBatmap)
    (edit : ctx.Edit block ctx') (laid : ctx.Laid) (full : ctx.full block → ctx'.full block)
    (map : ctx.hasBatmap = true → ∀ i < ctx.batmapBytes,
      ctx'.file.byte (ctx.batmapHeader.batmapOffset + i) =
        ctx.file.byte (ctx.batmapHeader.batmapOffset + i)) : ctx'.SoundBatmap := by
  intro has
  rw [edit.hasBatmap laid] at has
  have bytes : ctx'.batmapBytes = ctx.batmapBytes := by rw [edit.fields]; rfl
  have offset : ctx'.batmapHeader.batmapOffset = ctx.batmapHeader.batmapOffset := by
    rw [edit.batmapHeader (Context.looks_of_has has)]
  have sound := edit.soundMap laid (sound has) full
  intro other bound bit
  apply sound other bound
  rw [bytes] at bound
  rw [offset] at bit
  unfold testBit at bit ⊢
  dsimp only at bit ⊢
  rwa [map has _ bound] at bit

theorem Handle.SoundDisk.writes (sound : s.SoundDisk) (writes : s.Writes block t)
    (own : t.allocated block → ∀ p, t.inExtent block p → ¬ s.inMetadata p ∧
      ∀ other, other ≠ block → s.allocated other → ¬ s.inExtent other p)
    (full : s.full block → t.full block)
    (map : s.hasBatmap = true → ∀ p, s.inBatmap p → t.file.byte p = s.file.byte p)
    (memory : t.batmap = s.batmap) : t.SoundDisk := by
  have edit := writes.edit
  refine ⟨edit.laid sound.laid own, ?_, fun batmap loaded => ?_⟩
  · apply sound.disk.edit edit sound.laid full
    intro has i small
    have room := (sound.laid.map has).2.1
    exact map has _ ⟨by omega, by omega⟩
  · rw [memory] at loaded
    exact (sound.memory batmap loaded).edit edit sound.laid full

theorem Context.Laid.own {ctx ctx' : Context} (laid : ctx.Laid)
    (fields : ctx' = { ctx with file := ctx'.file })
    (entry : ctx'.entry block = ctx.entry block) :
    ctx'.allocated block → ∀ p, ctx'.inExtent block p → ¬ ctx.inMetadata p ∧
      ∀ other, other ≠ block → ctx.allocated other → ¬ ctx.inExtent other p := by
  have max : ctx'.maxBatSize = ctx.maxBatSize := by rw [fields]
  have bm : ctx'.bmSecs = ctx.bmSecs := by rw [fields]; rfl
  have spb : ctx'.spb = ctx.spb := by rw [fields]; rfl
  intro allocated p inside
  unfold Vhd.allocated at allocated
  rw [max, entry] at allocated
  unfold Vhd.inExtent at inside
  rw [entry, bm, spb] at inside
  refine ⟨laid.extent block allocated p inside, fun other different allocated' => ?_⟩
  exact laid.disjoint block other allocated allocated' (Ne.symm different) p inside

end Writes

def Handle.nextEnd (s : Handle) (last : Nat) : Nat := last + s.gap last + s.bmSecs + s.spb

structure Handle.Leaves (s t : Handle) : Prop where
  fields : t = { s with file := t.file, faults := t.faults }
  past : ∀ p, t.file.size ≤ p → t.file.byte p = 0
  room : s.dataEnd * 512 ≤ s.file.size → s.dataEnd * 512 ≤ t.file.size
  fits : s.batmapHeaderOffset ≤ t.file.size
  marker : s.looksForBatmap = true → s.batmapHeaderOffset + 512 ≤ t.file.size
  kept : ∀ p, 512 ≤ p → p < s.dataEnd * 512 → t.file.byte p = s.file.byte p

section Leaves
variable {s t u : Handle} {block : Nat}

theorem Handle.Room.inExtent (room : s.Room) (laid : s.toContext.Laid) {p : Nat}
    (allocated : s.allocated block) (inside : s.inExtent block p) :
    512 ≤ p ∧ p < s.dataEnd * 512 := by
  have last := room.extents block allocated
  have front : ¬ p < 512 := fun low => laid.extent block allocated p inside (.inl low)
  have high := inside.2
  omega

theorem Handle.inTable (laid : s.toContext.Laid) {p : Nat} (inside : s.inTableArea p) :
    512 ≤ p ∧ p < s.dataEnd * 512 := by
  have last := Handle.table_le laid
  have front := laid.front
  obtain ⟨low, high⟩ := inside
  unfold Vhd.batmapHeaderOffset at last
  omega

theorem Context.Laid.some {ctx : Context} (laid : ctx.Laid) : 512 ≤ ctx.file.size :=
  laid.front.trans ((Nat.le_add_right _ _).trans laid.table)

theorem Handle.Leaves.writes (leaves : s.Leaves t) (sound : s.SoundDisk) (room : s.Room)
    (block : Nat) : s.Writes block t := by
  refine ⟨?_, ?_, leaves.past, leaves.fits, leaves.marker, ?_, ?_, ?_⟩
  · rw [leaves.fields]
  · rw [leaves.fields]
  · intro p inside _
    obtain ⟨low, high⟩ := Handle.inTable sound.laid inside
    exact leaves.kept p low high
  · intro other _ allocated p inside
    obtain ⟨low, high⟩ := room.inExtent sound.laid allocated inside
    exact leaves.kept p low high
  · intro looks i small _
    have last := room.marker looks
    have front := sound.laid.front
    apply leaves.kept
    · unfold Vhd.batmapHeaderOffset
      omega
    · omega

theorem Handle.Leaves.entry (leaves : s.Leaves t) (laid : s.toContext.Laid)
    (bound : block < s.maxBatSize) : t.entry block = s.entry block := by
  apply Vhd.entry_congr
  · rw [leaves.fields]
  · intro i small
    obtain ⟨low, high⟩ :=
      Handle.inTable laid (laid.inTable bound (Nat.le_add_right _ i) (by omega))
    exact leaves.kept _ low high

theorem Handle.Leaves.content (leaves : s.Leaves t) (sound : s.SoundDisk) (room : s.Room)
    {sector o : Nat} (small : o < 512) : t.content sector o = s.content sector o := by
  apply Vhd.content_congr _ sound.laid.dynamic sound.laid.blockSize
  · exact fun bound => leaves.entry sound.laid bound
  · intro allocated p inside
    obtain ⟨low, high⟩ := room.inExtent sound.laid allocated inside
    exact leaves.kept p low high
  · exact small
  · rw [leaves.fields]

theorem Handle.Leaves.full (leaves : s.Leaves t) (sound : s.SoundDisk) (room : s.Room)
    (full : s.full block) : t.full block := by
  obtain ⟨allocated, marks⟩ := full
  have entry := leaves.entry sound.laid allocated.1
  have spb : t.spb = s.spb := by rw [leaves.fields]; rfl
  have max : t.maxBatSize = s.maxBatSize := by rw [leaves.fields]
  refine ⟨?_, fun nr small => ?_⟩
  · unfold Vhd.allocated
    rw [max, entry]
    exact allocated
  · rw [spb] at small
    rw [entry, ← marks nr small]
    apply Vhd.marks_congr
    · rw [leaves.fields]
    · obtain ⟨low, high⟩ := room.inExtent sound.laid allocated
        (Vhd.bitmap_inExtent sound.laid.blockSize small)
      exact leaves.kept _ low high

theorem Handle.Leaves.table (leaves : s.Leaves t) (laid : s.toContext.Laid) :
    t.toVhd.table = s.toVhd.table := by
  have fits := laid.loaded_le
  apply Vhd.table_congr
  · rw [leaves.fields]
  · intro k small
    obtain ⟨low, high⟩ := Handle.inTable laid (show s.inTableArea (s.tableOffset + k) from
      ⟨Nat.le_add_right _ _, by omega⟩)
    exact leaves.kept _ low high

theorem Handle.Leaves.soundDisk (leaves : s.Leaves t) (sound : s.SoundDisk) (room : s.Room) :
    t.SoundDisk := by
  -- any block will do, for none is changed
  have writes := leaves.writes sound room s.maxBatSize
  have absent : ¬ t.allocated s.maxBatSize := by
    rintro ⟨bound, _⟩
    rw [leaves.fields] at bound
    exact Nat.lt_irrefl _ bound
  apply sound.writes writes
  · exact fun allocated => absurd allocated absent
  · exact leaves.full sound room
  · intro has p inside
    have front := ((sound.laid.map has).2.2 p inside).1
    have last := Handle.batmap_le sound.laid has
    exact leaves.kept p front (by have := inside.2; omega)
  · rw [leaves.fields]

theorem Handle.Leaves.same (leaves : s.Leaves t) (sound : s.SoundDisk) (room : s.Room) :
    t.tableInUse = s.tableInUse ∧ t.dataEnd = s.dataEnd := by
  have inUse : t.tableInUse = s.tableInUse := by
    have bat : t.bat = s.bat := by rw [leaves.fields]
    unfold Handle.tableInUse
    rw [bat, leaves.table sound.laid]
  refine ⟨inUse, ?_⟩
  have ends : ∀ headers bat, t.endOfExtents headers bat = s.endOfExtents headers bat := by
    intro headers bat
    rw [leaves.fields]
    rfl
  unfold Handle.dataEnd
  rw [inUse, ends, (leaves.writes sound room 0).edit.headers sound.laid]

theorem Handle.Leaves.sound (leaves : s.Leaves t) (sound : s.Sound) (room : s.Room) :
    t.Sound := by
  refine ⟨leaves.soundDisk sound.toSoundDisk room, ?_⟩
  rw [(leaves.same sound.toSoundDisk room).1, sound.table, leaves.table sound.laid]

theorem Handle.Leaves.room_of (leaves : s.Leaves t) (sound : s.SoundDisk) (room : s.Room) :
    t.Room := by
  have bm : t.bmSecs = s.bmSecs := by rw [leaves.fields]; rfl
  have spb : t.spb = s.spb := by rw [leaves.fields]; rfl
  have max : t.maxBatSize = s.maxBatSize := by rw [leaves.fields]
  have last := (leaves.same sound room).2
  constructor
  · rintro other ⟨bound, used⟩
    rw [max] at bound
    have entry := leaves.entry sound.laid bound
    rw [entry] at used
    rw [entry, bm, spb, last]
    exact room.extents other ⟨bound, used⟩
  · intro looks
    rw [last]
    rw [leaves.fields] at looks ⊢
    exact room.marker looks

end Leaves

def Bat.setEntry (bat : Bat) (block entry : Nat) : Bat :=
  { bat with bat := Function.update bat.bat block entry }

section Table
variable {s : Handle} {block entry n : Nat} {faults : List (Option Fault)}

theorem Vhd.table_setEntry {vhd vhd' : Vhd} (fields : vhd' = { vhd with file := vhd'.file })
    (loaded : block < vhd.batEntries) (new : vhd'.entry block = entry)
    (same : ∀ k < vhdBytesPadded (vhd.batEntries * 4), ¬ (4 * block ≤ k ∧ k < 4 * block + 4) →
      vhd'.file.byte (vhd.tableOffset + k) = vhd.file.byte (vhd.tableOffset + k)) :
    vhd'.table = vhd.table.setEntry block entry := by
  have entries : vhd'.batEntries = vhd.batEntries := by rw [fields]; rfl
  have offset : vhd'.tableOffset = vhd.tableOffset := by rw [fields]
  have bound : vhd.batEntries < 2 ^ 32 := Nat.mod_lt _ (by omega)
  have padded := padded_le (vhd.batEntries * 4) (by omega)
  have here : vhd'.table.bat block = entry := by
    rw [table_entry (entries.symm ▸ loaded), new]
  unfold Bat.setEntry Vhd.table
  rw [entries, Bat.mk.injEq]
  refine ⟨rfl, rfl, ?_⟩
  funext i
  by_cases at_block : i = block
  · subst at_block
    rw [Function.update_self, ← here]
    simp only [Vhd.table, entries]
  · rw [Function.update_of_ne at_block, offset]
    dsimp only
    split
    · apply be32_congr
      intro k small
      exact same _ (by omega) (by omega)
    · split
      · apply le32_congr
        intro k small
        exact same _ (by omega) (by omega)
      · rfl

def Handle.withEntry (s : Handle) (block entry n : Nat) (faults : List (Option Fault)) : Handle :=
  { s with bat := some (s.toVhd.table.setEntry block entry), faults }.put s.tableOffset n
    (s.toVhd.table.setEntry block entry).bytes

theorem setEntry_bytes {vhd : Vhd} {p : Nat} (small : p < vhdBytesPadded (vhd.batEntries * 4))
    (loaded : block < vhd.batEntries) : (vhd.table.setEntry block entry).bytes p =
      if p / 4 = block then beByte 4 entry (p % 4) else vhd.file.byte (vhd.tableOffset + p) := by
  by_cases here : p / 4 = block
  · have entries : p / 4 < (vhd.table.setEntry block entry).entries := here ▸ loaded
    unfold Bat.bytes
    rw [if_pos entries, if_pos here]
    simp [Bat.setEntry, here]
  · rw [if_neg here, ← table_bytes small]
    unfold Bat.bytes Bat.setEntry
    simp only [Function.update_of_ne here]

theorem withEntry_byte (laid : s.toContext.Laid) (loaded : block < s.batEntries)
    (part : n ≤ vhdBytesPadded (s.batEntries * 4)) {p : Nat}
    (apart : ¬ (s.tableOffset + 4 * block ≤ p ∧ p < s.tableOffset + 4 * block + 4)) :
    (s.withEntry block entry n faults).file.byte p = s.file.byte p := by
  apply Context.put_kept laid
  intro low high
  rw [setEntry_bytes (by omega) loaded, if_neg (by omega)]
  congr 1
  omega

theorem withEntry_entry (loaded : block < s.batEntries)
    (part : n ≤ vhdBytesPadded (s.batEntries * 4)) (bound : entry < 2 ^ 32)
    (inside : 4 * block + 4 ≤ n) : (s.withEntry block entry n faults).entry block = entry := by
  apply be32_beByte bound
  intro i small
  have offset : (s.withEntry block entry n faults).tableOffset = s.tableOffset := rfl
  rw [offset]
  refine (File.put_inside (by omega) (by omega)).trans ?_
  have place : s.tableOffset + 4 * block + i - s.tableOffset = 4 * block + i := by omega
  rw [place, setEntry_bytes (by omega) loaded, if_pos (by omega)]
  congr 1
  omega

theorem withEntry_before (laid : s.toContext.Laid) (outside : n ≤ 4 * block) :
    (s.withEntry block entry n faults).entry block = s.entry block := by
  apply Vhd.entry_congr
  · rfl
  · intro i small
    exact File.put_outside laid.past (by omega)

theorem withEntry_writes (laid : s.toContext.Laid) (loaded : block < s.batEntries)
    (part : n ≤ vhdBytesPadded (s.batEntries * 4)) :
    s.Writes block (s.withEntry block entry n faults) := by
  have fits := laid.loaded_le
  refine ⟨rfl, laid.edit fun p low high => ?_⟩
  by_cases word : s.tableOffset + 4 * block ≤ p ∧ p < s.tableOffset + 4 * block + 4
  · refine .inr ⟨fun _ => word, fun other _ allocated inside => ?_, fun _ header => ?_⟩
    · exact laid.extent other allocated p inside (.inr (.inl ⟨low, by omega⟩))
    · have := header.1
      unfold Vhd.batmapHeaderOffset at this
      omega
  · refine .inl ?_
    rw [setEntry_bytes (by omega) loaded, if_neg (by omega)]
    congr 1
    omega

def Handle.freeEntry (s : Handle) : Nat := s.dataEnd + s.gap s.dataEnd

theorem withEntry_word (sound : s.Sound) (loaded : block < s.batEntries)
    (unused : ¬ s.allocated block) (fits : s.freeEntry < ddBlkUnused)
    (part : n ≤ vhdBytesPadded (s.batEntries * 4)) (whole : n % 4 = 0) :
    (s.withEntry block s.freeEntry n faults).entry block = s.freeEntry ∨
      ¬ (s.withEntry block s.freeEntry n faults).allocated block := by
  by_cases inside : 4 * block + 4 ≤ n
  · unfold ddBlkUnused at fits
    exact .inl (withEntry_entry loaded part (by omega) inside)
  · right
    rintro ⟨bound, used⟩
    rw [withEntry_before sound.laid (by omega)] at used
    exact unused ⟨bound, used⟩

theorem withEntry_soundDisk (sound : s.Sound) (room : s.Room) (loaded : block < s.batEntries)
    (unused : ¬ s.allocated block) (fits : s.freeEntry < ddBlkUnused)
    (part : n ≤ vhdBytesPadded (s.batEntries * 4)) (whole : n % 4 = 0) :
    (s.withEntry block s.freeEntry n faults).SoundDisk := by
  have writes : s.Writes block (s.withEntry block s.freeEntry n faults) :=
    withEntry_writes sound.laid loaded part
  apply sound.toSoundDisk.writes writes
  · intro allocated p inside
    have entry := (withEntry_word sound loaded unused fits part whole).resolve_right
      (not_not.mpr allocated)
    have behind : s.dataEnd * 512 ≤ p := by
      have low := inside.1
      rw [entry] at low
      exact (Nat.mul_le_mul_right 512 (Nat.le_add_right _ _)).trans low
    refine ⟨?_, fun other _ allocated' inside' => ?_⟩
    · rintro (front | table | ⟨looks, header⟩ | ⟨has, map⟩)
      · have last := Handle.table_le sound.laid
        have start := sound.laid.front
        unfold Vhd.batmapHeaderOffset at last
        omega
      · have := Handle.inTable sound.laid table
        omega
      · have := room.marker looks
        have := header.2
        omega
      · have := Handle.batmap_le sound.laid has
        have := map.2
        omega
    · have := room.inExtent sound.laid allocated' inside'
      omega
  · exact fun full => absurd full.1 unused
  · intro has p inside
    apply withEntry_byte sound.laid loaded part
    intro word
    have apart := ((sound.laid.map has).2.2 p inside).2.1
    exact apart (sound.laid.inTable (Nat.lt_of_lt_of_le loaded sound.laid.covers) word.1 word.2)
  · rfl

theorem withEntry_dataEnd (sound : s.Sound) (loaded : block < s.batEntries)
    (unused : ¬ s.allocated block) (fits : s.freeEntry < ddBlkUnused)
    (part : n ≤ vhdBytesPadded (s.batEntries * 4)) :
    (s.withEntry block s.freeEntry n faults).dataEnd = s.nextEnd s.dataEnd := by
  have writes : s.Writes block (s.withEntry block s.freeEntry n faults) :=
    withEntry_writes sound.laid loaded part
  have headers : (s.withEntry block s.freeEntry n faults).headers = s.headers :=
    writes.edit.headers sound.laid
  have spb : (s.withEntry block s.freeEntry n faults).spb = s.spb := rfl
  have bm : (s.withEntry block s.freeEntry n faults).bmSecs = s.bmSecs := rfl
  have before := endOfExtents_le.mp (Nat.le_refl s.dataEnd)
  rw [sound.table] at before
  apply Nat.le_antisymm
  · apply endOfExtents_le.mpr
    rw [headers, spb, bm]
    unfold Handle.nextEnd
    refine ⟨by have := before.1; omega, fun i inside used => ?_⟩
    by_cases here : i = block
    · subst here
      simp only [Handle.withEntry, Handle.tableInUse, Handle.put, Option.getD_some, Bat.setEntry,
        Function.update_self, Handle.freeEntry]
      omega
    · have same : (s.withEntry block s.freeEntry n faults).tableInUse.bat i =
          s.toVhd.table.bat i := Function.update_of_ne here _ _
      rw [same] at used ⊢
      have := before.2 i inside used
      omega
  · have after := (endOfExtents_le.mp
      (Nat.le_refl (s.withEntry block s.freeEntry n faults).dataEnd)).2 block loaded
    have entry : (s.withEntry block s.freeEntry n faults).tableInUse.bat block = s.freeEntry :=
      Function.update_self _ _ _
    rw [entry, spb, bm] at after
    have last := after (Nat.ne_of_lt fits)
    have free : s.freeEntry = s.dataEnd + s.gap s.dataEnd := rfl
    unfold Handle.nextEnd
    omega

theorem withEntry_room (sound : s.Sound) (room : s.Room) (loaded : block < s.batEntries)
    (unused : ¬ s.allocated block) (fits : s.freeEntry < ddBlkUnused)
    (part : n ≤ vhdBytesPadded (s.batEntries * 4)) (whole : n % 4 = 0) :
    (s.withEntry block s.freeEntry n faults).Room := by
  have edit := (withEntry_writes sound.laid loaded part : s.Writes block
    (s.withEntry block s.freeEntry n faults)).edit
  have last : (s.withEntry block s.freeEntry n faults).dataEnd = s.nextEnd s.dataEnd :=
    withEntry_dataEnd sound loaded unused fits part
  have spb : (s.withEntry block s.freeEntry n faults).spb = s.spb := rfl
  have bm : (s.withEntry block s.freeEntry n faults).bmSecs = s.bmSecs := rfl
  constructor
  · intro other allocated
    rw [last, spb, bm]
    unfold Handle.nextEnd
    by_cases here : other = block
    · subst here
      rw [(withEntry_word sound loaded unused fits part whole).resolve_right (not_not.mpr allocated)]
      unfold Handle.freeEntry
      omega
    · have before := (edit.allocated_iff sound.laid here).mp allocated
      rw [edit.entry sound.laid before.1 here]
      have := room.extents other before
      omega
  · intro looks
    rw [last]
    have := room.marker looks
    unfold Handle.nextEnd
    exact this.trans (Nat.mul_le_mul_right _ (by omega))

theorem withEntry_sound (sound : s.Sound) (room : s.Room) (loaded : block < s.batEntries)
    (unused : ¬ s.allocated block) (fits : s.freeEntry < ddBlkUnused) :
    (s.withEntry block s.freeEntry (vhdBytesPadded (s.batEntries * 4)) faults).Sound := by
  have four : vhdBytesPadded (s.batEntries * 4) % 4 = 0 := by
    unfold vhdBytesPadded
    omega
  refine ⟨withEntry_soundDisk sound room loaded unused fits (Nat.le_refl _) four, ?_⟩
  have within : 4 * block + 4 ≤ vhdBytesPadded (s.batEntries * 4) := by
    have bound : s.batEntries < 2 ^ 32 := Nat.mod_lt _ (by omega)
    have padded := padded_le (s.batEntries * 4) (by omega)
    omega
  symm
  apply Vhd.table_setEntry rfl loaded
  · apply withEntry_entry loaded (Nat.le_refl _) _ within
    unfold ddBlkUnused at fits
    omega
  · exact fun k _ apart => withEntry_byte sound.laid loaded (Nat.le_refl _) (by omega)

end Table

section Allocate
variable {s t : Handle} {block : Nat}

theorem Handle.Loads.dataEnd (loads : s.Loads t) : t.dataEnd = s.dataEnd := by
  have ends : ∀ headers bat, t.endOfExtents headers bat = s.endOfExtents headers bat := by
    intro headers bat
    rw [loads.fields]
  unfold Handle.dataEnd
  rw [loads.inUse, ends, loads.context]

theorem Handle.Loads.room (loads : s.Loads t) (room : s.Room) : t.Room := by
  have last := loads.dataEnd
  constructor
  · rw [last, loads.fields]
    exact room.extents
  · rw [last, loads.fields]
    exact room.marker

structure Handle.Allocates (block : Nat) (s t : Handle) : Prop where
  writes : s.Writes block t
  disk : t.SoundDisk
  room : t.Room
  last : t.dataEnd ≤ s.nextEnd s.dataEnd
  clear : t.allocated block → ∀ nr < s.spb, t.marks (t.entry block) nr = false
  entry : t.allocated block → t.entry block = s.freeEntry
  reach : t.allocated block → (s.dataEnd + s.cleared s.dataEnd) * 512 ≤ t.file.size
  kept : ∀ p, p < s.dataEnd * 512 → ¬ s.inTableArea p → t.file.byte p = s.file.byte p
  blanks : s.file.Blanks t.file
  ends : s.dataEnd ≤ t.dataEnd

theorem Handle.Leaves.put_behind (sound : s.SoundDisk) {faults : List (Option Fault)} {size : Nat}
    {data : Nat → UInt8} : s.Leaves ({ s with faults }.put (s.dataEnd * 512) size data) := by
  have grows : s.file.size ≤ ({ s with faults }.put (s.dataEnd * 512) size data).file.size :=
    Context.put_size_le
  refine ⟨rfl, File.put_past sound.laid.past, fun fits => fits.trans grows,
    sound.laid.table.trans grows, fun looks => (sound.laid.marker looks).trans grows, ?_⟩
  intro p _ before
  exact File.put_outside sound.laid.past (by omega)

theorem marks_zero {vhd : Vhd} {entry nr : Nat} (zero : vhd.file.byte (entry * 512 + nr / 8) = 0) :
    vhd.marks entry nr = false := by
  simp [Vhd.marks, vhdBitmapTest, testBit, oldTestBit, zero]

theorem Handle.Allocates.untouched (same : s.Writes block t) (disk : t.SoundDisk) (room : t.Room)
    (last : t.dataEnd = s.dataEnd) (unused : ¬ t.allocated block)
    (kept : ∀ p, p < s.dataEnd * 512 → t.file.byte p = s.file.byte p)
    (blanks : s.file.Blanks t.file) : s.Allocates block t := by
  refine ⟨same, disk, room, ?_, fun allocated => absurd allocated unused,
    fun allocated => absurd allocated unused, fun allocated => absurd allocated unused,
    fun p before _ => kept p before, blanks, last.ge⟩
  rw [last]
  exact (Nat.le_add_right _ _).trans ((Nat.le_add_right _ _).trans (Nat.le_add_right _ _))

theorem Handle.Leaves.allocates {u : Handle} (leaves : s.Leaves t) (sound : s.Sound) (room : s.Room)
    (kept : ∀ p, p < s.dataEnd * 512 → t.file.byte p = s.file.byte p)
    (blanks : s.file.Blanks t.file)
    (allocates : t.Allocates block u) : s.Allocates block u := by
  have spb : t.spb = s.spb := by rw [leaves.fields]; rfl
  have table : t.inTableArea = s.inTableArea := by rw [leaves.fields]; rfl
  have ends := (leaves.same sound.toSoundDisk room).2
  have free : t.freeEntry = s.freeEntry := by
    unfold Handle.freeEntry
    rw [ends, leaves.fields]
    rfl
  have cleared : ∀ last, t.cleared last = s.cleared last := by
    intro last
    rw [leaves.fields]
    rfl
  refine ⟨(leaves.writes sound.toSoundDisk room block).trans allocates.writes sound.laid,
    allocates.disk, allocates.room, ?_, spb ▸ allocates.clear, free ▸ allocates.entry, ?_, ?_,
    blanks.trans allocates.blanks, ends ▸ allocates.ends⟩
  · have last := allocates.last
    rw [ends] at last
    rw [leaves.fields] at last
    exact last
  · have reach := allocates.reach
    rwa [ends, cleared] at reach
  · intro p before apart
    rw [allocates.kept p (by rwa [ends]) (by rwa [table]), kept p before]

theorem wp_writeEntry (sound : s.Sound) (room : s.Room) (loaded : block < s.batEntries)
    (unused : ¬ s.allocated block) (fits : s.freeEntry < ddBlkUnused)
    (clear : ∀ i < s.bmSecs * 512, s.file.byte (s.freeEntry * 512 + i) = 0)
    (reach : (s.dataEnd + s.cleared s.dataEnd) * 512 ≤ s.file.size) (ready : s.Ready) :
    wp vhdWriteBat (fun _ t => s.Allocates block t ∧ t.Sound ∧ t.allocated block ∧ t.Ready)
      (fun _ t => s.Allocates block t)
      { s with bat := some (s.toVhd.table.setEntry block s.freeEntry) } := by
  have max : block < s.maxBatSize := Nat.lt_of_lt_of_le loaded sound.laid.covers
  have four : vhdBytesPadded (s.batEntries * 4) % 4 = 0 := by
    unfold vhdBytesPadded
    omega
  have room_file : s.tableOffset + vhdBytesPadded (s.batEntries * 4) ≤ s.file.size :=
    (Nat.add_le_add_left sound.laid.loaded_le _).trans sound.laid.table
  have allocates : ∀ faults n, n ≤ vhdBytesPadded (s.batEntries * 4) → n % 4 = 0 →
      s.Allocates block (s.withEntry block s.freeEntry n faults) := by
    intro faults n part whole
    refine ⟨withEntry_writes sound.laid loaded part,
      withEntry_soundDisk sound room loaded unused fits part whole,
      withEntry_room sound room loaded unused fits part whole,
      Nat.le_of_eq (withEntry_dataEnd sound loaded unused fits part), fun allocated nr small => ?_,
      fun allocated => (withEntry_word sound loaded unused fits part whole).resolve_right
        (not_not.mpr allocated), fun _ => reach.trans Context.put_size_le, fun p _ apart => ?_, ?_, ?_⟩
    rotate_left
    · exact withEntry_byte sound.laid loaded part fun word =>
        apart (sound.laid.inTable max word.1 word.2)
    · apply File.blanks_below
      have last := Handle.table_le sound.laid
      have fits := sound.laid.loaded_le
      have bitmap := secsRoundUpNoZero_pos (s.spb / 8)
      have positive : 1 ≤ s.cleared s.dataEnd := by
        unfold Handle.cleared Vhd.bmSecs
        omega
      have sector := (Nat.mul_le_mul_right 512 (Nat.add_le_add_left positive s.dataEnd)).trans reach
      unfold Vhd.batmapHeaderOffset at last
      omega
    · refine Nat.le_trans ?_ (withEntry_dataEnd sound loaded unused fits part).ge
      unfold Handle.nextEnd
      omega
    rw [(withEntry_word sound loaded unused fits part whole).resolve_right (not_not.mpr allocated)]
    have fitsBitmap := Vhd.spb_le sound.laid.blockSize
    apply marks_zero
    rw [withEntry_byte sound.laid loaded part]
    · exact clear _ (by omega)
    · intro word
      have inTable := Handle.inTable sound.laid (sound.laid.inTable max word.1 word.2)
      unfold Handle.freeEntry at inTable
      omega
  unfold vhdWriteBat
  simp only [wp_bind, wp_get]
  rw [wp_loadedBat rfl]
  apply wp_vhdWrite
  · intro faults _
    have after := allocates faults _ (Nat.le_refl _) four
    have ready' :
        (s.withEntry block s.freeEntry (vhdBytesPadded (s.batEntries * 4)) faults).Ready := by
      refine ⟨rfl, fun has => ?_⟩
      rw [after.writes.edit.hasBatmap sound.laid] at has
      exact ready.map has
    refine ⟨after, withEntry_sound sound room loaded unused fits, ?_, ready'⟩
    have padded := padded_le (s.batEntries * 4)
      (by have : s.batEntries < 2 ^ 32 := Nat.mod_lt _ (by omega)
          omega)
    have entry : (s.withEntry block s.freeEntry (vhdBytesPadded (s.batEntries * 4)) faults).entry
        block = s.freeEntry :=
      withEntry_entry loaded (Nat.le_refl _) (by unfold ddBlkUnused at fits; omega) (by omega)
    refine ⟨max, ?_⟩
    change (s.withEntry block s.freeEntry (vhdBytesPadded (s.batEntries * 4)) faults).entry block ≠ _
    rw [entry]
    exact Nat.ne_of_lt fits
  · intro faults code n part whole
    apply allocates faults n part
    change n ≤ vhdBytesPadded (s.batEntries * 4) at part
    change n = vhdBytesPadded (s.batEntries * 4) ∨ 512 ∣ n ∨ s.tableOffset + n = s.file.size at whole
    omega

theorem wp_allocateAt (sound : s.Sound) (room : s.Room) (loaded : block < s.batEntries)
    (unused : ¬ s.allocated block) (fits : s.freeEntry < ddBlkUnused)
    (ready : s.Ready) :
    wp (allocateAt block (s.dataEnd * 512)) (fun _ t => s.Allocates block t ∧ t.Sound ∧
      t.allocated block ∧ t.Ready) (fun _ t => s.Allocates block t) s := by
  have max : block < s.maxBatSize := Nat.lt_of_lt_of_le loaded sound.laid.covers
  unfold allocateAt
  simp only [wp_bind, wp_get, Nat.mul_div_cancel _ (show 0 < 512 by omega)]
  apply wp_vhdWrite
  · intro faults _
    have leaves : s.Leaves ({ s with faults }.put (s.dataEnd * 512) (s.cleared s.dataEnd * 512)
        fun _ => 0) := .put_behind sound.toSoundDisk
    have clear : ∀ i < s.bmSecs * 512, ({ s with faults }.put (s.dataEnd * 512)
        (s.cleared s.dataEnd * 512) fun _ => 0).file.byte (s.freeEntry * 512 + i) = 0 := by
      intro i small
      unfold Handle.freeEntry
      have enough : s.bmSecs + s.gap s.dataEnd ≤ s.cleared s.dataEnd := Nat.le_add_right _ _
      have low : s.dataEnd * 512 ≤ (s.dataEnd + s.gap s.dataEnd) * 512 + i := by omega
      have high : (s.dataEnd + s.gap s.dataEnd) * 512 + i <
          s.dataEnd * 512 + s.cleared s.dataEnd * 512 := by omega
      exact (File.put_inside low high :
        (s.file.put (s.dataEnd * 512) (s.cleared s.dataEnd * 512) fun _ => 0).byte _ = _)
    have reach : (s.dataEnd + s.cleared s.dataEnd) * 512 ≤ ({ s with faults }.put (s.dataEnd * 512)
        (s.cleared s.dataEnd * 512) fun _ => 0).file.size := by
      rw [Nat.add_mul]
      have positive : 0 < s.cleared s.dataEnd := by
        have bitmap := secsRoundUpNoZero_pos (s.spb / 8)
        unfold Handle.cleared Vhd.bmSecs
        omega
      exact File.put_reach (Nat.mul_pos positive (by decide))
    have kept : ∀ p, p < s.dataEnd * 512 → ({ s with faults }.put (s.dataEnd * 512)
        (s.cleared s.dataEnd * 512) fun _ => 0).file.byte p = s.file.byte p :=
      fun p before => Context.put_kept sound.laid fun low _ => absurd low (Nat.not_le.mpr before)
    have blanks : s.file.Blanks ({ s with faults }.put (s.dataEnd * 512)
        (s.cleared s.dataEnd * 512) fun _ => 0).file :=
      File.blanks_zero sound.laid.some (Nat.dvd_mul_left _ _) fun _ => Nat.dvd_mul_left _ _
    generalize { s with faults }.put (s.dataEnd * 512) (s.cleared s.dataEnd * 512) (fun _ => 0) = t
      at leaves clear reach kept blanks ⊢
    have sound' := leaves.sound sound room
    have room' := leaves.room_of sound.toSoundDisk room
    have same := leaves.same sound.toSoundDisk room
    have free : t.freeEntry = s.freeEntry := by
      unfold Handle.freeEntry
      rw [same.2, leaves.fields]
      rfl
    have next : ∀ last, t.nextEnd last = s.nextEnd last := by
      intro last
      rw [leaves.fields]
      rfl
    have cleared : ∀ last, t.cleared last = s.cleared last := by
      intro last
      rw [leaves.fields]
      rfl
    have entries : t.batEntries = s.batEntries := by rw [leaves.fields]; rfl
    have bm : t.bmSecs = s.bmSecs := by rw [leaves.fields]; rfl
    have spb : t.spb = s.spb := by rw [leaves.fields]; rfl
    have bat : t.bat = some t.toVhd.table := by
      rw [← sound'.table, same.1, ← ready.table, leaves.fields]
    have ready' : t.Ready := by
      refine ⟨bat.trans (by rw [sound'.table]), fun has => ?_⟩
      rw [(leaves.writes sound.toSoundDisk room block).edit.hasBatmap sound.laid] at has
      rw [leaves.fields]
      exact ready.map has
    have unused' : ¬ t.allocated block := by
      rintro ⟨_, used⟩
      rw [leaves.entry sound.laid max] at used
      exact unused ⟨max, used⟩
    have value : (s.dataEnd + t.gap s.dataEnd) % 2 ^ 32 = t.freeEntry := by
      rw [← same.2]
      change t.freeEntry % 2 ^ 32 = t.freeEntry
      unfold ddBlkUnused at fits
      exact Nat.mod_eq_of_lt (by omega)
    rw [wp_loadedBat bat]
    simp only [wp_modify, value]
    change wp vhdWriteBat _ _ { t with bat := some (t.toVhd.table.setEntry block t.freeEntry) }
    apply (wp_writeEntry sound' room' (entries ▸ loaded) unused' (free ▸ fits)
      (by rw [bm, free]; exact clear) (by rw [same.2, cleared]; exact reach) ready').mono
    · rintro _ u ⟨allocates, rest⟩
      exact ⟨leaves.allocates sound room kept blanks allocates, rest⟩
    · exact fun _ u allocates => leaves.allocates sound room kept blanks allocates
  · intro faults code n _ part
    have leaves : s.Leaves ({ s with faults }.put (s.dataEnd * 512) n fun _ => 0) :=
      .put_behind sound.toSoundDisk
    apply Handle.Allocates.untouched (leaves.writes sound.toSoundDisk room block)
      (leaves.soundDisk sound.toSoundDisk room) (leaves.room_of sound.toSoundDisk room)
      (leaves.same sound.toSoundDisk room).2
    · rintro ⟨bound, used⟩
      rw [leaves.entry sound.laid max] at used
      exact unused ⟨max, used⟩
    · exact fun p before => Context.put_kept sound.laid fun low _ =>
        absurd low (Nat.not_le.mpr before)
    · exact File.blanks_zero sound.laid.some (Nat.dvd_mul_left _ _) fun whole =>
        sectors_part whole (Nat.dvd_mul_left _ _) (Nat.dvd_mul_left _ _) part

theorem wp_allocateBlock (sound : s.Sound) (room : s.Room) (loaded : block < s.batEntries)
    (unused : ¬ s.allocated block) (fits : s.freeEntry < ddBlkUnused) :
    wp (allocateBlock block) (fun _ t => s.Allocates block t ∧ t.Sound ∧ t.allocated block ∧
      t.Ready) (fun _ t => s.Allocates block t) s := by
  unfold allocateBlock
  simp only [wp_bind]
  apply (wp_endOfData sound.toSoundDisk).mono
  · rintro _ t ⟨rfl, loads, ready⟩
    have sound' := loads.sound sound
    have unused' : ¬ t.allocated block := by rw [loads.fields]; exact unused
    have last := loads.dataEnd
    have allocates : ∀ {u}, t.Allocates block u → s.Allocates block u := by
      rintro u ⟨writes, disk, room, next, clear, entry, reach, kept, blanks, ends⟩
      refine ⟨(loads.writes sound.laid block).trans writes sound.laid, disk, room, ?_, ?_, ?_, ?_,
        ?_, ?_, last ▸ ends⟩
      · rw [last, loads.fields] at next
        exact next
      · rw [loads.fields] at clear
        exact clear
      · unfold Handle.freeEntry at entry ⊢
        rw [last, loads.fields] at entry
        exact entry
      · rw [last, loads.fields] at reach
        exact reach
      · rw [last, loads.fields] at kept
        exact kept
      · rw [loads.fields] at blanks
        exact blanks
    change wp (allocateAt block (s.dataEnd * 512)) _ _ t
    rw [← last]
    apply (wp_allocateAt sound' (loads.room room) (by rw [loads.fields]; exact loaded) unused' ?_
      ready).mono
    · rintro _ u ⟨allocated, rest⟩
      exact ⟨allocates allocated, rest⟩
    · exact fun _ u allocated => allocates allocated
    · unfold Handle.freeEntry
      rw [last, loads.fields]
      exact fits
  · intro _ t loads
    apply Handle.Allocates.untouched (loads.writes sound.laid block)
      (loads.soundDisk sound.toSoundDisk) (loads.room room) loads.dataEnd
    · rw [loads.fields]
      exact unused
    · rw [loads.fields]
      exact fun _ _ => rfl
    · rw [loads.fields]
      exact .refl _

theorem Handle.Allocates.content (allocates : s.Allocates block t) (sound : s.SoundDisk)
    (unused : ¬ s.allocated block) {sector o : Nat} (small : o < 512) :
    t.content sector o = s.content sector o := by
  have spb : t.spb = s.spb := by rw [allocates.writes.fields]; rfl
  have type : t.typeDynamic = true := allocates.disk.laid.dynamic
  by_cases here : sector / s.spb = block
  · have absent : ¬ s.holds sector := by
      rintro ⟨_, held⟩
      have held := held sound.laid.dynamic
      exact unused (here ▸ held.1)
    have absent' : ¬ t.holds sector := by
      rintro ⟨_, held⟩
      have held := held type
      rw [spb, here] at held
      rw [allocates.clear held.1 _ (Nat.mod_lt _ (Vhd.spb_pos sound.laid.blockSize))] at held
      exact absurd held.2 (by decide)
    unfold Vhd.content
    rw [if_neg absent, if_neg absent']
  · exact allocates.writes.edit.content_other sound.laid here small

end Allocate

end Blktap.Libvhd
