import Blktap.Libvhd.WriteTurn

/-! # The marks of written sectors -/

namespace Blktap.Libvhd
open Lib Action

structure Handle.Marked (block sec cnt : Nat) (s t : Handle) : Prop where
  stores : s.Stores block t
  kept : ∀ nr < s.spb, s.marks (s.entry block) nr = true → t.marks (s.entry block) nr = true
  new : ∀ nr < s.spb, t.marks (s.entry block) nr = true →
    s.marks (s.entry block) nr = true ∨ sec ≤ nr ∧ nr < sec + cnt
  data : ∀ nr < s.spb, ∀ o < 512,
    t.file.byte ((s.entry block + s.bmSecs + nr) * 512 + o) =
      s.file.byte ((s.entry block + s.bmSecs + nr) * 512 + o)

section Marks
variable {s t u : Handle} {block sec cnt : Nat} {map : Nat → UInt8}

theorem Handle.Marked.full (marked : s.Marked block sec cnt t) (laid : s.toContext.Laid)
    (full : s.full block) : t.full block := by
  have spb : t.spb = s.spb := by rw [marked.stores.fields]; rfl
  refine ⟨(marked.stores.allocated_iff laid).mpr full.1, fun nr small => ?_⟩
  rw [spb] at small
  rw [marked.stores.entry laid full.1.1]
  exact marked.kept nr small (full.2 nr small)

theorem Handle.Marked.spares (marked : s.Marked block sec cnt t) (sound : s.SoundDisk)
    (allocated : s.allocated block) : s.toVhd.Spares t.toVhd (s.inTurn block sec cnt) := by
  apply marked.stores.spares sound allocated
  · intro nr small apart
    rw [Vhd.inTurn_at (Vhd.spb_pos sound.laid.blockSize) small] at apart
    rw [Bool.eq_iff_iff]
    exact ⟨fun after => (marked.new nr small after).resolve_right apart, marked.kept nr small⟩
  · exact fun nr small _ => marked.data nr small

theorem put_marks {entry n nr : Nat} {faults : List (Option Fault)} (inside : nr / 8 < n) :
    ({ s with faults }.put (entry * 512) n map).marks entry nr = vhdBitmapTest s.toVhd map nr := by
  apply Vhd.marks_eq
  · rfl
  · refine (File.put_inside (Nat.le_add_right _ _) (by omega)).trans ?_
    rw [Nat.add_sub_cancel_left]

theorem marked_put (sound : s.SoundDisk) (allocated : s.allocated block)
    (disk : ∀ i, map i = s.file.byte (s.entry block * 512 + i)) {n : Nat} (part : n ≤ s.bmSecs * 512)
    {faults : List (Option Fault)} :
    s.Marked block sec cnt ({ s with faults }.put (s.entry block * 512) n
      (vhdBitmapSets s.toVhd sec cnt map)) := by
  have tests : ∀ nr, vhdBitmapTest s.toVhd map nr = s.marks (s.entry block) nr :=
    fun nr => (Vhd.marks_eq rfl (disk _).symm).symm
  have sets := vhdBitmapTest_sets s.toVhd sec cnt map
  have bytes : ∀ nr, ({ s with faults }.put (s.entry block * 512) n
      (vhdBitmapSets s.toVhd sec cnt map)).marks (s.entry block) nr =
        vhdBitmapTest s.toVhd (vhdBitmapSets s.toVhd sec cnt map) nr ∨
      ({ s with faults }.put (s.entry block * 512) n
        (vhdBitmapSets s.toVhd sec cnt map)).marks (s.entry block) nr =
          s.marks (s.entry block) nr := by
    intro nr
    by_cases inside : nr / 8 < n
    · exact .inl (put_marks inside)
    · right
      apply Vhd.marks_congr
      · rfl
      · exact File.put_outside sound.laid.past (by omega)
  have fits := Vhd.spb_le sound.laid.blockSize
  refine ⟨Handle.stores_extent sound.laid allocated (Nat.le_refl _) (by omega), ?_, ?_, ?_⟩
  · intro nr _ before
    rcases bytes nr with new | old
    · rw [new, sets, tests, before]
      rfl
    · rw [old, before]
  · intro nr _ after
    rcases bytes nr with new | old
    · rw [new, sets, tests, Bool.or_eq_true, decide_eq_true_eq] at after
      exact after
    · exact .inl (old ▸ after)
  · intro nr _ o _
    exact File.put_outside sound.laid.past (by omega)

theorem wp_vhdWriteBitmap (sound : s.Sound) (loaded : block < s.batEntries)
    (allocated : s.allocated block) (ready : s.Ready)
    (disk : ∀ i, map i = s.file.byte (s.entry block * 512 + i)) :
    wp (vhdWriteBitmap block (vhdBitmapSets s.toVhd sec cnt map))
      (fun _ t => s.Marked block sec cnt t ∧ t.Sound ∧ t.Ready ∧
        (∀ nr < s.spb, t.marks (s.entry block) nr =
          (s.marks (s.entry block) nr || decide (sec ≤ nr ∧ nr < sec + cnt))) ∧
        ∀ nr < s.spb, vhdBitmapTest t.toVhd (vhdBitmapSets s.toVhd sec cnt map) nr =
          t.marks (s.entry block) nr)
      (fun _ t => s.Marked block sec cnt t ∧ t.SoundDisk) s := by
  have entries : s.tableInUse.entries = s.batEntries := by rw [sound.table]; rfl
  have entry : s.tableInUse.bat block = s.entry block := by rw [sound.table, table_entry loaded]
  have keeps : ∀ {t}, s.Marked block sec cnt t → t.batmap = s.batmap →
      (s.hasBatmap = true → ∀ p, s.inBatmap p → t.file.byte p = s.file.byte p) → t.SoundDisk := by
    intro t marked batmap map
    exact sound.toSoundDisk.writes marked.stores.writes (marked.stores.own sound.laid allocated.1)
      (marked.full sound.laid) map batmap
  unfold vhdWriteBitmap
  simp only [wp_bind, wp_get]
  rw [if_neg (by simp [sound.laid.dynamic])]
  simp only [wp_bind]
  rw [wp_loadedBat ready.table, entries, entry, if_neg (Nat.not_le.mpr loaded),
    if_neg allocated.2]
  have fits := Vhd.spb_le sound.laid.blockSize
  have tests : ∀ nr, vhdBitmapTest s.toVhd map nr = s.marks (s.entry block) nr :=
    fun nr => (Vhd.marks_eq rfl (disk _).symm).symm
  apply wp_vhdWrite
  · intro faults _
    have marked : s.Marked block sec cnt ({ s with faults }.put (s.entry block * 512)
        (s.bmSecs * 512) (vhdBitmapSets s.toVhd sec cnt map)) :=
      marked_put sound.toSoundDisk allocated disk (Nat.le_refl _)
    have disk' := keeps marked rfl fun has p inside =>
      Handle.extent_map sound.laid allocated (Nat.le_refl _) (by omega) has inside
    refine ⟨marked, marked.stores.sound sound disk', marked.stores.ready sound.laid ready id,
      fun nr small => ?_, fun nr small => ?_⟩
    · rw [put_marks (by omega), vhdBitmapTest_sets, tests]
    · rw [put_marks (by omega)]
      exact vhdBitmapTest_congr rfl _ _
  · intro faults code n part _
    have marked : s.Marked block sec cnt ({ s with faults }.put (s.entry block * 512) n
        (vhdBitmapSets s.toVhd sec cnt map)) :=
      marked_put sound.toSoundDisk allocated disk part
    refine ⟨marked, keeps marked rfl fun has p inside => ?_⟩
    exact Handle.extent_map sound.laid allocated (Nat.le_refl _) (by omega) has inside

end Marks

structure Handle.MapWrites (s t : Handle) : Prop where
  stores : ∀ block, s.Stores block t
  disk : t.SoundDisk
  batmap : t.batmap = s.batmap
  extents : ∀ block, s.allocated block → ∀ p, s.inExtent block p → t.file.byte p = s.file.byte p

section Map
variable {s t u : Handle} {batmap : Batmap} {off n : Nat} {data : Nat → UInt8}

theorem Handle.MapWrites.trans (first : s.MapWrites t) (second : t.MapWrites u)
    (laid : s.toContext.Laid) : s.MapWrites u := by
  refine ⟨fun block => (first.stores block).trans (second.stores block) laid, second.disk,
    second.batmap.trans first.batmap, fun block allocated p inside => ?_⟩
  have stores := first.stores block
  have allocated' := (stores.allocated_iff laid).mpr allocated
  have inside' : t.inExtent block p := by
    unfold Vhd.inExtent
    rw [stores.entry laid allocated.1, stores.fields]
    exact inside
  rw [second.extents block allocated' p inside', first.extents block allocated p inside]

theorem Handle.mapWrites_put (sound : s.SoundDisk) (has : s.hasBatmap = true)
    {faults : List (Option Fault)}
    (inside : ∀ p, off ≤ p → p < off + n → s.inBatmap p ∨ s.inBatmapHeader p)
    (header : ∀ i < 29, ¬ (24 ≤ i ∧ i < 28) →
      ({ s with faults }.put off n data).file.byte (s.batmapHeaderOffset + i) =
        s.file.byte (s.batmapHeaderOffset + i))
    (map : ∀ i < s.batmapBytes,
      ({ s with faults }.put off n data).file.byte (s.batmapHeader.batmapOffset + i) =
        s.file.byte (s.batmapHeader.batmapOffset + i) ∨
      ∃ full, s.SoundMap full ∧
        ({ s with faults }.put off n data).file.byte (s.batmapHeader.batmapOffset + i) = full i) :
    s.MapWrites ({ s with faults }.put off n data) := by
  have grows : s.file.size ≤ ({ s with faults }.put off n data).file.size :=
    Context.put_size_le
  have apart : ∀ p, off ≤ p → p < off + n → ¬ s.inTableArea p ∧
      ∀ block, s.allocated block → ¬ s.inExtent block p := by
    intro p low high
    rcases inside p low high with inMap | inHeader
    · refine ⟨((sound.laid.map has).2.2 p inMap).2.1, fun block allocated extent => ?_⟩
      exact sound.laid.extent block allocated p extent (.inr (.inr (.inr ⟨has, inMap⟩)))
    · refine ⟨fun table => ?_, fun block allocated extent => ?_⟩
      · have := inHeader.1
        have := table.2
        unfold Vhd.batmapHeaderOffset at *
        omega
      · exact sound.laid.extent block allocated p extent
          (.inr (.inr (.inl ⟨Context.looks_of_has has, inHeader⟩)))
  have table : ∀ p, s.inTableArea p →
      ({ s with faults }.put off n data).file.byte p = s.file.byte p :=
    fun p here => Context.put_kept sound.laid fun low high => absurd here (apart p low high).1
  have extents : ∀ block, s.allocated block → ∀ p, s.inExtent block p →
      ({ s with faults }.put off n data).file.byte p = s.file.byte p :=
    fun block allocated p here => Context.put_kept sound.laid fun low high =>
      absurd here ((apart p low high).2 block allocated)
  have stores : ∀ block, s.Stores block ({ s with faults }.put off n data) := fun block =>
    ⟨rfl, ⟨rfl, File.put_past sound.laid.past, sound.laid.table.trans grows,
      fun looks => (sound.laid.marker looks).trans grows, fun p here _ => table p here,
      fun other _ allocated p here => extents other allocated p here, fun _ => header⟩, table⟩
  -- no block has this number, so all blocks are among the others
  have edit := (stores s.maxBatSize).edit
  have absent : ¬ s.full s.maxBatSize := fun full => Nat.lt_irrefl _ full.1.1
  refine ⟨stores, ⟨?_, ?_, ?_⟩, rfl, extents⟩
  · apply edit.laid sound.laid
    exact fun allocated => absurd allocated.1 (Nat.lt_irrefl _)
  · intro _
    have offset : ({ s with faults }.put off n data).batmapHeader.batmapOffset =
        s.batmapHeader.batmapOffset := by
      have := edit.batmapHeader (Context.looks_of_has has)
      rw [this]
    intro block bound bit
    rw [offset] at bit
    unfold testBit at bit
    dsimp only at bit
    rcases map _ bound with old | ⟨full, soundFull, new⟩
    · rw [old] at bit
      exact edit.soundMap sound.laid (sound.disk has) (fun h => absurd h absent) block bound bit
    · rw [new] at bit
      exact edit.soundMap sound.laid soundFull (fun h => absurd h absent) block bound bit
  · intro batmap loaded
    exact (sound.memory batmap loaded).edit edit sound.laid fun h => absurd h absent

theorem header_bytes {ctx : Context} (cookie : ctx.batmapHeader.cookie = true) (checksum : Nat)
    {i : Nat} (small : i < 29) (apart : ¬ (24 ≤ i ∧ i < 28)) :
    { ctx.batmapHeader with checksum }.bytes i = ctx.file.byte (ctx.batmapHeaderOffset + i) := by
  unfold BatmapHeader.bytes Context.batmapHeader batmapHeaderIn
  dsimp only
  by_cases inCookie : i < 8
  · have list : (List.range 8).map (fun i => ctx.file.byte (ctx.batmapHeaderOffset + i)) =
        batmapCookie := by
      simpa [Context.batmapHeader, batmapHeaderIn] using cookie
    rw [if_pos inCookie, ← list]
    simp [inCookie]
  · rw [if_neg inCookie]
    by_cases inOffset : i < 16
    · rw [if_pos inOffset, beByte_two _ _ (be32_lt _ _) (by omega)]
      split
      · rw [beByte_be32 _ _ (by omega)]
        congr 2
        omega
      · rw [beByte_be32 _ _ (by omega)]
        congr 2
        omega
    · rw [if_neg inOffset]
      by_cases inSize : i < 20
      · rw [if_pos inSize, beByte_be32 _ _ (by omega)]
        congr 2
        omega
      · rw [if_neg inSize]
        by_cases inVersion : i < 24
        · rw [if_pos inVersion, beByte_be32 _ _ (by omega)]
          congr 2
          omega
        · have last : i = 28 := by omega
          subst last
          rfl

theorem Handle.mapWrites_map (sound : s.SoundDisk) (loaded : batmap.LoadedFrom s.toContext)
    {faults : List (Option Fault)} (part : n ≤ s.batmapBytes) :
    s.MapWrites ({ s with faults }.put batmap.header.batmapOffset n batmap.map) := by
  have room := (sound.laid.map loaded.has).2.1
  have offset : batmap.header.batmapOffset = s.batmapHeader.batmapOffset := by rw [loaded.header]
  rw [offset]
  apply Handle.mapWrites_put sound loaded.has
  · exact fun p low high => .inl ⟨low, by omega⟩
  · intro i small _
    apply Context.put_kept sound.laid
    intro low high
    exact absurd ⟨Nat.le_add_right _ _, by omega⟩ ((sound.laid.map loaded.has).2.2
      (s.batmapHeaderOffset + i) ⟨low, by omega⟩).2.2
  · intro i small
    by_cases reached : i < n
    · refine .inr ⟨batmap.map, loaded.sound, ?_⟩
      refine (File.put_inside (Nat.le_add_right _ _) (by omega)).trans ?_
      rw [Nat.add_sub_cancel_left]
    · exact .inl (File.put_outside sound.laid.past (by omega))

theorem Handle.mapWrites_header (sound : s.SoundDisk) (loaded : batmap.LoadedFrom s.toContext)
    {faults : List (Option Fault)} (checksum : Nat) (part : n ≤ 512) :
    s.MapWrites ({ s with faults }.put s.batmapHeaderOffset n
      { batmap.header with checksum }.bytes) := by
  have header : { batmap.header with checksum } = { s.batmapHeader with checksum } := by
    rw [loaded.header]
  have cookie : s.batmapHeader.cookie = true := by
    have here := loaded.cookie
    rw [loaded.header] at here
    exact here
  rw [header]
  apply Handle.mapWrites_put sound loaded.has
  · exact fun p low high => .inr ⟨low, by omega⟩
  · intro i small apart
    apply Context.put_kept sound.laid
    intro _ _
    rw [Nat.add_sub_cancel_left]
    exact header_bytes cookie checksum small apart
  · intro i small
    left
    apply Context.put_kept sound.laid
    intro low high
    have inside : s.inBatmap (s.batmapHeader.batmapOffset + i) :=
      ⟨Nat.le_add_right _ _, by have := (sound.laid.map loaded.has).2.1; omega⟩
    exact absurd ⟨low, by omega⟩ ((sound.laid.map loaded.has).2.2 _ inside).2.2

theorem Handle.MapWrites.loaded (writes : s.MapWrites t) (laid : s.toContext.Laid)
    (loaded : batmap.LoadedFrom s.toContext) : batmap.LoadedFrom t.toContext :=
  -- no block has this number, so none of the blocks is the one that is written
  loaded.edit (writes.stores s.maxBatSize).edit laid fun full => absurd full.1.1 (Nat.lt_irrefl _)

theorem wp_vhdWriteBatmap (sound : s.SoundDisk) (loaded : batmap.LoadedFrom s.toContext) :
    wp (vhdWriteBatmap batmap) (fun _ t => s.MapWrites t) (fun _ _ => False) s := by
  have room := (sound.laid.map loaded.has).2.1
  have size : batmap.header.batmapSize = s.batmapHeader.batmapSize := by rw [loaded.header]
  unfold vhdWriteBatmap writeBatmapSectors
  simp only [wp_bind, wp_pure, wp_attempt, wp_get]
  rw [if_neg (by simp [loaded.has]), if_neg (by rw [size]; exact Nat.not_lt.mpr room)]
  simp only [wp_bind]
  apply wp_vhdWrite
  · intro faults _
    have first : s.MapWrites ({ s with faults }.put batmap.header.batmapOffset s.batmapBytes
        batmap.map) := Handle.mapWrites_map sound loaded (Nat.le_refl _)
    generalize { s with faults }.put batmap.header.batmapOffset s.batmapBytes batmap.map = t
      at first ⊢
    have loaded' := first.loaded sound.laid loaded
    have offset : t.batmapHeaderOffset = s.batmapHeaderOffset := by
      rw [(first.stores 0).edit.fields]
      rfl
    rw [← offset]
    apply wp_vhdWrite
    · exact fun faults _ =>
        first.trans (Handle.mapWrites_header first.disk loaded' _ (Nat.le_refl _)) sound.laid
    · exact fun faults _ n part _ =>
        first.trans (Handle.mapWrites_header first.disk loaded' _ part) sound.laid
  · exact fun faults _ n part _ => Handle.mapWrites_map sound loaded part

theorem Batmap.LoadedFrom.set {ctx : Context} {block : Nat} (loaded : batmap.LoadedFrom ctx)
    (covers : ctx.Covers block) (full : ctx.full block) :
    ∃ batmap', batmap.set block = .ok batmap' ∧ batmap'.LoadedFrom ctx := by
  unfold Batmap.set
  by_cases outside : batmap.header.batmapSize * 2 ^ 12 % 2 ^ 32 ≤ block
  · exact ⟨batmap, if_pos outside, loaded⟩
  · have bound := covers loaded.has (by rw [loaded.header] at outside; exact Nat.not_le.mp outside)
    rw [if_neg outside, if_neg (by rw [loaded.mapBytes]; omega)]
    refine ⟨_, rfl, loaded.has, loaded.header, loaded.cookie, loaded.mapBytes, ?_⟩
    intro other inside bit
    rw [testBit_setBit, Bool.or_eq_true, decide_eq_true_eq] at bit
    rcases bit with old | rfl
    · exact loaded.sound other inside old
    · exact full

theorem wp_batmapSet {block : Nat} (sound : s.Sound) (has : s.hasBatmap = true) (ready : s.Ready)
    (covers : s.Covers block) (full : s.full block) :
    wp (batmapSet block) (fun _ t => s.Stores block t ∧ t.Sound ∧ t.Ready ∧
      ∀ p, s.inExtent block p → t.file.byte p = s.file.byte p) (fun _ _ => False) s := by
  obtain ⟨batmap, some⟩ := Option.isSome_iff_exists.mp (ready.map has)
  obtain ⟨batmap', action, loaded'⟩ := (sound.memory batmap some).set covers full
  unfold batmapSet
  simp only [wp_bind, wp_get, some, action, wp_lift_ok, wp_modify]
  have disk : ({ s with batmap := Option.some batmap' } : Handle).SoundDisk := by
    refine ⟨sound.laid, sound.disk, fun other same => ?_⟩
    cases same
    exact loaded'
  apply (wp_vhdWriteBatmap disk loaded').imp
  intro _ t writes
  have first : s.Stores block ({ s with batmap := Option.some batmap' } : Handle) :=
    ⟨rfl, .refl sound.laid, fun _ _ => rfl⟩
  have stores := first.trans (writes.stores block) sound.laid
  refine ⟨stores, stores.sound sound writes.disk, ?_, writes.extents block full.1⟩
  apply stores.ready sound.laid ready
  rw [writes.batmap]
  exact fun _ => rfl

end Map

section Turns
variable {s t : Handle} {block sec cnt : Nat} {map : Nat → UInt8}

theorem Handle.Marked.stores_extent (marked : s.Marked block sec cnt t) {u : Handle}
    (stores : t.Stores block u) (laid : s.toContext.Laid) (allocated : s.allocated block)
    (extent : ∀ p, t.inExtent block p → u.file.byte p = t.file.byte p) :
    s.Marked block sec cnt u ∧
      ∀ nr < s.spb, u.marks (s.entry block) nr = t.marks (s.entry block) nr := by
  have spb : t.spb = s.spb := by rw [marked.stores.fields]; rfl
  have bm : t.bmSecs = s.bmSecs := by rw [marked.stores.fields]; rfl
  have entry := marked.stores.entry laid allocated.1
  have size : ∃ k, 9 ≤ k ∧ k < 32 ∧ t.blockSize = 2 ^ k := by
    rw [marked.stores.fields]
    exact laid.blockSize
  have marks : ∀ nr < s.spb, u.marks (s.entry block) nr = t.marks (s.entry block) nr := by
    intro nr small
    rw [← entry]
    apply Vhd.marks_congr
    · rw [stores.fields]
    · exact extent _ (Vhd.bitmap_inExtent size (spb.symm ▸ small))
  refine ⟨⟨marked.stores.trans stores laid, fun nr small before => ?_, fun nr small after => ?_,
    fun nr small o bound => ?_⟩, marks⟩
  · rw [marks nr small]
    exact marked.kept nr small before
  · rw [marks nr small] at after
    exact marked.new nr small after
  · have inside : t.inExtent block ((t.entry block + t.bmSecs + nr) * 512 + o) :=
      Vhd.data_inExtent (spb.symm ▸ small) bound
    rw [entry, bm] at inside
    rw [extent _ inside, marked.data nr small o bound]

theorem wp_writeMarks (sound : s.Sound) (loaded : block < s.batEntries)
    (allocated : s.allocated block) (ready : s.Ready) (covers : s.Covers block)
    (disk : ∀ i, map i = s.file.byte (s.entry block * 512 + i)) :
    wp (writeMarks block sec cnt map)
      (fun _ t => s.Marked block sec cnt t ∧ t.Sound ∧ t.Ready ∧
        ∀ nr < s.spb, sec ≤ nr → nr < sec + cnt → t.marks (s.entry block) nr = true)
      (fun _ t => s.Marked block sec cnt t ∧ t.SoundDisk) s := by
  unfold writeMarks
  simp only [wp_bind, wp_get, wp_when]
  apply (wp_vhdWriteBitmap sound loaded allocated ready disk).imp
  rintro _ t ⟨marked, sound', ready', marks, tests⟩
  have new : ∀ nr < s.spb, sec ≤ nr → nr < sec + cnt → t.marks (s.entry block) nr = true := by
    intro nr small low high
    rw [marks nr small, decide_eq_true ⟨low, high⟩, Bool.or_true]
  have spb : t.spb = s.spb := by rw [marked.stores.fields]; rfl
  have entry := marked.stores.entry sound.laid allocated.1
  have allocated' := (marked.stores.allocated_iff sound.laid).mpr allocated
  refine ⟨fun both => ?_, fun _ => ⟨marked, sound', ready', new⟩⟩
  obtain ⟨has, whole⟩ := both
  have full : t.full block := by
    refine ⟨allocated', fun nr small => ?_⟩
    rw [spb] at small
    rw [entry, ← tests nr small]
    exact List.all_eq_true.mp whole nr (List.mem_range.mpr (spb.symm ▸ small))
  apply (wp_batmapSet sound' has ready' (covers.edit marked.stores.edit sound.laid) full).mono
  · rintro _ u ⟨stores, soundMap, readyMap, extent⟩
    obtain ⟨marked', same⟩ := marked.stores_extent stores sound.laid allocated extent
    refine ⟨marked', soundMap, readyMap, fun nr small low high => ?_⟩
    rw [same nr small]
    exact new nr small low high
  · exact fun _ _ h => h.elim

end Turns

end Blktap.Libvhd
