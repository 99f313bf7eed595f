import Blktap.Libvhd.Laid

/-! # Rules for the parts of a write -/

namespace Blktap.Libvhd
open Lib Action

def Context.put (ctx : Context) (off size : Nat) (data : Nat → UInt8) : Context :=
  { ctx with file := ctx.file.put off size data }

def Context.Free (ctx : Context) (block p : Nat) : Prop :=
  (ctx.inTableArea p →
    ctx.tableOffset + 4 * block ≤ p ∧ p < ctx.tableOffset + 4 * block + 4) ∧
  (∀ other, other ≠ block → ctx.allocated other → ¬ ctx.inExtent other p) ∧
  (ctx.looksForBatmap = true → ¬ (ctx.batmapHeaderOffset ≤ p ∧ p < ctx.batmapHeaderOffset + 29 ∧
    ¬ (ctx.batmapHeaderOffset + 24 ≤ p ∧ p < ctx.batmapHeaderOffset + 28)))

section Put
variable {ctx : Context} {block off size : Nat} {data : Nat → UInt8}

theorem Context.put_size_le : ctx.file.size ≤ (ctx.put off size data).file.size := by
  change _ ≤ if size = 0 then _ else _
  split
  · exact Nat.le_refl _
  · exact Nat.le_max_left _ _

theorem Context.put_kept (laid : ctx.Laid) {p : Nat}
    (kept : off ≤ p → p < off + size → data (p - off) = ctx.file.byte p) :
    (ctx.put off size data).file.byte p = ctx.file.byte p := by
  by_cases inside : off ≤ p ∧ p < off + size
  · exact (File.put_inside inside.1 inside.2).trans (kept inside.1 inside.2)
  · exact File.put_outside laid.past inside

theorem Context.Laid.edit (laid : ctx.Laid) (free : ∀ p, off ≤ p → p < off + size →
    data (p - off) = ctx.file.byte p ∨ ctx.Free block p) :
    ctx.Edit block (ctx.put off size data) := by
  constructor
  · rfl
  · exact File.put_past laid.past
  · exact laid.table.trans Context.put_size_le
  · intro looks
    exact (laid.marker looks).trans Context.put_size_le
  · intro p inside apart
    apply Context.put_kept laid
    intro low high
    exact (free p low high).resolve_right fun free => apart (free.1 inside)
  · intro other different allocated p inside
    apply Context.put_kept laid
    intro low high
    exact (free p low high).resolve_right fun free => free.2.1 other different allocated inside
  · intro looks i small apart
    apply Context.put_kept laid
    intro low high
    refine (free _ low high).resolve_right fun free => free.2.2 looks ?_
    omega

end Put

structure Batmap.LoadedFrom (batmap : Batmap) (ctx : Context) : Prop where
  has : ctx.hasBatmap = true
  header : batmap.header = { ctx.batmapHeader with checksum := batmap.header.checksum }
  cookie : batmap.header.cookie = true
  mapBytes : batmap.mapBytes = ctx.batmapBytes
  sound : ctx.SoundMap batmap.map

structure Handle.SoundDisk (s : Handle) : Prop where
  laid : s.toContext.Laid
  disk : s.toContext.SoundBatmap
  memory : ∀ batmap, s.batmap = some batmap → batmap.LoadedFrom s.toContext

def Handle.tableInUse (s : Handle) : Bat := s.bat.getD s.toVhd.table

structure Handle.Sound (s : Handle) : Prop extends s.SoundDisk where
  table : s.tableInUse = s.toVhd.table

structure Handle.Loads (s t : Handle) : Prop where
  fields : t = { s with bat := t.bat, batmap := t.batmap }
  inUse : t.tableInUse = s.tableInUse
  memory : ∀ batmap, t.batmap = some batmap →
    s.batmap = some batmap ∨ batmap.LoadedFrom s.toContext

structure Handle.Ready (s : Handle) : Prop where
  table : s.bat = some s.tableInUse
  map : s.hasBatmap = true → s.batmap.isSome = true

section Loading
variable {s t u : Handle} {ctx : Context}

theorem Handle.Loads.refl (s : Handle) : s.Loads s := ⟨rfl, rfl, fun _ h => .inl h⟩

theorem Handle.Loads.context (loads : s.Loads t) : t.toContext = s.toContext := by
  rw [loads.fields]

theorem Handle.Loads.trans (first : s.Loads t) (second : t.Loads u) : s.Loads u := by
  refine ⟨?_, second.inUse.trans first.inUse, fun batmap loaded => ?_⟩
  · rw [second.fields, first.fields]
  · rcases second.memory batmap loaded with before | fresh
    · exact first.memory batmap before
    · exact .inr (first.context ▸ fresh)

theorem Handle.Loads.soundDisk (loads : s.Loads t) (sound : s.SoundDisk) : t.SoundDisk := by
  constructor
  · rw [loads.context]
    exact sound.laid
  · rw [loads.context]
    exact sound.disk
  · intro batmap loaded
    rw [loads.context]
    exact (loads.memory batmap loaded).elim (sound.memory batmap) id

theorem Handle.Loads.sound (loads : s.Loads t) (sound : s.Sound) : t.Sound := by
  refine ⟨loads.soundDisk sound.toSoundDisk, ?_⟩
  rw [loads.inUse, sound.table, loads.fields]

theorem vhdReadBat_defined (laid : ctx.Laid) : vhdReadBat ctx.toVhd ≠ .undefined := by
  unfold vhdReadBat
  rw [if_neg (by simp [laid.dynamic]), if_neg (Nat.not_lt.mpr laid.covers)]
  apply Outcome.bind_defined (File.read_defined _ _ _)
  simp

theorem vhdReadBat_eq {vhd : Vhd} {bat : Bat} (action : vhdReadBat vhd = .ok bat) :
    bat = vhd.table := by
  unfold vhdReadBat at action
  split at action
  · cases action
  · split at action
    · cases action
    · obtain ⟨buf, read, rest⟩ := Outcome.bind_eq_ok.mp action
      rw [File.read_eq read] at rest
      exact (Outcome.ok.inj rest).symm

theorem vhdReadBatmap_defined (laid : ctx.Laid) : vhdReadBatmap ctx ≠ .undefined := by
  unfold vhdReadBatmap
  split
  · simp
  · rename_i has
    simp only [Bool.not_eq_true', Bool.not_eq_false] at has
    rw [vhdReadBatmapHeader_ok (laid.marker (Context.looks_of_has has)), Outcome.ok_bind]
    split
    · simp
    · rw [if_neg (Nat.not_lt.mpr (laid.map has).2.1)]
      apply Outcome.bind_defined (File.read_defined _ _ _)
      intro map _
      split <;> simp

theorem vhdReadBatmap_loaded (laid : ctx.Laid) (sound : ctx.SoundBatmap) {batmap : Batmap}
    (action : vhdReadBatmap ctx = .ok batmap) : batmap.LoadedFrom ctx := by
  unfold vhdReadBatmap at action
  split at action
  · cases action
  · rename_i has
    simp only [Bool.not_eq_true', Bool.not_eq_false] at has
    rw [vhdReadBatmapHeader_ok (laid.marker (Context.looks_of_has has)), Outcome.ok_bind] at action
    split at action
    · cases action
    · rename_i valid
      simp only [Bool.not_eq_true', Bool.not_eq_false] at valid
      rw [if_neg (Nat.not_lt.mpr (laid.map has).2.1)] at action
      obtain ⟨map, read, rest⟩ := Outcome.bind_eq_ok.mp action
      split at rest
      · cases rest
      · cases rest
        refine ⟨has, rfl, ?_, rfl, ?_⟩
        · unfold BatmapHeader.valid at valid
          exact (Bool.and_eq_true _ _ ▸ valid).1
        · rw [File.read_eq read]
          exact sound has

theorem wp_getBat (laid : s.toContext.Laid) :
    wp vhdGetBat (fun _ t => s.Loads t ∧ t.bat = some s.tableInUse ∧ t.batmap = s.batmap)
      (fun _ t => s.Loads t) s := by
  unfold vhdGetBat
  simp only [wp_bind, wp_get, wp_ite, wp_pure, wp_modify]
  refine ⟨fun loaded => ⟨.refl s, ?_, trivial⟩, fun missing => ?_⟩
  · obtain ⟨bat, loaded⟩ := Option.isSome_iff_exists.mp loaded
    simp [Handle.tableInUse, loaded]
  · have missing : s.bat = none := by simpa using missing
    apply wp_lift (vhdReadBat_defined laid)
    · intro bat action
      have same := vhdReadBat_eq action
      refine ⟨⟨rfl, ?_, fun _ h => .inl h⟩, ?_, rfl⟩ <;> simp [Handle.tableInUse, missing, same]
    · exact fun _ _ => .refl s

theorem wp_getBatmap (sound : s.SoundDisk) :
    wp vhdGetBatmap (fun batmap t => s.Loads t ∧ t.bat = s.bat ∧ t.batmap = some batmap ∧
      batmap.LoadedFrom s.toContext) (fun _ t => s.Loads t) s := by
  unfold vhdGetBatmap
  simp only [wp_bind, wp_get, wp_ite, wp_fail]
  refine ⟨fun _ => .refl s, fun _ => ?_⟩
  cases found : s.batmap.filter s.validBatmap with
  | some batmap =>
      have loaded := (Option.filter_eq_some_iff.mp found).1
      exact ⟨.refl s, rfl, loaded, sound.memory batmap loaded⟩
  | none =>
      simp only [wp_bind, wp_modify]
      apply wp_lift (vhdReadBatmap_defined sound.laid)
      · intro batmap action
        have loaded := vhdReadBatmap_loaded sound.laid sound.disk action
        refine ⟨⟨rfl, rfl, fun other same => .inr ?_⟩, rfl, rfl, loaded⟩
        rw [← Option.some.inj same]
        exact loaded
      · exact fun _ _ => ⟨rfl, rfl, fun _ h => by cases h⟩

end Loading

def Context.headers (ctx : Context) : Nat :=
  ctx.headersEnd (if ctx.hasBatmap then some ctx.batmapHeader else none)

section Ends
variable {s t : Handle} {ctx : Context}

theorem headersEnd_checksum (header : BatmapHeader) (checksum : Nat) :
    ctx.headersEnd (some { header with checksum }) = ctx.headersEnd (some header) := rfl

theorem wp_endOfHeaders (sound : s.SoundDisk) :
    wp endOfHeaders (fun n t => n = s.headers ∧ s.Loads t ∧
      (s.hasBatmap = true → t.batmap.isSome = true)) (fun _ t => s.Loads t) s := by
  unfold endOfHeaders Context.headers
  simp only [wp_bind, wp_get, wp_ite, wp_pure]
  refine ⟨fun fixed => ?_, fun _ => ⟨fun has => ?_, fun none => ?_⟩⟩
  · simp [sound.laid.dynamic] at fixed
  · apply (wp_getBatmap sound).imp
    rintro batmap t ⟨loads, _, some, loaded⟩
    refine ⟨?_, loads, fun _ => by rw [some]; rfl⟩
    rw [if_pos has, loaded.header, headersEnd_checksum]
  · rw [if_neg none]
    exact ⟨rfl, .refl s, fun has => absurd has none⟩

theorem wp_loadedBat {post : Bat → Handle → Prop} {stop : Int → Handle → Prop} {bat : Bat}
    (loaded : s.bat = some bat) : wp loadedBat post stop s ↔ post bat s := by
  unfold loadedBat
  simp only [wp_bind, wp_get, loaded, wp_pure]

theorem wp_endOfData (sound : s.SoundDisk) :
    wp endOfData (fun n t => n = s.endOfExtents s.headers s.tableInUse * 512 ∧ s.Loads t ∧
      t.Ready) (fun _ t => s.Loads t) s := by
  unfold endOfData
  simp only [wp_bind, wp_get, wp_ite, wp_pure]
  refine ⟨fun fixed => ?_, fun _ => ?_⟩
  · simp [sound.laid.dynamic] at fixed
  · apply (wp_endOfHeaders sound).imp
    rintro _ t ⟨rfl, loads, some⟩
    have laid : t.toContext.Laid := (loads.soundDisk sound).laid
    apply (wp_getBat laid).mono
    · rintro _ u ⟨more, loaded, same⟩
      rw [wp_loadedBat loaded, loads.inUse]
      refine ⟨rfl, loads.trans more, loaded.trans (by rw [more.inUse]), fun has => ?_⟩
      rw [same]
      rw [more.context, loads.context] at has
      exact some has
    · exact fun _ u more => loads.trans more

def Handle.dataEnd (s : Handle) : Nat := s.endOfExtents s.headers s.tableInUse

theorem foldl_max_le {α : Type} (list : List α) (used : α → Bool) (last : α → Nat)
    (start bound : Nat) :
    list.foldl (fun n i => if used i then n else max (last i) n) start ≤ bound ↔
      start ≤ bound ∧ ∀ i ∈ list, used i = false → last i ≤ bound := by
  induction list generalizing start with
  | nil => simp
  | cons i rest ih =>
      rw [List.foldl_cons, ih, List.forall_mem_cons]
      cases used i <;> simp [and_assoc, and_left_comm]

theorem endOfExtents_le {vhd : Vhd} {headers bound : Nat} {bat : Bat} :
    vhd.endOfExtents headers bat ≤ bound ↔ headers / 512 ≤ bound ∧
      ∀ i < bat.entries, bat.bat i ≠ ddBlkUnused → bat.bat i + vhd.spb + vhd.bmSecs ≤ bound := by
  have fold := foldl_max_le (List.range bat.entries) (fun i => decide (bat.bat i = ddBlkUnused))
    (fun i => bat.bat i + vhd.spb + vhd.bmSecs) (headers / 512) bound
  simpa [Vhd.endOfExtents] using fold

theorem foldl_max_ge {α : Type} (list : List α) (skip : α → Prop) [DecidablePred skip]
    (last : α → Nat) (start : Nat) :
    start ≤ list.foldl (fun n i => if skip i then n else max n (last i)) start := by
  induction list generalizing start with
  | nil => exact Nat.le_refl _
  | cons i rest ih =>
      refine Nat.le_trans ?_ (ih _)
      dsimp only
      split
      · exact Nat.le_refl _
      · exact Nat.le_max_left _ _

theorem Context.table_le_headers (small : vhdBytesPadded (ctx.maxBatSize * 4) < 2 ^ 32) :
    ctx.batmapHeaderOffset ≤ ctx.headers := by
  unfold Context.headers Context.headersEnd Vhd.batmapHeaderOffset
  rw [Nat.mod_eq_of_lt small]
  refine Nat.le_trans ?_ (foldl_max_ge _ (fun loc : Locator => loc.code = 0) _ _)
  split <;> omega

theorem Context.batmap_le_headers (has : ctx.hasBatmap = true) :
    ctx.batmapHeaderOffset + 512 ≤ ctx.headers ∧
      ctx.batmapHeader.batmapOffset + ctx.batmapHeader.batmapSize * 512 ≤ ctx.headers := by
  unfold Context.headers Context.headersEnd
  rw [if_pos has]
  constructor <;>
    refine Nat.le_trans ?_ (foldl_max_ge _ (fun loc : Locator => loc.code = 0) _ _) <;>
    dsimp only <;> omega

structure Handle.Room (s : Handle) : Prop where
  extents : ∀ block, s.allocated block → s.entry block + s.bmSecs + s.spb ≤ s.dataEnd
  marker : s.looksForBatmap = true → s.batmapHeaderOffset + 512 ≤ s.dataEnd * 512

theorem Handle.headers_le (s : Handle) : s.headers / 512 ≤ s.dataEnd :=
  (endOfExtents_le.mp (Nat.le_refl s.dataEnd)).1

theorem Handle.table_le (laid : s.toContext.Laid) : s.batmapHeaderOffset ≤ s.dataEnd * 512 := by
  have inHeaders := Context.table_le_headers laid.tableBytes
  have aligned : 512 ∣ s.batmapHeaderOffset :=
    Nat.dvd_add laid.aligned (Nat.dvd_mul_left _ _)
  have last := s.headers_le
  obtain ⟨k, multiple⟩ := aligned
  omega

theorem Handle.batmap_le (laid : s.toContext.Laid) (has : s.hasBatmap = true) :
    s.batmapHeader.batmapOffset + s.batmapHeader.batmapSize * 512 ≤ s.dataEnd * 512 := by
  have inHeaders := (Context.batmap_le_headers has).2
  obtain ⟨k, multiple⟩ := (laid.map has).1
  have last := s.headers_le
  omega

end Ends

section Device
variable {s : Handle} {post : Unit → Handle → Prop} {stop : Int → Handle → Prop}
  {off size : Nat} {data : Nat → UInt8}

theorem wp_vhdWrite (done : ∀ faults, (s.isBlock = true → size = 0 ∨ off + size ≤ s.file.size) →
      post () ({ s with faults }.put off size data))
    (failed : ∀ faults code n, n ≤ size → (n = size ∨ 512 ∣ n ∨ off + n = s.file.size) →
      stop code ({ s with faults }.put off n data)) : wp (vhdWrite off size data) post stop s := by
  have room : s.roomFor off size ≤ size ∧ (s.roomFor off size = size ∨ s.roomFor off size = 0 ∨
      off + s.roomFor off size = s.file.size) ∧ (s.isBlock = true → s.roomFor off size = size →
        size = 0 ∨ off + size ≤ s.file.size) := by
    unfold Handle.roomFor
    split
    · refine ⟨Nat.min_le_left _ _, ?_, fun _ fits => ?_⟩ <;> omega
    · exact ⟨Nat.le_refl _, .inl rfl, fun h => absurd h ‹_›⟩
  unfold wp vhdWrite
  dsimp only
  cases s.faults.head?.join with
  | some fault =>
      apply failed _ _ _ ((Nat.min_le_left _ _).trans room.1)
      rcases Nat.le_total (s.roomFor off size) (fault.secs * 512) with short | long
      · rw [Nat.min_eq_left short]
        rcases room.2.1 with whole | none | last
        · exact .inl whole
        · exact .inr (.inl (none ▸ Nat.dvd_zero _))
        · exact .inr (.inr last)
      · rw [Nat.min_eq_right long]
        exact .inr (.inl (Nat.dvd_mul_left _ _))
  | none =>
      dsimp only
      by_cases short : s.roomFor off size < size
      · rw [if_pos short]
        apply failed _ _ _ room.1
        rcases room.2.1 with whole | none | last
        · exact .inl whole
        · exact .inr (.inl (none ▸ Nat.dvd_zero _))
        · exact .inr (.inr last)
      · rw [if_neg short]
        exact done _ fun isBlock => room.2.2 isBlock (Nat.le_antisymm room.1 (Nat.not_lt.mp short))

theorem wp_vhdTruncate
    (done : ∀ faults, post () { s with faults, file := s.file.truncate size })
    (failed : ∀ faults code, stop code { s with faults }) : wp (vhdTruncate size) post stop s := by
  unfold wp vhdTruncate
  dsimp only
  cases s.faults.head?.join with
  | some fault => exact failed _ _
  | none => exact done _

end Device

end Blktap.Libvhd
