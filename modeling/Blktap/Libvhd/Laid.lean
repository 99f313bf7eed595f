import Blktap.Libvhd.Write
import Blktap.Libvhd.Table

/-! # The layout of an image that is written to -/

namespace Blktap.Libvhd
open Lib

theorem File.put_inside {file : File} {off size p : Nat} {data : Nat → UInt8} (low : off ≤ p)
    (high : p < off + size) : (file.put off size data).byte p = data (p - off) :=
  if_pos ⟨low, high⟩

theorem File.put_outside {file : File} {off size p : Nat} {data : Nat → UInt8}
    (past : ∀ p, file.size ≤ p → file.byte p = 0) (outside : ¬ (off ≤ p ∧ p < off + size)) :
    (file.put off size data).byte p = file.byte p := by
  unfold File.put
  simp only [if_neg outside]
  split
  · rfl
  · exact (past p (by omega)).symm

theorem File.put_past {file : File} {off size : Nat} {data : Nat → UInt8}
    (past : ∀ p, file.size ≤ p → file.byte p = 0) :
    ∀ p, (file.put off size data).size ≤ p → (file.put off size data).byte p = 0 := by
  intro p beyond
  have outside : ¬ (off ≤ p ∧ p < off + size) := by
    unfold File.put at beyond
    dsimp only at beyond
    split at beyond <;> omega
  rw [File.put_outside past outside]
  apply past
  unfold File.put at beyond
  dsimp only at beyond
  split at beyond <;> omega

theorem File.truncate_past (file : File) (size : Nat) :
    ∀ p, (file.truncate size).size ≤ p → (file.truncate size).byte p = 0 := by
  intro p beyond
  refine if_neg fun inside => ?_
  exact absurd inside.1 (Nat.not_lt.mpr beyond)

theorem File.truncate_byte {file : File} {size p : Nat}
    (past : ∀ p, file.size ≤ p → file.byte p = 0) (inside : p < size) :
    (file.truncate size).byte p = file.byte p := by
  unfold File.truncate
  dsimp only
  split
  · rfl
  · exact (past p (by omega)).symm

def Vhd.inTableArea (vhd : Vhd) (p : Nat) : Prop :=
  vhd.tableOffset ≤ p ∧ p < vhd.tableOffset + vhdBytesPadded (vhd.maxBatSize * 4)

def Vhd.inExtent (vhd : Vhd) (block p : Nat) : Prop :=
  vhd.entry block * 512 ≤ p ∧ p < (vhd.entry block + vhd.bmSecs + vhd.spb) * 512

def Vhd.content (vhd : Vhd) (sector o : Nat) : Option UInt8 :=
  if vhd.holds sector then some (vhd.file.byte (vhd.position sector + o)) else none

def Context.batmapHeader (ctx : Context) : BatmapHeader :=
  batmapHeaderIn fun i => ctx.file.byte (ctx.batmapHeaderOffset + i)

def Context.looksForBatmap (ctx : Context) : Bool :=
  ctx.typeDynamic && ctx.tapdisk && decide (1 < ctx.crtrVer)

def Context.inBatmapHeader (ctx : Context) (p : Nat) : Prop :=
  ctx.batmapHeaderOffset ≤ p ∧ p < ctx.batmapHeaderOffset + 512

def Context.inBatmap (ctx : Context) (p : Nat) : Prop :=
  ctx.batmapHeader.batmapOffset ≤ p ∧
    p < ctx.batmapHeader.batmapOffset + ctx.batmapHeader.batmapSize * 512

def Context.inMetadata (ctx : Context) (p : Nat) : Prop :=
  p < 512 ∨ ctx.inTableArea p ∨ ctx.looksForBatmap = true ∧ ctx.inBatmapHeader p ∨
    ctx.hasBatmap = true ∧ ctx.inBatmap p

def Vhd.full (vhd : Vhd) (block : Nat) : Prop :=
  vhd.allocated block ∧ ∀ nr < vhd.spb, vhd.marks (vhd.entry block) nr = true

structure Context.Laid (ctx : Context) : Prop where
  dynamic : ctx.typeDynamic = true
  blockSize : ∃ k, 9 ≤ k ∧ k < 32 ∧ ctx.blockSize = 2 ^ k
  tableBytes : vhdBytesPadded (ctx.maxBatSize * 4) < 2 ^ 32
  batSize : ctx.maxBatSize < 2 ^ 32
  covers : ctx.batEntries ≤ ctx.maxBatSize
  aligned : 512 ∣ ctx.tableOffset
  front : 512 ≤ ctx.tableOffset
  past : ∀ p, ctx.file.size ≤ p → ctx.file.byte p = 0
  table : ctx.batmapHeaderOffset ≤ ctx.file.size
  marker : ctx.looksForBatmap = true → ctx.batmapHeaderOffset + 512 ≤ ctx.file.size
  extent : ∀ block, ctx.allocated block → ∀ p, ctx.inExtent block p → ¬ ctx.inMetadata p
  disjoint : ∀ block block', ctx.allocated block → ctx.allocated block' → block ≠ block' →
    ∀ p, ctx.inExtent block p → ¬ ctx.inExtent block' p
  map : ctx.hasBatmap = true → 512 ∣ ctx.batmapHeader.batmapOffset ∧
    ctx.batmapBytes ≤ ctx.batmapHeader.batmapSize * 512 ∧
    ∀ p, ctx.inBatmap p → 512 ≤ p ∧ ¬ ctx.inTableArea p ∧ ¬ ctx.inBatmapHeader p

def Vhd.SoundMap (vhd : Vhd) (map : Nat → UInt8) : Prop :=
  ∀ block, block / 8 < vhd.batmapBytes → testBit map block = true → vhd.full block

def Context.SoundBatmap (ctx : Context) : Prop :=
  ctx.hasBatmap = true →
    ctx.SoundMap fun i => ctx.file.byte (ctx.batmapHeader.batmapOffset + i)

structure Context.Edit (block : Nat) (ctx ctx' : Context) : Prop where
  fields : ctx' = { ctx with file := ctx'.file }
  past : ∀ p, ctx'.file.size ≤ p → ctx'.file.byte p = 0
  fits : ctx.batmapHeaderOffset ≤ ctx'.file.size
  marker : ctx.looksForBatmap = true → ctx.batmapHeaderOffset + 512 ≤ ctx'.file.size
  table : ∀ p, ctx.inTableArea p →
    ¬ (ctx.tableOffset + 4 * block ≤ p ∧ p < ctx.tableOffset + 4 * block + 4) →
    ctx'.file.byte p = ctx.file.byte p
  others : ∀ other, other ≠ block → ctx.allocated other → ∀ p, ctx.inExtent other p →
    ctx'.file.byte p = ctx.file.byte p
  header : ctx.looksForBatmap = true → ∀ i < 29, ¬ (24 ≤ i ∧ i < 28) →
    ctx'.file.byte (ctx.batmapHeaderOffset + i) = ctx.file.byte (ctx.batmapHeaderOffset + i)

section Edit
variable {ctx ctx' ctx'' : Context} {vhd vhd' : Vhd} {block : Nat}

theorem Vhd.entry_congr (offset : vhd'.tableOffset = vhd.tableOffset)
    (same : ∀ i < 4, vhd'.file.byte (vhd.tableOffset + 4 * block + i) =
      vhd.file.byte (vhd.tableOffset + 4 * block + i)) : vhd'.entry block = vhd.entry block := by
  unfold Vhd.entry
  rw [offset]
  exact be32_congr same

theorem padded_le (bytes : Nat) (small : bytes < 2 ^ 40) : bytes ≤ vhdBytesPadded bytes := by
  unfold vhdBytesPadded secsRoundUpNoZero secsRoundUp
  split <;> omega

theorem Context.Laid.inTable (laid : ctx.Laid) {p : Nat} (bound : block < ctx.maxBatSize)
    (low : ctx.tableOffset + 4 * block ≤ p) (high : p < ctx.tableOffset + 4 * block + 4) :
    ctx.inTableArea p := by
  have room := padded_le (ctx.maxBatSize * 4) (by have := laid.batSize; omega)
  exact ⟨by omega, by omega⟩

theorem Context.Edit.entry (edit : ctx.Edit block ctx') (laid : ctx.Laid) {other : Nat}
    (bound : other < ctx.maxBatSize) (different : other ≠ block) :
    ctx'.entry other = ctx.entry other := by
  have offset : ctx'.tableOffset = ctx.tableOffset := by rw [edit.fields]
  apply Vhd.entry_congr offset
  intro i small
  apply edit.table _ (laid.inTable bound (by omega) (by omega))
  omega

theorem Context.Edit.allocated_iff (edit : ctx.Edit block ctx') (laid : ctx.Laid) {other : Nat}
    (different : other ≠ block) : ctx'.allocated other ↔ ctx.allocated other := by
  have max : ctx'.maxBatSize = ctx.maxBatSize := by rw [edit.fields]
  unfold Vhd.allocated
  rw [max]
  refine and_congr_right fun bound => ?_
  rw [edit.entry laid bound different]

theorem Context.Edit.inExtent_iff (edit : ctx.Edit block ctx') (laid : ctx.Laid) {other p : Nat}
    (bound : other < ctx.maxBatSize) (different : other ≠ block) :
    ctx'.inExtent other p ↔ ctx.inExtent other p := by
  have bm : ctx'.bmSecs = ctx.bmSecs := by rw [edit.fields]; rfl
  have spb : ctx'.spb = ctx.spb := by rw [edit.fields]; rfl
  unfold Vhd.inExtent
  rw [bm, spb, edit.entry laid bound different]

theorem batmapHeader_congr (offset : ctx'.batmapHeaderOffset = ctx.batmapHeaderOffset)
    (same : ∀ i < 29, ¬ (24 ≤ i ∧ i < 28) →
      ctx'.file.byte (ctx.batmapHeaderOffset + i) = ctx.file.byte (ctx.batmapHeaderOffset + i)) :
    ctx'.batmapHeader = { ctx.batmapHeader with checksum := ctx'.batmapHeader.checksum } := by
  unfold Context.batmapHeader batmapHeaderIn
  rw [offset, BatmapHeader.mk.injEq]
  have word : ∀ at_ : Nat, at_ + 4 ≤ 24 →
      be32 (fun i => ctx'.file.byte (ctx.batmapHeaderOffset + i)) at_ =
        be32 (fun i => ctx.file.byte (ctx.batmapHeaderOffset + i)) at_ := by
    intro off small
    apply be32_congr
    intro i bound
    exact same (off + i) (by omega) (by omega)
  refine ⟨?_, ?_, word 16 (by omega), word 20 (by omega), rfl, same 28 (by omega) (by omega)⟩
  · congr 2
    apply List.map_congr_left
    intro i member
    rw [List.mem_range] at member
    exact same i (by omega) (by omega)
  · rw [word 8 (by omega), word 12 (by omega)]

theorem hasBatmap_unlooked (blind : ctx.looksForBatmap = false) : ctx.hasBatmap = false := by
  unfold Context.looksForBatmap at blind
  unfold Context.hasBatmap
  cases dynamic : ctx.typeDynamic <;> cases tapdisk : ctx.tapdisk <;>
    simp_all

theorem vhdReadBatmapHeader_ok (marker : ctx.batmapHeaderOffset + 512 ≤ ctx.file.size) :
    vhdReadBatmapHeader ctx.toVhd = .ok ctx.batmapHeader := by
  unfold vhdReadBatmapHeader
  rw [File.read_ok marker, Outcome.ok_bind]
  rfl

theorem hasBatmap_looked (looks : ctx.looksForBatmap = true)
    (marker : ctx.batmapHeaderOffset + 512 ≤ ctx.file.size) :
    ctx.hasBatmap = (decide (0x00010002 ≤ ctx.crtrVer) || ctx.batmapHeader.valid) := by
  unfold Context.looksForBatmap at looks
  simp only [Bool.and_eq_true, decide_eq_true_eq] at looks
  obtain ⟨⟨dynamic, tapdisk⟩, version⟩ := looks
  unfold Context.hasBatmap
  rw [if_neg (by simp [dynamic, tapdisk, version])]
  rw [vhdReadBatmapHeader_ok marker]
  by_cases new : 0x00010002 ≤ ctx.crtrVer <;> simp [new]

theorem Context.Edit.batmapHeader (edit : ctx.Edit block ctx')
    (looks : ctx.looksForBatmap = true) :
    ctx'.batmapHeader = { ctx.batmapHeader with checksum := ctx'.batmapHeader.checksum } := by
  apply batmapHeader_congr
  · rw [edit.fields]
    rfl
  · exact edit.header looks

theorem Context.Edit.looksForBatmap (edit : ctx.Edit block ctx') :
    ctx'.looksForBatmap = ctx.looksForBatmap := by
  rw [edit.fields]
  rfl

theorem Context.Edit.hasBatmap (edit : ctx.Edit block ctx') (laid : ctx.Laid) :
    ctx'.hasBatmap = ctx.hasBatmap := by
  cases looks : ctx.looksForBatmap with
  | false => rw [hasBatmap_unlooked looks, hasBatmap_unlooked (edit.looksForBatmap.trans looks)]
  | true =>
      have offset : ctx'.batmapHeaderOffset = ctx.batmapHeaderOffset := by rw [edit.fields]; rfl
      have version : ctx'.crtrVer = ctx.crtrVer := by rw [edit.fields]
      have marker' : ctx'.batmapHeaderOffset + 512 ≤ ctx'.file.size := offset ▸ edit.marker looks
      have valid : ctx'.batmapHeader.valid = ctx.batmapHeader.valid := by
        rw [edit.batmapHeader looks]
        simp only [BatmapHeader.valid]
      rw [hasBatmap_looked looks (laid.marker looks),
        hasBatmap_looked (edit.looksForBatmap.trans looks) marker', version, valid]

theorem Context.looks_of_has (has : ctx.hasBatmap = true) : ctx.looksForBatmap = true := by
  cases looks : ctx.looksForBatmap with
  | false => exact absurd (hasBatmap_unlooked looks) (by simp [has])
  | true => rfl

theorem Context.Edit.inBatmap_iff (edit : ctx.Edit block ctx') (has : ctx.hasBatmap = true)
    {p : Nat} : ctx'.inBatmap p ↔ ctx.inBatmap p := by
  unfold Context.inBatmap
  rw [edit.batmapHeader (Context.looks_of_has has)]

theorem Context.Edit.inMetadata_iff (edit : ctx.Edit block ctx') (laid : ctx.Laid) {p : Nat} :
    ctx'.inMetadata p ↔ ctx.inMetadata p := by
  have header : ctx'.inBatmapHeader p ↔ ctx.inBatmapHeader p := by rw [edit.fields]; rfl
  have table : ctx'.inTableArea p ↔ ctx.inTableArea p := by rw [edit.fields]; rfl
  unfold Context.inMetadata
  rw [edit.looksForBatmap, edit.hasBatmap laid, header, table]
  by_cases has : ctx.hasBatmap = true
  · rw [edit.inBatmap_iff has]
  · simp [has]

theorem Context.Edit.laid (edit : ctx.Edit block ctx') (laid : ctx.Laid)
    (own : ctx'.allocated block → ∀ p, ctx'.inExtent block p → ¬ ctx.inMetadata p ∧
      ∀ other, other ≠ block → ctx.allocated other → ¬ ctx.inExtent other p) : ctx'.Laid := by
  have moved : ∀ {other}, other ≠ block → ctx'.allocated other →
      ctx.allocated other ∧ ∀ p, ctx'.inExtent other p ↔ ctx.inExtent other p := by
    intro other different allocated
    have before := (edit.allocated_iff laid different).mp allocated
    exact ⟨before, fun p => edit.inExtent_iff laid before.1 different⟩
  have bytes : ctx'.batmapBytes = ctx.batmapBytes := by rw [edit.fields]; rfl
  have offset : ctx'.batmapHeaderOffset = ctx.batmapHeaderOffset := by rw [edit.fields]; rfl
  constructor
  · rw [edit.fields]; exact laid.dynamic
  · rw [edit.fields]; exact laid.blockSize
  · rw [edit.fields]; exact laid.tableBytes
  · rw [edit.fields]; exact laid.batSize
  · rw [edit.fields]; exact laid.covers
  · rw [edit.fields]; exact laid.aligned
  · rw [edit.fields]; exact laid.front
  · exact edit.past
  · rw [offset]
    exact edit.fits
  · intro looks
    rw [offset]
    exact edit.marker (edit.looksForBatmap ▸ looks)
  · intro other allocated p inside
    rw [edit.inMetadata_iff laid]
    by_cases same : other = block
    · subst same
      exact (own allocated p inside).1
    · obtain ⟨before, extent⟩ := moved same allocated
      exact laid.extent other before p ((extent p).mp inside)
  · intro first second allocated allocated' different p inside
    by_cases same : first = block
    · subst same
      obtain ⟨before, extent⟩ := moved (Ne.symm different) allocated'
      rw [extent p]
      exact (own allocated p inside).2 second (Ne.symm different) before
    · obtain ⟨before, extent⟩ := moved same allocated
      rw [extent p] at inside
      by_cases same' : second = block
      · subst same'
        intro inside'
        exact (own allocated' p inside').2 first same before inside
      · obtain ⟨before', extent'⟩ := moved same' allocated'
        rw [extent' p]
        exact laid.disjoint first second before before' different p inside
  · intro has
    rw [edit.hasBatmap laid] at has
    obtain ⟨aligned, room, apart⟩ := laid.map has
    have header := edit.batmapHeader (Context.looks_of_has has)
    refine ⟨?_, ?_, fun p inside => ?_⟩
    · rw [header]
      exact aligned
    · rw [header, bytes]
      exact room
    · have apart := apart p ((edit.inBatmap_iff has).mp inside)
      rw [edit.fields]
      exact apart

theorem Context.Edit.refl (laid : ctx.Laid) : ctx.Edit block ctx :=
  ⟨rfl, laid.past, laid.table, laid.marker, fun _ _ _ => rfl, fun _ _ _ _ _ => rfl,
    fun _ _ _ _ => rfl⟩

theorem Context.Edit.trans (first : ctx.Edit block ctx') (second : ctx'.Edit block ctx'')
    (laid : ctx.Laid) : ctx.Edit block ctx'' := by
  have offset : ctx'.tableOffset = ctx.tableOffset := by rw [first.fields]
  have header : ctx'.batmapHeaderOffset = ctx.batmapHeaderOffset := by rw [first.fields]; rfl
  have looks := first.looksForBatmap
  constructor
  · rw [second.fields, first.fields]
  · exact second.past
  · rw [← header]
    exact second.fits
  · intro look
    rw [← header]
    exact second.marker (looks.trans look)
  · intro p inside apart
    have inside' : ctx'.inTableArea p := by rw [first.fields]; exact inside
    rw [second.table p inside' (offset ▸ apart), first.table p inside apart]
  · intro other different allocated p inside
    have inside' := (first.inExtent_iff laid allocated.1 different).mpr inside
    rw [second.others other different ((first.allocated_iff laid different).mpr allocated) p inside',
      first.others other different allocated p inside]
  · intro look i small apart
    have here := second.header (looks.trans look) i small apart
    rw [header] at here
    rw [here, first.header look i small apart]

theorem Vhd.marks_eq {entry nr : Nat} {map : Nat → UInt8} (old : vhd'.oldBitmap = vhd.oldBitmap)
    (byte : vhd'.file.byte (entry * 512 + nr / 8) = map (nr / 8)) :
    vhd'.marks entry nr = vhdBitmapTest vhd map nr := by
  simp only [Vhd.marks, vhdBitmapTest, testBit, oldTestBit, old, byte]

theorem vhdBitmapTest_congr (old : vhd'.oldBitmap = vhd.oldBitmap) (map : Nat → UInt8)
    (nr : Nat) : vhdBitmapTest vhd' map nr = vhdBitmapTest vhd map nr := by
  simp only [vhdBitmapTest, old]

theorem Vhd.marks_congr {entry nr : Nat} (old : vhd'.oldBitmap = vhd.oldBitmap)
    (byte : vhd'.file.byte (entry * 512 + nr / 8) = vhd.file.byte (entry * 512 + nr / 8)) :
    vhd'.marks entry nr = vhd.marks entry nr :=
  Vhd.marks_eq old byte

theorem Vhd.bitmap_inExtent (size : ∃ k, 9 ≤ k ∧ k < 32 ∧ vhd.blockSize = 2 ^ k) {nr : Nat}
    (small : nr < vhd.spb) : vhd.inExtent block (vhd.entry block * 512 + nr / 8) := by
  have fits := Vhd.spb_le size
  exact ⟨by omega, by omega⟩

theorem Vhd.data_inExtent {nr o : Nat} (small : nr < vhd.spb) (inside : o < 512) :
    vhd.inExtent block ((vhd.entry block + vhd.bmSecs + nr) * 512 + o) :=
  ⟨by omega, by omega⟩

theorem Vhd.content_congr {sector o : Nat} (fields : vhd' = { vhd with file := vhd'.file })
    (dynamic : vhd.typeDynamic = true) (size : ∃ k, 9 ≤ k ∧ k < 32 ∧ vhd.blockSize = 2 ^ k)
    (entry : sector / vhd.spb < vhd.maxBatSize →
      vhd'.entry (sector / vhd.spb) = vhd.entry (sector / vhd.spb))
    (extent : vhd.allocated (sector / vhd.spb) → ∀ p, vhd.inExtent (sector / vhd.spb) p →
      vhd'.file.byte p = vhd.file.byte p) (small : o < 512) :
    vhd'.content sector o = vhd.content sector o := by
  have spb : vhd'.spb = vhd.spb := by rw [fields]; rfl
  have type : vhd'.typeDynamic = vhd.typeDynamic := by rw [fields]; rfl
  have max : vhd'.maxBatSize = vhd.maxBatSize := by rw [fields]
  have curr : vhd'.currSize = vhd.currSize := by rw [fields]
  have bm : vhd'.bmSecs = vhd.bmSecs := by rw [fields]; rfl
  have inside := Nat.mod_lt sector (Vhd.spb_pos size)
  by_cases allocated : vhd.allocated (sector / vhd.spb)
  · have entry := entry allocated.1
    have extent := extent allocated
    have marks : vhd'.marks (vhd.entry (sector / vhd.spb)) (sector % vhd.spb) =
        vhd.marks (vhd.entry (sector / vhd.spb)) (sector % vhd.spb) :=
      Vhd.marks_congr (by rw [fields]) (extent _ (Vhd.bitmap_inExtent size inside))
    have byte := extent _ (Vhd.data_inExtent inside small)
    have allocated' : vhd'.allocated (sector / vhd.spb) := by
      unfold Vhd.allocated
      rw [max, entry]
      exact allocated
    simp only [Vhd.content, Vhd.holds, Vhd.position, spb, type, dynamic, curr, bm, entry, marks,
      allocated, allocated', if_true, byte]
  · have absent : ¬ vhd'.allocated (sector / vhd.spb) := by
      rintro ⟨bound, used⟩
      rw [max] at bound
      rw [entry bound] at used
      exact allocated ⟨bound, used⟩
    simp [Vhd.content, Vhd.holds, spb, type, dynamic, allocated, absent]

theorem Context.Edit.content_other (edit : ctx.Edit block ctx') (laid : ctx.Laid) {sector o : Nat}
    (different : sector / ctx.spb ≠ block) (small : o < 512) :
    ctx'.content sector o = ctx.content sector o := by
  apply Vhd.content_congr _ laid.dynamic laid.blockSize
  · exact fun bound => edit.entry laid bound different
  · exact fun allocated p inside => edit.others _ different allocated p inside
  · exact small
  · rw [edit.fields]

theorem Context.Edit.full_other (edit : ctx.Edit block ctx') (laid : ctx.Laid) {other : Nat}
    (different : other ≠ block) (full : ctx.full other) : ctx'.full other := by
  obtain ⟨allocated, marks⟩ := full
  have spb : ctx'.spb = ctx.spb := by rw [edit.fields]; rfl
  refine ⟨(edit.allocated_iff laid different).mpr allocated, fun nr small => ?_⟩
  rw [spb] at small
  rw [edit.entry laid allocated.1 different, ← marks nr small]
  apply Vhd.marks_congr
  · rw [edit.fields]
  · exact edit.others other different allocated _ (Vhd.bitmap_inExtent laid.blockSize small)

theorem Context.Edit.soundMap (edit : ctx.Edit block ctx') (laid : ctx.Laid) {map : Nat → UInt8}
    (sound : ctx.SoundMap map) (own : ctx.full block → ctx'.full block) : ctx'.SoundMap map := by
  have bytes : ctx'.batmapBytes = ctx.batmapBytes := by rw [edit.fields]; rfl
  intro other bound bit
  rw [bytes] at bound
  have full := sound other bound bit
  by_cases same : other = block
  · subst same
    exact own full
  · exact edit.full_other laid same full

end Edit

end Blktap.Libvhd
