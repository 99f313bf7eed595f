import Blktap.Libvhd.WriteFooter

/-! # What a write leaves behind on its way -/

namespace Blktap.Libvhd
open Lib Action

def Handle.Outside (s : Handle) (p : Nat) : Prop :=
  p < s.dataEnd * 512 ∧ (512 ≤ p → ¬ s.inMetadata p) ∧
    ∀ block, s.allocated block → ¬ s.inExtent block p

def Handle.dense (s : Handle) : Bool := !s.sparse || s.isBlock

structure Handle.Trails (blocks : List Nat) (s t : Handle) : Prop where
  fields : s.SameFields t
  ends : s.dataEnd ≤ t.dataEnd
  size : s.dataEnd * 512 + 512 ≤ t.file.size
  device : s.isBlock = true → s.file.size ≤ t.file.size
  whole : 512 ∣ t.file.size
  tail : ¬ Misleads (sealFooter s.footer) t.file.last
  areas : ∀ p, t.inMetadata p ↔ s.inMetadata p
  outside : ∀ p, s.Outside p → t.file.byte p = s.file.byte p
  kept : ∀ block, s.allocated block → t.entry block = s.entry block
  fresh : ∀ block, t.allocated block → ¬ s.allocated block → block ∈ blocks ∧
    s.dataEnd ≤ t.entry block ∧ (t.entry block + s.bmSecs) * 512 ≤ t.file.size ∧
    (s.dense = true → (t.entry block + s.bmSecs + s.spb) * 512 ≤ t.file.size)

section Trails
variable {s t u : Handle} {blocks : List Nat} {block off n : Nat} {data : Nat → UInt8} {faults : List (Option Fault)}

theorem Handle.Trails.allocated (trails : s.Trails blocks t) (allocated : s.allocated block) :
    t.allocated block := by
  have max : t.maxBatSize = s.maxBatSize := by rw [trails.fields]
  unfold Vhd.allocated
  rw [max, trails.kept block allocated]
  exact allocated

theorem Handle.Trails.outside_metadata (trails : s.Trails blocks t) (laid : t.toContext.Laid) {p : Nat}
    (outside : s.Outside p) : ¬ t.inTableArea p ∧
      ¬ (t.looksForBatmap = true ∧ t.inBatmapHeader p) ∧ ¬ (t.hasBatmap = true ∧ t.inBatmap p) := by
  have apart : 512 ≤ p → ¬ t.inMetadata p := fun high => by
    rw [trails.areas]
    exact outside.2.1 high
  have front := laid.front
  refine ⟨fun inside => apart (front.trans inside.1) (.inr (.inl inside)),
    fun inside => ?_, fun inside => ?_⟩
  · have low := inside.2.1
    unfold Vhd.batmapHeaderOffset at low
    exact apart (by omega) (.inr (.inr (.inl inside)))
  · exact apart ((laid.map inside.1).2.2 p inside.2).1 (.inr (.inr (.inr inside)))

theorem Handle.Trails.put (trails : s.Trails blocks t) (laid : t.toContext.Laid)
    (edit : t.toContext.Edit block ({ t with faults }.put off n data).toContext)
    (same : ({ t with faults }.put off n data).dataEnd = t.dataEnd) (aligned : 512 ∣ off)
    (sectors : 512 ∣ n) (table : ∀ p, off ≤ p → p < off + n → ¬ t.inTableArea p)
    (place : ∀ p, off ≤ p → p < off + n → s.Outside p → data (p - off) = t.file.byte p)
    (tail : ∀ k, (k + 1) * 512 ≤ n → t.file.size ≤ off + (k + 1) * 512 →
      ¬ Misleads (sealFooter s.footer) fun o => data (k * 512 + o)) :
    s.Trails blocks ({ t with faults }.put off n data) := by
  have grows : t.file.size ≤ ({ t with faults }.put off n data).file.size := Context.put_size_le
  obtain ⟨whole, last⟩ := @File.put_last _ data _ _ trails.whole laid.some aligned sectors
  have entry : ∀ block < t.maxBatSize,
      ({ t with faults }.put off n data).entry block = t.entry block := by
    intro block bound
    refine Vhd.entry_congr rfl fun i small => ?_
    apply Context.put_kept laid
    exact fun low high => absurd (laid.inTable bound (Nat.le_add_right _ i) (by omega))
      (table _ low high)
  have max : t.maxBatSize = s.maxBatSize := by rw [trails.fields]
  refine ⟨trails.fields.trans (grown_put t faults off n data).1, trails.ends.trans same.ge,
    trails.size.trans grows, fun isBlock => (trails.device isBlock).trans grows, whole, ?_, fun p => ?_, fun p outside => ?_,
    fun block allocated => ?_, fun block allocated absent => ?_⟩
  · rcases last with kept | ⟨k, part, behind, new⟩
    · exact fun misleads => trails.tail (misleads.congr fun o small => (kept o small).symm)
    · exact fun misleads => tail k part behind (misleads.congr fun o small => (new o small).symm)
  · rw [edit.inMetadata_iff laid, trails.areas]
  · rw [← trails.outside p outside]
    exact Context.put_kept laid fun low high => place p low high outside
  · rw [entry block (max ▸ allocated.1), trails.kept block allocated]
  · have bound : block < t.maxBatSize := allocated.1
    have allocated : t.allocated block := ⟨bound, entry block bound ▸ allocated.2⟩
    rw [entry block bound]
    obtain ⟨member, behind, bitmap, reach⟩ := trails.fresh block allocated absent
    exact ⟨member, behind, bitmap.trans grows, fun dense => (reach dense).trans grows⟩

theorem Handle.Trails.memory (trails : s.Trails blocks t) (context : u.toContext = t.toContext)
    (fields : t.SameFields u) (same : u.dataEnd = t.dataEnd) : s.Trails blocks u := by
  obtain ⟨before, ends, size, device, whole, tail, areas, outside, kept, fresh⟩ := trails
  rw [← context] at size device whole tail areas outside kept fresh
  exact ⟨before.trans fields, ends.trans same.ge, size, device, whole, tail, areas, outside, kept, fresh⟩

theorem Handle.Trails.loads (trails : s.Trails blocks t) (loads : t.Loads u) : s.Trails blocks u := by
  apply trails.memory loads.context _ loads.dataEnd
  unfold Handle.SameFields
  rw [loads.fields]

theorem Handle.Allocates.trails (allocates : t.Allocates block u) (trails : s.Trails blocks t)
    (laid : t.toContext.Laid) (member : block ∈ blocks) (unused : ¬ t.allocated block)
    (grows : t.file.size ≤ u.file.size)
    (device : s.isBlock = true → t.nextEnd t.dataEnd * 512 ≤ t.file.size) : s.Trails blocks u := by
  have edit := allocates.writes.edit
  have bm : t.bmSecs = s.bmSecs := by rw [trails.fields]; rfl
  have spb : t.spb = s.spb := by rw [trails.fields]; rfl
  have sparse : t.sparse = s.sparse := by rw [trails.fields]
  obtain ⟨whole, last⟩ := allocates.blanks trails.whole
  refine ⟨trails.fields.trans allocates.writes.fields, trails.ends.trans allocates.ends,
    trails.size.trans grows, fun isBlock => (trails.device isBlock).trans grows, whole, ?_,
    fun p => ?_, fun p outside => ?_, fun other allocated => ?_, fun other allocated absent => ?_⟩
  · rcases last with same | zero
    · exact fun misleads => trails.tail (misleads.congr fun o small => (same o small).symm)
    · exact not_misleads_zero zero
  · rw [edit.inMetadata_iff laid, trails.areas]
  · rw [allocates.kept p _ (trails.outside_metadata laid outside).1, trails.outside p outside]
    exact Nat.lt_of_lt_of_le outside.1 (Nat.mul_le_mul_right 512 trails.ends)
  · have before := trails.allocated allocated
    have different : other ≠ block := fun same => unused (same ▸ before)
    rw [edit.entry laid before.1 different, trails.kept other allocated]
  · by_cases here : other = block
    · subst here
      have free : u.entry other = t.dataEnd + t.gap t.dataEnd := allocates.entry allocated
      have reach := allocates.reach allocated
      rw [free]
      refine ⟨member, trails.ends.trans (Nat.le_add_right _ _), ?_, fun dense => ?_⟩
      · refine Nat.le_trans (Nat.mul_le_mul_right 512 ?_) reach
        unfold Handle.cleared
        rw [bm]
        omega
      unfold Handle.dense at dense
      rw [Bool.or_eq_true, Bool.not_eq_true'] at dense
      rcases dense with cleared | isBlock
      · refine Nat.le_trans (Nat.mul_le_mul_right 512 ?_) reach
        unfold Handle.cleared
        rw [sparse, cleared, bm, spb]
        simp only [Bool.false_eq_true, if_false]
        omega
      · refine Nat.le_trans ?_ ((device isBlock).trans grows)
        unfold Handle.nextEnd
        rw [bm, spb]
    · have before := (edit.allocated_iff laid here).mp allocated
      obtain ⟨member, behind, bitmap, reach⟩ := trails.fresh other before absent
      rw [edit.entry laid before.1 here]
      exact ⟨member, behind, bitmap.trans grows, fun dense => (reach dense).trans grows⟩

end Trails

section Data
variable {s t u : Handle} {blocks : List Nat} {block sec cnt bound : Nat} {buf : Nat → UInt8}

def Handle.Inert (s : Handle) (block sec cnt : Nat) (buf : Nat → UInt8) : Prop :=
  s.isBlock = false → ¬ s.allocated block → ∀ i < cnt, s.sparse = true ∨ sec + i + 1 = s.spb →
    ¬ Misleads (sealFooter s.footer) fun o => buf (i * 512 + o)

theorem Handle.Trails.reaches (trails : s.Trails blocks t) (room : s.Room) (allocated : t.allocated block)
    (device : s.isBlock = true → (t.entry block + t.bmSecs + t.spb) * 512 + 512 ≤ t.file.size)
    {last : Nat} (inside : last ≤ t.spb)
    (ends : t.file.size ≤ (t.entry block + t.bmSecs + last) * 512) :
    s.isBlock = false ∧ ¬ s.allocated block ∧ (s.sparse = true ∨ last = s.spb) := by
  have bm : t.bmSecs = s.bmSecs := by rw [trails.fields]; rfl
  have spb : t.spb = s.spb := by rw [trails.fields]; rfl
  rw [bm, spb] at device
  rw [bm] at ends
  rw [spb] at inside
  have most : (t.entry block + s.bmSecs + last) * 512 ≤ (t.entry block + s.bmSecs + s.spb) * 512 :=
    Nat.mul_le_mul_right 512 (Nat.add_le_add_left inside _)
  have regular : s.isBlock = false := by
    rw [← Bool.not_eq_true]
    intro isBlock
    have device := device isBlock
    omega
  have absent : ¬ s.allocated block := by
    intro before
    have behind := Nat.mul_le_mul_right 512 (room.extents block before)
    rw [← trails.kept block before] at behind
    have size := trails.size
    omega
  refine ⟨regular, absent, ?_⟩
  rw [or_iff_not_imp_left, Bool.not_eq_true]
  intro cleared
  have dense : s.dense = true := by
    unfold Handle.dense
    rw [cleared]
    rfl
  have reach := (trails.fresh block allocated absent).2.2.2 dense
  have same := Nat.le_of_mul_le_mul_right (reach.trans ends) (by decide)
  omega

end Data

section Marks
variable {s t u : Handle} {blocks : List Nat} {block sec cnt bound n : Nat} {map : Nat → UInt8} {batmap : Batmap}

theorem Handle.Trails.metadata_before (trails : s.Trails blocks t) (laid : s.toContext.Laid)
    (room : s.Room) {p : Nat} (inside : t.inMetadata p) : p < s.dataEnd * 512 := by
  have table := Handle.table_le laid
  have front := laid.front
  rw [trails.areas] at inside
  unfold Vhd.batmapHeaderOffset at table
  rcases inside with copy | inTable | ⟨looks, inHeader⟩ | ⟨has, inMap⟩
  · omega
  · exact (Handle.inTable laid inTable).2
  · exact Nat.lt_of_lt_of_le inHeader.2 (room.marker looks)
  · exact Nat.lt_of_lt_of_le inMap.2 (Handle.batmap_le laid has)

theorem Handle.Trails.put_map (trails : s.Trails blocks t) (laid : s.toContext.Laid) (room : s.Room)
    (sound : t.SoundDisk) {off : Nat} {data : Nat → UInt8} {faults : List (Option Fault)}
    (writes : t.MapWrites ({ t with faults }.put off n data)) (aligned : 512 ∣ off)
    (sectors : 512 ∣ n)
    (inside : ∀ p, off ≤ p → p < off + n → t.hasBatmap = true ∧ t.inBatmap p ∨
      t.looksForBatmap = true ∧ t.inBatmapHeader p) :
    s.Trails blocks ({ t with faults }.put off n data) := by
  have stores := writes.stores 0
  have areas : ∀ p, off ≤ p → p < off + n → t.inMetadata p := fun p low high =>
    .inr (.inr ((inside p low high).symm))
  apply trails.put sound.laid stores.edit (stores.dataEnd sound.laid) aligned sectors
  · intro p low high table
    rcases inside p low high with ⟨has, inMap⟩ | ⟨_, inHeader⟩
    · exact ((sound.laid.map has).2.2 p inMap).2.1 table
    · exact absurd table.2 (Nat.not_lt.mpr inHeader.1)
  · intro p low high outside
    obtain ⟨_, notHeader, notMap⟩ := trails.outside_metadata sound.laid outside
    exact absurd (inside p low high) (not_or.mpr ⟨notMap, notHeader⟩)
  · intro k part ends
    have last := trails.metadata_before laid room (areas (off + n - 1) (by omega) (by omega))
    have size := trails.size
    omega

end Marks

section Turn
variable {s t u : Handle} {blocks : List Nat} {block sec cnt sector secs bound : Nat} {buf : Nat → UInt8}

def Handle.InertRange (s : Handle) (sector secs : Nat) (buf : Nat → UInt8) : Prop :=
  s.isBlock = false → ∀ i < secs, ¬ s.allocated ((sector + i) / s.spb) →
    s.sparse = true ∨ (sector + i) % s.spb + 1 = s.spb →
    ¬ Misleads (sealFooter s.footer) fun o => buf (i * 512 + o)

theorem Handle.InertRange.turn (inert : s.InertRange sector secs buf) (part : cnt ≤ secs)
    (inside : sector % s.spb + cnt ≤ s.spb) :
    s.Inert (sector / s.spb) (sector % s.spb) cnt buf := by
  intro regular absent i small last
  have place : (sector + i) / s.spb = sector / s.spb ∧ (sector + i) % s.spb = sector % s.spb + i := by
    have split := Nat.div_add_mod sector s.spb
    have whole : sector + i = sector % s.spb + i + s.spb * (sector / s.spb) := by omega
    have within : sector % s.spb + i < s.spb := by omega
    rw [whole, Nat.add_mul_div_left _ _ (by omega), Nat.add_mul_mod_self_left,
      Nat.div_eq_of_lt within, Nat.mod_eq_of_lt within, Nat.zero_add]
    exact ⟨rfl, rfl⟩
  apply inert regular i (by omega)
  · rwa [place.1]
  · rwa [place.2]

theorem Handle.InertRange.rest (inert : s.InertRange sector secs buf) (cnt : Nat) :
    s.InertRange (sector + cnt) (secs - cnt) fun p => buf (cnt * 512 + p) := by
  intro regular i small absent last
  rw [Nat.add_assoc] at absent last
  have later := inert regular (cnt + i) (by omega) absent last
  rw [Nat.add_mul] at later
  simpa only [Nat.add_assoc] using later

end Turn

end Blktap.Libvhd
