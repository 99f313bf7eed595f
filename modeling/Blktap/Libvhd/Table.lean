import Blktap.Libvhd.Chain

/-! # Tables in memory -/

namespace Blktap.Libvhd
open Lib

def Vhd.table (vhd : Vhd) : Bat where
  entries := vhd.batEntries
  len := vhdBytesPadded (vhd.batEntries * 4) / 4
  bat i :=
    if i < vhd.batEntries then be32 (fun k => vhd.file.byte (vhd.tableOffset + k)) (4 * i)
    else if i < vhdBytesPadded (vhd.batEntries * 4) / 4 then
      le32 (fun k => vhd.file.byte (vhd.tableOffset + k)) (4 * i)
    else 0

def Vhd.lookup (vhd : Vhd) (sector : Nat) : Nat := vhd.table.bat (vhd.slot sector)

def Vhd.readable (vhd : Vhd) (sector : Nat) : Prop :=
  vhd.slot sector < vhd.table.len ∧
    (vhd.lookup sector = ddBlkUnused ∨ vhd.slot sector < vhd.batEntries)

def Vhd.finds (vhd : Vhd) (sector : Nat) : Prop :=
  vhd.slot sector < vhd.batEntries ∧ vhd.lookup sector ≠ ddBlkUnused ∧
    vhd.marks (vhd.lookup sector) (sector % vhd.spb) = true

instance (vhd : Vhd) (sector : Nat) : Decidable (vhd.finds sector) :=
  inferInstanceAs (Decidable (_ ∧ _ ∧ _))

def Vhd.source (vhd : Vhd) (sector : Nat) : Nat :=
  (vhd.lookup sector + vhd.bmSecs + sector % vhd.spb) * 512

section Table
variable {vhd : Vhd}

theorem vhdReadBat_within (covers : vhd.batEntries ≤ vhd.maxBatSize)
    (table : vhd.tableOffset + vhdBytesPadded (vhd.batEntries * 4) ≤ vhd.file.size)
    (dynamic : vhd.typeDynamic = true) : vhdReadBat vhd = .ok vhd.table := by
  unfold vhdReadBat
  rw [if_neg (by simp [dynamic]), if_neg (Nat.not_lt.mpr covers)]
  simp only [File.read_ok table, Outcome.ok_bind]
  rfl

theorem vhdReadBat_table (valid : vhd.Valid) (dynamic : vhd.typeDynamic = true) :
    vhdReadBat vhd = .ok vhd.table :=
  vhdReadBat_within valid.covers valid.table dynamic

theorem vhdReadBat_fixed (fixed : vhd.typeDynamic = false) :
    vhdReadBat vhd = .error (-einval) := by
  unfold vhdReadBat
  rw [if_pos (by simp [fixed])]

theorem table_entry {block : Nat} (loaded : block < vhd.batEntries) :
    vhd.table.bat block = vhd.entry block := by
  simp only [Vhd.table, if_pos loaded, Vhd.entry]
  apply be32_congr
  intro i _
  congr 1
  omega

theorem table_len : vhd.batEntries ≤ vhd.table.len := by
  have bound : vhd.batEntries < 2 ^ 32 := Nat.mod_lt _ (by omega)
  have padded : vhd.batEntries * 4 ≤ vhdBytesPadded (vhd.batEntries * 4) := by
    unfold vhdBytesPadded secsRoundUpNoZero secsRoundUp
    split <;> omega
  simp only [Vhd.table]
  omega

theorem lookup_allocated (valid : vhd.Valid) {sector : Nat}
    (loaded : vhd.slot sector < vhd.batEntries) (used : vhd.lookup sector ≠ ddBlkUnused) :
    vhd.allocated (vhd.slot sector) ∧ vhd.lookup sector = vhd.entry (vhd.slot sector) := by
  have entry : vhd.lookup sector = vhd.entry (vhd.slot sector) := table_entry loaded
  exact ⟨⟨Nat.lt_of_lt_of_le loaded valid.covers, entry ▸ used⟩, entry⟩

theorem vhdReadBitmap_ok (valid : vhd.Valid) (dynamic : vhd.typeDynamic = true) {sector : Nat}
    (loaded : vhd.slot sector < vhd.batEntries) (used : vhd.lookup sector ≠ ddBlkUnused) :
    vhdReadBitmap vhd vhd.table (vhd.slot sector) =
      .ok fun i => vhd.file.byte (vhd.lookup sector * 512 + i) := by
  obtain ⟨allocated, entry⟩ := lookup_allocated valid loaded used
  have fits := valid.bitmap _ allocated
  rw [← entry] at fits
  unfold vhdReadBitmap
  rw [if_neg (by simp [dynamic]), if_neg (show ¬ vhd.table.entries ≤ _ from Nat.not_le.mpr loaded),
    if_neg (show ¬ vhd.table.bat _ = _ from used)]
  exact File.read_ok fits

theorem vhdReadBlock_ok (valid : vhd.Valid) (dynamic : vhd.typeDynamic = true) {sector : Nat}
    (loaded : vhd.slot sector < vhd.batEntries) (used : vhd.lookup sector ≠ ddBlkUnused) :
    vhdReadBlock vhd vhd.table (vhd.slot sector) =
      .ok fun i => vhd.file.byte ((vhd.lookup sector + vhd.bmSecs) * 512 + i) := by
  obtain ⟨allocated, entry⟩ := lookup_allocated valid loaded used
  have fits := valid.data _ allocated
  have whole := valid.spb_mul
  rw [← entry] at fits
  unfold vhdReadBlock
  rw [if_neg (by simp [dynamic]), if_neg (show ¬ vhd.table.entries ≤ _ from Nat.not_le.mpr loaded),
    if_neg (show ¬ vhd.table.bat _ = _ from used)]
  have slot : vhd.table.bat (vhd.slot sector) = vhd.lookup sector := rfl
  have room : (vhd.lookup sector + vhd.bmSecs) * 512 + vhd.spb * 512 ≤ vhd.file.size := by
    rw [whole]
    exact Nat.le_of_add_right_le fits
  have short : ¬ vhd.file.size - 512 < (vhd.lookup sector + vhd.bmSecs) * 512 + vhd.blockSize :=
    Nat.not_lt.mpr (Nat.le_sub_of_add_le fits)
  simp only [slot, if_neg short, File.read_ok room]

end Table

section Block
variable {vhd : Vhd} {first sector : Nat}

theorem same_block (spb : 0 < vhd.spb) (above : first ≤ sector)
    (below : sector < first + (vhd.spb - first % vhd.spb)) :
    sector / vhd.spb = first / vhd.spb ∧
      sector % vhd.spb = first % vhd.spb + (sector - first) := by
  have inside := Nat.mod_lt first spb
  have atFirst := Nat.div_add_mod first vhd.spb
  have block : sector / vhd.spb = first / vhd.spb := by
    apply Nat.div_eq_of_lt_le
    · rw [Nat.mul_comm]
      omega
    · rw [Nat.mul_comm, Nat.mul_add]
      omega
  have atSector := Nat.div_add_mod sector vhd.spb
  rw [block] at atSector
  exact ⟨block, by omega⟩

theorem next_aligned (first : Nat) (spb : 0 < vhd.spb) :
    (first + (vhd.spb - first % vhd.spb)) % vhd.spb = 0 := by
  have inside := Nat.mod_lt first spb
  have atFirst := Nat.div_add_mod first vhd.spb
  have : first + (vhd.spb - first % vhd.spb) = vhd.spb * (first / vhd.spb + 1) := by
    rw [Nat.mul_add]
    omega
  rw [this]
  exact Nat.mul_mod_right _ _

theorem readable_same (block : sector / vhd.spb = first / vhd.spb) (readable : vhd.readable first) :
    vhd.readable sector := by
  unfold Vhd.readable Vhd.lookup Vhd.slot at readable ⊢
  rwa [block]

end Block

section Layout
variable {vhd vhd' : Vhd}

theorem Vhd.SameLayout.table (same : vhd.SameLayout vhd') (valid : vhd.Valid) :
    vhd'.table = vhd.table := by
  have entries : vhd'.batEntries = vhd.batEntries := by rw [same.fields]; rfl
  have offset : vhd'.tableOffset = vhd.tableOffset := by rw [same.fields]
  have loaded : vhd.batEntries ≤ vhdBytesPadded (vhd.batEntries * 4) / 4 := table_len
  have byte : ∀ k, k < vhdBytesPadded (vhd.batEntries * 4) / 4 * 4 →
      vhd'.file.byte (vhd.tableOffset + k) = vhd.file.byte (vhd.tableOffset + k) := by
    intro k small
    exact same.metadata _ fun data =>
      (valid.apart _ data).1 ⟨Nat.le_add_right _ _, .inr (by omega)⟩
  unfold Vhd.table
  rw [entries, offset, Bat.mk.injEq]
  refine ⟨rfl, rfl, ?_⟩
  funext i
  split
  · apply be32_congr
    intro k small
    exact byte _ (by omega)
  · split
    · apply le32_congr
      intro k small
      exact byte _ (by omega)
    · rfl

theorem Vhd.SameLayout.slot (same : vhd.SameLayout vhd') (sector : Nat) :
    vhd'.slot sector = vhd.slot sector := by
  rw [same.fields]
  rfl

theorem Vhd.SameLayout.lookup (same : vhd.SameLayout vhd') (valid : vhd.Valid) (sector : Nat) :
    vhd'.lookup sector = vhd.lookup sector := by
  unfold Vhd.lookup
  rw [same.table valid, same.slot]

theorem Vhd.SameLayout.readable_iff (same : vhd.SameLayout vhd') (valid : vhd.Valid)
    {sector : Nat} : vhd'.readable sector ↔ vhd.readable sector := by
  have entries : vhd'.batEntries = vhd.batEntries := by rw [same.fields]; rfl
  simp only [Vhd.readable, same.slot, same.lookup valid, same.table valid, entries]

theorem Vhd.SameLayout.finds_iff (same : vhd.SameLayout vhd') (valid : vhd.Valid)
    {sector : Nat} : vhd'.finds sector ↔ vhd.finds sector := by
  have entries : vhd'.batEntries = vhd.batEntries := by rw [same.fields]; rfl
  have spb : vhd'.spb = vhd.spb := by rw [same.fields]; rfl
  unfold Vhd.finds
  rw [same.slot, same.lookup valid, entries, spb]
  refine and_congr_right fun loaded => and_congr_right fun used => ?_
  obtain ⟨allocated, entry⟩ := lookup_allocated valid loaded used
  rw [entry, same.marks valid allocated (Nat.mod_lt _ valid.spb_pos)]

theorem Vhd.SameLayout.source (same : vhd.SameLayout vhd') (valid : vhd.Valid) (sector : Nat) :
    vhd'.source sector = vhd.source sector := by
  have bm : vhd'.bmSecs = vhd.bmSecs := by rw [same.fields]; rfl
  have spb : vhd'.spb = vhd.spb := by rw [same.fields]; rfl
  unfold Vhd.source
  rw [same.lookup valid, bm, spb]

theorem Vhd.finds.inData {sector o : Nat} (found : vhd.finds sector) (valid : vhd.Valid)
    (dynamic : vhd.typeDynamic = true) (small : o < 512) :
    vhd.inData (vhd.source sector + o) := by
  obtain ⟨loaded, used, _⟩ := found
  obtain ⟨allocated, entry⟩ := lookup_allocated valid loaded used
  have inside := Nat.mod_lt sector valid.spb_pos
  unfold Vhd.inData Vhd.source
  rw [if_pos dynamic, entry]
  exact ⟨_, allocated, by omega, by omega⟩

theorem Vhd.holds.inData {sector o : Nat} (held : vhd.holds sector) (valid : vhd.Valid)
    (dynamic : vhd.typeDynamic = true) (small : o < 512) :
    vhd.inData (vhd.position sector + o) := by
  have inside := Nat.mod_lt sector valid.spb_pos
  unfold Vhd.inData Vhd.position
  rw [if_pos dynamic, if_pos dynamic]
  exact ⟨_, (held.2 dynamic).1, by omega, by omega⟩

theorem source_position {sector : Nat} (valid : vhd.Valid) (dynamic : vhd.typeDynamic = true)
    (found : vhd.finds sector) (held : vhd.holds sector) :
    vhd.source sector = vhd.position sector := by
  obtain ⟨loaded, used, _⟩ := found
  have entry := (lookup_allocated valid loaded used).2
  have bound : sector / vhd.spb < 2 ^ 32 :=
    Nat.lt_trans (held.2 dynamic).1.1 valid.batSize
  have slot : vhd.slot sector = sector / vhd.spb := Nat.mod_eq_of_lt bound
  unfold Vhd.source Vhd.position
  rw [if_pos dynamic, entry, slot]

end Layout

end Blktap.Libvhd
