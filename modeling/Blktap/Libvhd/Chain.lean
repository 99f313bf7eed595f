import Mathlib.Tactic.Ring
import Blktap.Libvhd.Image

/-! # What a chain of images holds -/

namespace Blktap.Libvhd
open Lib

def Vhd.entry (vhd : Vhd) (block : Nat) : Nat := be32 vhd.file.byte (vhd.tableOffset + 4 * block)

def Vhd.marks (vhd : Vhd) (entry nr : Nat) : Bool :=
  vhdBitmapTest vhd (fun i => vhd.file.byte (entry * 512 + i)) nr

def Vhd.allocated (vhd : Vhd) (block : Nat) : Prop :=
  block < vhd.maxBatSize ∧ vhd.entry block ≠ ddBlkUnused

instance (vhd : Vhd) (block : Nat) : Decidable (vhd.allocated block) :=
  inferInstanceAs (Decidable (_ ∧ _))

def Vhd.holds (vhd : Vhd) (sector : Nat) : Prop :=
  sector * 512 < vhd.currSize ∧
    (vhd.typeDynamic = true → vhd.allocated (sector / vhd.spb) ∧
      vhd.marks (vhd.entry (sector / vhd.spb)) (sector % vhd.spb) = true)

instance (vhd : Vhd) (sector : Nat) : Decidable (vhd.holds sector) :=
  inferInstanceAs (Decidable (_ ∧ _))

def Vhd.position (vhd : Vhd) (sector : Nat) : Nat :=
  if vhd.typeDynamic then
    (vhd.entry (sector / vhd.spb) + vhd.bmSecs + sector % vhd.spb) * 512
  else sector * 512

inductive Chain
  | base (vhd : Vhd)
  | differRaw (vhd : Vhd) (raw : File)
  | differ (vhd : Vhd) (parent : Chain)

def Chain.top : Chain → Vhd
  | base vhd => vhd
  | differRaw vhd _ => vhd
  | differ vhd _ => vhd

def File.rawByte (raw : File) (sector o : Nat) : UInt8 :=
  if sector * 512 + o < raw.size then raw.byte (sector * 512 + o) else 0

def Chain.byte : Chain → Nat → Nat → UInt8
  | base vhd, sector, o =>
      if vhd.holds sector then vhd.file.byte (vhd.position sector + o) else 0
  | differRaw vhd raw, sector, o =>
      if vhd.holds sector then vhd.file.byte (vhd.position sector + o) else raw.rawByte sector o
  | differ vhd parent, sector, o =>
      if vhd.holds sector then vhd.file.byte (vhd.position sector + o) else parent.byte sector o

def Vhd.inData (vhd : Vhd) (p : Nat) : Prop :=
  if vhd.typeDynamic then
    ∃ block, vhd.allocated block ∧ (vhd.entry block + vhd.bmSecs) * 512 ≤ p ∧
      p < (vhd.entry block + vhd.bmSecs + vhd.spb) * 512
  else p < vhd.currSize

def Vhd.inTable (vhd : Vhd) (p : Nat) : Prop :=
  vhd.tableOffset ≤ p ∧
    (p < vhd.tableOffset + 4 * vhd.maxBatSize ∨
      p < vhd.tableOffset + vhdBytesPadded (vhd.batEntries * 4))

def Vhd.inBitmap (vhd : Vhd) (p : Nat) : Prop :=
  ∃ block, vhd.allocated block ∧ vhd.entry block * 512 ≤ p ∧
    p < (vhd.entry block + vhd.bmSecs) * 512

/-- What the format promises of an image -/
structure Vhd.Valid (vhd : Vhd) : Prop where
  blockSize : ∃ k, 9 ≤ k ∧ k < 32 ∧ vhd.blockSize = 2 ^ k
  batSize : vhd.maxBatSize < 2 ^ 32
  covers : vhd.batEntries ≤ vhd.maxBatSize
  table : vhd.tableOffset + vhdBytesPadded (vhd.batEntries * 4) ≤ vhd.file.size
  bitmap : ∀ block, vhd.allocated block →
    vhd.entry block * 512 + vhdBytesPadded (vhd.spb / 8) ≤ vhd.file.size
  data : ∀ block, vhd.allocated block →
    (vhd.entry block + vhd.bmSecs) * 512 + vhd.blockSize + 512 ≤ vhd.file.size
  apart : ∀ p, vhd.inData p → ¬ vhd.inTable p ∧ ¬ vhd.inBitmap p

def Vhd.ValidFixed (vhd : Vhd) : Prop :=
  512 ∣ vhd.currSize ∧ vhd.currSize + 512 ≤ vhd.file.size

def Chain.Valid : Chain → Prop
  | base vhd => vhd.type ≠ .diff ∧ (vhd.type = .dynamic → vhd.Valid) ∧
      (vhd.type = .fixed → vhd.ValidFixed)
  | differRaw vhd _ => vhd.type = .diff ∧ vhd.Valid
  | differ vhd parent => vhd.type = .diff ∧ vhd.Valid ∧ parent.Valid

structure Vhd.SameLayout (vhd vhd' : Vhd) : Prop where
  fields : vhd' = { vhd with file := vhd'.file }
  size : vhd'.file.size = vhd.file.size
  metadata : ∀ p, ¬ vhd.inData p → vhd'.file.byte p = vhd.file.byte p

inductive Chain.SameLayout : Chain → Chain → Prop
  | base {vhd vhd' : Vhd} : vhd.SameLayout vhd' → SameLayout (.base vhd) (.base vhd')
  | differRaw {vhd vhd' : Vhd} {raw raw' : File} : vhd.SameLayout vhd' → raw'.size = raw.size →
      SameLayout (.differRaw vhd raw) (.differRaw vhd' raw')
  | differ {vhd vhd' : Vhd} {parent parent' : Chain} : vhd.SameLayout vhd' →
      SameLayout parent parent' → SameLayout (.differ vhd parent) (.differ vhd' parent')

section Layout
variable {vhd vhd' : Vhd}

theorem Vhd.SameLayout.refl (vhd : Vhd) : vhd.SameLayout vhd := ⟨rfl, rfl, fun _ _ => rfl⟩

theorem Chain.SameLayout.refl (chain : Chain) : chain.SameLayout chain := by
  induction chain with
  | base vhd => exact .base (.refl vhd)
  | differRaw vhd raw => exact .differRaw (.refl vhd) rfl
  | differ vhd parent ih => exact .differ (.refl vhd) ih

theorem Vhd.spb_pos (size : ∃ k, 9 ≤ k ∧ k < 32 ∧ vhd.blockSize = 2 ^ k) : 0 < vhd.spb := by
  obtain ⟨k, low, _, size⟩ := size
  have : 2 ^ 9 ≤ 2 ^ k := Nat.pow_le_pow_right (by omega) low
  unfold Vhd.spb
  omega

theorem Vhd.spb_mul (size : ∃ k, 9 ≤ k ∧ k < 32 ∧ vhd.blockSize = 2 ^ k) :
    vhd.spb * 512 = vhd.blockSize := by
  obtain ⟨k, low, _, size⟩ := size
  unfold Vhd.spb
  rw [size]
  exact Nat.div_mul_cancel (Nat.pow_dvd_pow 2 low)

theorem Vhd.spb_le (size : ∃ k, 9 ≤ k ∧ k < 32 ∧ vhd.blockSize = 2 ^ k) :
    vhd.spb ≤ vhd.bmSecs * 4096 := by
  obtain ⟨k, low, high, size⟩ := size
  have positive := secsRoundUpNoZero_pos (vhd.spb / 8)
  have spbEq : vhd.spb = 2 ^ (k - 9) := by
    unfold Vhd.spb
    rw [size, show (512 : Nat) = 2 ^ 9 from rfl, Nat.pow_div low (by omega)]
  unfold Vhd.bmSecs at *
  by_cases small : k - 9 ≤ 12
  · have : 2 ^ (k - 9) ≤ 2 ^ 12 := Nat.pow_le_pow_right (by omega) small
    omega
  · have eighth : vhd.spb / 8 = 512 * 2 ^ (k - 21) := by
      rw [spbEq, show (8 : Nat) = 2 ^ 3 from rfl, Nat.pow_div (by omega) (by omega),
        show (512 : Nat) = 2 ^ 9 from rfl, ← Nat.pow_add]
      congr 1
      omega
    have whole : vhd.spb = 4096 * 2 ^ (k - 21) := by
      rw [spbEq, show (4096 : Nat) = 2 ^ 12 from rfl, ← Nat.pow_add]
      congr 1
      omega
    have bound : 2 ^ (k - 21) ≤ 2 ^ 10 := Nat.pow_le_pow_right (by omega) (by omega)
    have : secsRoundUp (vhd.spb / 8) = 2 ^ (k - 21) := by
      unfold secsRoundUp
      omega
    unfold secsRoundUpNoZero
    split <;> omega

theorem Vhd.Valid.spb_pos (valid : vhd.Valid) : 0 < vhd.spb := Vhd.spb_pos valid.blockSize

theorem Vhd.Valid.spb_mul (valid : vhd.Valid) : vhd.spb * 512 = vhd.blockSize :=
  Vhd.spb_mul valid.blockSize

theorem Vhd.Valid.spb_le (valid : vhd.Valid) : vhd.spb ≤ vhd.bmSecs * 4096 :=
  Vhd.spb_le valid.blockSize

theorem Vhd.SameLayout.entry (same : vhd.SameLayout vhd') (valid : vhd.Valid) {block : Nat}
    (bound : block < vhd.maxBatSize) : vhd'.entry block = vhd.entry block := by
  have offset : vhd'.tableOffset = vhd.tableOffset := by rw [same.fields]
  unfold Vhd.entry
  rw [offset]
  apply be32_congr
  intro i small
  refine same.metadata _ fun data => (valid.apart _ data).1 ⟨by omega, .inl (by omega)⟩

theorem Vhd.SameLayout.marks (same : vhd.SameLayout vhd') (valid : vhd.Valid) {block nr : Nat}
    (allocated : vhd.allocated block) (bound : nr < vhd.spb) :
    vhd'.marks (vhd.entry block) nr = vhd.marks (vhd.entry block) nr := by
  have fits := valid.spb_le
  have old : vhd'.oldBitmap = vhd.oldBitmap := by rw [same.fields]
  have byte : vhd'.file.byte (vhd.entry block * 512 + nr / 8) =
      vhd.file.byte (vhd.entry block * 512 + nr / 8) := by
    refine same.metadata _ fun data => (valid.apart _ data).2 ⟨block, allocated, by omega, ?_⟩
    rw [Nat.add_mul]
    omega
  simp only [Vhd.marks, vhdBitmapTest, testBit, oldTestBit, old, byte]

theorem Vhd.SameLayout.allocated_iff (same : vhd.SameLayout vhd') (valid : vhd.Valid)
    {block : Nat} : vhd'.allocated block ↔ vhd.allocated block := by
  have max : vhd'.maxBatSize = vhd.maxBatSize := by rw [same.fields]
  unfold Vhd.allocated
  rw [max]
  constructor
  · rintro ⟨bound, used⟩
    exact ⟨bound, same.entry valid bound ▸ used⟩
  · rintro ⟨bound, used⟩
    exact ⟨bound, (same.entry valid bound).symm ▸ used⟩

theorem Vhd.SameLayout.inData_iff (same : vhd.SameLayout vhd')
    (valid : vhd.typeDynamic = true → vhd.Valid) {p : Nat} : vhd'.inData p ↔ vhd.inData p := by
  have type : vhd'.typeDynamic = vhd.typeDynamic := by rw [same.fields]; rfl
  have size : vhd'.currSize = vhd.currSize := by rw [same.fields]
  have bm : vhd'.bmSecs = vhd.bmSecs := by rw [same.fields]; rfl
  have spb : vhd'.spb = vhd.spb := by rw [same.fields]; rfl
  unfold Vhd.inData
  rw [type, size, bm, spb]
  split
  · rename_i dynamic
    have valid := valid dynamic
    constructor
    · rintro ⟨block, allocated, range⟩
      have allocated' := (same.allocated_iff valid).mp allocated
      exact ⟨block, allocated', same.entry valid allocated'.1 ▸ range⟩
    · rintro ⟨block, allocated, range⟩
      refine ⟨block, (same.allocated_iff valid).mpr allocated, ?_⟩
      rw [same.entry valid allocated.1]
      exact range
  · rfl

theorem Vhd.SameLayout.holds_iff (same : vhd.SameLayout vhd')
    (valid : vhd.typeDynamic = true → vhd.Valid) {sector : Nat} :
    vhd'.holds sector ↔ vhd.holds sector := by
  have type : vhd'.typeDynamic = vhd.typeDynamic := by rw [same.fields]; rfl
  have size : vhd'.currSize = vhd.currSize := by rw [same.fields]
  have spb : vhd'.spb = vhd.spb := by rw [same.fields]; rfl
  unfold Vhd.holds
  rw [type, size, spb]
  refine and_congr_right fun _ => forall_congr' fun dynamic => ?_
  have valid := valid dynamic
  rw [same.allocated_iff valid]
  refine and_congr_right fun allocated => ?_
  rw [same.entry valid allocated.1,
    same.marks valid allocated (Nat.mod_lt _ valid.spb_pos)]

theorem Vhd.SameLayout.position (same : vhd.SameLayout vhd')
    (valid : vhd.typeDynamic = true → vhd.Valid) {sector : Nat} (held : vhd.holds sector) :
    vhd'.position sector = vhd.position sector := by
  have type : vhd'.typeDynamic = vhd.typeDynamic := by rw [same.fields]; rfl
  have bm : vhd'.bmSecs = vhd.bmSecs := by rw [same.fields]; rfl
  have spb : vhd'.spb = vhd.spb := by rw [same.fields]; rfl
  unfold Vhd.position
  rw [type, bm, spb]
  split
  · rename_i dynamic
    rw [same.entry (valid dynamic) (held.2 dynamic).1.1]
  · rfl

theorem Vhd.SameLayout.valid (same : vhd.SameLayout vhd')
    (valid : vhd.Valid) : vhd'.Valid := by
  have table : vhd'.tableOffset = vhd.tableOffset := by rw [same.fields]
  have max : vhd'.maxBatSize = vhd.maxBatSize := by rw [same.fields]
  have entries : vhd'.batEntries = vhd.batEntries := by rw [same.fields]; rfl
  have block : vhd'.blockSize = vhd.blockSize := by rw [same.fields]
  have bm : vhd'.bmSecs = vhd.bmSecs := by rw [same.fields]; rfl
  have spb : vhd'.spb = vhd.spb := by rw [same.fields]; rfl
  have moved : ∀ {block}, vhd'.allocated block →
      vhd.allocated block ∧ vhd'.entry block = vhd.entry block := by
    intro block allocated
    have allocated := (same.allocated_iff valid).mp allocated
    exact ⟨allocated, same.entry valid allocated.1⟩
  constructor
  · rw [block]
    exact valid.blockSize
  · rw [max]
    exact valid.batSize
  · rw [entries, max]
    exact valid.covers
  · rw [table, entries, same.size]
    exact valid.table
  · intro block allocated
    rw [spb, same.size, (moved allocated).2]
    exact valid.bitmap block (moved allocated).1
  · intro block' allocated
    rw [bm, block, same.size, (moved allocated).2]
    exact valid.data block' (moved allocated).1
  · intro p data
    have apart := valid.apart p ((same.inData_iff fun _ => valid).mp data)
    constructor
    · unfold Vhd.inTable
      rw [table, max, entries]
      exact apart.1
    · rintro ⟨block, allocated, range⟩
      rw [(moved allocated).2, bm] at range
      exact apart.2 ⟨block, (moved allocated).1, range⟩

end Layout

noncomputable def Vhd.withContents (vhd : Vhd) (contents : Nat → UInt8) : Vhd :=
  open Classical in
  { vhd with file := { vhd.file with
      byte := fun p => if vhd.inData p then contents p else vhd.file.byte p } }

theorem Vhd.withContents_layout (vhd : Vhd) (contents : Nat → UInt8) :
    vhd.SameLayout (vhd.withContents contents) := by
  refine ⟨rfl, rfl, fun p outside => ?_⟩
  exact if_neg outside

theorem Vhd.withContents_byte {vhd : Vhd} {contents : Nat → UInt8} {p : Nat}
    (data : vhd.inData p) : (vhd.withContents contents).file.byte p = contents p :=
  if_pos data

end Blktap.Libvhd
