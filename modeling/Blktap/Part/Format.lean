import Mathlib.Tactic.Ring
import Blktap.Lib.Outcome

/-!
# Formatting a disk with one partition (`part-util.c`)

The partition begins at the second track and ends with the last whole cylinder. Its first and last sector are also
given by cylinder, head and sector, in three bytes each.
-/

namespace Blktap.Part
open Lib

def partitionBootable : UInt8 := 0x80
def mbrSignature : UInt16 := 0xaa55
def einval : Int := 22

structure PartitionGeometry where
  heads : Nat
  sectors : Nat
  cylinders : Nat

structure PartitionChs where
  chs0 : UInt8
  chs1 : UInt8
  chs2 : UInt8
  deriving DecidableEq

def PartitionChs.zero : PartitionChs := ⟨0, 0, 0⟩

structure PrimaryPartition where
  status : UInt8
  chsFirst : PartitionChs
  type : UInt8
  chsLast : PartitionChs
  lba : Nat
  blocks : Nat
  deriving DecidableEq

def PrimaryPartition.zero : PrimaryPartition := ⟨0, .zero, 0, .zero, 0, 0⟩

structure PartitionTable where
  diskSignature : UInt32
  partitions : Fin 4 → PrimaryPartition
  mbrSignature : UInt16

def withCylinder (head sector : UInt8) (cylinder : Nat) : PartitionChs :=
  ⟨head, sector ||| UInt8.ofNat (cylinder / 4 &&& 0xc0), UInt8.ofNat (cylinder &&& 0xff)⟩

def lbaToChs (geo : PartitionGeometry) (lba : Nat) : PartitionChs :=
  if 0x3ff * geo.sectors * geo.heads ≤ lba then
    withCylinder (UInt8.ofNat (geo.heads - 1)) (UInt8.ofNat geo.sectors) 0x3ff
  else
    withCylinder (UInt8.ofNat (lba / geo.sectors % geo.heads)) (UInt8.ofNat (lba % geo.sectors + 1))
      (lba / geo.sectors / geo.heads)

structure Chs where
  cylinder : Nat
  head : Nat
  sector : Nat
  deriving DecidableEq

def chsUnpack (c : PartitionChs) : Chs where
  head := c.chs0.toNat
  sector := (c.chs1 &&& 0x3f).toNat
  cylinder := (c.chs1 &&& 0xc0).toNat * 4 + c.chs2.toNat

structure Device where
  bytes : Nat
  secSize : Nat
  heads : Nat
  sectors : Nat
  bytes_lt : bytes < 2 ^ 64
  secSize_pos : 0 < secSize
  secSize_whole : 512 ∣ secSize
  heads_pos : 1 ≤ heads
  heads_le : heads ≤ 255
  sectors_pos : 1 ≤ sectors
  sectors_le : sectors ≤ 63

/-- The sectors of 512 bytes in a cylinder, which are counted in an `int` -/
def Device.perCylinder (dev : Device) : Nat := dev.secSize / 512 * dev.heads * dev.sectors

def saturated (value : Nat) : Nat := if value % 2 ^ 32 ≠ value then 2 ^ 32 - 1 else value % 2 ^ 32

def Device.partition (dev : Device) (type : UInt8) : PrimaryPartition :=
  let llcyls := dev.bytes / 512 / dev.perCylinder
  let pgeo : PartitionGeometry := ⟨dev.heads, dev.sectors, saturated llcyls⟩
  let start := pgeo.sectors
  let lend := (dev.heads * dev.sectors * llcyls + (2 ^ 64 - 1)) % 2 ^ 64
  { status := partitionBootable
    chsFirst := lbaToChs pgeo start
    type
    chsLast := lbaToChs pgeo lend
    lba := start
    blocks := (saturated lend + (2 ^ 32 - start) + 1) % 2 ^ 32 }

def formatPartition (dev : Device) (type : UInt8) (random : UInt32) : Outcome PartitionTable :=
  if 2 ^ 31 ≤ dev.perCylinder then .undefined
  else .ok
    { diskSignature := random
      partitions := fun i => if i = 0 then dev.partition type else .zero
      mbrSignature }

def primaryPartitionValidate (p : PrimaryPartition) : Int :=
  if p.status ≠ partitionBootable ∧ p.status ≠ 0 then einval else 0

def partitionTableValidate (pt : PartitionTable) : Int :=
  if pt.mbrSignature ≠ mbrSignature then einval
  else ((List.finRange 4).map fun i => primaryPartitionValidate (pt.partitions i)).find? (· ≠ 0) |>.getD 0

def Device.size (dev : Device) : Nat := dev.bytes / dev.secSize

def Device.wholeCylinders (dev : Device) : Nat := dev.size / (dev.heads * dev.sectors)

def Device.chsOf (dev : Device) (lba : Nat) : Chs where
  cylinder := lba / (dev.heads * dev.sectors)
  head := lba / dev.sectors % dev.heads
  sector := lba % dev.sectors + 1

def Device.chsLimit (dev : Device) : Nat := 1024 * (dev.heads * dev.sectors) - 1

structure Describes (dev : Device) (p : PrimaryPartition) : Prop where
  length : 1 ≤ p.blocks
  first : p.lba < dev.size
  last : p.lba + p.blocks - 1 < dev.size
  chsFirst : chsUnpack p.chsFirst = dev.chsOf p.lba
  chsLast : chsUnpack p.chsLast = dev.chsOf (min (p.lba + p.blocks - 1) dev.chsLimit)

section Pack
variable {head sector cylinder : Nat}

theorem and_high (x : Nat) (small : x < 256) : x &&& 0xc0 = x / 64 * 64 := by
  have all : ∀ x : Fin 256, x.val &&& 0xc0 = x.val / 64 * 64 := by decide +kernel
  exact all ⟨x, small⟩

theorem or_parts (s h : Nat) (low : s < 64) (high : h < 4) :
    (s ||| h * 64) &&& 0x3f = s ∧ (s ||| h * 64) &&& 0xc0 = h * 64 := by
  have all : ∀ s : Fin 64, ∀ h : Fin 4,
      (s.val ||| h.val * 64) &&& 0x3f = s.val ∧ (s.val ||| h.val * 64) &&& 0xc0 = h.val * 64 := by decide +kernel
  exact all ⟨s, low⟩ ⟨h, high⟩

theorem chsUnpack_withCylinder (heads : head < 256) (sectors : sector < 64) (cylinders : cylinder < 1024) :
    chsUnpack (withCylinder (UInt8.ofNat head) (UInt8.ofNat sector) cylinder) = ⟨cylinder, head, sector⟩ := by
  have high : cylinder / 4 &&& 0xc0 = cylinder / 256 * 64 := by
    rw [and_high _ (by omega), Nat.div_div_eq_div_mul]
  have low : cylinder &&& 0xff = cylinder % 256 := Nat.and_two_pow_sub_one_eq_mod cylinder 8
  obtain ⟨sectorBits, cylinderBits⟩ := or_parts sector (cylinder / 256) sectors (by omega)
  have byte : (UInt8.ofNat sector ||| UInt8.ofNat (cylinder / 4 &&& 0xc0)).toNat = sector ||| cylinder / 256 * 64 := by
    rw [UInt8.toNat_or, high, UInt8.toNat_ofNat', UInt8.toNat_ofNat', Nat.mod_eq_of_lt (by omega),
      Nat.mod_eq_of_lt (by omega)]
  unfold chsUnpack withCylinder
  rw [Chs.mk.injEq]
  refine ⟨?_, ?_, ?_⟩
  · rw [UInt8.toNat_and, byte, low, UInt8.toNat_ofNat', Nat.mod_eq_of_lt (by omega)]
    change (sector ||| cylinder / 256 * 64) &&& 0xc0 = _ at cylinderBits
    change ((sector ||| cylinder / 256 * 64) &&& 0xc0) * 4 + _ = _
    rw [cylinderBits]
    omega
  · exact (UInt8.toNat_ofNat').trans (Nat.mod_eq_of_lt heads)
  · rw [UInt8.toNat_and, byte]
    exact sectorBits

end Pack

section Device
variable {dev : Device} {lba : Nat} {type : UInt8} {random : UInt32}

theorem Device.cylinder_pos (dev : Device) : 0 < dev.heads * dev.sectors :=
  Nat.mul_pos dev.heads_pos dev.sectors_pos

theorem Device.cylinder_le (dev : Device) : dev.heads * dev.sectors ≤ 255 * 63 :=
  Nat.mul_le_mul dev.heads_le dev.sectors_le

theorem Device.llcyls_eq (dev : Device) : dev.bytes / 512 / dev.perCylinder = dev.wholeCylinders := by
  unfold Device.perCylinder Device.wholeCylinders Device.size
  rw [Nat.div_div_eq_div_mul, Nat.div_div_eq_div_mul, Nat.mul_assoc, ← Nat.mul_assoc,
    Nat.mul_div_cancel' dev.secSize_whole]

theorem Device.wholeCylinders_le (dev : Device) : dev.heads * dev.sectors * dev.wholeCylinders ≤ dev.size :=
  Nat.mul_div_le dev.size _

theorem Device.size_lt (dev : Device) : dev.size < 2 ^ 64 :=
  Nat.lt_of_le_of_lt (Nat.div_le_self _ _) dev.bytes_lt

theorem chsUnpack_lbaToChs (cylinders : Nat) (below : lba < 1023 * dev.sectors * dev.heads) :
    chsUnpack (lbaToChs ⟨dev.heads, dev.sectors, cylinders⟩ lba) = dev.chsOf lba := by
  have heads := dev.heads_le
  have sectors := dev.sectors_le
  have head := Nat.mod_lt (lba / dev.sectors) dev.heads_pos
  have sector := Nat.mod_lt lba dev.sectors_pos
  have cylinder : lba / dev.sectors / dev.heads < 1023 := by
    rw [Nat.div_div_eq_div_mul, Nat.div_lt_iff_lt_mul (Nat.mul_pos dev.sectors_pos dev.heads_pos), ← Nat.mul_assoc]
    exact below
  unfold lbaToChs
  dsimp only
  rw [if_neg (Nat.not_le.mpr below), chsUnpack_withCylinder (by omega) (by omega) (by omega), Device.chsOf,
    Nat.div_div_eq_div_mul, Nat.mul_comm dev.sectors]

theorem Device.chsOf_end (dev : Device) {cylinders : Nat} (positive : 1 ≤ cylinders) :
    dev.chsOf (dev.heads * dev.sectors * cylinders - 1) = ⟨cylinders - 1, dev.heads - 1, dev.sectors⟩ := by
  obtain ⟨before, rfl⟩ := Nat.exists_eq_add_of_le' positive
  have cylinder := dev.cylinder_pos
  have sectors := dev.sectors_pos
  have heads := dev.heads_pos
  have place : dev.heads * dev.sectors * (before + 1) - 1 =
      dev.heads * dev.sectors - 1 + dev.heads * dev.sectors * before := by
    rw [Nat.mul_add]
    omega
  have track : dev.heads * dev.sectors - 1 = dev.sectors - 1 + dev.sectors * (dev.heads - 1) := by
    obtain ⟨heads', same⟩ := Nat.exists_eq_add_of_le' heads
    rw [same, Nat.add_sub_cancel, Nat.add_mul, Nat.mul_comm heads']
    omega
  unfold Device.chsOf
  rw [Chs.mk.injEq, place]
  refine ⟨?_, ?_, ?_⟩
  · rw [Nat.add_mul_div_left _ _ cylinder, Nat.div_eq_of_lt (by omega), Nat.zero_add, Nat.add_sub_cancel]
  · rw [track, Nat.add_assoc, Nat.mul_comm dev.heads, Nat.mul_assoc, ← Nat.mul_add, Nat.add_mul_div_left _ _ sectors,
      Nat.div_eq_of_lt (by omega), Nat.zero_add, Nat.add_mul_mod_self_left, Nat.mod_eq_of_lt (by omega)]
  · rw [track, Nat.add_assoc, Nat.mul_comm dev.heads, Nat.mul_assoc, ← Nat.mul_add, Nat.add_mul_mod_self_left,
      Nat.mod_eq_of_lt (by omega)]
    omega

theorem chsUnpack_end (count : Nat) {cylinders : Nat} (positive : 1 ≤ cylinders) :
    chsUnpack (lbaToChs ⟨dev.heads, dev.sectors, count⟩ (dev.heads * dev.sectors * cylinders - 1)) =
      dev.chsOf (min (dev.heads * dev.sectors * cylinders - 1) dev.chsLimit) := by
  have heads := dev.heads_le
  have heads' := dev.heads_pos
  have sectors := dev.sectors_le
  have cylinder := dev.cylinder_pos
  have swap : 1023 * dev.sectors * dev.heads = dev.heads * dev.sectors * 1023 := by ring
  have limit : dev.chsLimit = dev.heads * dev.sectors * 1024 - 1 := by rw [Device.chsLimit, Nat.mul_comm]
  rcases Nat.lt_or_ge 1023 cylinders with more | few
  · have beyond : dev.heads * dev.sectors * 1024 ≤ dev.heads * dev.sectors * cylinders := Nat.mul_le_mul_left _ more
    have past : 1023 * dev.sectors * dev.heads ≤ dev.heads * dev.sectors * cylinders - 1 := by
      omega
    rw [limit, Nat.min_eq_right (by omega), dev.chsOf_end (by omega)]
    unfold lbaToChs
    dsimp only
    rw [if_pos past, chsUnpack_withCylinder (by omega) (by omega) (by omega)]
  · have within : dev.heads * dev.sectors * cylinders ≤ dev.heads * dev.sectors * 1023 := Nat.mul_le_mul_left _ few
    rw [limit, Nat.min_eq_left (by omega)]
    exact chsUnpack_lbaToChs count (by rw [swap]; have := Nat.mul_pos cylinder positive; omega)

theorem Device.partition_blocks (positive : 1 ≤ dev.wholeCylinders) :
    (dev.partition type).blocks =
      (min (dev.heads * dev.sectors * dev.wholeCylinders - 1) (2 ^ 32 - 1) + (2 ^ 32 - dev.sectors) + 1) % 2 ^ 32 ∧
      (dev.partition type).chsLast = lbaToChs ⟨dev.heads, dev.sectors, saturated dev.wholeCylinders⟩
        (dev.heads * dev.sectors * dev.wholeCylinders - 1) := by
  have bound := dev.wholeCylinders_le
  have size := dev.size_lt
  have some : 0 < dev.heads * dev.sectors * dev.wholeCylinders := Nat.mul_pos dev.cylinder_pos positive
  have lend : (dev.heads * dev.sectors * dev.wholeCylinders + (2 ^ 64 - 1)) % 2 ^ 64 =
      dev.heads * dev.sectors * dev.wholeCylinders - 1 := by omega
  have stop : saturated (dev.heads * dev.sectors * dev.wholeCylinders - 1) =
      min (dev.heads * dev.sectors * dev.wholeCylinders - 1) (2 ^ 32 - 1) := by
    unfold saturated
    split <;> omega
  unfold Device.partition
  dsimp only
  rw [dev.llcyls_eq, lend, stop]
  exact ⟨rfl, rfl⟩

theorem partition_iff : Describes dev (dev.partition type) ↔ 2 ≤ dev.heads * dev.wholeCylinders := by
  have sectors := dev.sectors_pos
  have sectors' := dev.sectors_le
  have cylinder := dev.cylinder_le
  have size := dev.size_lt
  have bound := dev.wholeCylinders_le
  have lba : (dev.partition type).lba = dev.sectors := rfl
  rcases Nat.eq_zero_or_pos dev.wholeCylinders with none | positive
  · refine iff_of_false (fun describes => ?_) (by rw [none]; omega)
    have small : dev.size < dev.heads * dev.sectors := (Nat.div_eq_zero_iff_lt dev.cylinder_pos).mp none
    have blocks : (dev.partition type).blocks = 2 ^ 32 - dev.sectors := by
      unfold Device.partition
      dsimp only
      rw [dev.llcyls_eq, none]
      unfold saturated
      rw [if_pos (by omega)]
      omega
    have last := describes.last
    rw [lba, blocks] at last
    omega
  obtain ⟨blocks, chsLast⟩ := @Device.partition_blocks dev type positive
  have tracks : dev.heads * dev.sectors * dev.wholeCylinders = dev.sectors * (dev.heads * dev.wholeCylinders) := by ring
  have some := Nat.mul_pos dev.heads_pos positive
  constructor
  · intro describes
    by_contra one
    have one : dev.heads * dev.wholeCylinders = 1 := by omega
    have length := describes.length
    rw [blocks, tracks, one] at length
    omega
  · intro two
    have room : dev.sectors * 2 ≤ dev.heads * dev.sectors * dev.wholeCylinders :=
      tracks ▸ Nat.mul_le_mul_left dev.sectors two
    have last : (dev.partition type).lba + (dev.partition type).blocks - 1 =
        min (dev.heads * dev.sectors * dev.wholeCylinders - 1) (2 ^ 32 - 1) := by
      rw [blocks, lba]
      omega
    refine ⟨?_, ?_, ?_, ?_, ?_⟩
    · rw [blocks]
      omega
    · rw [lba]
      omega
    · rw [last]
      omega
    · have track : 1023 * dev.sectors * 1 ≤ 1023 * dev.sectors * dev.heads := Nat.mul_le_mul_left _ dev.heads_pos
      have below : dev.sectors < 1023 * dev.sectors * dev.heads := by omega
      exact chsUnpack_lbaToChs _ below
    · rw [last, chsLast, chsUnpack_end _ positive]
      congr 1
      have limit : dev.chsLimit < 2 ^ 32 - 1 := by
        unfold Device.chsLimit
        omega
      omega

/-- A table is written that describes its partition right exactly when the sectors of a cylinder can be counted and the
device has two whole tracks in whole cylinders. -/
theorem formatPartition_iff (dev : Device) (type : UInt8) (random : UInt32) :
    (∃ table, formatPartition dev type random = .ok table ∧ Describes dev (table.partitions 0)) ↔
      dev.perCylinder < 2 ^ 31 ∧ 2 ≤ dev.heads * dev.wholeCylinders := by
  unfold formatPartition
  by_cases large : 2 ^ 31 ≤ dev.perCylinder
  · rw [if_pos large]
    refine iff_of_false ?_ fun fits => absurd fits.1 (Nat.not_lt.mpr large)
    rintro ⟨table, written, _⟩
    cases written
  · rw [if_neg large, and_iff_right (Nat.not_le.mp large), ← @partition_iff dev type]
    constructor
    · rintro ⟨table, written, describes⟩
      cases written
      exact describes
    · exact fun describes => ⟨_, rfl, describes⟩

def smallDevice : Device where
  bytes := 524288
  secSize := 512
  heads := 255
  sectors := 63
  bytes_lt := by decide
  secSize_pos := by decide
  secSize_whole := by decide
  heads_pos := by decide
  heads_le := by decide
  sectors_pos := by decide
  sectors_le := by decide

theorem smallDevice_outside :
    ∃ table, formatPartition smallDevice 0x83 0 = .ok table ∧ ¬ Describes smallDevice (table.partitions 0) := by
  refine ⟨_, rfl, fun describes => ?_⟩
  exact absurd describes.last (by decide)

end Device

end Blktap.Part
