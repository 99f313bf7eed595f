import Blktap.Libvhd.Headers

/-! # Disk geometry (`vhd_chs`) -/

namespace Blktap.Libvhd

def geomGetCyls (g : Nat) : Nat := g >>> 16 &&& 0xffff
def geomGetHeads (g : Nat) : Nat := g >>> 8 &&& 0xff
def geomGetSpt (g : Nat) : Nat := g &&& 0xff

def geomCylinder (g : Nat) : Nat := geomGetHeads g * geomGetSpt g * 512

def geomCapacity (g : Nat) : Nat := geomGetCyls g * geomCylinder g

def geomMax : Nat := geomEncode 65535 16 255

def wholeSecs (size : Nat) : Nat := (size + 511) / 512

def chsSecs (size : Nat) : Nat := min (secsRoundUpNoZero size) (65535 * 16 * 255)

section Encoding
variable {c h s : Nat} (cyls : c ≤ 65535) (heads : h ≤ 255) (spt : s ≤ 255)
include heads spt

theorem geomEncode_eq : geomEncode c h s = c * 2 ^ 16 + h * 2 ^ 8 + s := by
  have low : h <<< 8 + s = h <<< 8 ||| s := Nat.shiftLeft_add_eq_or_of_lt (by omega) h
  have room : h <<< 8 + s < 2 ^ 16 := by
    rw [Nat.shiftLeft_eq]
    omega
  have high : c <<< 16 + (h <<< 8 + s) = c <<< 16 ||| (h <<< 8 + s) := Nat.shiftLeft_add_eq_or_of_lt room c
  unfold geomEncode
  rw [Nat.or_assoc, ← low, ← high, Nat.shiftLeft_eq, Nat.shiftLeft_eq, Nat.add_assoc]

theorem geomGetSpt_encode : geomGetSpt (geomEncode c h s) = s := by
  rw [geomGetSpt, Nat.and_two_pow_sub_one_eq_mod _ 8, geomEncode_eq heads spt]
  omega

theorem geomGetHeads_encode : geomGetHeads (geomEncode c h s) = h := by
  rw [geomGetHeads, Nat.and_two_pow_sub_one_eq_mod _ 8, Nat.shiftRight_eq_div_pow, geomEncode_eq heads spt]
  omega

include cyls in
theorem geomGetCyls_encode : geomGetCyls (geomEncode c h s) = c := by
  rw [geomGetCyls, Nat.and_two_pow_sub_one_eq_mod _ 16, Nat.shiftRight_eq_div_pow, geomEncode_eq heads spt]
  omega

end Encoding

structure Divides (secs heads spt : Nat) : Prop where
  heads_le : heads ≤ 16
  spt_le : spt ≤ 255
  heads_pos : 0 < heads
  spt_pos : 0 < spt
  cyls_le : secs / spt / heads ≤ 65535

theorem Divides.fits {secs heads spt : Nat} (divides : Divides secs heads spt) :
    secs / spt / heads * (heads * spt) ≤ secs ∧ secs < secs / spt / heads * (heads * spt) + heads * spt := by
  have positive : 0 < heads * spt := Nat.mul_pos divides.heads_pos divides.spt_pos
  have split := Nat.div_add_mod' secs (heads * spt)
  have rest := Nat.mod_lt secs positive
  rw [Nat.div_div_eq_div_mul, Nat.mul_comm spt heads]
  omega

theorem divides_large {secs : Nat} (capped : secs ≤ 65535 * 16 * 255) : Divides secs 16 255 where
  heads_le := le_rfl
  spt_le := le_rfl
  heads_pos := by decide
  spt_pos := by decide
  cyls_le := by omega

theorem divides_track {secs heads spt : Nat} (least : 0 < heads) (most : heads ≤ 16) (positive : 0 < spt)
    (short : spt ≤ 255) (room : secs / spt < heads * 65536) : Divides secs heads spt where
  heads_le := most
  spt_le := short
  heads_pos := least
  spt_pos := positive
  cyls_le := Nat.le_of_lt_succ (Nat.div_lt_of_lt_mul room)

theorem vhdChs_divides (size : Nat) : ∃ heads spt, Divides (chsSecs size) heads spt ∧
    vhdChs size = geomEncode (chsSecs size / spt / heads) heads spt ∧
    (65535 * 16 * 63 ≤ chsSecs size → heads = 16 ∧ spt = 255) := by
  have capped : chsSecs size ≤ 65535 * 16 * 255 := Nat.min_le_right _ _
  unfold vhdChs
  dsimp only
  rw [← chsSecs]
  generalize chsSecs size = secs at capped ⊢
  by_cases large : 65535 * 16 * 63 ≤ secs
  · rw [if_pos large]
    exact ⟨16, 255, divides_large capped, rfl, fun _ => ⟨rfl, rfl⟩⟩
  · rw [if_neg large]
    have few : ∀ heads spt, 65535 * 16 * 63 ≤ secs → heads = 16 ∧ spt = 255 := fun _ _ most => absurd most large
    generalize wanted : max ((secs / 17 + 1023) / 1024) 4 = heads
    have least : 4 ≤ heads := wanted ▸ Nat.le_max_right _ _
    by_cases second : heads * 1024 ≤ secs / 17 ∨ 16 < heads
    · rw [if_pos second]
      by_cases third : 16 * 1024 ≤ secs / 31
      · rw [if_pos third]
        exact ⟨16, 63, divides_track (by decide) le_rfl (by decide) (by decide) (by omega), rfl, few 16 63⟩
      · rw [if_neg third]
        exact ⟨16, 31, divides_track (by decide) le_rfl (by decide) (by decide) (by omega), rfl, few 16 31⟩
    · rw [if_neg second]
      have room : secs / 17 < heads * 1024 := Nat.lt_of_not_le fun beyond => second (.inl beyond)
      rw [if_neg (Nat.not_le_of_lt room)]
      have wide : secs / 17 < heads * 65536 := Nat.lt_of_lt_of_le room (Nat.mul_le_mul_left heads (by decide))
      exact ⟨heads, 17, divides_track (by omega) (by omega) (by decide) (by decide) wide, rfl, few heads 17⟩

theorem chsSecs_counted {size : Nat} (counted : wholeSecs size < 2 ^ 32) :
    chsSecs size = min (max (wholeSecs size) 1) (65535 * 16 * 255) := by
  have whole : secsRoundUp size = wholeSecs size := Nat.mod_eq_of_lt counted
  unfold chsSecs secsRoundUpNoZero
  rw [whole]
  split <;> congr 1 <;> omega

structure Divided (size : Nat) : Prop where
  cyls_le : geomGetCyls (vhdChs size) ≤ 65535
  heads_le : geomGetHeads (vhdChs size) ≤ 16
  spt_le : geomGetSpt (vhdChs size) ≤ 255
  whole : geomEncode (geomGetCyls (vhdChs size)) (geomGetHeads (vhdChs size)) (geomGetSpt (vhdChs size)) = vhdChs size
  le_secs : geomCapacity (vhdChs size) ≤ chsSecs size * 512
  secs_lt : chsSecs size * 512 < geomCapacity (vhdChs size) + geomCylinder (vhdChs size)

theorem divided (size : Nat) : Divided size := by
  obtain ⟨heads, spt, divides, chosen, -⟩ := vhdChs_divides size
  have heads_le := divides.heads_le
  have spt_le := divides.spt_le
  obtain ⟨low, high⟩ := divides.fits
  have cyls : geomGetCyls (vhdChs size) = chsSecs size / spt / heads := by
    rw [chosen]
    exact geomGetCyls_encode divides.cyls_le (by omega) spt_le
  have head : geomGetHeads (vhdChs size) = heads := by
    rw [chosen]
    exact geomGetHeads_encode (by omega) spt_le
  have track : geomGetSpt (vhdChs size) = spt := by
    rw [chosen]
    exact geomGetSpt_encode (by omega) spt_le
  have capacity : geomCapacity (vhdChs size) = chsSecs size / spt / heads * (heads * spt) * 512 := by
    rw [geomCapacity, geomCylinder, cyls, head, track, Nat.mul_assoc _ (heads * spt)]
  have cylinder : geomCylinder (vhdChs size) = heads * spt * 512 := by rw [geomCylinder, head, track]
  exact {
    cyls_le := by rw [cyls]; exact divides.cyls_le
    heads_le := by rw [head]; exact heads_le
    spt_le := by rw [track]; exact spt_le
    whole := by rw [cyls, head, track, chosen]
    le_secs := by rw [capacity]; exact Nat.mul_le_mul_right 512 low
    secs_lt := by
      rw [capacity, cylinder, ← Nat.add_mul]
      exact Nat.mul_lt_mul_of_pos_right high (by decide) }

theorem vhdChs_capped {size : Nat} (counted : wholeSecs size < 2 ^ 32) (large : 65535 * 16 * 255 ≤ wholeSecs size) :
    vhdChs size = geomMax := by
  obtain ⟨heads, spt, -, chosen, most⟩ := vhdChs_divides size
  have secs : chsSecs size = 65535 * 16 * 255 := by
    rw [chsSecs_counted counted]
    omega
  obtain ⟨rfl, rfl⟩ := most (by omega)
  rw [chosen, secs]
  rfl

theorem capacity_mono {size size' : Nat} (less : chsSecs size ≤ chsSecs size')
    (heads : geomGetHeads (vhdChs size) = geomGetHeads (vhdChs size'))
    (spt : geomGetSpt (vhdChs size) = geomGetSpt (vhdChs size')) :
    geomCapacity (vhdChs size) ≤ geomCapacity (vhdChs size') := by
  have low := (divided size).le_secs
  have high := (divided size').secs_lt
  have cylinder : geomCylinder (vhdChs size) = geomCylinder (vhdChs size') := by
    rw [geomCylinder, geomCylinder, heads, spt]
  unfold geomCapacity at *
  rw [cylinder] at low ⊢
  refine Nat.mul_le_mul_right _ (Nat.le_of_lt_succ (Nat.lt_of_mul_lt_mul_right (a := geomCylinder (vhdChs size')) ?_))
  rw [Nat.succ_mul]
  omega

theorem chsSecs_mono {size size' : Nat} (counted : wholeSecs size' < 2 ^ 32) (less : size ≤ size') :
    chsSecs size ≤ chsSecs size' := by
  have whole : wholeSecs size ≤ wholeSecs size' := Nat.div_le_div_right (Nat.add_le_add_right less 511)
  rw [chsSecs_counted (Nat.lt_of_le_of_lt whole counted), chsSecs_counted counted]
  omega

/-- For every size the fields of the geometry are in range and none is cut off, and the capacity follows the size by
less than a cylinder. -/
theorem vhdChs_geometry :
    (∀ size, geomGetCyls (vhdChs size) ≤ 65535 ∧ geomGetHeads (vhdChs size) ≤ 16 ∧ geomGetSpt (vhdChs size) ≤ 255 ∧
      geomEncode (geomGetCyls (vhdChs size)) (geomGetHeads (vhdChs size)) (geomGetSpt (vhdChs size)) = vhdChs size) ∧
    (∀ size, wholeSecs size < 2 ^ 32 → geomCapacity (vhdChs size) ≤ wholeSecs size * 512 ∧
      (vhdChs size = geomMax ∨ wholeSecs size * 512 < geomCapacity (vhdChs size) + geomCylinder (vhdChs size))) ∧
    (∀ size size', size ≤ size' → wholeSecs size' < 2 ^ 32 →
      geomCapacity (vhdChs size) < geomCapacity (vhdChs size') + geomCylinder (vhdChs size') ∧
      (geomGetHeads (vhdChs size) = geomGetHeads (vhdChs size') →
        geomGetSpt (vhdChs size) = geomGetSpt (vhdChs size') →
        geomCapacity (vhdChs size) ≤ geomCapacity (vhdChs size'))) := by
  refine ⟨fun size => ?_, fun size counted => ?_, fun size size' less counted => ?_⟩
  · have d := divided size
    exact ⟨d.cyls_le, d.heads_le, d.spt_le, d.whole⟩
  · have low := (divided size).le_secs
    have high := (divided size).secs_lt
    have secs := chsSecs_counted counted
    refine ⟨?_, ?_⟩
    · rcases Nat.eq_zero_or_pos size with rfl | positive
      · decide +kernel
      · have some : 1 ≤ wholeSecs size := Nat.div_pos (by omega) (by decide)
        have most : chsSecs size ≤ wholeSecs size := by
          rw [secs, Nat.max_eq_left some]
          exact Nat.min_le_left _ _
        exact Nat.le_trans low (Nat.mul_le_mul_right 512 most)
    · rcases Nat.lt_or_ge (wholeSecs size) (65535 * 16 * 255) with small | large
      · have all : wholeSecs size ≤ chsSecs size := by
          rw [secs]
          exact Nat.le_min.mpr ⟨Nat.le_max_left _ _, Nat.le_of_lt small⟩
        exact .inr (Nat.lt_of_le_of_lt (Nat.mul_le_mul_right 512 all) high)
      · exact .inl (vhdChs_capped counted large)
  · have more := chsSecs_mono counted less
    have low := (divided size).le_secs
    have high := (divided size').secs_lt
    exact ⟨by omega, capacity_mono more⟩

theorem vhdChs_exceeds : 34815 < geomCapacity (vhdChs 34815) ∧
    geomCapacity (vhdChs (69632 * 512)) < geomCapacity (vhdChs (69631 * 512)) := by
  decide +kernel

end Blktap.Libvhd
