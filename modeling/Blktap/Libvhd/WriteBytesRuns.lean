import Blktap.Libvhd.SectorBytes
import Blktap.Libvhd.WriteBytes

/-! # Byte writes over whole runs -/

namespace Blktap.Libvhd
open Lib Action

def Below.Puts (below : Below) (vhd vhd' : Vhd) (places : Nat → Prop) (data : Nat → UInt8) : Prop :=
  ∀ nr o, o < 512 →
    (places (nr * 512 + o) → (below.under vhd').byte nr o = data (nr * 512 + o)) ∧
    (¬ places (nr * 512 + o) → (below.under vhd').byte nr o = (below.under vhd).byte nr o)

/-- The condition of a byte write to a dynamic image. The first and the last sector, if they are not
written as a whole, have to be read rightly before. -/
structure Handle.BytesOk (below : Below) (s : Handle) (range : ByteRange) : Prop where
  write : s.DynamicOk (range.off / 512) range.count
  ends : s.lastAfter (range.off / 512) range.count < 2 ^ 32 + s.spb
  numbers : range.off % 512 ≠ 0 ∨ (range.off + range.size) % 512 ≠ 0 →
    (range.off + range.size + 511) / 512 < 2 ^ 32
  head : range.off % 512 ≠ 0 → s.holds (range.off / 512) ∨ below.SectorOk (range.off / 512)
  tail : (range.off + range.size) % 512 ≠ 0 → s.holds ((range.off + range.size) / 512) ∨
    below.SectorOk ((range.off + range.size) / 512)

def Handle.WriteBytesOk (below : Below) (s : Handle) (range : ByteRange) : Prop :=
  s.typeDynamic = true → 0 < range.count → s.BytesOk below range

structure Handle.PutBytes (below : Below) (blocks : List Nat) (bound : Nat) (places : Nat → Prop)
    (data : Nat → UInt8) (s t : Handle) : Prop where
  valid : t.Valid
  allows : t.Allows blocks bound
  fields : s.SameFields t
  holds : ∀ nr, s.holds nr → t.holds nr
  puts : below.Puts s.toVhd t.toVhd places data

section Parts
variable {s t u : Handle} {below : Below} {blocks : List Nat} {bound nr sector secs : Nat}
  {places places' : Nat → Prop} {data buf tmp : Nat → UInt8} {range : ByteRange}

theorem Handle.PutBytes.trans (first : s.PutBytes below blocks bound places data t)
    (second : t.PutBytes below blocks bound places' data u) :
    s.PutBytes below blocks bound (fun p => places p ∨ places' p) data u := by
  refine ⟨second.valid, second.allows, first.fields.trans second.fields,
    fun nr held => second.holds nr (first.holds nr held), fun nr o small => ?_⟩
  have early := first.puts nr o small
  have late := second.puts nr o small
  refine ⟨fun here => ?_, fun elsewhere => ?_⟩
  · by_cases again : places' (nr * 512 + o)
    · exact late.1 again
    · rw [late.2 again]
      exact early.1 (here.resolve_right again)
  · obtain ⟨before, after⟩ := not_or.mp elsewhere
    rw [late.2 after, early.2 before]

theorem Handle.PutBytes.congr (put : s.PutBytes below blocks bound places data t)
    (same : ∀ p, places' p ↔ places p) : s.PutBytes below blocks bound places' data t :=
  ⟨put.valid, put.allows, put.fields, put.holds, fun nr o small => by
    rw [same]
    exact put.puts nr o small⟩

theorem Handle.PutBytes.refl (valid : s.Valid) (allows : s.Allows blocks bound)
    (nothing : ∀ p, ¬ places p) : s.PutBytes below blocks bound places data s :=
  ⟨valid, allows, rfl, fun _ held => held, fun _ _ _ => ⟨fun here => absurd here (nothing _), fun _ => rfl⟩⟩

theorem Handle.Written.put (below : Below) (written : s.Written blocks bound sector secs buf t)
    (dynamic : s.typeDynamic = true) :
    s.PutBytes below blocks bound (fun p => sector * 512 ≤ p ∧ p < (sector + secs) * 512)
      (fun p => buf (p - sector * 512)) t := by
  have moving : t.typeDynamic = true := by rw [written.fields]; exact dynamic
  refine ⟨⟨fun _ => written.sound, fun _ block allocated => ?_, fun fixed => ?_⟩, written.allows,
    written.fields, fun nr held => ?_, fun nr o small => ?_⟩
  · have last := Nat.mul_le_mul_right 512 (written.allows.room.extents block allocated)
    exact (Nat.add_le_add_right last 512).trans written.footed
  · rw [moving] at fixed
    cases fixed
  · have content := written.wrote nr 0 (by decide)
    rw [Vhd.content, Vhd.content, if_pos held] at content
    by_contra unheld
    rw [if_neg unheld] at content
    split at content <;> cases content
  · have content := written.wrote nr o small
    have same : (sector * 512 ≤ nr * 512 + o ∧ nr * 512 + o < (sector + secs) * 512) ↔
        (sector ≤ nr ∧ nr < sector + secs) := by omega
    rw [Below.under_byte, Below.under_byte, content, same]
    refine ⟨fun inside => ?_, fun outside => ?_⟩
    · have place : nr * 512 + o - sector * 512 = (nr - sector) * 512 + o := by
        rw [Nat.sub_mul]
        omega
      rw [if_pos inside, place]
      rfl
    · rw [if_neg outside]

theorem Vhd.blocksOf_sub (vhd : Vhd) {first count : Nat} (low : first ≤ sector) (positive : 0 < secs)
    (high : sector + secs ≤ first + count) :
    ∀ block ∈ vhd.blocksOf sector secs, block ∈ vhd.blocksOf first count := by
  have start : first / vhd.spb ≤ sector / vhd.spb := Nat.div_le_div_right low
  have stop : (sector + (secs - 1)) / vhd.spb ≤ (first + (count - 1)) / vhd.spb :=
    Nat.div_le_div_right (by omega)
  intro block member
  unfold Vhd.blocksOf at member ⊢
  rw [List.mem_range'_1] at member ⊢
  omega

theorem Handle.Allows.place (allows : s.Allows blocks bound) (ends : bound < 2 ^ 32 + s.spb)
    {block : Nat} (allocated : s.allocated block) : s.entry block + s.bmSecs < 2 ^ 32 := by
  have extent := allows.room.extents block allocated
  have last := (s.le_endAfter blocks s.dataEnd).trans allows.fits.ends
  omega

theorem wp_readSector (valid : s.Valid) (parents : below.Valid s.type)
    (dynamic : s.typeDynamic = true) (allows : s.Allows blocks bound)
    (ends : bound < 2 ^ 32 + s.spb) (member : nr / s.spb ∈ blocks) (small : nr + 1 < 2 ^ 32)
    (given : s.holds nr ∨ below.SectorOk nr) :
    wp (readSector below nr tmp) (fun bytes t => t = s ∧ (nr + 1) * 512 ≤ s.currSize ∧
        ∀ o < 512, bytes o = (below.under s.toVhd).byte nr o) (fun _ _ => True) s := by
  unfold readSector
  simp only [wp_bind, wp_get]
  by_cases inside : (nr + 1) * 512 ≤ s.currSize
  · obtain ⟨bytes, action, shown⟩ := reads_sector (Below.valid_under valid parents) dynamic
      (allows.fits.loaded _ member) small inside (fun allocated => allows.place ends allocated)
      given tmp
    change wp (lift (vhdIoReadBytes (below.under s.toVhd) (sectorRange nr) tmp)) _ _ s
    rw [action]
    exact ⟨rfl, inside, shown⟩
  · have outside : vhdIoReadBytes (below.under s.toVhd) ⟨nr * 512, 512⟩ tmp = .error (-erange) := by
      unfold vhdIoReadBytes
      dsimp only
      rw [Below.under_top]
      refine if_pos (Nat.lt_of_not_le ?_)
      rwa [← Nat.succ_mul]
    rw [outside]
    trivial

theorem other_sector {o : Nat} (apart : sector ≠ nr) (small : o < 512) :
    ¬ (nr * 512 ≤ sector * 512 + o ∧ sector * 512 + o < (nr + 1) * 512) := by
  omega

theorem wp_rewriteSector (data : Nat → UInt8) (valid : s.Valid) (dynamic : s.typeDynamic = true)
    (allows : s.Allows blocks bound) (among : ∀ block ∈ s.blocksOf nr 1, block ∈ blocks)
    (inside : (nr + 1) * 512 ≤ s.currSize) {bytes : Nat → UInt8} {place size : Nat}
    (fits : place + size ≤ 512)
    (shown : ∀ o < 512, bytes o = (below.under s.toVhd).byte nr o)
    (new : ∀ i < size, buf i = data (nr * 512 + place + i)) :
    wp (writeBytesAligned (nr * 512) 512 (copyBytes place size buf bytes))
      (fun _ t => s.PutBytes below blocks bound
        (fun p => nr * 512 + place ≤ p ∧ p < nr * 512 + place + size) data t)
      (fun _ _ => True) s := by
  apply (wp_writeBytesAligned (valid.sound dynamic) allows Nat.one_pos among inside).mono
  · rintro _ t written
    have put := written.put below dynamic
    refine ⟨put.valid, put.allows, put.fields, put.holds, fun sector o small => ?_⟩
    have puts := put.puts sector o small
    by_cases here : sector = nr
    · subst here
      have byte := puts.1 ⟨Nat.le_add_right _ _, by omega⟩
      rw [Nat.add_sub_cancel_left] at byte
      have window : (sector * 512 + place ≤ sector * 512 + o ∧
          sector * 512 + o < sector * 512 + place + size) ↔ place ≤ o ∧ o < place + size := by
        rw [Nat.add_assoc, Nat.add_le_add_iff_left, Nat.add_lt_add_iff_left]
      rw [byte, window]
      unfold copyBytes
      refine ⟨fun within => ?_, fun outside => ?_⟩
      · rw [if_pos within, new _ (Nat.sub_lt_left_of_lt_add within.1 within.2), Nat.add_assoc,
          Nat.add_sub_cancel' within.1]
      · rw [if_neg outside, shown o small]
    · have elsewhere := other_sector here small
      rw [puts.2 elsewhere]
      refine ⟨fun within => absurd ⟨?_, ?_⟩ elsewhere, fun _ => rfl⟩
      · exact Nat.le_of_add_right_le within.1
      · refine Nat.lt_of_lt_of_le within.2 ?_
        rw [Nat.succ_mul, Nat.add_assoc]
        exact Nat.add_le_add_left fits _
  · exact fun _ _ _ => trivial

theorem partSectors (small : (range.off + range.size + 511) / 512 < 2 ^ 32)
    (positive : 0 < range.count) :
    range.firstSec = range.off / 512 ∧
      range.lastSec = (range.off + range.size + 511) / 512 ∧ range.secs = range.count := by
  unfold ByteRange.count at positive
  have first : range.firstSec = range.off / 512 := by
    unfold ByteRange.firstSec
    omega
  have last : range.lastSec = (range.off + range.size + 511) / 512 := by
    unfold ByteRange.lastSec secsRoundUpNoZero secsRoundUp
    split <;> omega
  refine ⟨first, last, ?_⟩
  unfold ByteRange.secs ByteRange.count
  rw [first, last]
  omega

theorem head_le (range : ByteRange) : range.head ≤ range.size := by
  unfold ByteRange.head
  split
  · exact Nat.zero_le _
  · exact Nat.min_le_right _ _

theorem wp_writeHead (valid : s.Valid) (parents : below.Valid s.type)
    (dynamic : s.typeDynamic = true) (positive : 0 < range.count) (ok : s.BytesOk below range) :
    wp (writeHead below range tmp buf)
      (fun _ t => s.PutBytes below (s.blocksOf (range.off / 512) range.count)
        (s.lastAfter (range.off / 512) range.count)
        (fun p => range.off ≤ p ∧ p < range.off + range.head) (fun p => buf (p - range.off)) t)
      (fun _ _ => True) s := by
  have allows := ok.write.allows
  unfold writeHead ByteRange.head
  rw [wp_ite]
  refine ⟨fun aligned => ?_, fun unaligned => ?_⟩
  · rw [if_pos aligned, wp_pure]
    exact .refl valid allows fun p => by omega
  · have small := ok.numbers (.inl unaligned)
    have number : range.off / 512 + 1 < 2 ^ 32 := by omega
    have among := s.toVhd.blocksOf_sub (Nat.le_refl (range.off / 512)) Nat.one_pos
      (Nat.add_le_add_left positive _)
    rw [if_neg unaligned, (partSectors small positive).1]
    simp only [wp_bind, wp_pure]
    apply (wp_readSector valid parents dynamic allows ok.ends (among _ (blocksOf_first _ 1)) number
      (ok.head unaligned)).imp
    rintro bytes _ ⟨rfl, inside, shown⟩
    have start : range.off / 512 * 512 + range.off % 512 = range.off := Nat.div_add_mod' ..
    apply (wp_rewriteSector (fun p => buf (p - range.off)) valid dynamic allows among inside
      (by omega) shown fun i _ => by rw [start, Nat.add_sub_cancel_left]).imp
    intro _ t put
    refine put.congr fun p => ?_
    rw [start]

theorem tailPlace (last : (range.off + range.size) % 512 ≠ 0)
    (apart : 1 < range.count ∨ range.off % 512 = 0) :
    (range.off + range.size + 511) / 512 - 1 = (range.off + range.size) / 512 ∧
      range.head + (range.off + range.size) % 512 ≤ range.size := by
  unfold ByteRange.head
  unfold ByteRange.count at apart
  split <;> omega

theorem tailRest (apart : 1 < range.count ∨ range.off % 512 = 0) :
    512 ∣ range.off + range.head ∧
      512 ∣ range.size - range.head - (range.off + range.size) % 512 := by
  unfold ByteRange.head
  unfold ByteRange.count at apart
  split <;> omega

theorem tailStart (room : range.head + (range.off + range.size) % 512 ≤ range.size) :
    range.off + range.head + (range.size - range.head - (range.off + range.size) % 512) =
      (range.off + range.size) / 512 * 512 := by
  omega

theorem wholeRest (whole : (range.off + range.size) % 512 = 0 ∨
      range.off % 512 ≠ 0 ∧ range.count ≤ 1) :
    range.head ≤ range.size ∧ (range.size - range.head ≠ 0 →
      512 ∣ range.off + range.head ∧ 512 ∣ range.size - range.head) := by
  unfold ByteRange.head
  unfold ByteRange.count at whole
  split <;> omega

theorem wp_writeTail (parents : below.Valid s.type)
    (dynamic : s.typeDynamic = true) (positive : 0 < range.count) (ok : s.BytesOk below range)
    (put : s.PutBytes below (s.blocksOf (range.off / 512) range.count)
        (s.lastAfter (range.off / 512) range.count)
        (fun p => range.off ≤ p ∧ p < range.off + range.head) (fun p => buf (p - range.off)) t) :
    wp (writeTail below range (range.size - range.head) tmp fun p => buf (range.head + p))
      (fun size u => size ≤ range.size - range.head ∧
        (size ≠ 0 → 512 ∣ range.off + range.head ∧ 512 ∣ size) ∧
        s.PutBytes below (s.blocksOf (range.off / 512) range.count)
          (s.lastAfter (range.off / 512) range.count)
          (fun p => range.off ≤ p ∧ p < range.off + range.head ∨
            range.off + range.head + size ≤ p ∧ p < range.off + range.size)
          (fun p => buf (p - range.off)) u)
      (fun _ _ => True) t := by
  have allows := ok.write.allows
  have type : t.type = s.type := by rw [put.fields]
  have moving : t.typeDynamic = true := by rw [put.fields]; exact dynamic
  have spb : t.spb = s.spb := by rw [put.fields]; rfl
  unfold writeTail
  dsimp only
  rw [wp_ite]
  refine ⟨fun both => ?_, fun none => ?_⟩
  · obtain ⟨last, apart⟩ := both
    have small := ok.numbers (.inr last)
    obtain ⟨_, lastSec, secs⟩ := partSectors small positive
    rw [secs] at apart
    obtain ⟨sector, room⟩ := tailPlace last apart
    have number : (range.off + range.size) / 512 + 1 < 2 ^ 32 := by omega
    have stop : (range.off + range.size) / 512 * 512 + (range.off + range.size) % 512 =
        range.off + range.size := Nat.div_add_mod' ..
    have inside : (range.off + range.size) / 512 + 1 ≤ range.off / 512 + range.count := by
      unfold ByteRange.count
      omega
    have among : ∀ block ∈ t.blocksOf ((range.off + range.size) / 512) 1,
        block ∈ s.blocksOf (range.off / 512) range.count := by
      have same : t.blocksOf ((range.off + range.size) / 512) 1 =
          s.blocksOf ((range.off + range.size) / 512) 1 := by
        unfold Vhd.blocksOf
        rw [spb]
      rw [same]
      exact Vhd.blocksOf_sub _ (Nat.div_le_div_right (Nat.le_add_right _ _)) Nat.one_pos inside
    have given : t.holds ((range.off + range.size) / 512) ∨
        below.SectorOk ((range.off + range.size) / 512) := (ok.tail last).imp_left (put.holds _)
    rw [lastSec, sector]
    simp only [wp_bind]
    apply (wp_readSector put.valid (type ▸ parents) moving put.allows (spb ▸ ok.ends)
      (among _ (blocksOf_first _ 1)) number given).imp
    rintro bytes _ ⟨rfl, inDisk, shown⟩
    rw [if_neg (by omega)]
    simp only [wp_bind]
    apply (wp_rewriteSector (fun p => buf (p - range.off)) put.valid moving put.allows among
      inDisk (Nat.zero_add _ ▸ (Nat.mod_lt _ (by decide)).le) shown fun i small => ?_).imp
    · intro _ u tail
      refine ⟨Nat.sub_le _ _, fun _ => tailRest apart, (put.trans tail).congr fun p => ?_⟩
      rw [Nat.add_zero, stop, tailStart room]
    · rw [Nat.add_zero, ← tailStart room]
      congr 1
      omega
  · rw [wp_pure]
    have whole : (range.off + range.size) % 512 = 0 ∨ range.off % 512 ≠ 0 ∧ range.count ≤ 1 := by
      by_cases last : (range.off + range.size) % 512 = 0
      · exact .inl last
      · obtain ⟨few, start⟩ := not_or.mp fun apart => none ⟨last, apart⟩
        rw [(partSectors (ok.numbers (.inr last)) positive).2.2] at few
        exact .inr ⟨start, Nat.not_lt.mp few⟩
    obtain ⟨head, rest⟩ := wholeRest whole
    refine ⟨Nat.le_refl _, rest, put.congr fun p => ?_⟩
    rw [Nat.add_assoc, Nat.add_sub_cancel' head]
    exact or_iff_left fun inside => absurd inside.2 (Nat.not_lt.mpr inside.1)

theorem wp_dynamicWriteBytes (valid : s.Valid) (parents : below.Valid s.type)
    (dynamic : s.typeDynamic = true) (inside : range.off + range.size ≤ s.currSize)
    (ok : 0 < range.count → s.BytesOk below range) :
    wp (dynamicWriteBytes below range tmp buf)
      (fun _ t => t.Valid ∧ s.SameFields t ∧ below.Puts s.toVhd t.toVhd
        (fun p => range.off ≤ p ∧ p < range.off + range.size) fun p => buf (p - range.off))
      (fun _ _ => True) s := by
  unfold dynamicWriteBytes
  simp only [wp_bind]
  by_cases positive : 0 < range.count
  · have ok := ok positive
    apply (wp_writeHead valid parents dynamic positive ok).mono
    · intro tmp t head
      apply (wp_writeTail parents dynamic positive ok head).mono
      · rintro size u ⟨part, whole, tail⟩
        have moving : u.typeDynamic = true := by rw [tail.fields]; exact dynamic
        rw [wp_when]
        refine ⟨fun more => ?_, fun done => ?_⟩
        · obtain ⟨⟨sector, start⟩, secs, length⟩ := whole more
          rw [Nat.mul_comm] at start length
          have last : (sector + secs) * 512 ≤ range.off + range.size := by
            rw [Nat.add_mul, ← start, ← length]
            omega
          have among : ∀ block ∈ u.blocksOf sector secs,
              block ∈ s.blocksOf (range.off / 512) range.count := by
            have same : u.blocksOf sector secs = s.blocksOf sector secs := by
              have spb : u.spb = s.spb := by rw [tail.fields]; rfl
              unfold Vhd.blocksOf
              rw [spb]
            rw [same]
            apply Vhd.blocksOf_sub
            · omega
            · omega
            · unfold ByteRange.count
              omega
          rw [start, length]
          apply (wp_writeBytesAligned (tail.valid.sound moving) tail.allows (by omega) among
            (by rw [tail.fields]; exact last.trans inside)).mono
          · intro _ w written
            have body := written.put below moving
            have all : u.PutBytes below (s.blocksOf (range.off / 512) range.count)
                (s.lastAfter (range.off / 512) range.count)
                (fun p => sector * 512 ≤ p ∧ p < (sector + secs) * 512)
                (fun p => buf (p - range.off)) w := by
              refine ⟨body.valid, body.allows, body.fields, body.holds, fun nr o small => ?_⟩
              have puts := body.puts nr o small
              refine ⟨fun here => ?_, puts.2⟩
              rw [puts.1 here]
              congr 1
              omega
            have total := tail.trans all
            refine ⟨total.valid, total.fields, fun nr o small => ?_⟩
            have puts := total.puts nr o small
            rw [Nat.add_mul, ← start, ← length] at puts
            have same : ((range.off ≤ nr * 512 + o ∧ nr * 512 + o < range.off + range.head ∨
                range.off + range.head + size ≤ nr * 512 + o ∧
                  nr * 512 + o < range.off + range.size) ∨
                range.off + range.head ≤ nr * 512 + o ∧
                  nr * 512 + o < range.off + range.head + size) ↔
                range.off ≤ nr * 512 + o ∧ nr * 512 + o < range.off + range.size := by
              omega
            rw [same] at puts
            exact puts
          · exact fun _ _ _ => trivial
        · have none : size = 0 := not_not.mp done
          subst none
          refine ⟨tail.valid, tail.fields, fun nr o small => ?_⟩
          have puts := tail.puts nr o small
          have few := head_le range
          have same : (range.off ≤ nr * 512 + o ∧ nr * 512 + o < range.off + range.head ∨
              range.off + range.head + 0 ≤ nr * 512 + o ∧
                nr * 512 + o < range.off + range.size) ↔
              range.off ≤ nr * 512 + o ∧ nr * 512 + o < range.off + range.size := by
            omega
          rw [same] at puts
          exact puts
      · exact fun _ _ _ => trivial
    · exact fun _ _ _ => trivial
  · unfold ByteRange.count at positive
    have start : range.off % 512 = 0 := by omega
    have none : range.size = 0 := by omega
    have head : range.head = 0 := if_pos start
    unfold writeHead writeTail
    rw [if_pos start, none, head]
    dsimp only
    rw [wp_pure, if_neg (by rw [Nat.add_zero, start]; simp), wp_pure, wp_when]
    refine ⟨fun more => absurd rfl more, fun _ => ⟨valid, rfl, fun nr o _ => ⟨fun here => ?_, fun _ => rfl⟩⟩⟩
    omega

theorem wp_fixedWriteBytes (valid : s.Valid) (fixed : s.typeDynamic = false)
    (inside : range.off + range.size ≤ s.currSize) :
    wp (vhdWrite range.off range.size buf)
      (fun _ t => t.Valid ∧ s.SameFields t ∧ below.Puts s.toVhd t.toVhd
        (fun p => range.off ≤ p ∧ p < range.off + range.size) fun p => buf (p - range.off))
      (fun _ _ => True) s := by
  have validFixed := valid.fixed fixed
  apply wp_vhdWrite
  · intro faults _
    let t := { s with faults }.put range.off range.size buf
    have static : t.typeDynamic = false := fixed
    have moving : ¬ t.typeDynamic = true := by simp [static]
    refine ⟨⟨fun h => absurd h moving, fun h => absurd h moving, fun _ =>
      ⟨validFixed.1, validFixed.2.trans (grown_put s faults _ _ _).2⟩⟩, rfl, fun nr o small => ?_⟩
    have after : t.content nr o =
        if nr * 512 < s.currSize then some (t.file.byte (nr * 512 + o)) else none :=
      fixed_content static nr o
    change (_ → (below.under t.toVhd).byte nr o = _) ∧ (_ → (below.under t.toVhd).byte nr o = _)
    rw [Below.under_byte, Below.under_byte, after, fixed_content fixed nr o]
    by_cases inDisk : nr * 512 < s.currSize
    · have within := whole_sector validFixed.1 inDisk small
      have inFile : nr * 512 + o < s.file.size :=
        Nat.lt_of_lt_of_le within (Nat.le_of_add_right_le validFixed.2)
      have byte : t.file.byte (nr * 512 + o) =
          if range.off ≤ nr * 512 + o ∧ nr * 512 + o < range.off + range.size then
            buf (nr * 512 + o - range.off) else s.file.byte (nr * 512 + o) := by
        change (s.file.put range.off range.size buf).byte _ = _
        unfold File.put
        dsimp only
        rw [if_pos inFile]
      rw [if_pos inDisk, if_pos inDisk, byte, Option.getD_some, Option.getD_some]
      exact ⟨fun here => if_pos here, fun elsewhere => if_neg elsewhere⟩
    · rw [if_neg inDisk, if_neg inDisk]
      refine ⟨fun here => ?_, fun _ => rfl⟩
      have := here.2
      omega
  · exact fun _ _ _ _ _ => trivial

theorem wp_vhdIoWriteBytes (valid : s.Valid) (parents : below.Valid s.type)
    (ok : s.WriteBytesOk below range) :
    wp (vhdIoWriteBytes below range tmp buf)
      (fun _ t => t.Valid ∧ s.SameFields t ∧ below.Puts s.toVhd t.toVhd
        (fun p => range.off ≤ p ∧ p < range.off + range.size) fun p => buf (p - range.off))
      (fun _ _ => True) s := by
  unfold vhdIoWriteBytes
  simp only [wp_bind, wp_get, wp_ite, wp_fail]
  refine ⟨fun _ => trivial, fun inside => ⟨fun fixed => ?_, fun dynamic => ?_⟩⟩
  · exact wp_fixedWriteBytes valid (by simpa using fixed) (Nat.not_lt.mp inside)
  · have dynamic : s.typeDynamic = true := by simpa using dynamic
    exact wp_dynamicWriteBytes valid parents dynamic (Nat.not_lt.mp inside) (ok dynamic)

end Parts

structure BytesWrite where
  range : ByteRange
  tmp : Nat → UInt8
  buf : Nat → UInt8

def BytesWrite.update (shown : Nat → Nat → UInt8) (write : BytesWrite) (sector o : Nat) : UInt8 :=
  if write.range.off ≤ sector * 512 + o ∧
      sector * 512 + o < write.range.off + write.range.size then
    write.buf (sector * 512 + o - write.range.off)
  else shown sector o

def Session.writeBytes (below : Below) (session : Session) (write : BytesWrite) : Option Session :=
  match vhdIoWriteBytes below write.range write.tmp write.buf session.handle with
  | (.ok _, handle) => some { handle, shown := BytesWrite.update session.shown write }
  | _ => none

def Session.WriteBytesOk (below : Below) (session : Session) (write : BytesWrite) : Prop :=
  session.handle.WriteBytesOk below write.range

def ByteRange.Apart (first second : ByteRange) : Prop :=
  first.off + first.size ≤ second.off ∨ second.off + second.size ≤ first.off

section Runs
variable {below : Below} {s t t' : Session} {w : BytesWrite} {writes writes' : List BytesWrite}

theorem Session.Good.writeBytes (good : s.Good below) (ok : s.WriteBytesOk below w)
    (action : s.writeBytes below w = some t) : t.Good below := by
  unfold Session.writeBytes at action
  split at action
  · rename_i handle run
    obtain ⟨valid, fields, puts⟩ := (wp_vhdIoWriteBytes good.valid good.parents ok).ok run
    cases action
    refine ⟨valid, ?_, fun sector o small => ?_⟩
    · dsimp only
      rw [fields]
      exact good.parents
    · have puts := puts sector o small
      have before := good.shows sector o small
      unfold BytesWrite.update
      dsimp only
      split
      · exact puts.1 ‹_›
      · rw [puts.2 ‹_›]
        exact before
  · cases action

theorem Session.Good.trace (good : s.Good below)
    (run : Trace (Session.writeBytes below) (Session.WriteBytesOk below) s writes t) :
    t.Good below ∧ t.shown = writes.foldl BytesWrite.update s.shown ∧
      t.handle.currSize = s.handle.currSize := by
  induction run with
  | nil s => exact ⟨good, rfl, rfl⟩
  | @cons s mid t w writes ok action rest ih =>
      obtain ⟨good', shown, size⟩ := ih (good.writeBytes ok action)
      refine ⟨good', ?_, ?_⟩
      · rw [shown, List.foldl_cons]
        unfold Session.writeBytes at action
        split at action
        · cases action
          rfl
        · cases action
      · rw [size]
        unfold Session.writeBytes at action
        split at action
        · rename_i handle run
          obtain ⟨_, fields, _⟩ := (wp_vhdIoWriteBytes good.valid good.parents ok).ok run
          cases action
          dsimp only
          rw [fields]
        · cases action

theorem showsBytes_of_readOk {chain : Chain} {range : ByteRange} (valid : chain.Valid)
    (inside : range.off + range.size ≤ chain.top.currSize) (ok : chain.ByteReadOk range) :
    ShowsBytes chain range := by
  by_cases positive : 0 < range.size
  · by_cases dynamic : chain.top.typeDynamic = true
    · obtain ⟨fits, fine, order, clears, spilled, answers, whole⟩ := ok positive dynamic
      have shows := (runShows_iff valid positive (ByteRange.mapFits_small fits)).mpr
        ⟨fine, order, clears, spilled, answers⟩
      have sectors : range.whole → ∀ chain', chain.SameLayout chain' →
          ShowsSectors chain' (range.off / 512) (range.size / 512) :=
        fun h => (sectorReads_dynamic valid (h.inside inside) dynamic).mpr (whole h)
      exact (showsBytes_dynamic valid positive inside dynamic).mpr ⟨fits, shows, sectors⟩ chain
        (.refl chain)
    · exact showsBytes_fixed valid inside dynamic
  · exact fun _ p below => absurd (Nat.lt_of_le_of_lt (Nat.zero_le p) below) positive

theorem update_commute {first second : BytesWrite} (apart : first.range.Apart second.range)
    (shown : Nat → Nat → UInt8) :
    BytesWrite.update (BytesWrite.update shown first) second =
      BytesWrite.update (BytesWrite.update shown second) first := by
  funext sector o
  unfold ByteRange.Apart at apart
  unfold BytesWrite.update
  by_cases left : first.range.off ≤ sector * 512 + o ∧
      sector * 512 + o < first.range.off + first.range.size
  · rw [if_neg (by omega), if_pos left, if_pos left]
  · rw [if_neg left, if_neg left]

theorem updates_perm (perm : writes.Perm writes')
    (apart : writes.Pairwise fun first second => first.range.Apart second.range)
    (shown : Nat → Nat → UInt8) :
    writes.foldl BytesWrite.update shown = writes'.foldl BytesWrite.update shown := by
  induction perm generalizing shown with
  | nil => rfl
  | cons w _ ih => exact ih (List.pairwise_cons.mp apart).2 _
  | swap first second rest =>
      have first := (List.pairwise_cons.mp apart).1 first (List.mem_cons_self ..)
      rw [List.foldl_cons, List.foldl_cons, List.foldl_cons, List.foldl_cons, update_commute first]
  | @trans _ mid _ perm _ ih ih' =>
      have symm : ∀ {first second : BytesWrite}, first.range.Apart second.range →
          second.range.Apart first.range := Or.symm
      rw [ih apart, ih' ((perm.pairwise_iff symm).mp apart)]

/-- In a run of successful byte writes that all meet the condition, the disk is the one with all the
writes made, and for writes to disjoint ranges their order does not matter. -/
theorem vhdIoWriteBytes_runs (valid : s.handle.Valid) (parents : below.Valid s.handle.type)
    (shows : ∀ sector o, o < 512 →
      (below.under s.handle.toVhd).byte sector o = s.shown sector o)
    (run : Trace (Session.writeBytes below) (Session.WriteBytesOk below) s writes t) :
    (∀ sector o, o < 512 → (below.under t.handle.toVhd).byte sector o =
      writes.foldl BytesWrite.update s.shown sector o) ∧
    (∀ range : ByteRange, range.off + range.size ≤ s.handle.currSize →
      (below.under t.handle.toVhd).ByteReadOk range → ∀ buf, ∀ p < range.size, ∃ bytes,
        vhdIoReadBytes (below.under t.handle.toVhd) range buf = .ok bytes ∧
        bytes p = writes.foldl BytesWrite.update s.shown ((range.off + p) / 512)
          ((range.off + p) % 512)) ∧
    (writes.Pairwise (fun first second => first.range.Apart second.range) →
      ∀ writes' t', writes.Perm writes' →
      Trace (Session.writeBytes below) (Session.WriteBytesOk below) s writes' t' →
      ∀ sector o, o < 512 → (below.under t'.handle.toVhd).byte sector o =
        (below.under t.handle.toVhd).byte sector o) := by
  have start : s.Good below := ⟨valid, parents, shows⟩
  obtain ⟨good, shown, size⟩ := start.trace run
  refine ⟨fun sector o small => ?_, fun range inside ok buf p bound => ?_, ?_⟩
  · rw [good.shows sector o small, shown]
  · have chain := Below.valid_under good.valid good.parents
    have inside' : range.off + range.size ≤ (below.under t.handle.toVhd).top.currSize := by
      rw [Below.under_top, size]
      exact inside
    obtain ⟨bytes, action, byte, _⟩ := showsBytes_of_readOk chain inside' ok buf p bound
    exact ⟨bytes, action, by rw [byte, good.shows _ _ (Nat.mod_lt _ (by decide)), shown]⟩
  · intro apart writes' t' perm run' sector o small
    obtain ⟨good', shown', _⟩ := start.trace run'
    rw [good.shows sector o small, good'.shows sector o small, shown, shown',
      updates_perm perm apart]

end Runs

theorem vhdIoWriteBytes_runs_halfOpen :
    ∃ t : Session,
      Session.writeBytes .nothing ⟨halfOpen .dynamic (2 * 2 ^ 21),
        (Below.nothing.under (halfOpen .dynamic (2 * 2 ^ 21)).toVhd).byte⟩
        ⟨⟨100, 1000⟩, fun _ => 0, fun _ => 7⟩ = some t ∧
      (Below.nothing.under t.handle.toVhd).byte 0 100 = 7 := by
  have ok : (halfOpen .dynamic (2 * 2 ^ 21)).WriteBytesOk .nothing ⟨100, 1000⟩ := fun _ _ =>
    ⟨halfOpen_ok (by decide +kernel) (by decide +kernel), by decide +kernel, fun _ => by decide,
      fun _ => .inr trivial, fun _ => .inr trivial⟩
  have works : (vhdIoWriteBytes .nothing ⟨100, 1000⟩ (fun _ => 0) (fun _ => 7)
      (halfOpen .dynamic (2 * 2 ^ 21))).1 = .ok () := by decide +kernel
  rcases action : vhdIoWriteBytes .nothing ⟨100, 1000⟩ (fun _ => 0) (fun _ => 7)
    (halfOpen .dynamic (2 * 2 ^ 21)) with ⟨result, t⟩
  rw [action] at works
  dsimp only at works
  subst works
  have step : Session.writeBytes .nothing ⟨halfOpen .dynamic (2 * 2 ^ 21),
      (Below.nothing.under (halfOpen .dynamic (2 * 2 ^ 21)).toVhd).byte⟩
      ⟨⟨100, 1000⟩, fun _ => 0, fun _ => 7⟩ =
      some ⟨t, BytesWrite.update (Below.nothing.under (halfOpen .dynamic (2 * 2 ^ 21)).toVhd).byte
        ⟨⟨100, 1000⟩, fun _ => 0, fun _ => 7⟩⟩ := by
    unfold Session.writeBytes
    dsimp only
    rw [action]
  refine ⟨_, step, ?_⟩
  have valid : (halfOpen .dynamic (2 * 2 ^ 21)).Valid := halfOpen_valid (by decide) (by decide)
  have ok' : Session.WriteBytesOk .nothing ⟨halfOpen .dynamic (2 * 2 ^ 21),
      (Below.nothing.under (halfOpen .dynamic (2 * 2 ^ 21)).toVhd).byte⟩
      ⟨⟨100, 1000⟩, fun _ => 0, fun _ => 7⟩ := ok
  have single := Trace.cons ok' step (.nil _)
  have parents : Below.nothing.Valid (halfOpen .dynamic (2 * 2 ^ 21)).type := fun type => by cases type
  have run := vhdIoWriteBytes_runs valid parents (fun _ _ _ => rfl) single
  exact run.1 0 100 (by decide)

theorem vhdIoWriteBytes_clears_raw :
    ∃ (below : Below) (s t : Handle), s.Valid ∧ below.Valid s.type ∧
      vhdIoWriteBytes below ⟨0, 1⟩ (fun _ => 0) (fun _ => 7) s = (.ok (), t) ∧
      (below.under s.toVhd).byte 0 1 = 1 ∧ (below.under t.toVhd).byte 0 1 = 0 := by
  refine ⟨.raw ⟨2 * 2 ^ 21, fun _ => 1⟩, halfOpen .diff (2 * 2 ^ 21), _,
    halfOpen_valid (by decide) (by decide), rfl,
    Prod.ext (by decide +kernel : (vhdIoWriteBytes (.raw ⟨2 * 2 ^ 21, fun _ => 1⟩) ⟨0, 1⟩
      (fun _ => 0) (fun _ => 7) (halfOpen .diff (2 * 2 ^ 21))).1 = .ok ()) rfl, ?_⟩
  decide +kernel

end Blktap.Libvhd
