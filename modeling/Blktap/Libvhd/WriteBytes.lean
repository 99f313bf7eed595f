import Blktap.Libvhd.ReadBytes
import Blktap.Libvhd.WriteRuns

/-!
# Byte writes (`vhd_io_write_bytes`)

Whole sectors are written block by block. A sector of which only a part is in the range is read through
the chain first and then written as a whole. The reads take the table from the disk: in the states in
which the code gets that far it is the one in memory.
-/

namespace Blktap.Libvhd
open Lib

def writeBytesData (block blkOff bytes : Nat) (buf : Nat → UInt8) :
    Action Handle (Option (Nat → UInt8)) := do
  let bat ← loadedBat
  if bat.len ≤ block then Action.undefined
  else do
    Action.when (bat.bat block = ddBlkUnused) (allocateBlock block)
    let bat ← loadedBat
    let s ← Action.get
    vhdWrite ((bat.bat block + s.bmSecs) * 512 + blkOff) bytes buf
    let full ← batmapTest block
    if full then pure none
    else do
      let s ← Action.get
      let map ← Action.lift (vhdReadBitmap s.toVhd bat block)
      pure (some map)

def writeBytesLoop : Nat → Nat → Nat → (Nat → UInt8) → Action Handle Unit
  | 0, _, _, _ => Action.undefined
  | fuel + 1, off, size, buf => do
      let s ← Action.get
      let blkSize := s.spb * 512
      if blkSize = 0 then Action.undefined
      else do
        let blk := off / blkSize % 2 ^ 32
        let blkOff := off % blkSize
        let bytes := min (blkSize - blkOff) size
        let firstSec := blkOff / 512
        let lastSec := secsRoundUpNoZero (blkOff + bytes)
        let map ← writeBytesData blk blkOff bytes buf
        writeMarksOf blk firstSec (lastSec - firstSec) map
        if size - bytes = 0 then pure ()
        else writeBytesLoop fuel (off + bytes) (size - bytes) fun p => buf (bytes + p)

def writeBytesAligned (off size : Nat) (buf : Nat → UInt8) : Action Handle Unit :=
  if off % 512 ≠ 0 ∨ size % 512 ≠ 0 then Action.fail (-einval)
  else do
    loadTables
    let result ← Action.attempt (writeBytesLoop (size + 1) off size buf)
    let footer ← Action.attempt vhdWriteFooter
    writeResult result footer

def readSector (below : Below) (sec : Nat) (tmp : Nat → UInt8) : Action Handle (Nat → UInt8) := do
  let s ← Action.get
  Action.lift (vhdIoReadBytes (below.under s.toVhd) ⟨sec * 512, 512⟩ tmp)

def copyBytes (place size : Nat) (buf tmp : Nat → UInt8) : Nat → UInt8 := fun p =>
  if place ≤ p ∧ p < place + size then buf (p - place) else tmp p

def writeHead (below : Below) (range : ByteRange) (tmp buf : Nat → UInt8) :
    Action Handle (Nat → UInt8) :=
  if range.off % 512 = 0 then pure tmp
  else do
    let tmp ← readSector below range.firstSec tmp
    let tmp := copyBytes (range.off % 512) (min (512 - range.off % 512) range.size) buf tmp
    writeBytesAligned (range.firstSec * 512) 512 tmp
    pure tmp

def writeTail (below : Below) (range : ByteRange) (size : Nat) (tmp buf : Nat → UInt8) :
    Action Handle Nat :=
  let lastSecOff := (range.off + range.size) % 512
  if lastSecOff ≠ 0 ∧ (1 < range.secs ∨ range.off % 512 = 0) then do
    let tmp ← readSector below (range.lastSec - 1) tmp
    if size < lastSecOff then Action.undefined
    else do
      writeBytesAligned ((range.lastSec - 1) * 512) 512
        (copyBytes 0 lastSecOff (fun p => buf (size - lastSecOff + p)) tmp)
      pure (size - lastSecOff)
  else pure size

def ByteRange.head (range : ByteRange) : Nat :=
  if range.off % 512 = 0 then 0 else min (512 - range.off % 512) range.size

def dynamicWriteBytes (below : Below) (range : ByteRange) (tmp buf : Nat → UInt8) :
    Action Handle Unit := do
  let tmp ← writeHead below range tmp buf
  let rest := fun p => buf (range.head + p)
  let size ← writeTail below range (range.size - range.head) tmp rest
  Action.when (size ≠ 0) (writeBytesAligned (range.off + range.head) size rest)

def vhdIoWriteBytes (below : Below) (range : ByteRange) (tmp buf : Nat → UInt8) :
    Action Handle Unit := do
  let s ← Action.get
  if s.currSize < range.off + range.size then Action.fail (-erange)
  else if !s.typeDynamic then vhdWrite range.off range.size buf
  else dynamicWriteBytes below range tmp buf

open Action

section Aligned
variable {s t : Handle} {sector secs bound : Nat} {buf : Nat → UInt8}

theorem writeBytesData_eq (block sec cnt : Nat) (buf : Nat → UInt8) :
    writeBytesData block (sec * 512) (cnt * 512) buf = writeData block sec cnt buf := by
  unfold writeBytesData writeData
  simp only [← Nat.add_mul]

theorem grown_spb (grown : s.Grown t) : t.spb = s.spb := by
  rw [grown.1]
  rfl

theorem secsRoundUp_sectors {n : Nat} (positive : 0 < n) (small : n < 2 ^ 32) :
    secsRoundUpNoZero (n * 512) = n := by
  unfold secsRoundUpNoZero secsRoundUp
  split <;> omega

theorem wp_writeBytesLoop {post : Except Int Unit → Handle → Prop} {stop : Int → Handle → Prop}
    (fuel : Nat) (positive : 0 < secs) (small : s.spb < 2 ^ 32)
    (run : wp (writeLoop fuel sector secs buf) post stop s) :
    wp (writeBytesLoop fuel (sector * 512) (secs * 512) buf) (fun _ t => post (.ok ()) t)
      (fun code t => post (.error code) t ∨ stop code t) s := by
  induction fuel generalizing s sector secs buf with
  | zero => exact run
  | succ fuel ih =>
      unfold writeLoop at run
      unfold writeBytesLoop
      simp only [wp_bind, wp_get] at run ⊢
      by_cases none : s.spb = 0
      · rw [if_pos none] at run
        exact run.elim
      rw [if_neg none] at run
      rw [if_neg (Nat.mul_ne_zero none (by decide))]
      have block : sector * 512 / (s.spb * 512) % 2 ^ 32 = s.slot sector := by
        rw [Nat.mul_div_mul_right _ _ (by decide)]
        rfl
      have offset : sector * 512 % (s.spb * 512) = sector % s.spb * 512 :=
        Nat.mul_mod_mul_right ..
      have bytes : min (s.spb * 512 - sector % s.spb * 512) (secs * 512) =
          min secs (s.spb - sector % s.spb) * 512 := by
        rw [← Nat.sub_mul, ← Nat.mul_min_mul_right, Nat.min_comm]
      rw [block, offset, bytes]
      generalize count : min secs (s.spb - sector % s.spb) = cnt at run ⊢
      have low : sector % s.spb < s.spb := Nat.mod_lt _ (Nat.pos_of_ne_zero none)
      have first : sector % s.spb * 512 / 512 = sector % s.spb := Nat.mul_div_cancel _ (by decide)
      have last : secsRoundUpNoZero (sector % s.spb * 512 + cnt * 512) = sector % s.spb + cnt := by
        have lowCnt : 0 < cnt := by omega
        have highCnt : sector % s.spb + cnt < 2 ^ 32 := by omega
        rw [← Nat.add_mul]
        exact secsRoundUp_sectors (Nat.add_pos_right _ lowCnt) highCnt
      rw [first, last, Nat.add_sub_cancel_left, writeBytesData_eq]
      simp only [wp_bind] at run ⊢
      apply ((grows_writeData _ _ _ _).wp run).mono
      · rintro map t ⟨run, grown⟩
        rw [wp_attempt] at run
        apply ((grows_writeMarksOf _ _ _ _).wp run).mono
        · rintro _ u ⟨run, grown'⟩
          dsimp only at run ⊢
          have same : secs * 512 - cnt * 512 = (secs - cnt) * 512 := (Nat.sub_mul ..).symm
          have spb : u.spb = s.spb := (grown_spb grown').trans (grown_spb grown)
          rw [same]
          by_cases done : secs - cnt = 0
          · rw [if_pos done, wp_pure] at run
            rw [if_pos (by rw [done]), wp_pure]
            exact run
          · rw [if_neg done] at run
            rw [if_neg (Nat.mul_ne_zero done (by decide)), ← Nat.add_mul]
            exact ih (Nat.pos_of_ne_zero done) (spb ▸ small) run
        · rintro code u ⟨run, _⟩
          exact .inl run
      · rintro code t ⟨run, _⟩
        exact .inr run

theorem grows_writeBytesLoop (fuel off size : Nat) (buf : Nat → UInt8) :
    Steps Handle.Grown (writeBytesLoop fuel off size buf) := by
  have data : ∀ block blkOff bytes buf,
      Steps Handle.Grown (writeBytesData block blkOff bytes buf) := by
    intro block blkOff bytes buf
    unfold writeBytesData
    refine .bind grows_loadedBat fun bat => .ite .undefined ?_
    refine .bind (.when (grows_allocateBlock block)) fun _ => ?_
    refine .bind grows_loadedBat fun bat => .bind .get fun s => ?_
    refine .bind (grows_vhdWrite _ _ _) fun _ => ?_
    refine .bind (grows_batmapTest block) fun full => .ite (.pure _) ?_
    exact .bind .get fun _ => .bind (.lift _) fun _ => .pure _
  induction fuel generalizing off size buf with
  | zero => exact .undefined
  | succ fuel ih =>
      unfold writeBytesLoop
      refine .bind .get fun s => .ite .undefined (.bind (data _ _ _ _) fun map => ?_)
      exact .bind (grows_writeMarksOf _ _ _ map) fun _ => .ite (.pure _) (ih _ _ _)

theorem wp_writeBytesAligned (sound : s.Sound) {blocks : List Nat} (allows : s.Allows blocks bound)
    (positive : 0 < secs) (among : ∀ block ∈ s.blocksOf sector secs, block ∈ blocks)
    (inDisk : (sector + secs) * 512 ≤ s.currSize) :
    wp (writeBytesAligned (sector * 512) (secs * 512) buf)
      (fun _ t => s.Written blocks bound sector secs buf t)
      (fun _ t => s.Failed sector secs t) s := by
  unfold writeBytesAligned
  rw [if_neg (by simp)]
  refine wp_withFooter sound allows (grows_writeBytesLoop _ _ _ _).attempt
    fun t fields sound' ready allows' => ?_
  have small : t.spb < 2 ^ 32 := by
    obtain ⟨k, _, high, size⟩ := sound'.laid.blockSize
    unfold Vhd.spb
    rw [size]
    exact Nat.lt_of_le_of_lt (Nat.div_le_self _ _) (Nat.pow_lt_pow_right (by decide) high)
  have enough : secs < secs * 512 + 1 := by omega
  rw [wp_attempt]
  apply (wp_writeBytesLoop _ positive small (wp_writeLoop (secs * 512 + 1) enough sound'
    allows'.room ready allows'.fits ?_ ?_)).mono
  · exact fun _ u done => done
  · rintro code u (done | left)
    · exact done
    · exact ⟨left, fun h => by cases h⟩
  · rw [fields]
    exact among
  · rw [fields]
    exact inDisk

end Aligned

end Blktap.Libvhd
