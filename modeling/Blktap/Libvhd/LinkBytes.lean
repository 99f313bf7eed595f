import Mathlib.Data.Nat.Basic
import Blktap.Libvhd.ReadBytes
import Blktap.Libvhd.Table

/-!
# What one layer contributes to a byte read
-/

namespace Blktap.Libvhd
open Lib

def Covered (array : List VectorEntry) (x : Nat) : Prop :=
  ∃ v ∈ array, v.off ≤ x ∧ x < v.off + v.bytes

theorem covered_entries {start buf cnt : Nat} {array : List VectorEntry} {x : Nat} :
    Covered (vectorEntries start buf cnt array) x ↔
      Covered array x ∨ (start ≤ x ∧ x < start + cnt) := by
  cases array with
  | nil => simp [Covered, vectorEntries]
  | cons v rest =>
      simp only [vectorEntries]
      split
      · simp only [Covered, List.mem_cons, exists_eq_or_imp]
        constructor
        · rintro (⟨low, high⟩ | rest)
          · by_cases early : x < v.off + v.bytes
            · exact .inl (.inl ⟨low, early⟩)
            · exact .inr ⟨by omega, by omega⟩
          · exact .inl (.inr rest)
        · rintro ((⟨low, high⟩ | rest) | ⟨low, high⟩)
          · exact .inl ⟨low, by omega⟩
          · exact .inr rest
          · exact .inl ⟨by omega, by omega⟩
      · simp only [Covered, List.mem_cons, exists_eq_or_imp]
        exact or_comm

structure Spans (test asked : Nat → Bool) (blkStart buf start : Nat) (array : List VectorEntry) :
    Prop where
  step : ∀ v ∈ array, v.off + buf = v.buf + blkStart ∧ blkStart ≤ v.off ∧ v.off + v.bytes ≤ start
  covers : ∀ x, Covered array x ↔
    blkStart ≤ x ∧ x < start ∧ asked (x / 512) = true ∧ test (x / 512) = true

structure VectorDone (test asked : Nat → Bool) (blkStart blkEnd buf sec : Nat) (vec : BlockVector) :
    Prop where
  start : vec.start = max blkStart (min (sec * 512) blkEnd)
  place : vec.buf + blkStart = buf + vec.start
  map : ∀ i, vec.map i = (asked i && (decide (i < blkStart / 512 ∨ sec ≤ i) || test i))
  spans : Spans test asked blkStart buf vec.start vec.array

section Vector
variable {test asked : Nat → Bool} {blkStart blkEnd buf sec : Nat} {vec : BlockVector}

theorem Spans.skip {start cnt : Nat} {array : List VectorEntry}
    (spans : Spans test asked blkStart buf start array)
    (sector : ∀ x, start ≤ x → x < start + cnt → x / 512 = sec)
    (off : asked sec = false ∨ test sec = false) :
    Spans test asked blkStart buf (start + cnt) array := by
  constructor
  · intro v member
    obtain ⟨step, low, high⟩ := spans.step v member
    exact ⟨step, low, by omega⟩
  · intro x
    rw [spans.covers]
    constructor
    · rintro ⟨low, high, marked⟩
      exact ⟨low, by omega, marked⟩
    · rintro ⟨low, high, wanted, marked⟩
      refine ⟨low, ?_, wanted, marked⟩
      by_contra late
      rw [sector x (by omega) high] at wanted marked
      rcases off with off | off
      · simp [off] at wanted
      · simp [off] at marked

theorem Spans.take {start at' cnt : Nat} {array : List VectorEntry}
    (spans : Spans test asked blkStart buf start array)
    (sector : ∀ x, start ≤ x → x < start + cnt → x / 512 = sec) (low : blkStart ≤ start)
    (place : at' + blkStart = buf + start)
    (wanted : asked sec = true) (marked : test sec = true) :
    Spans test asked blkStart buf (start + cnt) (vectorEntries start at' cnt array) := by
  constructor
  · have grown : ∀ v ∈ array, v.off + buf = v.buf + blkStart ∧ blkStart ≤ v.off ∧
        v.off + v.bytes ≤ start + cnt := by
      intro v member
      obtain ⟨step, low, high⟩ := spans.step v member
      exact ⟨step, low, by omega⟩
    have fresh : (⟨start, cnt, at'⟩ : VectorEntry).off + buf = at' + blkStart ∧
        blkStart ≤ start ∧ start + cnt ≤ start + cnt := ⟨by dsimp only; omega, low, le_rfl⟩
    cases array with
    | nil => simpa [vectorEntries] using fresh
    | cons v rest =>
        simp only [vectorEntries]
        split
        · rename_i follows
          intro w member
          rcases List.mem_cons.mp member with rfl | member
          · obtain ⟨step, low, _⟩ := grown v (List.mem_cons_self ..)
            exact ⟨step, low, by dsimp only; omega⟩
          · exact grown w (List.mem_cons_of_mem _ member)
        · intro w member
          rcases List.mem_cons.mp member with rfl | member
          · exact fresh
          · exact grown w member
  · intro x
    rw [covered_entries, spans.covers]
    constructor
    · rintro (⟨low, high, marked⟩ | ⟨above, below⟩)
      · exact ⟨low, by omega, marked⟩
      · rw [sector x above below]
        exact ⟨by omega, below, wanted, marked⟩
    · rintro ⟨low, high, marked⟩
      by_cases early : x < start
      · exact .inl ⟨low, early, marked⟩
      · exact .inr ⟨by omega, high⟩

theorem vectorTurn_done (vecDone : VectorDone test asked blkStart blkEnd buf sec vec)
    (above : blkStart / 512 ≤ sec) (below : sec * 512 < blkEnd) (order : blkStart ≤ blkEnd) :
    VectorDone test asked blkStart blkEnd buf (sec + 1) (vectorTurn test blkEnd vec sec) := by
  obtain ⟨start, place, map, spans⟩ := vecDone
  have startEq : vec.start = max blkStart (sec * 512) := by
    rw [start, Nat.min_eq_left below.le]
  have sectorEq : vec.start / 512 = sec := by omega
  have cntEq : vec.start + min (512 - vec.start % 512) (blkEnd - vec.start) =
      max blkStart (min ((sec + 1) * 512) blkEnd) := by omega
  have sector : ∀ x, vec.start ≤ x →
      x < vec.start + min (512 - vec.start % 512) (blkEnd - vec.start) → x / 512 = sec := by
    intro x low high
    omega
  have low : blkStart ≤ vec.start := by omega
  have other : ∀ i, i ≠ sec → (decide (i < blkStart / 512 ∨ sec ≤ i) =
      decide (i < blkStart / 512 ∨ sec + 1 ≤ i)) := by
    intro i differs
    congr 1
    exact propext ⟨by omega, by omega⟩
  have here : decide (sec < blkStart / 512 ∨ sec + 1 ≤ sec) = false := decide_eq_false (by omega)
  have asks : vec.map sec = asked sec := by
    rw [map, decide_eq_true (.inr le_rfl), Bool.true_or, Bool.and_true]
  unfold vectorTurn
  dsimp only
  cases wanted : asked sec with
  | false =>
      rw [asks, wanted, if_pos (by rfl)]
      refine ⟨cntEq, by dsimp only; omega, fun i => ?_, spans.skip sector (.inl wanted)⟩
      by_cases same : i = sec
      · rw [same, asks, wanted, Bool.false_and]
      · dsimp only
        rw [map, other i same]
  | true =>
      rw [asks, wanted, if_neg (by simp)]
      cases marked : test sec with
      | true =>
          rw [if_pos rfl]
          refine ⟨cntEq, by dsimp only; omega, fun i => ?_,
            spans.take sector low place wanted marked⟩
          by_cases same : i = sec
          · rw [same, asks, wanted, marked, Bool.or_true, Bool.and_true]
          · dsimp only
            rw [map, other i same]
      | false =>
          rw [if_neg (by simp)]
          refine ⟨cntEq, by dsimp only; omega, fun i => ?_, spans.skip sector (.inr marked)⟩
          dsimp only
          by_cases same : i = sec
          · rw [if_pos same, same, here, marked, Bool.or_false, Bool.and_false]
          · rw [if_neg same, map, other i same]

theorem vectorTurns_done (order : blkStart ≤ blkEnd) (cnt : Nat)
    (below : (blkStart / 512 + cnt) * 512 < blkEnd + 512) :
    VectorDone test asked blkStart blkEnd buf (blkStart / 512 + cnt)
      ((List.range' (blkStart / 512) cnt).foldl (vectorTurn test blkEnd)
        ⟨blkStart, buf, [], asked⟩) := by
  induction cnt with
  | zero =>
      have start : max blkStart (min ((blkStart / 512 + 0) * 512) blkEnd) = blkStart := by omega
      have all : ∀ i, decide (i < blkStart / 512 ∨ blkStart / 512 + 0 ≤ i) = true := by
        intro i
        exact decide_eq_true (by omega)
      refine ⟨start.symm, rfl, fun i => ?_, ⟨by simp, fun x => ?_⟩⟩
      · rw [all, Bool.true_or, Bool.and_true]
        rfl
      · simp only [Covered, List.range'_zero, List.foldl_nil, List.not_mem_nil, false_and,
          exists_false, false_iff]
        omega
  | succ cnt ih =>
      have last : (blkStart / 512 + cnt) * 512 < blkEnd := by
        rw [← Nat.add_assoc, Nat.add_mul] at below
        exact Nat.lt_of_add_lt_add_right below
      rw [List.range'_1_concat, List.foldl_append, List.foldl_cons, List.foldl_nil]
      exact vectorTurn_done (ih (Nat.lt_add_right _ last)) (Nat.le_add_right _ _) last order

end Vector

theorem vectorPread_fold {file : File} {off blkStart buf : Nat} {array : List VectorEntry}
    (step : ∀ v ∈ array, v.off + buf = v.buf + blkStart ∧ blkStart ≤ v.off ∧
      off + v.off + v.bytes ≤ file.size) (dest : Nat → UInt8) :
    ∃ after, array.foldlM (vectorPread file off) dest = .ok after ∧
      (∀ p, buf ≤ p → Covered array (blkStart + (p - buf)) →
        after p = file.byte (off + (blkStart + (p - buf)))) ∧
      ∀ p, (p < buf ∨ ¬ Covered array (blkStart + (p - buf))) → after p = dest p := by
  induction array generalizing dest with
  | nil => exact ⟨dest, rfl, fun p _ ⟨v, member, _⟩ => absurd member (by simp), fun _ _ => rfl⟩
  | cons v rest ih =>
      obtain ⟨place, low, fits⟩ := step v (List.mem_cons_self ..)
      have read := File.read_ok fits
      obtain ⟨after, action, new, old⟩ :=
        ih (fun w member => step w (List.mem_cons_of_mem _ member))
          fun p => if v.buf ≤ p ∧ p < v.buf + v.bytes then file.byte (off + v.off + (p - v.buf))
            else dest p
      have within : ∀ p, buf ≤ p → ((v.off ≤ blkStart + (p - buf) ∧
          blkStart + (p - buf) < v.off + v.bytes) ↔ (v.buf ≤ p ∧ p < v.buf + v.bytes)) := by
        intro p above
        omega
      have covered : ∀ x, Covered (v :: rest) x ↔
          (v.off ≤ x ∧ x < v.off + v.bytes) ∨ Covered rest x := by
        intro x
        simp only [Covered, List.mem_cons, exists_eq_or_imp]
      refine ⟨after, ?_, fun p above found => ?_, fun p outside => ?_⟩
      · rw [List.foldlM_cons, vectorPread, read]
        exact action
      · by_cases later : Covered rest (blkStart + (p - buf))
        · exact new p above later
        · have here := (within p above).mp (((covered _).mp found).resolve_right later)
          rw [old p (.inr later), if_pos here]
          congr 1
          omega
      · rw [old p (outside.imp_right fun none later => none ((covered _).mpr (.inr later))), if_neg]
        intro here
        rcases outside with below | none
        · omega
        · by_cases above : buf ≤ p
          · exact none ((covered _).mpr (.inl ((within p above).mpr here)))
          · omega

def ByteRange.nr (range : ByteRange) (p : Nat) : Nat :=
  if p < range.size then (range.off + p) / 512 - range.off / 512 else range.count

def Vhd.byteSource (vhd : Vhd) (sector : Nat) : Nat :=
  ((vhd.lookup sector + vhd.bmSecs) % 2 ^ 32 + sector % vhd.spb) * 512

def Vhd.sectorByte (vhd : Vhd) (sector o : Nat) : UInt8 := vhd.file.byte (vhd.byteSource sector + o)

def Vhd.found (vhd : Vhd) (off p : Nat) : UInt8 :=
  vhd.sectorByte ((off + p) / 512) ((off + p) % 512)

theorem block_offset {n : Nat} (positive : 0 < n) (off : Nat) : ∃ k,
    off = 512 * (n * k) + off % (n * 512) ∧ off / 512 / n = off / (n * 512) ∧
      off / 512 % n = off % (n * 512) / 512 ∧ off % (n * 512) < n * 512 := by
  refine ⟨off / (n * 512), ?_, ?_, ?_, Nat.mod_lt _ (by omega)⟩
  · have whole := Nat.div_add_mod off (n * 512)
    rw [Nat.mul_comm n 512, Nat.mul_assoc] at whole
    rw [Nat.mul_comm n 512]
    exact whole.symm
  · rw [Nat.div_div_eq_div_mul, Nat.mul_comm]
  · exact (Nat.mod_mul_left_div_self off 512 n).symm

section Turn
variable {vhd : Vhd} {off size : Nat}

def Vhd.stepBytes (vhd : Vhd) (off size : Nat) : Nat :=
  min (vhd.spb * 512 - off % (vhd.spb * 512)) size

def Vhd.stepSecs (vhd : Vhd) (off size : Nat) : Nat :=
  (off + vhd.stepBytes off size + 511) / 512 - off / 512

theorem stepSecs_eq (valid : vhd.Valid) (off : Nat) (positive : 0 < size) :
    secsRoundUpNoZero (off % (vhd.spb * 512) + vhd.stepBytes off size) -
        off % (vhd.spb * 512) / 512 = vhd.stepSecs off size ∧
      vhd.stepSecs off size ≤ vhd.spb - off / 512 % vhd.spb := by
  obtain ⟨k, whole, _, rest, inside⟩ := block_offset valid.spb_pos off
  obtain ⟨e, _, small, size'⟩ := valid.blockSize
  have bound : vhd.spb * 512 < 2 ^ 32 := by
    rw [valid.spb_mul, size']
    exact Nat.pow_lt_pow_right (by omega) small
  have step : vhd.stepBytes off size ≤ vhd.spb * 512 - off % (vhd.spb * 512) := Nat.min_le_left _ _
  have some : 0 < vhd.stepBytes off size := by
    unfold Vhd.stepBytes
    omega
  rw [rest]
  unfold Vhd.stepSecs
  generalize vhd.stepBytes off size = bytes at *
  generalize off % (vhd.spb * 512) = blkOff at *
  generalize vhd.spb * k = blocks at *
  unfold secsRoundUpNoZero secsRoundUp
  subst whole
  split <;> omega

theorem stepSecs_block (valid : vhd.Valid) (positive : 0 < size) {sector : Nat}
    (above : off / 512 ≤ sector) (below : sector < off / 512 + vhd.stepSecs off size) :
    sector / vhd.spb = off / 512 / vhd.spb ∧
      sector % vhd.spb = off / 512 % vhd.spb + (sector - off / 512) := by
  have room := (stepSecs_eq valid off positive).2
  exact same_block valid.spb_pos above (by omega)

theorem readLinkBytesTurn_unused (valid : vhd.Valid) (mapOff bufOff : Nat) (dest : Dest)
    (positive : 0 < size) (inside : vhd.slot (off / 512) < vhd.table.len)
    (unused : vhd.lookup (off / 512) = ddBlkUnused) :
    readLinkBytesTurn vhd vhd.table off size mapOff bufOff dest =
      .ok (vhd.stepBytes off size, vhd.stepSecs off size, dest) := by
  have spb := valid.spb_pos
  obtain ⟨_, _, block, _⟩ := block_offset spb off
  have slot : off / (vhd.spb * 512) % 2 ^ 32 = vhd.slot (off / 512) := by
    rw [← block]
    rfl
  have secs := (stepSecs_eq valid off positive).1
  unfold Vhd.stepBytes at secs
  unfold readLinkBytesTurn
  rw [if_neg (by omega)]
  dsimp only
  rw [slot, if_neg (Nat.not_le.mpr inside), if_pos (show vhd.table.bat _ = _ from unused), secs]
  rfl

theorem readLinkBytesTurn_unreadable (valid : vhd.Valid) (mapOff bufOff : Nat) (dest : Dest)
    (bad : ¬ vhd.readable (off / 512)) :
    (readLinkBytesTurn vhd vhd.table off size mapOff bufOff dest).isOk = false := by
  have spb := valid.spb_pos
  obtain ⟨_, _, block, _⟩ := block_offset spb off
  have slot : off / (vhd.spb * 512) % 2 ^ 32 = vhd.slot (off / 512) := by
    rw [← block]
    rfl
  unfold readLinkBytesTurn
  rw [if_neg (by omega)]
  dsimp only
  rw [slot]
  by_cases inside : vhd.slot (off / 512) < vhd.table.len
  · have used : vhd.lookup (off / 512) ≠ ddBlkUnused := fun h => bad ⟨inside, .inl h⟩
    have unloaded : vhd.batEntries ≤ vhd.slot (off / 512) :=
      Nat.not_lt.mp fun h => bad ⟨inside, .inr h⟩
    have bitmap : ∃ code, vhdReadBitmap vhd vhd.table (vhd.slot (off / 512)) = .error code := by
      unfold vhdReadBitmap
      split
      · exact ⟨_, rfl⟩
      · exact ⟨_, if_pos unloaded⟩
    obtain ⟨code, bitmap⟩ := bitmap
    rw [if_neg (Nat.not_le.mpr inside), if_neg (show ¬ vhd.table.bat _ = _ from used)]
    unfold vhdBlockVectorInit
    rw [bitmap]
    rfl
  · rw [if_pos (Nat.not_lt.mp inside)]
    rfl

theorem vhdBlockVectorRead_ok (valid : vhd.Valid) {sector : Nat}
    (loaded : vhd.slot sector < vhd.batEntries) (used : vhd.lookup sector ≠ ddBlkUnused)
    {blkStart buf : Nat} {array : List VectorEntry}
    (step : ∀ v ∈ array, v.off + buf = v.buf + blkStart ∧ blkStart ≤ v.off ∧
      v.off + v.bytes ≤ vhd.spb * 512) (dest : Nat → UInt8) :
    ∃ after, vhdBlockVectorRead vhd vhd.table (vhd.slot sector) array dest = .ok after ∧
      (∀ p, buf ≤ p → Covered array (blkStart + (p - buf)) →
        after p = vhd.file.byte ((vhd.lookup sector + vhd.bmSecs) % 2 ^ 32 * 512 +
          (blkStart + (p - buf)))) ∧
      ∀ p, (p < buf ∨ ¬ Covered array (blkStart + (p - buf))) → after p = dest p := by
  obtain ⟨allocated, entry⟩ := lookup_allocated valid loaded used
  have room : (vhd.lookup sector + vhd.bmSecs) * 512 + vhd.spb * 512 ≤ vhd.file.size := by
    have data := valid.data _ allocated
    rw [entry, valid.spb_mul]
    exact Nat.le_of_add_right_le data
  have wrapped : (vhd.lookup sector + vhd.bmSecs) % 2 ^ 32 * 512 ≤
      (vhd.lookup sector + vhd.bmSecs) * 512 := Nat.mul_le_mul_right _ (Nat.mod_le _ _)
  have covered : ∀ x, Covered array.reverse x ↔ Covered array x := by
    intro x
    simp only [Covered, List.mem_reverse]
  have inside : ∀ v ∈ array.reverse, v.off + buf = v.buf + blkStart ∧ blkStart ≤ v.off ∧
      (vhd.lookup sector + vhd.bmSecs) % 2 ^ 32 * 512 + v.off + v.bytes ≤ vhd.file.size := by
    intro v member
    obtain ⟨place, low, high⟩ := step v (List.mem_reverse.mp member)
    rw [Nat.add_assoc]
    exact ⟨place, low, (Nat.add_le_add wrapped high).trans room⟩
  have fold := vectorPread_fold inside dest
  simp only [covered] at fold
  unfold vhdBlockVectorRead
  rw [if_neg (show ¬ vhd.table.entries ≤ _ from Nat.not_le.mpr loaded),
    if_neg (show ¬ vhd.table.bat _ = _ from used)]
  exact fold

theorem readLinkBytesTurn_extent {range : ByteRange} {mapOff bufOff : Nat} (valid : vhd.Valid)
    (dynamic : vhd.typeDynamic = true) (dest : Dest) (positive : 0 < size)
    (loaded : vhd.slot (off / 512) < vhd.batEntries) (used : vhd.lookup (off / 512) ≠ ddBlkUnused)
    (start : off = range.off + bufOff) (remain : bufOff + size = range.size)
    (place : mapOff + range.off / 512 = off / 512) (aligned : bufOff = 0 ∨ off % 512 = 0) :
    ∃ after, readLinkBytesTurn vhd vhd.table off size mapOff bufOff dest =
        .ok (vhd.stepBytes off size, vhd.stepSecs off size, after) ∧
      Filled range.nr (fun nr => mapOff ≤ nr ∧ nr < mapOff + vhd.stepSecs off size ∧
        vhd.finds (range.off / 512 + nr)) (vhd.found range.off) dest after := by
  have spb := valid.spb_pos
  obtain ⟨k, whole, block, rest, inside⟩ := block_offset spb off
  have slot : off / (vhd.spb * 512) % 2 ^ 32 = vhd.slot (off / 512) := by
    rw [← block]
    rfl
  obtain ⟨secs, room⟩ := stepSecs_eq valid off positive
  have bitmap := vhdReadBitmap_ok valid dynamic loaded used
  have sector : ∀ nr, mapOff ≤ nr → nr < mapOff + vhd.stepSecs off size →
      (range.off / 512 + nr) / vhd.spb = off / 512 / vhd.spb ∧
        (range.off / 512 + nr) % vhd.spb = off % (vhd.spb * 512) / 512 + (nr - mapOff) := by
    intro nr above below
    obtain ⟨same, offset⟩ := stepSecs_block valid positive
      (by omega : off / 512 ≤ range.off / 512 + nr) (by omega)
    rw [rest] at offset
    exact ⟨same, by omega⟩
  have slots : ∀ nr, mapOff ≤ nr → nr < mapOff + vhd.stepSecs off size →
      vhd.slot (range.off / 512 + nr) = vhd.slot (off / 512) := by
    intro nr above below
    unfold Vhd.slot
    rw [(sector nr above below).1]
  have finds : ∀ nr, mapOff ≤ nr → nr < mapOff + vhd.stepSecs off size →
      (vhd.finds (range.off / 512 + nr) ↔ vhd.marks (vhd.lookup (off / 512))
        (off % (vhd.spb * 512) / 512 + (nr - mapOff)) = true) := by
    intro nr above below
    unfold Vhd.finds Vhd.lookup
    rw [slots nr above below, (sector nr above below).2]
    exact ⟨fun h => h.2.2, fun h => ⟨loaded, used, h⟩⟩
  have some : 0 < vhd.stepBytes off size := by
    unfold Vhd.stepBytes
    omega
  have bytesLe : vhd.stepBytes off size ≤ vhd.spb * 512 - off % (vhd.spb * 512) :=
    Nat.min_le_left _ _
  have sizeLe : vhd.stepBytes off size ≤ size := Nat.min_le_right _ _
  have ends : vhd.stepBytes off size = size ∨
      vhd.stepBytes off size = vhd.spb * 512 - off % (vhd.spb * 512) := by
    unfold Vhd.stepBytes
    omega
  have stepSecs : vhd.stepSecs off size =
      (off + vhd.stepBytes off size + 511) / 512 - off / 512 := rfl
  unfold readLinkBytesTurn
  rw [if_neg (by omega)]
  dsimp only
  rw [slot, if_neg (Nat.not_le.mpr (Nat.lt_of_lt_of_le loaded table_len)),
    if_neg (show ¬ vhd.table.bat _ = _ from used)]
  unfold vhdBlockVectorInit
  rw [bitmap]
  simp only [Outcome.ok_bind]
  rw [show min (vhd.spb * 512 - off % (vhd.spb * 512)) size = vhd.stepBytes off size from rfl, secs]
  generalize vhd.stepBytes off size = bytes at *
  generalize vhd.stepSecs off size = cnt at *
  generalize off % (vhd.spb * 512) = blkOff at *
  generalize vhd.spb * k = blocks at *
  have finished := @vectorTurns_done
    (vhdBitmapTest vhd fun i => vhd.file.byte (vhd.lookup (off / 512) * 512 + i))
    (fun sec => decide (blkOff / 512 ≤ sec ∧ sec < blkOff / 512 + cnt) &&
      !dest.map (mapOff + (sec - blkOff / 512))) blkOff (blkOff + bytes) bufOff
    (Nat.le_add_right _ _) cnt (by rw [Nat.add_mul]; omega)
  generalize (List.range' (blkOff / 512) cnt).foldl _ _ = vec at *
  obtain ⟨vecStart, _, vecMap, step, covers⟩ := finished
  have stop : vec.start = blkOff + bytes := by
    rw [vecStart, Nat.add_mul]
    omega
  rw [stop] at step covers
  obtain ⟨after, action, new, old⟩ := vhdBlockVectorRead_ok valid loaded used
    (fun v member => ⟨(step v member).1, (step v member).2.1,
      (step v member).2.2.trans (by omega)⟩) dest.buf
  rw [action]
  have within : ∀ p, bufOff ≤ p → p < bufOff + bytes →
      range.nr p = mapOff + ((blkOff + (p - bufOff)) / 512 - blkOff / 512) ∧
        blkOff / 512 ≤ (blkOff + (p - bufOff)) / 512 ∧ range.nr p < mapOff + cnt ∧
        (range.off + p) / 512 = range.off / 512 + range.nr p ∧
        (range.off + p) % 512 = (blkOff + (p - bufOff)) % 512 := by
    intro p above below
    have nr : range.nr p = (range.off + p) / 512 - range.off / 512 := if_pos (by omega)
    rw [nr]
    omega
  have taken_within : ∀ p, mapOff ≤ range.nr p → range.nr p < mapOff + cnt →
      bufOff ≤ p ∧ p < bufOff + bytes := by
    intro p above below
    by_cases inside : p < range.size
    · rw [ByteRange.nr, if_pos inside] at above below
      omega
    · rw [ByteRange.nr, if_neg inside, ByteRange.count] at below
      omega
  refine ⟨_, rfl, ⟨fun nr => ?_, fun p missing taken => ?_, fun p kept => ?_⟩⟩
  · dsimp only
    rw [vecMap]
    by_cases inRange : mapOff ≤ nr ∧ nr < mapOff + cnt
    · have inBlock : blkOff / 512 ≤ blkOff / 512 + (nr - mapOff) ∧
          blkOff / 512 + (nr - mapOff) < blkOff / 512 + cnt := by omega
      have back : mapOff + (blkOff / 512 + (nr - mapOff) - blkOff / 512) = nr := by omega
      rw [finds nr inRange.1 inRange.2, decide_eq_true inRange, decide_eq_true inBlock, back,
        decide_eq_false (by omega)]
      unfold Vhd.marks
      cases dest.map nr <;> simp [inRange]
    · rw [decide_eq_false inRange, Bool.false_and, Bool.or_false]
      exact ⟨.inl, fun h => h.resolve_right fun h => inRange ⟨h.1, h.2.1⟩⟩
  · obtain ⟨above, below⟩ := taken_within p taken.1 taken.2.1
    obtain ⟨nr, first, _, sectorEq, byteEq⟩ := within p above below
    have marked := (finds _ taken.1 taken.2.1).mp taken.2.2
    have offset := (sector _ taken.1 taken.2.1).2
    have lookup : vhd.lookup (range.off / 512 + range.nr p) = vhd.lookup (off / 512) := by
      unfold Vhd.lookup
      rw [slots _ taken.1 taken.2.1]
    have number : blkOff / 512 + (range.nr p - mapOff) = (blkOff + (p - bufOff)) / 512 := by omega
    rw [number] at marked offset
    have inBlock : blkOff / 512 ≤ (blkOff + (p - bufOff)) / 512 ∧
        (blkOff + (p - bufOff)) / 512 < blkOff / 512 + cnt := by omega
    have covered : Covered vec.array (blkOff + (p - bufOff)) := by
      refine (covers _).mpr ⟨by omega, by omega, ?_, marked⟩
      rw [decide_eq_true inBlock, ← nr, missing]
      rfl
    dsimp only
    rw [new p above covered]
    unfold Vhd.found Vhd.sectorByte Vhd.byteSource
    rw [sectorEq, lookup, offset, byteEq, Nat.add_mul, Nat.add_assoc, Nat.div_add_mod']
  · dsimp only
    refine old p ?_
    by_cases above : bufOff ≤ p
    · refine .inr fun covered => ?_
      obtain ⟨_, high, asked, marked⟩ := (covers _).mp covered
      obtain ⟨nr, first, inTurn, _⟩ := within p above (by omega)
      have number : blkOff / 512 + (range.nr p - mapOff) = (blkOff + (p - bufOff)) / 512 := by omega
      simp only [Bool.and_eq_true, Bool.not_eq_true', ← nr] at asked
      rcases kept with found | untaken
      · exact absurd (found.symm.trans asked.2) (by decide)
      · refine untaken ⟨by omega, inTurn, (finds _ (by omega) inTurn).mpr ?_⟩
        rw [number]
        exact marked
    · exact .inl (by omega)

theorem step_ends (valid : vhd.Valid) (off : Nat) (positive : 0 < size) :
    0 < vhd.stepSecs off size ∧ 0 < vhd.stepBytes off size ∧ (vhd.stepBytes off size = size ∨
      (vhd.stepBytes off size < size ∧ (off + vhd.stepBytes off size) % 512 = 0 ∧
        (off + vhd.stepBytes off size) / 512 = off / 512 + vhd.stepSecs off size)) := by
  obtain ⟨k, whole, _, _, inside⟩ := block_offset valid.spb_pos off
  unfold Vhd.stepSecs Vhd.stepBytes
  generalize off % (vhd.spb * 512) = blkOff at *
  generalize vhd.spb * k = blocks at *
  omega

end Turn

def Vhd.bytesFine (vhd : Vhd) (range : ByteRange) (first : Nat) : Prop :=
  ∀ nr, first ≤ nr → nr < range.count → vhd.readable (range.off / 512 + nr)

theorem readLinkBytes_spec {vhd : Vhd} {range : ByteRange} (valid : vhd.Valid)
    (dynamic : vhd.typeDynamic = true) {fuel off size mapOff bufOff : Nat} (dest : Dest)
    (enough : size < fuel) (positive : 0 < size) (start : off = range.off + bufOff)
    (remain : bufOff + size = range.size) (place : mapOff + range.off / 512 = off / 512)
    (aligned : bufOff = 0 ∨ off % 512 = 0) :
    (vhd.bytesFine range mapOff → ∃ after,
      readLinkBytes vhd vhd.table fuel off size mapOff bufOff dest = .ok after ∧
        Filled range.nr (fun nr => mapOff ≤ nr ∧ nr < range.count ∧
          vhd.finds (range.off / 512 + nr)) (vhd.found range.off) dest after) ∧
    (¬ vhd.bytesFine range mapOff →
      (readLinkBytes vhd vhd.table fuel off size mapOff bufOff dest).isOk = false) := by
  induction fuel generalizing off size mapOff bufOff dest with
  | zero => omega
  | succ fuel ih =>
      obtain ⟨secsPos, bytesPos, ends⟩ := step_ends valid off positive
      have count : range.count = (range.off + range.size + 511) / 512 - range.off / 512 := rfl
      have first : off / 512 = range.off / 512 + mapOff := by omega
      have stepSecs : vhd.stepSecs off size =
          (off + vhd.stepBytes off size + 511) / 512 - off / 512 := rfl
      by_cases readable : vhd.readable (off / 512)
      · -- the turn succeeds, with an extent or without
        have turn : ∃ mid, readLinkBytesTurn vhd vhd.table off size mapOff bufOff dest =
            .ok (vhd.stepBytes off size, vhd.stepSecs off size, mid) ∧
            Filled range.nr (fun nr => mapOff ≤ nr ∧ nr < mapOff + vhd.stepSecs off size ∧
              vhd.finds (range.off / 512 + nr)) (vhd.found range.off) dest mid := by
          by_cases unused : vhd.lookup (off / 512) = ddBlkUnused
          · refine ⟨dest, readLinkBytesTurn_unused valid mapOff bufOff dest positive readable.1 unused,
              (Filled.none _ _ dest).congr fun nr => ?_⟩
            rw [false_iff]
            rintro ⟨above, below, found⟩
            have same := (stepSecs_block valid positive
              (by omega : off / 512 ≤ range.off / 512 + nr) (by omega)).1
            have used := found.2.1
            unfold Vhd.lookup Vhd.slot at used unused
            rw [same] at used
            exact used unused
          · exact readLinkBytesTurn_extent valid dynamic dest positive
              (readable.2.resolve_left unused) unused start remain place aligned
        obtain ⟨mid, turn, filled⟩ := turn
        have passed : ∀ nr, mapOff ≤ nr → nr < mapOff + vhd.stepSecs off size →
            vhd.readable (range.off / 512 + nr) := by
          intro nr above below
          exact readable_same (stepSecs_block valid positive
            (by omega : off / 512 ≤ range.off / 512 + nr) (by omega)).1 readable
        simp only [readLinkBytes, turn, Outcome.ok_bind]
        rcases ends with last | ⟨more, whole, next⟩
        · have done : mapOff + vhd.stepSecs off size = range.count := by omega
          rw [if_pos (by omega)]
          have fine : vhd.bytesFine range mapOff := fun nr above below =>
            passed nr above (by omega)
          rw [done] at filled
          exact ⟨fun _ => ⟨mid, rfl, filled⟩, fun bad => absurd fine bad⟩
        · rw [if_neg (by omega)]
          have fine : vhd.bytesFine range mapOff ↔
              vhd.bytesFine range (mapOff + vhd.stepSecs off size) := by
            constructor
            · intro all nr above below
              exact all nr (by omega) below
            · intro rest nr above below
              by_cases early : nr < mapOff + vhd.stepSecs off size
              · exact passed nr above early
              · exact rest nr (by omega) below
          have rest := ih mid (by omega : size - vhd.stepBytes off size < fuel) (by omega)
            (by omega : off + vhd.stepBytes off size =
              range.off + (bufOff + vhd.stepBytes off size)) (by omega)
            (by omega : mapOff + vhd.stepSecs off size + range.off / 512 =
              (off + vhd.stepBytes off size) / 512) (.inr whole)
          rw [fine]
          refine ⟨fun ok => ?_, rest.2⟩
          obtain ⟨after, action, further⟩ := rest.1 ok
          refine ⟨after, action, (filled.trans further).congr fun nr => ?_⟩
          constructor
          · rintro (⟨above, below, found⟩ | ⟨above, below, found⟩)
            · exact ⟨above, by omega, found⟩
            · exact ⟨by omega, below, found⟩
          · rintro ⟨above, below, found⟩
            by_cases early : nr < mapOff + vhd.stepSecs off size
            · exact .inl ⟨above, early, found⟩
            · exact .inr ⟨by omega, below, found⟩
      · have bad : ¬ vhd.bytesFine range mapOff := by
          intro fine
          rw [first] at readable
          exact readable (fine mapOff le_rfl (by omega))
        refine ⟨fun fine => absurd fine bad, fun _ => ?_⟩
        have failed := @readLinkBytesTurn_unreadable vhd off size valid mapOff bufOff dest readable
        simp only [readLinkBytes]
        cases turn : readLinkBytesTurn vhd vhd.table off size mapOff bufOff dest with
        | ok result => simp [turn, Outcome.isOk] at failed
        | error code => rfl
        | undefined => rfl

end Blktap.Libvhd
