import Mathlib.Data.Nat.Basic
import Blktap.Libvhd.Read
import Blktap.Libvhd.Table

/-!
# What one layer contributes to a sector read
-/

namespace Blktap.Libvhd
open Lib

/-- The range starts inside an unallocated block, and the sector lies in the first allocated block after it, nearer to
that block's start. -/
def Vhd.passedOver (vhd : Vhd) (first sector : Nat) : Prop :=
  first / vhd.spb < sector / vhd.spb ∧ sector % vhd.spb < first % vhd.spb ∧
    ∀ block, first / vhd.spb ≤ block → block < sector / vhd.spb →
      vhd.table.bat (block % 2 ^ 32) = ddBlkUnused

def Vhd.copies (vhd : Vhd) (first sector : Nat) : Prop :=
  ¬ vhd.passedOver first sector ∧ vhd.finds sector

def Vhd.fine (vhd : Vhd) (first secs : Nat) : Prop :=
  vhd.readable first ∧ ∀ sector, first ≤ sector → sector < first + secs →
    ¬ vhd.passedOver first sector → vhd.readable sector

section Layout
variable {vhd vhd' : Vhd} {first sector secs : Nat}

theorem Vhd.SameLayout.passedOver_iff (same : vhd.SameLayout vhd') (valid : vhd.Valid) :
    vhd'.passedOver first sector ↔ vhd.passedOver first sector := by
  have spb : vhd'.spb = vhd.spb := by rw [same.fields]; rfl
  unfold Vhd.passedOver
  rw [spb, same.table valid]

theorem Vhd.SameLayout.fine_iff (same : vhd.SameLayout vhd') (valid : vhd.Valid) :
    vhd'.fine first secs ↔ vhd.fine first secs := by
  simp only [Vhd.fine, same.readable_iff valid, same.passedOver_iff valid]

theorem Vhd.SameLayout.copies_iff (same : vhd.SameLayout vhd') (valid : vhd.Valid) :
    vhd'.copies first sector ↔ vhd.copies first sector := by
  simp only [Vhd.copies, same.passedOver_iff valid, same.finds_iff valid]

end Layout

section Turn
variable {vhd : Vhd} {sector : Nat} (secs mapOff : Nat) (dest : Dest)

theorem readLinkTurn_unused (valid : vhd.Valid) (inside : vhd.slot sector < vhd.table.len)
    (unused : vhd.lookup sector = ddBlkUnused) :
    readLinkTurn vhd vhd.table sector secs mapOff dest = .ok (min secs vhd.spb, dest) := by
  have := valid.spb_pos
  unfold readLinkTurn
  rw [if_neg (by omega)]
  dsimp only
  rw [if_neg (Nat.not_le.mpr inside), if_pos (show vhd.table.bat _ = _ from unused)]

theorem readLinkTurn_extent (valid : vhd.Valid) (dynamic : vhd.typeDynamic = true)
    (loaded : vhd.slot sector < vhd.batEntries) (used : vhd.lookup sector ≠ ddBlkUnused) :
    readLinkTurn vhd vhd.table sector secs mapOff dest =
      .ok (min secs (vhd.spb - sector % vhd.spb),
        copyData (fun i => vhd.marks (vhd.lookup sector) (sector % vhd.spb + i)) mapOff
          (fun p => vhd.file.byte (vhd.source sector + p))
          (min secs (vhd.spb - sector % vhd.spb)) dest) := by
  have := valid.spb_pos
  have inside := Nat.lt_of_lt_of_le loaded table_len
  have bitmap := vhdReadBitmap_ok valid dynamic loaded used
  have block := vhdReadBlock_ok valid dynamic loaded used
  unfold readLinkTurn
  rw [if_neg (by omega)]
  dsimp only
  rw [if_neg (Nat.not_le.mpr inside), if_neg (show ¬ vhd.table.bat _ = _ from used), bitmap, block]
  simp only [Outcome.ok_bind, Vhd.source, Vhd.marks, Nat.add_mul, Nat.add_assoc]

theorem readLinkTurn_unreadable (bad : ¬ vhd.readable sector) :
    (readLinkTurn vhd vhd.table sector secs mapOff dest).isOk = false := by
  unfold readLinkTurn
  split
  · rfl
  · dsimp only
    by_cases inside : vhd.slot sector < vhd.table.len
    · have used : vhd.lookup sector ≠ ddBlkUnused := fun h => bad ⟨inside, .inl h⟩
      have unloaded : vhd.batEntries ≤ vhd.slot sector :=
        Nat.not_lt.mp fun h => bad ⟨inside, .inr h⟩
      rw [if_neg (Nat.not_le.mpr inside), if_neg (show ¬ vhd.table.bat _ = _ from used)]
      have bitmap : ∃ code, vhdReadBitmap vhd vhd.table (vhd.slot sector) = .error code := by
        unfold vhdReadBitmap
        split
        · exact ⟨_, rfl⟩
        · exact ⟨_, if_pos unloaded⟩
      obtain ⟨code, bitmap⟩ := bitmap
      rw [bitmap]
      rfl
    · rw [if_pos (Nat.not_lt.mp inside)]
      rfl

end Turn

section Steps
variable {vhd : Vhd} {first sector : Nat}

theorem passedOver_unused (spb : 0 < vhd.spb) (unused : vhd.lookup first = ddBlkUnused)
    (above : first + vhd.spb ≤ sector) :
    vhd.passedOver first sector ↔ vhd.passedOver (first + vhd.spb) sector := by
  unfold Vhd.passedOver
  rw [Nat.add_div_right _ spb, Nat.add_mod_right]
  constructor
  · rintro ⟨_, nearer, gap⟩
    refine ⟨?_, nearer, fun block low high => gap block (by omega) high⟩
    by_contra same
    have := Nat.div_add_mod first vhd.spb
    have := Nat.div_add_mod sector vhd.spb
    have : vhd.spb * (sector / vhd.spb) ≤ vhd.spb * (first / vhd.spb + 1) :=
      Nat.mul_le_mul_left _ (by omega)
    rw [Nat.mul_add] at this
    omega
  · rintro ⟨later, nearer, gap⟩
    refine ⟨by omega, nearer, fun block low high => ?_⟩
    rcases Nat.eq_or_lt_of_le low with rfl | low
    · exact unused
    · exact gap block (by omega) high

theorem slot_or_passedOver (spb : 0 < vhd.spb) (unused : vhd.lookup first = ddBlkUnused)
    (above : first ≤ sector) (below : sector < first + vhd.spb) :
    vhd.slot sector = vhd.slot first ∨ vhd.passedOver first sector := by
  have low : first / vhd.spb ≤ sector / vhd.spb := Nat.div_le_div_right above
  have high : sector / vhd.spb ≤ first / vhd.spb + 1 := by
    rw [← Nat.add_div_right _ spb]
    exact Nat.div_le_div_right below.le
  rcases Nat.eq_or_lt_of_le low with same | next
  · left
    unfold Vhd.slot
    rw [same]
  · right
    have block : sector / vhd.spb = first / vhd.spb + 1 := by omega
    refine ⟨next, ?_, fun other low high => ?_⟩
    · have := Nat.div_add_mod first vhd.spb
      have atSector := Nat.div_add_mod sector vhd.spb
      rw [block, Nat.mul_add] at atSector
      omega
    · have : other = first / vhd.spb := by omega
      rw [this]
      exact unused

theorem copies_unused (spb : 0 < vhd.spb) (unused : vhd.lookup first = ddBlkUnused)
    (above : first ≤ sector) :
    vhd.copies first sector ↔
      first + vhd.spb ≤ sector ∧ vhd.copies (first + vhd.spb) sector := by
  by_cases later : first + vhd.spb ≤ sector
  · unfold Vhd.copies
    rw [passedOver_unused spb unused later]
    simp [later]
  · constructor
    · rintro ⟨seen, _, used, _⟩
      rcases slot_or_passedOver spb unused above (by omega) with same | passed
      · unfold Vhd.lookup at used unused
        rw [same] at used
        exact absurd unused used
      · exact absurd passed seen
    · rintro ⟨this, _⟩
      exact absurd this later

theorem not_passedOver_extent (used : vhd.lookup first ≠ ddBlkUnused) :
    ¬ vhd.passedOver first sector :=
  fun ⟨next, _, gap⟩ => used (gap _ (Nat.le_refl _) next)

theorem not_passedOver_aligned (aligned : first % vhd.spb = 0) :
    ¬ vhd.passedOver first sector :=
  fun ⟨_, nearer, _⟩ => by omega

theorem fine_unused (spb : 0 < vhd.spb) {secs : Nat} (unused : vhd.lookup first = ddBlkUnused)
    (readable : vhd.readable first) (more : vhd.spb < secs) :
    vhd.fine first secs ↔ vhd.fine (first + vhd.spb) (secs - vhd.spb) := by
  unfold Vhd.fine
  constructor
  · rintro ⟨_, all⟩
    constructor
    · refine all _ (by omega) (by omega) fun ⟨_, nearer, _⟩ => ?_
      rw [Nat.add_mod_right] at nearer
      omega
    · intro sector above below seen
      exact all sector (by omega) (by omega)
        fun passed => seen ((passedOver_unused spb unused above).mp passed)
  · rintro ⟨_, rest⟩
    refine ⟨readable, fun sector above below seen => ?_⟩
    by_cases later : first + vhd.spb ≤ sector
    · exact rest sector later (by omega)
        fun passed => seen ((passedOver_unused spb unused later).mpr passed)
    · rcases slot_or_passedOver spb unused above (by omega) with same | passed
      · unfold Vhd.readable Vhd.lookup at readable ⊢
        rwa [same]
      · exact absurd passed seen

theorem fine_unused_last (spb : 0 < vhd.spb) {secs : Nat}
    (unused : vhd.lookup first = ddBlkUnused) (readable : vhd.readable first)
    (last : secs ≤ vhd.spb) : vhd.fine first secs := by
  refine ⟨readable, fun sector above below seen => ?_⟩
  rcases slot_or_passedOver spb unused above (by omega) with same | passed
  · unfold Vhd.readable Vhd.lookup at readable ⊢
    rwa [same]
  · exact absurd passed seen

theorem fine_extent (spb : 0 < vhd.spb) {secs : Nat} (used : vhd.lookup first ≠ ddBlkUnused)
    (readable : vhd.readable first) (more : vhd.spb - first % vhd.spb < secs) :
    vhd.fine first secs ↔ vhd.fine (first + (vhd.spb - first % vhd.spb))
      (secs - (vhd.spb - first % vhd.spb)) := by
  have aligned := next_aligned first spb
  constructor
  · rintro ⟨_, all⟩
    exact ⟨all _ (by omega) (by omega) (not_passedOver_extent used), fun sector above below _ =>
      all sector (by omega) (by omega) (not_passedOver_extent used)⟩
  · rintro ⟨_, rest⟩
    refine ⟨readable, fun sector above below _ => ?_⟩
    by_cases later : first + (vhd.spb - first % vhd.spb) ≤ sector
    · exact rest sector later (by omega) (not_passedOver_aligned aligned)
    · exact readable_same (same_block spb above (by omega)).1 readable

theorem fine_extent_last (spb : 0 < vhd.spb) {secs : Nat} (readable : vhd.readable first)
    (last : secs ≤ vhd.spb - first % vhd.spb) : vhd.fine first secs :=
  ⟨readable, fun _ above below _ => readable_same (same_block spb above (by omega)).1 readable⟩

end Steps

theorem readLink_spec {vhd : Vhd} (valid : vhd.Valid) (dynamic : vhd.typeDynamic = true)
    (sec : Nat) {fuel secs : Nat} (mapOff : Nat) (dest : Dest) (enough : secs < fuel) :
    (vhd.fine (sec + mapOff) secs →
      ∃ after, readLink vhd vhd.table fuel (sec + mapOff) secs mapOff dest = .ok after ∧
        Filled (· / 512) (fun nr => mapOff ≤ nr ∧ nr < mapOff + secs ∧ vhd.copies (sec + mapOff) (sec + nr))
          (fun p => vhd.file.byte (vhd.source (sec + p / 512) + p % 512)) dest after) ∧
    (¬ vhd.fine (sec + mapOff) secs →
      (readLink vhd vhd.table fuel (sec + mapOff) secs mapOff dest).isOk = false) := by
  have spb := valid.spb_pos
  induction fuel generalizing secs mapOff dest with
  | zero => omega
  | succ fuel ih =>
      by_cases readable : vhd.readable (sec + mapOff)
      · by_cases unused : vhd.lookup (sec + mapOff) = ddBlkUnused
        · -- the block is unallocated, so the loop goes on a whole block further
          have turn := readLinkTurn_unused secs mapOff dest valid readable.1 unused
          simp only [readLink, turn, Outcome.ok_bind]
          by_cases last : secs ≤ vhd.spb
          · rw [Nat.min_eq_left last, if_pos (by omega)]
            have fine := fine_unused_last spb unused readable last
            refine ⟨fun _ => ⟨dest, rfl, (Filled.none _ _ dest).congr fun nr => ?_⟩,
              fun bad => absurd fine bad⟩
            rw [false_iff]
            rintro ⟨above, below, copied⟩
            have := ((copies_unused spb unused (by omega)).mp copied).1
            omega
          · rw [Nat.min_eq_right (by omega), if_neg (by omega),
              fine_unused spb unused readable (by omega), Nat.add_assoc]
            have rest := ih (mapOff + vhd.spb) dest (by omega : secs - vhd.spb < fuel)
            refine ⟨fun fine => ?_, rest.2⟩
            obtain ⟨after, action, filled⟩ := rest.1 fine
            refine ⟨after, action, filled.congr fun nr => ?_⟩
            constructor
            · rintro ⟨above, below, copied⟩
              refine ⟨by omega, by omega, (copies_unused spb unused (by omega)).mpr ⟨by omega, ?_⟩⟩
              rwa [Nat.add_assoc]
            · rintro ⟨above, below, copied⟩
              obtain ⟨later, copied⟩ := (copies_unused spb unused (by omega)).mp copied
              rw [Nat.add_assoc] at copied
              exact ⟨by omega, by omega, copied⟩
        · -- the block has an extent, so the loop goes on to the block's end
          have loaded := readable.2.resolve_left unused
          have offset := Nat.mod_lt (sec + mapOff) spb
          set cnt := vhd.spb - (sec + mapOff) % vhd.spb with cntEq
          have turn := readLinkTurn_extent secs mapOff dest valid dynamic loaded unused
          have copied : ∀ nr, mapOff ≤ nr → nr < mapOff + cnt →
              (vhd.copies (sec + mapOff) (sec + nr) ↔ vhd.marks (vhd.lookup (sec + mapOff))
                ((sec + mapOff) % vhd.spb + (nr - mapOff)) = true) := by
            intro nr above below
            have same := same_block spb (by omega : sec + mapOff ≤ sec + nr) (by omega)
            have slot : vhd.slot (sec + nr) = vhd.slot (sec + mapOff) := by
              unfold Vhd.slot
              rw [same.1]
            have lookup : vhd.lookup (sec + nr) = vhd.lookup (sec + mapOff) := by
              unfold Vhd.lookup
              rw [slot]
            unfold Vhd.copies Vhd.finds
            rw [slot, lookup, same.2, show sec + nr - (sec + mapOff) = nr - mapOff by omega]
            exact ⟨fun h => h.2.2.2, fun h => ⟨not_passedOver_extent unused, loaded, unused, h⟩⟩
          have source : ∀ p, mapOff ≤ p / 512 → p / 512 < mapOff + cnt →
              vhd.file.byte (vhd.source (sec + mapOff) + (p - mapOff * 512)) =
                vhd.file.byte (vhd.source (sec + p / 512) + p % 512) := by
            intro p above below
            have same := same_block spb (by omega : sec + mapOff ≤ sec + p / 512) (by omega)
            have slot : vhd.lookup (sec + p / 512) = vhd.lookup (sec + mapOff) := by
              unfold Vhd.lookup Vhd.slot
              rw [same.1]
            have place : vhd.source (sec + mapOff) + (p - mapOff * 512) =
                vhd.source (sec + p / 512) + p % 512 := by
              unfold Vhd.source
              rw [slot, same.2]
              omega
            rw [place]
          simp only [readLink, turn, Outcome.ok_bind]
          by_cases last : secs ≤ cnt
          · rw [Nat.min_eq_left last, if_pos (by omega)]
            have fine := fine_extent_last spb readable last
            refine ⟨fun _ => ⟨_, rfl, (copyData_filled fun p above below =>
              source p above (by omega)).congr fun nr => ?_⟩, fun bad => absurd fine bad⟩
            refine and_congr_right fun above => and_congr_right fun below => ?_
            exact (copied nr above (by omega)).symm
          · rw [Nat.min_eq_right (by omega), if_neg (by omega),
              fine_extent spb unused readable (by omega), Nat.add_assoc]
            have rest := ih (mapOff + cnt)
              (copyData (fun i => vhd.marks (vhd.lookup (sec + mapOff))
                ((sec + mapOff) % vhd.spb + i)) mapOff
                (fun p => vhd.file.byte (vhd.source (sec + mapOff) + p)) cnt dest)
              (by omega : secs - cnt < fuel)
            refine ⟨fun fine => ?_, rest.2⟩
            obtain ⟨after, action, filled⟩ := rest.1 fine
            refine ⟨after, action, ((copyData_filled source).trans filled).congr fun nr => ?_⟩
            have aligned : (sec + (mapOff + cnt)) % vhd.spb = 0 := by
              rw [← Nat.add_assoc]
              exact next_aligned _ spb
            have later : vhd.copies (sec + (mapOff + cnt)) (sec + nr) ↔
                vhd.copies (sec + mapOff) (sec + nr) := by
              unfold Vhd.copies
              simp only [not_passedOver_aligned aligned, not_passedOver_extent unused]
            constructor
            · rintro (⟨above, below, marked⟩ | ⟨above, below, taken⟩)
              · exact ⟨above, by omega, (copied nr above below).mpr marked⟩
              · exact ⟨by omega, by omega, later.mp taken⟩
            · rintro ⟨above, below, taken⟩
              by_cases early : nr < mapOff + cnt
              · exact .inl ⟨above, early, (copied nr above early).mp taken⟩
              · exact .inr ⟨by omega, by omega, later.mpr taken⟩
      · have failed := readLinkTurn_unreadable secs mapOff dest readable
        refine ⟨fun fine => absurd fine.1 readable, fun _ => ?_⟩
        simp only [readLink]
        cases turn : readLinkTurn vhd vhd.table (sec + mapOff) secs mapOff dest with
        | ok result => simp [turn, Outcome.isOk] at failed
        | error code => rfl
        | undefined => rfl

end Blktap.Libvhd
