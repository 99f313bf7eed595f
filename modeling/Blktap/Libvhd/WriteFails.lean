import Blktap.Libvhd.CutReads
import Blktap.Libvhd.SectorBytes
import Blktap.Libvhd.TrailFooter

/-! # What a write leaves when one of its steps fails -/

namespace Blktap.Libvhd
open Lib Action

def Vhd.Numbered (vhd : Vhd) : Prop := vhd.currSize ≤ 2 ^ 32 * vhd.blockSize

section Reopened
variable {s t : Handle} {below : Below} {sec secs first count : Nat} {buf : Nat → UInt8}

theorem Vhd.Numbered.slot {vhd : Vhd} (numbered : vhd.Numbered)
    (size : ∃ k, 9 ≤ k ∧ k < 32 ∧ vhd.blockSize = 2 ^ k) {sector : Nat}
    (inside : sector * 512 < vhd.currSize) : vhd.slot sector = sector / vhd.spb := by
  apply Nat.mod_eq_of_lt
  rw [Nat.div_lt_iff_lt_mul (Vhd.spb_pos size)]
  have whole := Vhd.spb_mul size
  unfold Vhd.Numbered at numbered
  rw [← whole, ← Nat.mul_assoc] at numbered
  exact Nat.lt_of_mul_lt_mul_right (inside.trans_le numbered)

theorem Vhd.LayerOk.congr {vhd : Vhd} {missing missing' : Nat → Prop}
    (ok : vhd.LayerOk first count missing) (same : ∀ nr < count, missing nr ↔ missing' nr) :
    vhd.LayerOk first count missing' :=
  ⟨ok.1, fun nr small lost => ok.2 nr small ((same nr small).mpr lost)⟩

theorem Chain.ReadOk.congr {chain : Chain} {missing missing' : Nat → Prop}
    (ok : chain.ReadOk first count missing) (same : ∀ nr < count, missing nr ↔ missing' nr) :
    chain.ReadOk first count missing' := by
  have rest : ∀ vhd : Vhd, ∀ nr < count,
      vhd.remaining first missing nr ↔ vhd.remaining first missing' nr :=
    fun vhd nr small => and_congr_left fun _ => same nr small
  have complete : ∀ vhd : Vhd, Complete count (vhd.remaining first missing) →
      Complete count (vhd.remaining first missing') :=
    fun vhd all nr small lost => all nr small ((rest vhd nr small).mpr lost)
  induction chain generalizing missing missing' with
  | base vhd => exact ⟨ok.1, ok.2.congr same⟩
  | differRaw vhd raw => exact ⟨ok.1.congr same, ok.2.imp_left (complete vhd)⟩
  | differ vhd parent ih =>
      refine ⟨ok.1.congr same, ok.2.imp (complete vhd) fun below => ih below (rest vhd) ?_ ?_⟩
      · exact fun vhd' nr small => and_congr_left fun _ => rest vhd nr small
      · exact fun vhd' all nr small lost =>
          all nr small (lost.imp_left (rest vhd nr small).mpr)

end Reopened

section Fails
variable {s t : Handle} {below : Below} {blocks : List Nat} {sec secs : Nat} {buf : Nat → UInt8}

theorem Handle.outside_copy (laid : s.toContext.Laid) {p : Nat} (front : p < 512) : s.Outside p := by
  have table := Handle.table_le laid
  have first := laid.front
  refine ⟨?_, fun behind => absurd front (Nat.not_lt.mpr behind), fun block allocated inside => ?_⟩
  · exact (front.trans_le first).trans_le ((Nat.le_add_right _ _).trans table)
  · exact laid.extent block allocated p inside (.inl front)

theorem Handle.Trails.finds_footer (trails : s.Trails blocks t) (footed : s.Footed)
    (laid : s.toContext.Laid) :
    ∃ footer, readFooter t.file = .ok footer ∧ ∀ o < 512, footer o = sealFooter s.footer o := by
  apply readFooter_own (sealFooter_valid footed.cookie)
  · exact (Nat.le_add_left _ _).trans trails.size
  · intro o small
    rw [trails.outside o (Handle.outside_copy laid small), footed.copy o small]
  · exact trails.tail

end Fails

section FootedOpen
variable {faults : List (Option Fault)}

end FootedOpen

end Blktap.Libvhd
