import Blktap.Libvhd.ShowsBytes
import Blktap.Libvhd.WriteRuns

/-! # Byte reads of one sector -/

namespace Blktap.Libvhd
open Lib

def sectorRange (nr : Nat) : ByteRange := ⟨nr * 512, 512⟩

def Below.SectorOk (nr : Nat) : Below → Prop
  | nothing => True
  | raw _ => False
  | layer parent => parent.BytesFine (sectorRange nr) (fun _ => True) ∧
      ∀ o < 512, parent.answers nr o

theorem Chain.BytesFine.mono {range : ByteRange} {chain : Chain} {missing missing' : Nat → Prop}
    (fine : chain.BytesFine range missing) (fewer : ∀ nr, missing' nr → missing nr) :
    chain.BytesFine range missing' := by
  have complete : ∀ vhd : Vhd, Complete range.count (vhd.leaves range missing) →
      Complete range.count (vhd.leaves range missing') :=
    fun vhd complete nr below left => complete nr below ⟨fewer nr left.1, left.2⟩
  induction chain generalizing missing missing' with
  | base vhd => exact fine
  | differRaw vhd raw => exact ⟨fine.1, complete vhd fine.2⟩
  | differ vhd parent ih =>
      refine ⟨fine.1, fine.2.imp (fun all => ⟨all.1, complete vhd all.2⟩) fun rest => ?_⟩
      have fewer' : ∀ nr, vhd.leaves range missing' nr → vhd.leaves range missing nr :=
        fun nr left => ⟨fewer nr left.1, left.2⟩
      exact ih rest fewer' fun vhd complete nr below left =>
        complete nr below ⟨fewer' nr left.1, left.2⟩

section Sector
variable {vhd : Vhd} {below : Below} {nr : Nat}

theorem sectorRange_off (nr : Nat) : (sectorRange nr).off / 512 = nr :=
  Nat.mul_div_cancel nr (by decide)

theorem sectorRange_count (nr : Nat) : (sectorRange nr).count = 1 := by
  unfold ByteRange.count sectorRange
  dsimp only
  omega

theorem sectorRange_numbers (small : nr + 1 < 2 ^ 32) :
    (sectorRange nr).firstSec = nr ∧ (sectorRange nr).lastSec = nr + 1 ∧
      (sectorRange nr).secs = 1 := by
  have first : (sectorRange nr).firstSec = nr := by
    unfold ByteRange.firstSec
    rw [sectorRange_off]
    omega
  have last : (sectorRange nr).lastSec = nr + 1 := by
    unfold ByteRange.lastSec secsRoundUpNoZero secsRoundUp sectorRange
    dsimp only
    split <;> omega
  refine ⟨first, last, ?_⟩
  unfold ByteRange.secs
  rw [first, last]
  omega

theorem sectorRange_mapFits (small : nr + 1 < 2 ^ 32) : (sectorRange nr).mapFits = true := by
  unfold ByteRange.mapFits
  rw [sectorRange_count, (sectorRange_numbers small).2.2]
  decide

theorem finds_iff_holds (dynamic : vhd.typeDynamic = true) (valid : vhd.Valid)
    (loaded : nr / vhd.spb < vhd.batEntries) (inside : nr * 512 < vhd.currSize) :
    (vhd.slot nr < vhd.batEntries ∧ vhd.lookup nr = vhd.entry (nr / vhd.spb)) ∧
      (vhd.finds nr ↔ vhd.holds nr) := by
  have slot : vhd.slot nr = nr / vhd.spb :=
    Nat.mod_eq_of_lt (loaded.trans (Nat.mod_lt _ (by decide)))
  have entry : vhd.lookup nr = vhd.entry (nr / vhd.spb) := by
    unfold Vhd.lookup
    rw [slot, table_entry loaded]
  have max : nr / vhd.spb < vhd.maxBatSize := Nat.lt_of_lt_of_le loaded valid.covers
  refine ⟨⟨slot ▸ loaded, entry⟩, ?_⟩
  unfold Vhd.finds Vhd.holds Vhd.allocated
  rw [slot, entry]
  exact ⟨fun ⟨_, used, marked⟩ => ⟨inside, fun _ => ⟨⟨max, used⟩, marked⟩⟩,
    fun ⟨_, held⟩ => ⟨loaded, (held dynamic).1.2, (held dynamic).2⟩⟩

theorem reads_sector (chain : (below.under vhd).Valid) (dynamic : vhd.typeDynamic = true)
    (loaded : nr / vhd.spb < vhd.batEntries) (small : nr + 1 < 2 ^ 32)
    (inside : (nr + 1) * 512 ≤ vhd.currSize)
    (place : vhd.allocated (nr / vhd.spb) → vhd.entry (nr / vhd.spb) + vhd.bmSecs < 2 ^ 32)
    (given : vhd.holds nr ∨ below.SectorOk nr) (buf : Nat → UInt8) :
    ∃ bytes, vhdIoReadBytes (below.under vhd) (sectorRange nr) buf = .ok bytes ∧
      ∀ o < 512, bytes o = (below.under vhd).byte nr o := by
  have valid : vhd.Valid := by
    have top := chain.top (by rw [Below.under_top]; exact dynamic)
    rwa [Below.under_top] at top
  obtain ⟨⟨slot, lookup⟩, finds⟩ := finds_iff_holds dynamic valid loaded (by omega)
  have off := sectorRange_off nr
  have count := sectorRange_count nr
  obtain ⟨first, last, secs⟩ := sectorRange_numbers small
  have fine : vhd.bytesFine (sectorRange nr) 0 := by
    intro i _ bound
    have zero : i = 0 := by omega
    subst zero
    rw [off]
    exact ⟨Nat.lt_of_lt_of_le slot table_len, .inr slot⟩
  have found : vhd.holds nr → Complete (sectorRange nr).count
      (vhd.leaves (sectorRange nr) fun _ => True) := by
    rintro held i bound ⟨_, unfound⟩
    have zero : i = 0 := by omega
    subst zero
    rw [off] at unfound
    exact unfound (finds.mpr held)
  have own : vhd.answers nr := by
    intro held
    refine ⟨finds.mpr held, ?_⟩
    rw [lookup]
    exact place (held.2 dynamic).1
  have all : (below.under vhd).BytesFine (sectorRange nr) fun _ => True := by
    cases below with
    | nothing => exact ⟨dynamic, fine⟩
    | raw file => exact ⟨fine, found (given.resolve_right id)⟩
    | layer parent =>
        refine ⟨fine, given.imp (fun held => ⟨secs.trans count.symm, found held⟩) fun ok => ?_⟩
        exact ok.1.mono fun _ _ => trivial
  have answers : ∀ o < 512, (below.under vhd).answers nr o := by
    intro o bound
    cases below with
    | nothing => exact ⟨own, fun unheld found => absurd (finds.mp found) unheld⟩
    | raw file => exact ⟨own, fun unheld => absurd (given.resolve_right id) unheld⟩
    | layer parent =>
        refine ⟨own, fun unheld => ⟨fun found => absurd (finds.mp found) unheld, fun _ => ?_⟩⟩
        exact (given.resolve_left unheld).2 o bound
  have shows : RunShows (sectorRange nr) (below.under vhd) := by
    rw [runShows_iff chain (by decide : 0 < 512) (by rw [count]; decide)]
    refine ⟨all, fun _ _ _ => ?_, fun i bound _ => .inl ⟨?_, .inl count⟩, ?_, ?_⟩
    · rw [first, last]
      exact Nat.lt_succ_self nr
    · omega
    · rintro p _ ⟨_, more, _⟩
      omega
    · intro p bound _
      have bound : p < 512 := bound
      have sector : ((sectorRange nr).off + p) / 512 = nr := by
        unfold sectorRange
        dsimp only
        omega
      have place : ((sectorRange nr).off + p) % 512 = p := by
        unfold sectorRange
        dsimp only
        omega
      rw [sector, place]
      exact answers p bound
  obtain ⟨bytes, action, shown⟩ := shows _ (.refl _) buf
  refine ⟨bytes, ?_, fun o bound => ?_⟩
  · rw [vhdIoReadBytes_dynamic chain (by rw [Below.under_top]; exact dynamic) ?_ buf,
      if_pos (sectorRange_mapFits small), action]
    rw [Below.under_top]
    unfold sectorRange
    dsimp only
    omega
  · have byte := shown o bound
    have sector : ((sectorRange nr).off + o) / 512 = nr := by
      unfold sectorRange
      dsimp only
      omega
    have place : ((sectorRange nr).off + o) % 512 = o := by
      unfold sectorRange
      dsimp only
      omega
    rw [sector, place] at byte
    exact byte

end Sector

end Blktap.Libvhd
