import Blktap.Libvhd.ChainBytes
import Blktap.Libvhd.ReadChain

/-!
# The layers that a byte read goes through
-/

namespace Blktap.Libvhd
open Lib

def Chain.finds : Chain → Nat → Prop
  | base vhd, sector => vhd.finds sector
  | differRaw vhd _, sector => vhd.finds sector
  | differ vhd parent, sector => vhd.finds sector ∨ parent.finds sector

def Chain.gives : Chain → Nat → Nat → UInt8
  | base vhd, sector, o => if vhd.finds sector then vhd.sectorByte sector o else 0
  | differRaw vhd _, sector, o => if vhd.finds sector then vhd.sectorByte sector o else 0
  | differ vhd parent, sector, o =>
      if vhd.finds sector then vhd.sectorByte sector o else parent.gives sector o

def Chain.found (chain : Chain) (off p : Nat) : UInt8 :=
  chain.gives ((off + p) / 512) ((off + p) % 512)

def Vhd.leaves (vhd : Vhd) (range : ByteRange) (missing : Nat → Prop) (nr : Nat) : Prop :=
  missing nr ∧ ¬ vhd.finds (range.off / 512 + nr)

def Chain.BytesFine (range : ByteRange) : Chain → (Nat → Prop) → Prop
  | .base vhd, _ => vhd.typeDynamic = true ∧ vhd.bytesFine range 0
  | .differRaw vhd _, missing => vhd.bytesFine range 0 ∧
      Complete range.count (vhd.leaves range missing)
  | .differ vhd parent, missing => vhd.bytesFine range 0 ∧
      ((range.secs = range.count ∧ Complete range.count (vhd.leaves range missing)) ∨
        parent.BytesFine range (vhd.leaves range missing))

section Layer
variable {vhd : Vhd} {range : ByteRange}

theorem readLayerBytes_spec (valid : vhd.Valid) (dynamic : vhd.typeDynamic = true)
    (positive : 0 < range.size) (dest : Dest) :
    (vhd.bytesFine range 0 → ∃ after, readLayerBytes vhd range dest = .ok after ∧
      Filled range.nr (fun nr => nr < range.count ∧ vhd.finds (range.off / 512 + nr))
        (vhd.found range.off) dest after) ∧
    (¬ vhd.bytesFine range 0 → (readLayerBytes vhd range dest).isOk = false) := by
  have link := readLinkBytes_spec valid dynamic dest (Nat.lt_succ_self range.size)
    positive (Nat.add_zero range.off).symm (Nat.zero_add _) (Nat.zero_add _) (.inl rfl)
  unfold readLayerBytes
  rw [vhdReadBat_table valid dynamic, Outcome.ok_bind]
  refine ⟨fun fine => ?_, link.2⟩
  obtain ⟨after, action, filled⟩ := link.1 fine
  exact ⟨after, action, filled.congr fun nr => by simp⟩

theorem readLayerBytes_ok {dest after : Dest} (valid : vhd.Valid)
    (dynamic : vhd.typeDynamic = true) (positive : 0 < range.size)
    (action : readLayerBytes vhd range dest = .ok after) :
    vhd.bytesFine range 0 ∧
      Filled range.nr (fun nr => nr < range.count ∧ vhd.finds (range.off / 512 + nr))
        (vhd.found range.off) dest after := by
  have spec := readLayerBytes_spec valid dynamic positive dest
  by_cases fine : vhd.bytesFine range 0
  · obtain ⟨same, done, filled⟩ := spec.1 fine
    rw [action] at done
    cases done
    exact ⟨fine, filled⟩
  · have failed := spec.2 fine
    rw [action] at failed
    cases failed

end Layer

def Marked (range : ByteRange) (missing : Nat → Prop) (dest : Dest) : Prop :=
  ∀ nr, dest.map nr = true ↔ nr < range.count ∧ ¬ missing nr

section Marked
variable {range : ByteRange} {missing : Nat → Prop} {dest after : Dest}

theorem Marked.next {vhd : Vhd} {value : Nat → UInt8} (marked : Marked range missing dest)
    (filled : Filled range.nr (fun nr => nr < range.count ∧ vhd.finds (range.off / 512 + nr)) value
      dest after) : Marked range (vhd.leaves range missing) after := by
  intro nr
  rw [filled.map, marked, Vhd.leaves]
  tauto

theorem Marked.done_iff (marked : Marked range missing dest) (small : range.count < 2 ^ 31 + 1)
    (positive : 0 < range.size) :
    dest.done range.secs = true ↔ range.secs = range.count ∧ Complete range.count missing := by
  have cases : range.secs = range.count ∨ range.secs = range.count + 1 := by
    rcases ByteRange.secs_cases positive small with ⟨_, _, same⟩ | ⟨_, cases⟩
    · exact .inl same
    · exact cases
  rw [Libvhd.done_iff]
  constructor
  · intro all
    have same : range.secs = range.count := by
      refine cases.resolve_right fun more => ?_
      have beyond := (marked _).mp (all range.count (by omega))
      omega
    exact ⟨same, fun nr below => ((marked nr).mp (all nr (by omega))).2⟩
  · rintro ⟨same, complete⟩ nr below
    exact (marked nr).mpr ⟨by omega, complete nr (by omega)⟩

end Marked

theorem Filled.change {nr : Nat → Nat} {takes : Nat → Prop} {value value' : Nat → UInt8}
    {dest after : Dest} (filled : Filled nr takes value dest after)
    (same : ∀ p, takes (nr p) → value p = value' p) : Filled nr takes value' dest after :=
  ⟨filled.map, fun p missing taken => (filled.new p missing taken).trans (same p taken),
    filled.old⟩

theorem dynamicReadBytes_spec {range : ByteRange} {chain : Chain} {missing : Nat → Prop}
    {dest : Dest} (valid : chain.Valid) (positive : 0 < range.size)
    (small : range.count < 2 ^ 31 + 1) (marked : Marked range missing dest)
    (fine : chain.BytesFine range missing) :
    ∃ after, dynamicReadBytes range chain dest = .ok after ∧
      Filled range.nr (fun nr => nr < range.count ∧ chain.finds (range.off / 512 + nr))
        (chain.found range.off) dest after := by
  have gives : ∀ vhd : Vhd, ∀ p, range.nr p < range.count ∧
      vhd.finds (range.off / 512 + range.nr p) → ∀ rest : UInt8,
      (if vhd.finds ((range.off + p) / 512) then
        vhd.sectorByte ((range.off + p) / 512) ((range.off + p) % 512) else rest) =
      vhd.found range.off p := by
    intro vhd p taken rest
    exact if_pos ((ByteRange.sector_of_nr taken.1).symm ▸ taken.2)
  induction chain generalizing missing dest with
  | base vhd =>
      obtain ⟨dynamic, fine⟩ := fine
      obtain ⟨after, layer, filled⟩ :=
        (readLayerBytes_spec (valid.base_valid dynamic) dynamic positive dest).1 fine
      exact ⟨after, layer, filled.change fun p taken => (gives vhd p taken 0).symm⟩
  | differRaw vhd raw =>
      have dynamic := Vhd.dynamic_of_diff valid.1
      obtain ⟨mid, layer, filled⟩ := (readLayerBytes_spec valid.2 dynamic positive dest).1 fine.1
      have next := marked.next filled
      rw [dynamicReadBytes, layer, Outcome.ok_bind]
      refine ⟨mid, ?_, filled.change fun p taken => (gives vhd p taken 0).symm⟩
      by_cases same : range.secs = range.count
      · rw [if_pos ((next.done_iff small positive).mpr ⟨same, fine.2⟩)]
      · -- the count of sectors is one too high, and the range of sector numbers is empty
        have wrapped : range.lastSec ≤ range.firstSec := by
          rcases ByteRange.secs_cases positive small with ⟨_, _, equal⟩ | ⟨wrapped, _⟩
          · exact absurd equal same
          · exact wrapped
        rw [if_neg fun done => same ((next.done_iff small positive).mp done).1,
          Nat.sub_eq_zero_of_le wrapped]
        simp only [rawReadLinkBytes, Outcome.ok_bind]
  | differ vhd parent ih =>
      have dynamic := Vhd.dynamic_of_diff valid.1
      obtain ⟨mid, layer, filled⟩ := (readLayerBytes_spec valid.2.1 dynamic positive dest).1 fine.1
      have next := marked.next filled
      have filled : Filled range.nr (fun nr => nr < range.count ∧
          vhd.finds (range.off / 512 + nr)) ((Chain.differ vhd parent).found range.off) dest mid :=
        filled.change fun p taken => (gives vhd p taken _).symm
      rw [dynamicReadBytes, layer, Outcome.ok_bind]
      by_cases done : mid.done range.secs = true
      · rw [if_pos done]
        have complete := ((next.done_iff small positive).mp done).2
        have all : ∀ nr < range.count, dest.map nr = false →
            vhd.finds (range.off / 512 + nr) := by
          intro nr below lost
          by_contra unfound
          refine complete nr below ⟨?_, unfound⟩
          by_contra found
          exact absurd (lost.symm.trans ((marked nr).mpr ⟨below, found⟩)) (by decide)
        refine ⟨mid, rfl, ⟨fun nr => ?_, fun p lost taken => ?_, fun p kept => ?_⟩⟩
        · rw [filled.map]
          refine ⟨fun h => h.imp_right fun h => ⟨h.1, .inl h.2⟩, fun h => ?_⟩
          by_cases found : dest.map nr = true
          · exact .inl found
          · have below := (h.resolve_left found).1
            exact .inr ⟨below, all nr below (Bool.eq_false_iff.mpr found)⟩
        · exact filled.new p lost ⟨taken.1, all _ taken.1 lost⟩
        · exact filled.old p (kept.imp_right fun untaken h => untaken ⟨h.1, .inl h.2⟩)
      · rw [if_neg done]
        have rest := fine.2.resolve_left fun h => done ((next.done_iff small positive).mpr h)
        obtain ⟨after, action, further⟩ := ih valid.2.2 next rest
        refine ⟨after, action, ⟨fun nr => ?_, fun p lost taken => ?_, fun p kept => ?_⟩⟩
        · rw [further.map, filled.map]
          simp only [Chain.finds]
          tauto
        · by_cases early : vhd.finds (range.off / 512 + range.nr p)
          · rw [further.old p (.inl ((filled.map _).mpr (.inr ⟨taken.1, early⟩))),
              filled.new p lost ⟨taken.1, early⟩]
          · have lostMid : mid.map (range.nr p) = false := by
              rw [← Bool.not_eq_true, filled.map]
              simp [lost, early]
            rw [further.new p lostMid ⟨taken.1, taken.2.resolve_left early⟩]
            have sector := ByteRange.sector_of_nr taken.1
            rw [Chain.found, Chain.found, Chain.gives, if_neg (by rw [sector]; exact early)]
        · rcases kept with found | untaken
          · rw [further.old p (.inl ((filled.map _).mpr (.inl found))), filled.old p (.inl found)]
          · rw [further.old p (.inr fun h => untaken ⟨h.1, .inr h.2⟩),
              filled.old p (.inr fun h => untaken ⟨h.1, .inl h.2⟩)]

section Raw
variable {range : ByteRange}

theorem missingRun_pos {map : Nat → Bool} {i : Nat} (below : i < range.lastSec)
    (missing : map (i - range.firstSec) = false) : 0 < missingRun range map i := by
  obtain ⟨k, more⟩ : ∃ k, range.lastSec - i = k + 1 := ⟨range.lastSec - i - 1, by omega⟩
  unfold missingRun
  rw [more, List.range_succ_eq_map, List.takeWhile_cons_of_pos (by simp [missing])]
  exact Nat.succ_pos _

theorem coff_lt (positive : 0 < range.size) (small : range.count < 2 ^ 31 + 1)
    (order : range.firstSec < range.lastSec) {k : Nat} (above : range.firstSec ≤ k)
    (below : k < range.lastSec) :
    range.coff k < range.off + range.size ∧ k * 512 ≤ range.coff k ∧
      (range.coff k = k * 512 ∨ k = range.firstSec) := by
  have last : range.lastSec = range.firstSec + range.count := by
    rcases ByteRange.secs_cases positive small with ⟨_, last, _⟩ | ⟨wrapped, _⟩ <;> omega
  unfold ByteRange.coff
  unfold ByteRange.firstSec ByteRange.count at *
  split <;> omega

theorem rawReadLinkBytes_covers {raw : File} {map : Nat → Bool} {fuel i : Nat}
    {buf after : Nat → UInt8} (positive : 0 < range.size) (small : range.count < 2 ^ 31 + 1)
    (order : range.firstSec < range.lastSec) (above : range.firstSec ≤ i)
    (enough : range.lastSec ≤ i + fuel)
    (action : rawReadLinkBytes raw range map fuel i buf = .ok after) {k : Nat} (later : i ≤ k)
    (below : k < range.lastSec) (missing : map (k - range.firstSec) = false) :
    range.coff k < raw.size := by
  induction fuel generalizing i buf with
  | zero => omega
  | succ fuel ih =>
      rw [rawReadLinkBytes, if_neg (by omega)] at action
      split at action
      · rename_i found
        by_cases here : i = k
        · subst here
          exact absurd (found.symm.trans missing) (by decide)
        · exact ih (by omega) (by omega) action (by omega)
      · rename_i lost
        dsimp only at action
        have run := missingRun_pos (by omega) (Bool.eq_false_iff.mpr lost)
        have atStart := coff_lt positive small order above (by omega)
        have atSector := coff_lt positive small order (by omega) below
        have same : i = k → range.coff i = range.coff k := fun h => by rw [h]
        generalize range.coff i = start at *
        generalize range.coff k = place at *
        generalize missingRun range map i = secs at *
        generalize sizeEq : (if secs = range.lastSec - 1 then range.off + range.size - start
          else secs * 512) = csize at *
        split at action
        · cases action
        · split at action
          · cases action
          · rename_i whole
            by_cases inRun : k < i + secs
            · split at sizeEq <;> omega
            · exact ih (by omega) (by omega) action (by omega)

end Raw

def Chain.rawCovers : Chain → Nat → Prop
  | base _, _ => False
  | differRaw _ raw, place => place < raw.size
  | differ _ parent, place => parent.rawCovers place

theorem dynamicReadBytes_raw {range : ByteRange} {chain : Chain} {missing : Nat → Prop}
    {dest after : Dest} (valid : chain.Valid) (positive : 0 < range.size)
    (small : range.count < 2 ^ 31 + 1) (marked : Marked range missing dest)
    (action : dynamicReadBytes range chain dest = .ok after)
    (bad : ¬ chain.BytesFine range missing) :
    ∃ nr < range.count, missing nr ∧ ¬ chain.finds (range.off / 512 + nr) ∧
      after.map nr = false ∧
      (range.lastSec ≤ range.firstSec → ∀ p, range.nr p = nr → after.buf p = dest.buf p) ∧
      (range.firstSec < range.lastSec → chain.rawCovers (range.coff (range.firstSec + nr))) := by
  induction chain generalizing missing dest with
  | base vhd =>
      by_cases dynamic : vhd.typeDynamic = true
      · rw [dynamicReadBytes] at action
        exact absurd ⟨dynamic, (readLayerBytes_ok (valid.base_valid dynamic) dynamic positive
          action).1⟩ bad
      · rw [dynamicReadBytes, readLayerBytes, vhdReadBat_fixed (Bool.eq_false_iff.mpr dynamic)]
          at action
        cases action
  | differRaw vhd raw =>
      have dynamic := Vhd.dynamic_of_diff valid.1
      rw [dynamicReadBytes] at action
      obtain ⟨mid, layer, rest⟩ := Outcome.bind_eq_ok.mp action
      obtain ⟨fine, filled⟩ := readLayerBytes_ok valid.2 dynamic positive layer
      have next := marked.next filled
      have incomplete : ¬ Complete range.count (vhd.leaves range missing) :=
        fun complete => bad ⟨fine, complete⟩
      rw [if_neg fun done => incomplete ((next.done_iff small positive).mp done).2] at rest
      simp only [Complete, not_forall, not_not] at incomplete
      obtain ⟨nr, below, lost, unfound⟩ := incomplete
      obtain ⟨buf, read, final⟩ := Outcome.bind_eq_ok.mp rest
      cases final
      have lostMid : mid.map nr = false := by
        rw [← Bool.not_eq_true, next]
        exact fun h => h.2 ⟨lost, unfound⟩
      refine ⟨nr, below, lost, unfound, lostMid, fun wrapped p here => ?_, fun order => ?_⟩
      · rw [Nat.sub_eq_zero_of_le wrapped, rawReadLinkBytes] at read
        cases read
        exact filled.old p (.inr fun taken => unfound (here ▸ taken.2))
      · have last : range.lastSec = range.firstSec + range.count := by
          rcases ByteRange.secs_cases positive small with ⟨_, last, _⟩ | ⟨wrapped, _⟩ <;> omega
        refine rawReadLinkBytes_covers positive small order le_rfl (by omega) read
          (Nat.le_add_right _ nr) (by omega) ?_
        rw [Nat.add_sub_cancel_left]
        exact lostMid
  | differ vhd parent ih =>
      have dynamic := Vhd.dynamic_of_diff valid.1
      rw [dynamicReadBytes] at action
      obtain ⟨mid, layer, rest⟩ := Outcome.bind_eq_ok.mp action
      obtain ⟨fine, filled⟩ := readLayerBytes_ok valid.2.1 dynamic positive layer
      have next := marked.next filled
      have undone : ¬ mid.done range.secs = true :=
        fun done => bad ⟨fine, .inl ((next.done_iff small positive).mp done)⟩
      rw [if_neg undone] at rest
      obtain ⟨nr, below, lost, unfound, lostAfter, kept, covers⟩ := ih valid.2.2 next rest
        fun parentFine => bad ⟨fine, .inr parentFine⟩
      refine ⟨nr, below, lost.1, fun found => found.elim lost.2 unfound, lostAfter, ?_, covers⟩
      intro wrapped p here
      rw [kept wrapped p here, filled.old p (.inr fun taken => lost.2 (here ▸ taken.2))]

end Blktap.Libvhd
