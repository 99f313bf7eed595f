import Blktap.Libvhd.Contents
import Blktap.Libvhd.Link

/-! # When sector reads show the virtual disk -/

namespace Blktap.Libvhd
open Lib

def Vhd.LayerOk (vhd : Vhd) (sec secs : Nat) (missing : Nat → Prop) : Prop :=
  vhd.fine sec secs ∧
    ∀ nr < secs, missing nr → (vhd.copies sec (sec + nr) ↔ vhd.holds (sec + nr))

def Vhd.remaining (vhd : Vhd) (sec : Nat) (missing : Nat → Prop) (nr : Nat) : Prop :=
  missing nr ∧ ¬ vhd.holds (sec + nr)

def Complete (secs : Nat) (missing : Nat → Prop) : Prop := ∀ nr < secs, ¬ missing nr

def File.rawOk (raw : File) (sec secs : Nat) : Prop :=
  sec * 512 + secs * 512 ≤ raw.size ∧ secs * 512 ≤ maxTransfer

def Chain.ReadOk (sec secs : Nat) : Chain → (Nat → Prop) → Prop
  | .base vhd, missing => vhd.typeDynamic = true ∧ vhd.LayerOk sec secs missing
  | .differRaw vhd raw, missing => vhd.LayerOk sec secs missing ∧
      (Complete secs (vhd.remaining sec missing) ∨ raw.rawOk sec secs)
  | .differ vhd parent, missing => vhd.LayerOk sec secs missing ∧
      (Complete secs (vhd.remaining sec missing) ∨
        parent.ReadOk sec secs (vhd.remaining sec missing))

def Chain.SectorReadOk (chain : Chain) (sec secs : Nat) : Prop :=
  chain.top.typeDynamic = true → mapFits secs = true ∧ chain.ReadOk sec secs fun _ => True

def ShowsSectors (chain : Chain) (sec secs : Nat) : Prop :=
  ∃ buf, vhdIoRead chain sec secs = .ok buf ∧
    ∀ nr < secs, ∀ o < 512, buf (nr * 512 + o) = chain.byte (sec + nr) o

section Layout
variable {vhd vhd' : Vhd}

theorem Vhd.SameLayout.layerOk_iff (same : vhd.SameLayout vhd') (valid : vhd.Valid)
    {sec secs : Nat} {missing : Nat → Prop} :
    vhd'.LayerOk sec secs missing ↔ vhd.LayerOk sec secs missing := by
  simp only [Vhd.LayerOk, same.fine_iff valid, same.copies_iff valid,
    same.holds_iff fun _ => valid]

theorem Vhd.SameLayout.remaining (same : vhd.SameLayout vhd') (valid : vhd.Valid)
    (sec : Nat) (missing : Nat → Prop) :
    vhd'.remaining sec missing = vhd.remaining sec missing := by
  funext nr
  simp only [Vhd.remaining, same.holds_iff fun _ => valid]

end Layout

section Layer
variable {vhd : Vhd} {sec secs : Nat}

theorem readLayer_spec (dest : Dest) (valid : vhd.Valid) (dynamic : vhd.typeDynamic = true) :
    (vhd.fine sec secs → ∃ after, readLayer vhd sec secs dest = .ok after ∧
      Filled (· / 512) (fun nr => nr < secs ∧ vhd.copies sec (sec + nr))
        (fun p => vhd.file.byte (vhd.source (sec + p / 512) + p % 512)) dest after) ∧
    (¬ vhd.fine sec secs → (readLayer vhd sec secs dest).isOk = false) := by
  have link := readLink_spec valid dynamic sec 0 dest (Nat.lt_succ_self secs)
  rw [Nat.add_zero] at link
  unfold readLayer
  rw [vhdReadBat_table valid dynamic, Outcome.ok_bind]
  refine ⟨fun fine => ?_, link.2⟩
  obtain ⟨after, action, filled⟩ := link.1 fine
  exact ⟨after, action, filled.congr fun nr => by rw [Nat.zero_add]; simp⟩

theorem readLayer_ok {dest after : Dest} (valid : vhd.Valid) (dynamic : vhd.typeDynamic = true)
    (action : readLayer vhd sec secs dest = .ok after) :
    vhd.fine sec secs ∧ Filled (· / 512) (fun nr => nr < secs ∧ vhd.copies sec (sec + nr))
      (fun p => vhd.file.byte (vhd.source (sec + p / 512) + p % 512)) dest after := by
  have spec := @readLayer_spec vhd sec secs dest valid dynamic
  by_cases fine : vhd.fine sec secs
  · obtain ⟨same, done, filled⟩ := spec.1 fine
    rw [action] at done
    cases done
    exact ⟨fine, filled⟩
  · have failed := spec.2 fine
    rw [action] at failed
    cases failed

end Layer

theorem done_iff {dest : Dest} {secs : Nat} :
    dest.done secs = true ↔ ∀ nr < secs, dest.map nr = true := by
  simp [Dest.done]

theorem rawReadLink_filled {raw : File} {sec secs : Nat} {dest after : Dest}
    (action : rawReadLink raw sec secs dest = .ok after) :
    raw.rawOk sec secs ∧ Filled (· / 512) (fun nr => nr < secs)
      (fun p => raw.byte (sec * 512 + p)) dest after := by
  unfold rawReadLink at action
  split at action
  · rename_i ok
    cases action
    refine ⟨ok, (copyData_filled fun p _ _ => ?_).congr fun nr => ?_⟩
    · rw [Nat.zero_mul, Nat.sub_zero]
    · rw [Nat.zero_add]
      simp
  · cases action

theorem dynamicRead_keeps {sec secs : Nat} {chain : Chain} {dest after : Dest}
    (valid : chain.Valid) (action : dynamicRead sec secs chain dest = .ok after) (p : Nat)
    (found : dest.map (p / 512) = true) : after.buf p = dest.buf p := by
  induction chain generalizing dest with
  | base vhd =>
      by_cases dynamic : vhd.typeDynamic = true
      · exact (readLayer_ok (valid.base_valid dynamic) dynamic action).2.old p (.inl found)
      · simp only [dynamicRead, readLayer, vhdReadBat_fixed (Bool.eq_false_iff.mpr dynamic)]
          at action
        cases action
  | differRaw vhd raw =>
      obtain ⟨mid, layer, rest⟩ := Outcome.bind_eq_ok.mp action
      have filled := (readLayer_ok valid.2 (Vhd.dynamic_of_diff valid.1) layer).2
      have foundMid := (filled.map _).mpr (.inl found)
      split at rest
      · cases rest
        exact filled.old p (.inl found)
      · rw [(rawReadLink_filled rest).2.old p (.inl foundMid), filled.old p (.inl found)]
  | differ vhd parent ih =>
      obtain ⟨mid, layer, rest⟩ := Outcome.bind_eq_ok.mp action
      have filled := (readLayer_ok valid.2.1 (Vhd.dynamic_of_diff valid.1) layer).2
      have foundMid := (filled.map _).mpr (.inl found)
      split at rest
      · cases rest
        exact filled.old p (.inl found)
      · rw [ih valid.2.2 rest foundMid, filled.old p (.inl found)]

theorem dynamicRead_zeroed {sec secs : Nat} {chain : Chain} {dest after : Dest}
    (valid : chain.Valid) (action : dynamicRead sec secs (chain.constant 0) dest = .ok after) (p : Nat)
    (zero : dest.buf p = 0) : after.buf p = 0 := by
  have layer : ∀ vhd : Vhd, vhd.Valid → vhd.typeDynamic = true → ∀ dest after,
      readLayer (vhd.withContents fun _ => 0) sec secs dest = .ok after →
      dest.buf p = 0 → after.buf p = 0 := by
    intro vhd valid dynamic dest after action zero
    have same := vhd.withContents_layout fun _ => 0
    have filled := (readLayer_ok (same.valid valid) dynamic action).2
    by_cases kept : dest.map (p / 512) = true ∨ ¬ (p / 512 < secs ∧
        (vhd.withContents fun _ => 0).copies sec (sec + p / 512))
    · rw [filled.old p kept, zero]
    · rw [not_or, not_not] at kept
      rw [filled.new p (Bool.eq_false_iff.mpr kept.1) kept.2]
      exact withContents_source valid dynamic kept.2.2.2 (Nat.mod_lt _ (by omega))
  induction chain generalizing dest with
  | base vhd =>
      by_cases dynamic : vhd.typeDynamic = true
      · exact layer vhd (valid.base_valid dynamic) dynamic dest after action zero
      · have fixed : (vhd.withContents fun _ => 0).typeDynamic = false :=
          Bool.eq_false_iff.mpr dynamic
        simp only [Chain.constant, dynamicRead, readLayer, vhdReadBat_fixed fixed] at action
        cases action
  | differRaw vhd raw =>
      obtain ⟨mid, first, rest⟩ := Outcome.bind_eq_ok.mp action
      have zeroMid := layer vhd valid.2 (Vhd.dynamic_of_diff valid.1) dest mid first zero
      split at rest
      · cases rest
        exact zeroMid
      · have filled := (rawReadLink_filled rest).2
        by_cases kept : mid.map (p / 512) = true ∨ ¬ p / 512 < secs
        · rw [filled.old p kept, zeroMid]
        · rw [not_or, not_not] at kept
          exact filled.new p (Bool.eq_false_iff.mpr kept.1) kept.2
  | differ vhd parent ih =>
      obtain ⟨mid, first, rest⟩ := Outcome.bind_eq_ok.mp action
      have zeroMid := layer vhd valid.2.1 (Vhd.dynamic_of_diff valid.1) dest mid first zero
      split at rest
      · cases rest
        exact zeroMid
      · exact ih valid.2.2 rest zeroMid

def Shows (chain : Chain) (sec secs : Nat) (missing : Nat → Prop) (outcome : Outcome Dest) : Prop :=
  ∃ after, outcome = .ok after ∧ ∀ nr < secs, missing nr → ∀ o < 512,
    after.buf (nr * 512 + o) = chain.byte (sec + nr) o

structure Ready (secs : Nat) (missing : Nat → Prop) (dest : Dest) : Prop where
  map : ∀ nr < secs, dest.map nr = false ↔ missing nr
  zero : ∀ nr < secs, missing nr → ∀ o < 512, dest.buf (nr * 512 + o) = 0

section Layer
variable {vhd : Vhd} {sec secs : Nat} {missing : Nat → Prop} {dest : Dest}

theorem readLayer_supplies (valid : vhd.Valid) (dynamic : vhd.typeDynamic = true)
    (ok : vhd.LayerOk sec secs missing) (ready : Ready secs missing dest) :
    ∃ after, readLayer vhd sec secs dest = .ok after ∧
      Ready secs (vhd.remaining sec missing) after ∧
      ∀ nr < secs, missing nr → vhd.holds (sec + nr) → after.map nr = true ∧
        ∀ o < 512, after.buf (nr * 512 + o) = vhd.file.byte (vhd.position (sec + nr) + o) := by
  obtain ⟨fine, exact⟩ := ok
  obtain ⟨after, action, filled⟩ := (readLayer_spec dest valid dynamic).1 fine
  have sector : ∀ nr o, o < 512 → (nr * 512 + o) / 512 = nr ∧ (nr * 512 + o) % 512 = o := by
    intro nr o small
    omega
  refine ⟨after, action, ⟨?_, ?_⟩, ?_⟩
  · intro nr below
    rw [← Bool.not_eq_true, filled.map, not_or, Bool.not_eq_true, ready.map nr below]
    refine and_congr_right fun lost => ?_
    rw [exact nr below lost]
    simp [below]
  · intro nr below lost o small
    obtain ⟨quotient, _⟩ := sector nr o small
    rw [filled.old, ready.zero nr below lost.1 o small]
    right
    rw [quotient, exact nr below lost.1]
    exact fun taken => lost.2 taken.2
  · intro nr below lost held
    have copied := (exact nr below lost).mpr held
    refine ⟨(filled.map nr).mpr (.inr ⟨below, copied⟩), fun o small => ?_⟩
    obtain ⟨quotient, rest⟩ := sector nr o small
    rw [filled.new, quotient, rest, source_position valid dynamic copied.2 held]
    · rw [quotient]
      exact (ready.map nr below).mpr lost
    · rw [quotient]
      exact ⟨below, copied⟩

theorem readLayer_exposes (valid : vhd.Valid) (dynamic : vhd.typeDynamic = true)
    (ready : Ready secs missing dest) {nr : Nat} (below : nr < secs) (lost : missing nr)
    (wrong : ¬ (vhd.copies sec (sec + nr) ↔ vhd.holds (sec + nr))) {after : Dest}
    (action : readLayer (vhd.withContents fun _ => 1) sec secs dest = .ok after) :
    (¬ vhd.holds (sec + nr) ∧ after.map nr = true ∧ after.buf (nr * 512) = 1) ∨
    (vhd.holds (sec + nr) ∧ after.buf (nr * 512) = 0) := by
  have same := vhd.withContents_layout fun _ => 1
  have filled := (readLayer_ok (same.valid valid) dynamic action).2
  have quotient : nr * 512 / 512 = nr := Nat.mul_div_cancel _ (by omega)
  have zero := ready.zero nr below lost 0 (by omega)
  rw [Nat.add_zero] at zero
  by_cases held : vhd.holds (sec + nr)
  · have skipped : ¬ vhd.copies sec (sec + nr) := fun copied => wrong ⟨fun _ => held, fun _ => copied⟩
    refine .inr ⟨held, ?_⟩
    rw [filled.old, zero]
    right
    rw [quotient, same.copies_iff valid]
    exact fun taken => skipped taken.2
  · have copied : vhd.copies sec (sec + nr) := by
      by_contra skipped
      exact wrong ⟨fun h => absurd h skipped, fun h => absurd h held⟩
    have taken := (same.copies_iff valid).mpr copied
    refine .inl ⟨held, (filled.map nr).mpr (.inr ⟨below, taken⟩), ?_⟩
    rw [filled.new]
    · rw [quotient]
      exact withContents_source valid dynamic taken.2 (Nat.mod_lt _ (by omega))
    · rw [quotient]
      exact (ready.map nr below).mpr lost
    · rw [quotient]
      exact ⟨below, taken⟩

end Layer

theorem layerOk_of_shows {vhd : Vhd} {sec secs : Nat} {missing : Nat → Prop} {dest after : Dest}
    (rest : Dest → Outcome Dest) (valid : vhd.Valid) (dynamic : vhd.typeDynamic = true)
    (ready : Ready secs missing dest)
    (action : (readLayer (vhd.withContents fun _ => 1) sec secs dest >>= rest) = .ok after)
    (keeps : ∀ mid p, rest mid = .ok after → mid.map (p / 512) = true → after.buf p = mid.buf p)
    (zeros : ∀ mid p, rest mid = .ok after → mid.buf p = 0 → after.buf p = 0)
    (shown : ∀ nr < secs, missing nr →
      after.buf (nr * 512) = if vhd.holds (sec + nr) then 1 else 0) :
    vhd.LayerOk sec secs missing := by
  obtain ⟨mid, layer, remainder⟩ := Outcome.bind_eq_ok.mp action
  have same := vhd.withContents_layout fun _ => 1
  refine ⟨(same.fine_iff valid).mp (readLayer_ok (same.valid valid) dynamic layer).1, ?_⟩
  intro nr below lost
  by_contra wrong
  have byte := shown nr below lost
  have quotient : nr * 512 / 512 = nr := Nat.mul_div_cancel _ (by omega)
  rcases readLayer_exposes valid dynamic ready below lost wrong layer with
    ⟨unheld, found, one⟩ | ⟨held, zero⟩
  · rw [keeps mid _ remainder (by rw [quotient]; exact found), one, if_neg unheld] at byte
    exact absurd byte (by decide)
  · rw [zeros mid _ remainder zero, if_pos held] at byte
    exact absurd byte (by decide)

theorem Ready.done_iff {secs : Nat} {missing : Nat → Prop} {dest : Dest}
    (ready : Ready secs missing dest) : dest.done secs = true ↔ Complete secs missing := by
  rw [Libvhd.done_iff]
  refine forall_congr' fun nr => forall_congr' fun below => ?_
  rw [← ready.map nr below, Bool.not_eq_false]

theorem dynamicRead_iff {chain : Chain} {sec secs : Nat} {missing : Nat → Prop} {dest : Dest}
    (valid : chain.Valid) (ready : Ready secs missing dest) :
    (∀ chain', chain.SameLayout chain' →
      Shows chain' sec secs missing (dynamicRead sec secs chain' dest)) ↔
    chain.ReadOk sec secs missing := by
  have start : ∀ nr, nr * 512 + 0 = nr * 512 := fun nr => Nat.add_zero _
  induction chain generalizing missing dest with
  | base vhd =>
      constructor
      · intro shows
        have dynamic : vhd.typeDynamic = true := by
          by_contra fixed
          obtain ⟨after, action, _⟩ := shows _ (.refl _)
          simp only [dynamicRead, readLayer, vhdReadBat_fixed (Bool.eq_false_iff.mpr fixed)]
            at action
          cases action
        have valid := valid.base_valid dynamic
        obtain ⟨after, action, shown⟩ := shows _ (.base (vhd.withContents_layout fun _ => 1))
        refine ⟨dynamic, layerOk_of_shows .ok valid dynamic ready
          ((Outcome.bind_ok _).trans action) ?_ ?_ ?_⟩
        · rintro mid p ⟨⟩ _
          rfl
        · rintro mid p ⟨⟩ zero
          exact zero
        · intro nr below lost
          have byte := shown nr below lost 0 (by omega)
          rw [start] at byte
          rw [byte]
          simp only [Chain.byte, (vhd.withContents_layout fun _ => 1).holds_iff fun _ => valid]
          split
          · rename_i held
            exact withContents_position valid dynamic
              (((vhd.withContents_layout _).holds_iff fun _ => valid).mpr held) (by omega)
          · rfl
      · rintro ⟨dynamic, ok⟩ chain' layout
        cases layout with
        | @base _ vhd' same =>
            have valid := valid.base_valid dynamic
            have dynamic' : vhd'.typeDynamic = true := by rw [same.fields]; exact dynamic
            obtain ⟨after, action, next, supplied⟩ := readLayer_supplies (same.valid valid) dynamic'
              ((same.layerOk_iff valid).mpr ok) ready
            refine ⟨after, action, fun nr below lost o small => ?_⟩
            simp only [Chain.byte]
            split
            · rename_i held
              exact (supplied nr below lost held).2 o small
            · rename_i unheld
              exact next.zero nr below ⟨lost, unheld⟩ o small
  | differRaw vhd raw =>
      have dynamic := Vhd.dynamic_of_diff valid.1
      have valid := valid.2
      constructor
      · intro shows
        have ok : vhd.LayerOk sec secs missing := by
          obtain ⟨after, action, shown⟩ := shows _ (.differRaw (vhd.withContents_layout fun _ => 1)
            (rfl : ({ raw with byte := fun _ => 0 } : File).size = raw.size))
          refine layerOk_of_shows _ valid dynamic ready action ?_ ?_ ?_
          · intro mid p rest found
            split at rest
            · cases rest
              rfl
            · exact (rawReadLink_filled rest).2.old p (.inl found)
          · intro mid p rest zero
            split at rest
            · cases rest
              exact zero
            · have filled := (rawReadLink_filled rest).2
              by_cases kept : mid.map (p / 512) = true ∨ ¬ p / 512 < secs
              · rw [filled.old p kept, zero]
              · rw [not_or, not_not] at kept
                exact filled.new p (Bool.eq_false_iff.mpr kept.1) kept.2
          · intro nr below lost
            have byte := shown nr below lost 0 (by omega)
            rw [start] at byte
            rw [byte]
            simp only [Chain.byte, (vhd.withContents_layout fun _ => 1).holds_iff fun _ => valid]
            split
            · rename_i held
              exact withContents_position valid dynamic
                (((vhd.withContents_layout _).holds_iff fun _ => valid).mpr held) (by omega)
            · simp [File.rawByte]
        refine ⟨ok, ?_⟩
        obtain ⟨after, action, _⟩ := shows _ (.refl _)
        obtain ⟨mid, layer, rest⟩ := Outcome.bind_eq_ok.mp action
        obtain ⟨mid', layer', next, _⟩ := readLayer_supplies valid dynamic ok ready
        rw [layer] at layer'
        cases layer'
        by_cases done : mid.done secs = true
        · exact .inl (next.done_iff.mp done)
        · rw [if_neg done] at rest
          exact .inr (rawReadLink_filled rest).1
      · rintro ⟨ok, bottom⟩ chain' layout
        cases layout with
        | @differRaw _ vhd' _ raw' same size =>
            have dynamic' : vhd'.typeDynamic = true := by rw [same.fields]; exact dynamic
            obtain ⟨mid, layer, next, supplied⟩ := readLayer_supplies (same.valid valid) dynamic'
              ((same.layerOk_iff valid).mpr ok) ready
            rw [same.remaining valid] at next
            simp only [Shows, dynamicRead, layer, Outcome.ok_bind, Chain.byte]
            by_cases done : mid.done secs = true
            · rw [if_pos done]
              refine ⟨mid, rfl, fun nr below lost o small => ?_⟩
              have held : vhd'.holds (sec + nr) := by
                rw [same.holds_iff fun _ => valid]
                by_contra unheld
                exact next.done_iff.mp done nr below ⟨lost, unheld⟩
              rw [if_pos held]
              exact (supplied nr below lost held).2 o small
            · have enough := bottom.resolve_left fun all => done (next.done_iff.mpr all)
              unfold File.rawOk at enough
              rw [if_neg done]
              have read : rawReadLink raw' sec secs mid = .ok (copyData (fun _ => true) 0
                  (fun p => raw'.byte (sec * 512 + p)) secs mid) := by
                unfold rawReadLink
                rw [size, if_pos enough]
              have filled := (rawReadLink_filled read).2
              refine ⟨_, read, fun nr below lost o small => ?_⟩
              have quotient : (nr * 512 + o) / 512 = nr := by omega
              split
              · rename_i held
                obtain ⟨found, bytes⟩ := supplied nr below lost held
                rw [filled.old _ (.inl (by rw [quotient]; exact found)), bytes o small]
              · rename_i unheld
                rw [same.holds_iff fun _ => valid] at unheld
                rw [filled.new _ (by rw [quotient]; exact (next.map nr below).mpr ⟨lost, unheld⟩)
                  (by rw [quotient]; exact below)]
                unfold File.rawByte
                rw [if_pos (by omega), Nat.add_mul, Nat.add_assoc]
  | differ vhd parent ih =>
      have dynamic := Vhd.dynamic_of_diff valid.1
      have parentValid := valid.2.2
      have valid := valid.2.1
      constructor
      · intro shows
        have ok : vhd.LayerOk sec secs missing := by
          obtain ⟨after, action, shown⟩ := shows _ (.differ (vhd.withContents_layout fun _ => 1)
            (parent.constant_layout 0))
          refine layerOk_of_shows _ valid dynamic ready action ?_ ?_ ?_
          · intro mid p rest found
            split at rest
            · cases rest
              rfl
            · exact dynamicRead_keeps ((parent.constant_layout 0).valid parentValid) rest p found
          · intro mid p rest zero
            split at rest
            · cases rest
              exact zero
            · exact dynamicRead_zeroed parentValid rest p zero
          · intro nr below lost
            have byte := shown nr below lost 0 (by omega)
            rw [start] at byte
            rw [byte]
            simp only [Chain.byte, (vhd.withContents_layout fun _ => 1).holds_iff fun _ => valid]
            split
            · rename_i held
              exact withContents_position valid dynamic
                (((vhd.withContents_layout _).holds_iff fun _ => valid).mpr held) (by omega)
            · exact constant_zero parentValid (by omega)
        refine ⟨ok, ?_⟩
        obtain ⟨mid, layer, next, _⟩ := readLayer_supplies valid dynamic ok ready
        by_cases done : mid.done secs = true
        · exact .inl (next.done_iff.mp done)
        · refine .inr ((ih parentValid next).mp fun parent' layout => ?_)
          obtain ⟨after, action, shown⟩ := shows _ (.differ (.refl vhd) layout)
          simp only [dynamicRead, layer, Outcome.ok_bind, if_neg done] at action
          refine ⟨after, action, fun nr below lost o small => ?_⟩
          rw [shown nr below lost.1 o small]
          simp only [Chain.byte, if_neg lost.2]
      · rintro ⟨ok, below⟩ chain' layout
        cases layout with
        | @differ _ vhd' _ parent' same layout =>
            have dynamic' : vhd'.typeDynamic = true := by rw [same.fields]; exact dynamic
            obtain ⟨mid, layer, next, supplied⟩ := readLayer_supplies (same.valid valid) dynamic'
              ((same.layerOk_iff valid).mpr ok) ready
            rw [same.remaining valid] at next
            simp only [Shows, dynamicRead, layer, Outcome.ok_bind, Chain.byte]
            by_cases done : mid.done secs = true
            · rw [if_pos done]
              refine ⟨mid, rfl, fun nr bound lost o small => ?_⟩
              have held : vhd'.holds (sec + nr) := by
                rw [same.holds_iff fun _ => valid]
                by_contra unheld
                exact next.done_iff.mp done nr bound ⟨lost, unheld⟩
              rw [if_pos held]
              exact (supplied nr bound lost held).2 o small
            · have parentOk := below.resolve_left fun all => done (next.done_iff.mpr all)
              rw [if_neg done]
              obtain ⟨after, action, shown⟩ := (ih parentValid next).mpr parentOk parent' layout
              refine ⟨after, action, fun nr bound lost o small => ?_⟩
              have quotient : (nr * 512 + o) / 512 = nr := by omega
              split
              · rename_i held
                obtain ⟨found, bytes⟩ := supplied nr bound lost held
                rw [dynamicRead_keeps (layout.valid parentValid) action _
                  (by rw [quotient]; exact found), bytes o small]
              · rename_i unheld
                rw [same.holds_iff fun _ => valid] at unheld
                exact shown nr bound ⟨lost, unheld⟩ o small

theorem vhdIoRead_fixed {vhd : Vhd} {sec secs : Nat} (valid : vhd.ValidFixed)
    (fixed : ¬ vhd.typeDynamic = true) (inside : (sec + secs) * 512 ≤ vhd.currSize) :
    ShowsSectors (.base vhd) sec secs := by
  have room : sec * 512 + secs * 512 ≤ vhd.file.size := by
    rw [← Nat.add_mul]
    exact Nat.le_trans inside (Nat.le_of_add_right_le valid.2)
  refine ⟨fun i => vhd.file.byte (sec * 512 + i), ?_, fun nr below o small => ?_⟩
  · unfold vhdIoRead
    dsimp only
    rw [if_neg (show ¬ (Chain.base vhd).top.currSize < _ from Nat.not_lt.mpr inside),
      if_pos (show (!(Chain.base vhd).top.typeDynamic) = true by simpa [Chain.top] using fixed)]
    exact File.read_ok room
  · have bound : (sec + nr) * 512 < (sec + secs) * 512 :=
      Nat.mul_lt_mul_of_pos_right (by omega) (by omega)
    have held : vhd.holds (sec + nr) :=
      ⟨Nat.lt_of_lt_of_le bound inside, fun h => absurd h fixed⟩
    simp only [Chain.byte, if_pos held, Vhd.position, if_neg fixed, Nat.add_mul, Nat.add_assoc]

theorem vhdIoRead_dynamic {chain : Chain} {sec secs : Nat} (valid : chain.Valid)
    (dynamic : chain.top.typeDynamic = true) (inside : (sec + secs) * 512 ≤ chain.top.currSize) :
    ShowsSectors chain sec secs ↔ mapFits secs = true ∧
      Shows chain sec secs (fun _ => True)
        (dynamicRead sec secs chain ⟨fun _ => false, fun _ => 0⟩) := by
  have table := vhdReadBat_table (valid.top dynamic) dynamic
  unfold ShowsSectors vhdIoRead Shows
  simp only
  rw [if_neg (Nat.not_lt.mpr inside), if_neg (by simp [dynamic]), table, Outcome.ok_bind]
  cases mapFits secs with
  | false => simp
  | true =>
      simp only [Bool.not_true, Bool.false_eq_true, if_false, Outcome.bind_eq_ok, true_and,
        forall_const]
      constructor
      · rintro ⟨buf, ⟨after, action, ⟨⟩⟩, shown⟩
        exact ⟨after, action, shown⟩
      · rintro ⟨after, action, shown⟩
        exact ⟨after.buf, ⟨after, action, rfl⟩, shown⟩

theorem sectorReads_dynamic {chain : Chain} {sec secs : Nat} (valid : chain.Valid)
    (inside : (sec + secs) * 512 ≤ chain.top.currSize) (dynamic : chain.top.typeDynamic = true) :
    (∀ chain', chain.SameLayout chain' → ShowsSectors chain' sec secs) ↔
      chain.SectorReadOk sec secs := by
  have ready : Ready secs (fun _ => True) ⟨fun _ => false, fun _ => 0⟩ :=
    ⟨fun _ _ => by simp, fun _ _ _ _ _ => rfl⟩
  unfold Chain.SectorReadOk
  rw [← dynamicRead_iff valid ready]
  have each : ∀ chain', chain.SameLayout chain' → (ShowsSectors chain' sec secs ↔
      mapFits secs = true ∧ Shows chain' sec secs (fun _ => True)
        (dynamicRead sec secs chain' ⟨fun _ => false, fun _ => 0⟩)) := by
    intro chain' same
    have type : chain'.top.typeDynamic = true := by rw [same.top.fields]; exact dynamic
    have size : chain'.top.currSize = chain.top.currSize := by rw [same.top.fields]
    exact vhdIoRead_dynamic (same.valid valid) type (size ▸ inside)
  constructor
  · intro shows _
    exact ⟨((each chain (.refl chain)).mp (shows chain (.refl chain))).1,
      fun chain' same => ((each chain' same).mp (shows chain' same)).2⟩
  · intro ok chain' same
    exact (each chain' same).mpr ⟨(ok dynamic).1, (ok dynamic).2 chain' same⟩

theorem sectorReads_fixed {chain : Chain} {sec secs : Nat} (valid : chain.Valid)
    (inside : (sec + secs) * 512 ≤ chain.top.currSize) (fixed : ¬ chain.top.typeDynamic = true)
    {chain' : Chain} (same : chain.SameLayout chain') : ShowsSectors chain' sec secs := by
  have type : ¬ chain'.top.typeDynamic = true := by rw [same.top.fields]; exact fixed
  have size : chain'.top.currSize = chain.top.currSize := by rw [same.top.fields]
  obtain ⟨vhd, rfl, validFixed⟩ := Chain.fixed_base (same.valid valid) type
  exact vhdIoRead_fixed validFixed type (size ▸ inside)

/-- A sector read inside the disk succeeds and shows the virtual disk, whatever the disk contains,
exactly when the chain is `SectorReadOk` there. -/
theorem vhdIoRead_shows_iff {chain : Chain} {sec secs : Nat} (valid : chain.Valid)
    (inside : (sec + secs) * 512 ≤ chain.top.currSize) :
    (∀ chain', chain.SameLayout chain' → ShowsSectors chain' sec secs) ↔
      chain.SectorReadOk sec secs := by
  by_cases dynamic : chain.top.typeDynamic = true
  · exact sectorReads_dynamic valid inside dynamic
  · exact ⟨fun _ h => absurd h dynamic, fun _ _ same => sectorReads_fixed valid inside dynamic same⟩

def halfImage : Vhd where
  file :=
    { size := 4102 * 512
      byte := fun p =>
        if p < 1536 then 0 else if p < 1540 then 255 else if p < 2048 then
          (if p = 1543 then 4 else 0)
        else if p < 2560 then 255 else 1 }
  type := .dynamic
  currSize := 2 * 2 ^ 21
  tableOffset := 1536
  maxBatSize := 2
  blockSize := 2 ^ 21
  oldBitmap := false

theorem halfImage_allocated {block : Nat} (allocated : halfImage.allocated block) :
    block = 1 ∧ halfImage.entry block = 4 := by
  obtain ⟨bound, used⟩ := allocated
  have cases : block = 0 ∨ block = 1 := by
    have : block < 2 := bound
    omega
  rcases cases with rfl | rfl
  · exact absurd (by decide +kernel : halfImage.entry 0 = ddBlkUnused) used
  · exact ⟨rfl, by decide +kernel⟩

theorem halfImage_valid : (Chain.base halfImage).Valid := by
  have bm : halfImage.bmSecs = 1 := by decide +kernel
  have spb : halfImage.spb = 4096 := by decide +kernel
  have padded : vhdBytesPadded (halfImage.batEntries * 4) = 512 := by decide +kernel
  refine ⟨by decide, fun _ => ?_, fun h => absurd h (by decide)⟩
  constructor
  · exact ⟨21, by decide, by decide, rfl⟩
  · decide
  · decide +kernel
  · decide +kernel
  · intro block allocated
    rw [(halfImage_allocated allocated).2]
    decide +kernel
  · intro block allocated
    rw [(halfImage_allocated allocated).2]
    decide +kernel
  · intro p data
    unfold Vhd.inData at data
    rw [if_pos (by decide)] at data
    obtain ⟨block, allocated, low, _⟩ := data
    rw [(halfImage_allocated allocated).2, bm] at low
    constructor
    · rintro ⟨_, high⟩
      rw [padded] at high
      have offset : halfImage.tableOffset = 1536 := rfl
      have max : halfImage.maxBatSize = 2 := rfl
      omega
    · rintro ⟨other, allocated', _, high⟩
      rw [(halfImage_allocated allocated').2, bm] at high
      omega

theorem vhdIoRead_shows_halfImage :
    (∀ chain', (Chain.base halfImage).SameLayout chain' → ShowsSectors chain' 4096 8) ↔
      (Chain.base halfImage).SectorReadOk 4096 8 :=
  vhdIoRead_shows_iff halfImage_valid (by decide)

theorem vhdIoRead_passes_over :
    ∃ chain : Chain, chain.Valid ∧ (4095 + 2) * 512 ≤ chain.top.currSize ∧
      chain.byte 4096 0 = 1 ∧ ¬ ShowsSectors chain 4095 2 := by
  have stored : (Chain.base halfImage).byte 4096 0 = 1 := by decide +kernel
  refine ⟨.base halfImage, halfImage_valid, by decide, stored, ?_⟩
  rintro ⟨buf, action, shown⟩
  have byte := shown 1 (by omega) 0 (by omega)
  rw [stored] at byte
  have cleared : (vhdIoRead (.base halfImage) 4095 2).meets (fun buf => buf 512 = 0) = true := by decide +kernel
  rw [action] at cleared
  have zero : buf 512 = 0 := of_decide_eq_true cleared
  exact absurd (zero.symm.trans byte) (by decide)

end Blktap.Libvhd
