import Blktap.Libvhd.DynamicBytes

/-! # When what a byte read takes is what the disk shows -/

namespace Blktap.Libvhd
open Lib

def Vhd.answers (vhd : Vhd) (sector : Nat) : Prop :=
  vhd.holds sector → vhd.finds sector ∧ vhd.lookup sector + vhd.bmSecs < 2 ^ 32

def Vhd.harmless (vhd : Vhd) (sector o : Nat) : Prop :=
  ¬ vhd.inData (vhd.byteSource sector + o) ∧ vhd.sectorByte sector o = 0

def Chain.answers : Chain → Nat → Nat → Prop
  | base vhd, sector, o => vhd.answers sector ∧
      (¬ vhd.holds sector → vhd.finds sector → vhd.harmless sector o)
  | differRaw vhd raw, sector, o => vhd.answers sector ∧
      (¬ vhd.holds sector → (vhd.finds sector → vhd.harmless sector o) ∧
        raw.size ≤ sector * 512 + o)
  | differ vhd parent, sector, o => vhd.answers sector ∧
      (¬ vhd.holds sector →
        (vhd.finds sector → vhd.harmless sector o ∧ ¬ parent.shows sector o) ∧
        (¬ vhd.finds sector → parent.answers sector o))

def Chain.asks : Chain → Nat → Prop
  | base vhd, _ => vhd.typeDynamic = true
  | differRaw _ _, _ => True
  | differ vhd parent, sector => vhd.finds sector ∨ parent.asks sector

section Layer
variable {vhd vhd' : Vhd} {sector : Nat}

theorem Vhd.SameLayout.byteSource (same : vhd.SameLayout vhd') (valid : vhd.Valid)
    (sector : Nat) : vhd'.byteSource sector = vhd.byteSource sector := by
  have bm : vhd'.bmSecs = vhd.bmSecs := by rw [same.fields]; rfl
  have spb : vhd'.spb = vhd.spb := by rw [same.fields]; rfl
  unfold Vhd.byteSource
  rw [same.lookup valid, bm, spb]

theorem place_of_agree {p q : Nat}
    (agree : ∀ contents, (vhd.withContents contents).file.byte p = contents q) : p = q := by
  by_contra differs
  have zero := agree fun _ => 0
  have one := agree fun i => if i = q then 1 else 0
  rw [if_pos rfl] at one
  by_cases inside : vhd.inData p
  · rw [Vhd.withContents_byte inside, if_neg differs] at one
    exact absurd one (by decide)
  · rw [(vhd.withContents_layout _).metadata p inside] at zero one
    rw [zero] at one
    exact absurd one (by decide)

theorem harmless_of_agree {p : Nat} {value : UInt8}
    (agree : ∀ contents, (vhd.withContents contents).file.byte p = value) :
    ¬ vhd.inData p ∧ vhd.file.byte p = value := by
  have outside : ¬ vhd.inData p := by
    intro inside
    have zero := agree fun _ => 0
    have one := agree fun _ => 1
    rw [Vhd.withContents_byte inside] at zero one
    exact absurd (zero.trans one.symm) (by decide)
  refine ⟨outside, ?_⟩
  rw [← agree fun _ => 0, (vhd.withContents_layout _).metadata p outside]

theorem byteSource_position (valid : vhd.Valid) (dynamic : vhd.typeDynamic = true)
    (found : vhd.finds sector) (held : vhd.holds sector) :
    vhd.byteSource sector = vhd.position sector ↔ vhd.lookup sector + vhd.bmSecs < 2 ^ 32 := by
  rw [← source_position valid dynamic found held]
  unfold Vhd.byteSource Vhd.source
  have inside := Nat.mod_lt (vhd.lookup sector + vhd.bmSecs) (by omega : 0 < 2 ^ 32)
  constructor
  · intro same
    have same := Nat.add_right_cancel (Nat.mul_right_cancel (by omega : 0 < 512) same)
    rwa [same] at inside
  · intro small
    rw [Nat.mod_eq_of_lt small]

variable (sector) in
theorem layer_answers {ι : Type*} {o : Nat} (valid : vhd.Valid)
    (dynamic : vhd.typeDynamic = true) (small : o < 512) (low high : ι → UInt8) (empty : ι)
    (zero : high empty = 0) :
    (∀ vhd', vhd.SameLayout vhd' → ∀ i,
      (if vhd'.finds sector then vhd'.sectorByte sector o else low i) =
        if vhd'.holds sector then vhd'.file.byte (vhd'.position sector + o) else high i) ↔
    vhd.answers sector ∧ (¬ vhd.holds sector →
      (vhd.finds sector → vhd.harmless sector o ∧ ∀ i, high i = 0) ∧
      (¬ vhd.finds sector → ∀ i, low i = high i)) := by
  constructor
  · intro agree
    have contents : ∀ contents : Nat → UInt8, ∀ i,
        (if vhd.finds sector then
          (vhd.withContents contents).file.byte (vhd.byteSource sector + o) else low i) =
        if vhd.holds sector then contents (vhd.position sector + o) else high i := by
      intro contents i
      have same := vhd.withContents_layout contents
      have equal := agree _ same i
      simp only [same.finds_iff valid, same.holds_iff fun _ => valid, Vhd.sectorByte,
        same.byteSource valid] at equal
      rw [equal]
      by_cases held : vhd.holds sector
      · rw [if_pos held, if_pos held]
        exact withContents_position valid dynamic ((same.holds_iff fun _ => valid).mpr held) small
      · rw [if_neg held, if_neg held]
    refine ⟨fun held => ?_, fun unheld => ⟨fun found => ⟨?_, fun i => ?_⟩, ?_⟩⟩
    · simp only [if_pos held] at contents
      have found : vhd.finds sector := by
        by_contra unfound
        simp only [if_neg unfound] at contents
        have absent := contents (fun _ => 0) empty
        rw [contents (fun _ => 1) empty] at absent
        exact absurd absent (by decide)
      simp only [if_pos found] at contents
      have place := place_of_agree fun c => contents c empty
      exact ⟨found, (byteSource_position valid dynamic found held).mp
        (Nat.add_right_cancel place)⟩
    · simp only [if_neg unheld, if_pos found] at contents
      exact harmless_of_agree fun c => (contents c empty).trans zero
    · simp only [if_neg unheld, if_pos found] at contents
      rw [← contents (fun _ => 0) i, contents (fun _ => 0) empty, zero]
    · intro unfound i
      have equal := agree vhd (.refl vhd) i
      rwa [if_neg unfound, if_neg unheld] at equal
  · rintro ⟨answers, rest⟩ vhd' same i
    simp only [same.finds_iff valid, same.holds_iff fun _ => valid, Vhd.sectorByte,
      same.byteSource valid]
    by_cases held : vhd.holds sector
    · obtain ⟨found, fits⟩ := answers held
      rw [if_pos held, if_pos found, same.position (fun _ => valid) held,
        (byteSource_position valid dynamic found held).mpr fits]
    · rw [if_neg held]
      obtain ⟨harmless, below⟩ := rest held
      by_cases found : vhd.finds sector
      · obtain ⟨⟨outside, byte⟩, zeros⟩ := harmless found
        rw [if_pos found, same.metadata _ outside, zeros i]
        exact byte
      · rw [if_neg found]
        exact below found i

end Layer

theorem Chain.SameLayout.finds_iff {chain chain' : Chain} (same : chain.SameLayout chain')
    (valid : chain.Valid) {sector : Nat} (asks : chain.asks sector) :
    chain'.finds sector ↔ chain.finds sector := by
  induction same with
  | base layer => exact layer.finds_iff (valid.base_valid asks)
  | differRaw layer _ => exact layer.finds_iff valid.2
  | @differ vhd _ _ _ layer _ ih =>
      unfold Chain.finds
      rw [layer.finds_iff valid.2.1]
      by_cases found : vhd.finds sector
      · exact ⟨fun _ => .inl found, fun _ => .inl found⟩
      · rw [ih valid.2.2 (asks.resolve_left found)]

theorem gives_unfound {chain : Chain} {sector o : Nat} (unfound : ¬ chain.finds sector) :
    chain.gives sector o = 0 := by
  induction chain with
  | base vhd => exact if_neg unfound
  | differRaw vhd raw => exact if_neg unfound
  | differ vhd parent ih =>
      obtain ⟨here, below⟩ := not_or.mp unfound
      rw [Chain.gives, if_neg here, ih below]

theorem unshown_iff {chain : Chain} (valid : chain.Valid) {sector o : Nat} (small : o < 512) :
    (∀ chain', chain.SameLayout chain' → chain'.byte sector o = 0) ↔ ¬ chain.shows sector o := by
  constructor
  · intro zero shown
    have one := zero _ (chain.constant_layout 1)
    rw [constant_shown valid 1 small shown] at one
    exact absurd one (by decide)
  · intro unshown chain' same
    exact byte_unshown fun shown => unshown ((same.shows_iff valid).mp shown)

theorem answers_iff {chain : Chain} (valid : chain.Valid) {sector o : Nat}
    (asks : chain.asks sector) (small : o < 512) :
    (∀ chain', chain.SameLayout chain' → chain'.gives sector o = chain'.byte sector o) ↔
      chain.answers sector o := by
  induction chain with
  | base vhd =>
      have layer := layer_answers sector (valid.base_valid asks) asks small (fun (_ : Unit) => 0)
        (fun _ => 0) () rfl
      simp only [Chain.answers]
      constructor
      · intro agree
        obtain ⟨answers, rest⟩ := layer.mp fun vhd' same _ => agree _ (.base same)
        exact ⟨answers, fun unheld found => ((rest unheld).1 found).1⟩
      · rintro ⟨answers, harmless⟩ chain' same
        cases same with
        | base same =>
            exact layer.mpr ⟨answers, fun unheld => ⟨fun found =>
              ⟨harmless unheld found, fun _ => rfl⟩, fun _ _ => rfl⟩⟩ _ same ()
  | differRaw vhd raw =>
      have layer := layer_answers sector valid.2 (Vhd.dynamic_of_diff valid.1) small
        (fun (_ : { raw' : File // raw'.size = raw.size }) => 0)
        (fun raw' => raw'.1.rawByte sector o) ⟨⟨raw.size, fun _ => 0⟩, rfl⟩
        (by simp [File.rawByte])
      have outside : (∀ raw' : { raw' : File // raw'.size = raw.size },
          raw'.1.rawByte sector o = 0) ↔ raw.size ≤ sector * 512 + o := by
        constructor
        · intro zero
          by_contra inside
          have one := zero ⟨⟨raw.size, fun _ => 1⟩, rfl⟩
          rw [File.rawByte, if_pos (Nat.not_le.mp inside)] at one
          exact UInt8.zero_ne_one one.symm
        · rintro beyond ⟨raw', size⟩
          refine if_neg ?_
          rw [size]
          exact Nat.not_lt.mpr beyond
      simp only [Chain.answers]
      constructor
      · intro agree
        obtain ⟨answers, rest⟩ := layer.mp fun vhd' same raw' => agree _ (.differRaw same raw'.2)
        refine ⟨answers, fun unheld => ⟨fun found => ((rest unheld).1 found).1, ?_⟩⟩
        rw [← outside]
        by_cases found : vhd.finds sector
        · exact ((rest unheld).1 found).2
        · exact fun raw' => ((rest unheld).2 found raw').symm
      · rintro ⟨answers, harmless⟩ chain' same
        cases same with
        | @differRaw _ vhd' _ raw' same size =>
            refine layer.mpr ⟨answers, fun unheld => ?_⟩ vhd' same ⟨raw', size⟩
            have beyond := outside.mpr (harmless unheld).2
            exact ⟨fun found => ⟨(harmless unheld).1 found, beyond⟩,
              fun _ raw' => (beyond raw').symm⟩
  | differ vhd parent ih =>
      have layer := layer_answers sector valid.2.1 (Vhd.dynamic_of_diff valid.1) small
        (fun parent' : { parent' : Chain // parent.SameLayout parent' } => parent'.1.gives sector o)
        (fun parent' => parent'.1.byte sector o) ⟨_, parent.constant_layout 0⟩
        (constant_zero valid.2.2 small)
      have unshown : (∀ parent' : { parent' : Chain // parent.SameLayout parent' },
          parent'.1.byte sector o = 0) ↔ ¬ parent.shows sector o :=
        ⟨fun zero => (unshown_iff valid.2.2 small).mp fun parent' same => zero ⟨parent', same⟩,
          fun unshown parent' => (unshown_iff valid.2.2 small).mpr unshown parent'.1 parent'.2⟩
      simp only [Chain.answers]
      constructor
      · intro agree
        obtain ⟨answers, rest⟩ := layer.mp fun vhd' same parent' => agree _ (.differ same parent'.2)
        refine ⟨answers, fun unheld => ⟨fun found => ?_, fun unfound => ?_⟩⟩
        · exact ⟨((rest unheld).1 found).1, unshown.mp ((rest unheld).1 found).2⟩
        · exact (ih valid.2.2 (asks.resolve_left unfound)).mp fun parent' same =>
            (rest unheld).2 unfound ⟨parent', same⟩
      · rintro ⟨answers, below⟩ chain' same
        cases same with
        | @differ _ vhd' _ parent' same layout =>
            refine layer.mpr ⟨answers, fun unheld => ?_⟩ vhd' same ⟨parent', layout⟩
            refine ⟨fun found => ?_, fun unfound other => ?_⟩
            · exact ⟨((below unheld).1 found).1, unshown.mpr ((below unheld).1 found).2⟩
            · exact (ih valid.2.2 (asks.resolve_left unfound)).mpr ((below unheld).2 unfound)
                other.1 other.2

end Blktap.Libvhd
