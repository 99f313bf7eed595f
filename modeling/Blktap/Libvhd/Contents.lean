import Blktap.Libvhd.Table

/-! # Chains with the same layout -/

namespace Blktap.Libvhd
open Lib

theorem withContents_position {vhd : Vhd} {contents : Nat → UInt8} {sector o : Nat}
    (valid : vhd.Valid) (dynamic : vhd.typeDynamic = true)
    (held : (vhd.withContents contents).holds sector) (small : o < 512) :
    (vhd.withContents contents).file.byte
      ((vhd.withContents contents).position sector + o) = contents (vhd.position sector + o) := by
  have same := vhd.withContents_layout contents
  have held := (same.holds_iff fun _ => valid).mp held
  rw [same.position (fun _ => valid) held]
  exact Vhd.withContents_byte (held.inData valid dynamic small)

theorem withContents_source {vhd : Vhd} {contents : Nat → UInt8} {sector o : Nat}
    (valid : vhd.Valid) (dynamic : vhd.typeDynamic = true)
    (found : (vhd.withContents contents).finds sector) (small : o < 512) :
    (vhd.withContents contents).file.byte
      ((vhd.withContents contents).source sector + o) = contents (vhd.source sector + o) := by
  have same := vhd.withContents_layout contents
  have found := (same.finds_iff valid).mp found
  rw [same.source valid]
  exact Vhd.withContents_byte (found.inData valid dynamic small)

theorem Chain.Valid.base_valid {vhd : Vhd} (valid : (Chain.base vhd).Valid)
    (dynamic : vhd.typeDynamic = true) : vhd.Valid := by
  refine valid.2.1 ?_
  cases type : vhd.type with
  | fixed => simp [Vhd.typeDynamic, type] at dynamic
  | dynamic => rfl
  | diff => exact absurd type valid.1

theorem Vhd.dynamic_of_diff {vhd : Vhd} (type : vhd.type = .diff) : vhd.typeDynamic = true := by
  simp [Vhd.typeDynamic, type]

theorem Chain.SameLayout.valid {chain chain' : Chain} (same : chain.SameLayout chain')
    (valid : chain.Valid) : chain'.Valid := by
  induction same with
  | @base vhd vhd' layer =>
      have type : vhd'.type = vhd.type := by rw [layer.fields]
      have size : vhd'.currSize = vhd.currSize := by rw [layer.fields]
      obtain ⟨plain, dynamic, fixed⟩ := valid
      refine ⟨type ▸ plain, fun h => layer.valid (dynamic (type ▸ h)), fun h => ?_⟩
      unfold Vhd.ValidFixed
      rw [size, layer.size]
      exact fixed (type ▸ h)
  | @differRaw vhd vhd' raw raw' layer _ =>
      have type : vhd'.type = vhd.type := by rw [layer.fields]
      exact ⟨type ▸ valid.1, layer.valid valid.2⟩
  | @differ vhd vhd' parent parent' layer _ ih =>
      have type : vhd'.type = vhd.type := by rw [layer.fields]
      exact ⟨type ▸ valid.1, layer.valid valid.2.1, ih valid.2.2⟩

theorem Chain.SameLayout.top {chain chain' : Chain} (same : chain.SameLayout chain') :
    chain.top.SameLayout chain'.top := by
  cases same with
  | base layer => exact layer
  | differRaw layer _ => exact layer
  | differ layer _ => exact layer

theorem Chain.Valid.top {chain : Chain} (valid : chain.Valid)
    (dynamic : chain.top.typeDynamic = true) : chain.top.Valid := by
  cases chain with
  | base vhd => exact valid.base_valid dynamic
  | differRaw vhd raw => exact valid.2
  | differ vhd parent => exact valid.2.1

theorem Chain.fixed_base {chain : Chain} (valid : chain.Valid)
    (fixed : ¬ chain.top.typeDynamic = true) : ∃ vhd, chain = .base vhd ∧ vhd.ValidFixed := by
  cases chain with
  | base vhd =>
      have type : vhd.type = .fixed := by simpa [Vhd.typeDynamic, Chain.top] using fixed
      exact ⟨vhd, rfl, valid.2.2 type⟩
  | differRaw vhd raw => exact absurd (Vhd.dynamic_of_diff valid.1) fixed
  | differ vhd parent => exact absurd (Vhd.dynamic_of_diff valid.1) fixed

theorem whole_sector {sector size o : Nat} (whole : 512 ∣ size) (below : sector * 512 < size)
    (small : o < 512) : sector * 512 + o < size := by
  grind

def Chain.shows : Chain → Nat → Nat → Prop
  | base vhd, sector, _ => vhd.holds sector
  | differRaw vhd raw, sector, o => vhd.holds sector ∨ sector * 512 + o < raw.size
  | differ vhd parent, sector, o => vhd.holds sector ∨ parent.shows sector o

noncomputable def Chain.constant (value : UInt8) : Chain → Chain
  | base vhd => base (vhd.withContents fun _ => value)
  | differRaw vhd raw =>
      differRaw (vhd.withContents fun _ => value) { raw with byte := fun _ => value }
  | differ vhd parent => differ (vhd.withContents fun _ => value) (parent.constant value)

theorem Chain.constant_layout (chain : Chain) (value : UInt8) :
    chain.SameLayout (chain.constant value) := by
  induction chain with
  | base vhd => exact .base (vhd.withContents_layout _)
  | differRaw vhd raw => exact .differRaw (vhd.withContents_layout _) rfl
  | differ vhd parent ih => exact .differ (vhd.withContents_layout _) ih

theorem Vhd.holds.inContents {vhd : Vhd} {sector o : Nat} (held : vhd.holds sector)
    (valid : (Chain.base vhd).Valid ∨ vhd.type = .diff ∧ vhd.Valid) (small : o < 512) :
    vhd.inData (vhd.position sector + o) := by
  by_cases dynamic : vhd.typeDynamic = true
  · exact held.inData (valid.elim (fun h => h.base_valid dynamic) fun h => h.2) dynamic small
  · have base := valid.resolve_right fun h => dynamic (Vhd.dynamic_of_diff h.1)
    have type : vhd.type = .fixed := by simpa [Vhd.typeDynamic] using dynamic
    unfold Vhd.inData Vhd.position
    rw [if_neg dynamic, if_neg dynamic]
    exact whole_sector (base.2.2 type).1 held.1 small

theorem withContents_held {vhd : Vhd} {contents : Nat → UInt8} {sector o : Nat}
    (valid : (Chain.base vhd).Valid ∨ vhd.type = .diff ∧ vhd.Valid)
    (held : vhd.holds sector) (small : o < 512) :
    (vhd.withContents contents).file.byte
      ((vhd.withContents contents).position sector + o) = contents (vhd.position sector + o) := by
  have valid' : vhd.typeDynamic = true → vhd.Valid := fun dynamic =>
    valid.elim (fun h => h.base_valid dynamic) fun h => h.2
  rw [(vhd.withContents_layout contents).position valid' held]
  exact Vhd.withContents_byte (held.inContents valid small)

theorem Vhd.SameLayout.base_holds {vhd vhd' : Vhd} (same : vhd.SameLayout vhd')
    (valid : (Chain.base vhd).Valid ∨ vhd.type = .diff ∧ vhd.Valid) {sector : Nat} :
    vhd'.holds sector ↔ vhd.holds sector :=
  same.holds_iff fun dynamic => valid.elim (fun h => h.base_valid dynamic) fun h => h.2

theorem Chain.SameLayout.shows_iff {chain chain' : Chain} (same : chain.SameLayout chain')
    (valid : chain.Valid) {sector o : Nat} : chain'.shows sector o ↔ chain.shows sector o := by
  induction same with
  | base layer => exact layer.base_holds (.inl valid)
  | differRaw layer size =>
      unfold Chain.shows
      rw [layer.base_holds (.inr valid), size]
  | differ layer _ ih =>
      unfold Chain.shows
      rw [layer.base_holds (.inr ⟨valid.1, valid.2.1⟩), ih valid.2.2]

theorem byte_unshown {chain : Chain} {sector o : Nat} (unshown : ¬ chain.shows sector o) :
    chain.byte sector o = 0 := by
  induction chain with
  | base vhd => exact if_neg unshown
  | differRaw vhd raw =>
      obtain ⟨unheld, outside⟩ := not_or.mp unshown
      rw [Chain.byte, if_neg unheld, File.rawByte, if_neg outside]
  | differ vhd parent ih =>
      obtain ⟨unheld, unshown⟩ := not_or.mp unshown
      rw [Chain.byte, if_neg unheld, ih unshown]

theorem constant_shown {chain : Chain} (valid : chain.Valid) (value : UInt8) {sector o : Nat}
    (small : o < 512) (shown : chain.shows sector o) :
    (chain.constant value).byte sector o = value := by
  have layer : ∀ vhd : Vhd, ((Chain.base vhd).Valid ∨ vhd.type = .diff ∧ vhd.Valid) →
      ∀ rest : UInt8, (¬ vhd.holds sector → rest = value) →
      (if (vhd.withContents fun _ => value).holds sector then
        (vhd.withContents fun _ => value).file.byte
          ((vhd.withContents fun _ => value).position sector + o) else rest) = value := by
    intro vhd valid rest other
    simp only [(vhd.withContents_layout _).base_holds valid]
    by_cases held : vhd.holds sector
    · rw [if_pos held]
      exact withContents_held valid held small
    · rw [if_neg held]
      exact other held
  induction chain with
  | base vhd => exact layer vhd (.inl valid) 0 fun unheld => absurd shown unheld
  | differRaw vhd raw =>
      refine layer vhd (.inr valid) _ fun unheld => ?_
      exact if_pos (shown.resolve_left unheld)
  | differ vhd parent ih =>
      refine layer vhd (.inr ⟨valid.1, valid.2.1⟩) _ fun unheld => ?_
      exact ih valid.2.2 (shown.resolve_left unheld)

theorem constant_zero {chain : Chain} (valid : chain.Valid) {sector o : Nat} (small : o < 512) :
    (chain.constant 0).byte sector o = 0 := by
  by_cases shown : chain.shows sector o
  · exact constant_shown valid 0 small shown
  · refine byte_unshown fun shown' => shown ?_
    exact ((chain.constant_layout 0).shows_iff valid).mp shown'

end Blktap.Libvhd
