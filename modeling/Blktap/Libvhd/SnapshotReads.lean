import Blktap.Libvhd.Snapshot
import Blktap.Libvhd.Table

/-! # Reading through a snapshot -/

namespace Blktap.Libvhd
open Lib

def Dest.fresh : Dest where
  map := fun _ => false
  buf := fun _ => 0

def Backing.rest (sector : Nat) : Backing → Dest → Outcome Dest
  | .raw stored => rawReadLink stored.file sector 1
  | .base image _ => dynamicRead sector 1 (.base image.vhd)
  | .differ image _ parent => dynamicRead sector 1 (parent.under image.vhd)

def Backing.isFixed : Backing → Bool
  | .base image _ => image.vhd.type == .fixed
  | _ => false

def Backing.EmptyLeaf : Backing → Prop
  | .differ image _ _ => ∃ bat, vhdReadBat image.vhd = .ok bat ∧ ∀ i < bat.entries, bat.bat i = ddBlkUnused
  | _ => False

section Layer
variable {vhd : Vhd} {bat : Bat} {sector : Nat} {dest r : Dest} {buf : Nat → UInt8} {backing target : Backing}

theorem readLink_unused (positive : 0 < vhd.spb) (inside : vhd.slot sector < bat.len)
    (unused : bat.bat (vhd.slot sector) = ddBlkUnused) :
    readLink vhd bat 2 sector 1 0 dest = .ok dest := by
  have count : 1 - min 1 vhd.spb = 0 := by omega
  unfold readLink readLinkTurn
  rw [if_neg positive.ne', if_neg (Nat.not_le.mpr inside), if_pos unused, Outcome.ok_bind]
  exact if_pos count

theorem readLink_outside (outside : bat.len ≤ vhd.slot sector) :
    readLink vhd bat 2 sector 1 0 dest = .undefined := by
  unfold readLink readLinkTurn
  by_cases none_ : vhd.spb = 0
  · rw [if_pos none_]
    rfl
  · rw [if_neg none_, if_pos outside]
    rfl

theorem readLink_empty (empty : ∀ i < bat.entries, bat.bat i = ddBlkUnused)
    (action : readLink vhd bat 2 sector 1 0 dest = .ok r) : r = dest := by
  by_cases outside : bat.len ≤ vhd.slot sector
  · rw [readLink_outside outside] at action
    cases action
  by_cases none_ : vhd.spb = 0
  · unfold readLink readLinkTurn at action
    rw [if_pos none_] at action
    cases action
  by_cases unused : bat.bat (vhd.slot sector) = ddBlkUnused
  · rw [readLink_unused (Nat.pos_of_ne_zero none_) (Nat.lt_of_not_le outside) unused] at action
    cases action
    rfl
  · have behind : bat.entries ≤ vhd.slot sector := by
      by_contra counted
      exact unused (empty _ (Nat.lt_of_not_le counted))
    have refused : ∃ code, vhdReadBitmap vhd bat (vhd.slot sector) = .error code := by
      unfold vhdReadBitmap
      rw [if_pos behind]
      split
      · exact ⟨_, rfl⟩
      · exact ⟨_, rfl⟩
    obtain ⟨code, refused⟩ := refused
    unfold readLink readLinkTurn at action
    rw [if_neg none_, if_neg outside, if_neg unused, refused] at action
    cases action

@[simp] theorem under_top (vhd : Vhd) (backing : Backing) : (backing.under vhd).top = vhd := by
  cases backing <;> rfl

theorem under_read (vhd : Vhd) (backing : Backing) (sector : Nat) (dest : Dest) :
    dynamicRead sector 1 (backing.under vhd) dest =
      readLayer vhd sector 1 dest >>= fun dest =>
        if dest.done 1 then .ok dest else backing.rest sector dest := by
  cases backing <;> rfl

theorem done_one (dest : Dest) : dest.done 1 = dest.map 0 := Bool.and_true _

theorem vhdIoRead_one {chain : Chain} (inside : (sector + 1) * 512 ≤ chain.top.currSize)
    (dynamic : chain.top.typeDynamic = true) :
    vhdIoRead chain sector 1 = vhdReadBat chain.top >>= fun _ =>
      dynamicRead sector 1 chain .fresh >>= fun dest => .ok dest.buf := by
  unfold vhdIoRead
  dsimp only
  rw [if_neg (Nat.not_lt.mpr inside), dynamic, if_neg (by decide), show mapFits 1 = true by decide]
  rfl

theorem vhdIoRead_rest {chain : Chain} (dynamic : chain.top.typeDynamic = true)
    (action : vhdIoRead chain sector 1 = .ok buf) :
    ∃ r, dynamicRead sector 1 chain .fresh = .ok r ∧ r.buf = buf := by
  by_cases inside : (sector + 1) * 512 ≤ chain.top.currSize
  · rw [vhdIoRead_one inside dynamic] at action
    obtain ⟨_, -, action⟩ := Outcome.bind_eq_ok.mp action
    obtain ⟨r, read, action⟩ := Outcome.bind_eq_ok.mp action
    exact ⟨r, read, Outcome.ok.inj action⟩
  · unfold vhdIoRead at action
    dsimp only at action
    rw [if_pos (Nat.lt_of_not_le inside)] at action
    cases action

theorem Backing.rest_of_read (dynamic : backing.isFixed = false)
    (action : backing.read sector = .ok buf) :
    ∃ r, backing.rest sector .fresh = .ok r ∧ ∀ o < 512, r.buf o = buf o := by
  cases backing with
  | raw stored =>
      have fits : sector * 512 + 512 ≤ stored.file.size :=
        (File.read_ok_iff (by decide)).mp (Outcome.isOk_iff.mpr ⟨buf, action⟩)
      refine ⟨_, if_pos ⟨fits, by decide⟩, fun o small => ?_⟩
      rw [File.read_eq action, copyData_buf, if_pos ⟨rfl, by omega, by omega, rfl⟩]
      rfl
  | base image other =>
      have kind : (Chain.base image.vhd).top.typeDynamic = true := by
        unfold Vhd.typeDynamic
        simpa [Backing.isFixed, Chain.top] using dynamic
      obtain ⟨r, read, same⟩ := vhdIoRead_rest kind action
      exact ⟨r, read, fun o _ => by rw [same]⟩
  | differ image diff parent =>
      have kind : (parent.under image.vhd).top.typeDynamic = true := by
        rw [under_top]
        unfold Vhd.typeDynamic
        rw [diff]
        rfl
      obtain ⟨r, read, same⟩ := vhdIoRead_rest kind action
      exact ⟨r, read, fun o _ => by rw [same]⟩

theorem Backing.rest_fixed (fixed : backing.isFixed = true) :
    backing.rest sector dest = .error (-einval) := by
  cases backing with
  | raw stored => cases fixed
  | differ image diff parent => cases fixed
  | base image other =>
      have kind : image.vhd.typeDynamic = false := by
        unfold Vhd.typeDynamic
        simpa [Backing.isFixed] using fixed
      change (vhdReadBat image.vhd >>= _) = _
      rw [vhdReadBat_fixed kind]
      rfl

theorem emptyTable_true (found : emptyTable bat = .ok true) :
    bat.entries < 2 ^ 31 ∧ ∀ i < bat.entries, bat.bat i = ddBlkUnused := by
  unfold emptyTable at found
  split at found
  · rename_i all
    split at found
    · cases found
    · rename_i few
      refine ⟨Nat.lt_of_not_le few, fun i inside => ?_⟩
      have member : i ∈ List.range (min bat.entries (2 ^ 31)) := List.mem_range.mpr (by omega)
      simpa using List.all_eq_true.mp all i member
  · cases found

theorem emptyTable_false (found : emptyTable bat = .ok false) :
    ∃ i < bat.entries, bat.bat i ≠ ddBlkUnused := by
  unfold emptyTable at found
  split at found
  · split at found
    · cases found
    · cases found
  · rename_i some_
    rw [List.all_eq_true] at some_
    push Not at some_
    obtain ⟨i, member, used⟩ := some_
    have inside := List.mem_range.mp member
    exact ⟨i, by omega, by simpa using used⟩

theorem find_differ {image : StoredVhd} {diff : image.vhd.type = .diff} {parent : Backing}
    (found : vhdUtilFindSnapshotTarget (.differ image diff parent) = .ok target) :
    ∃ bat, vhdReadBat image.vhd = .ok bat ∧
      ((∃ i < bat.entries, bat.bat i ≠ ddBlkUnused) ∧ target = .differ image diff parent ∨
        bat.entries < 2 ^ 31 ∧ (∀ i < bat.entries, bat.bat i = ddBlkUnused) ∧
          (target = parent ∨ vhdUtilFindSnapshotTarget parent = .ok target)) := by
  unfold vhdUtilFindSnapshotTarget at found
  obtain ⟨bat, read, found⟩ := Outcome.bind_eq_ok.mp found
  obtain ⟨empty, scan, found⟩ := Outcome.bind_eq_ok.mp found
  refine ⟨bat, read, ?_⟩
  cases empty with
  | false => exact .inl ⟨emptyTable_false scan, (Outcome.ok.inj found).symm⟩
  | true =>
      refine .inr ⟨(emptyTable_true scan).1, (emptyTable_true scan).2, ?_⟩
      rw [if_neg (by decide)] at found
      split at found
      · exact .inl (Outcome.ok.inj found).symm
      · exact .inr found

theorem find_rest (found : vhdUtilFindSnapshotTarget backing = .ok target)
    (missing : dest.map 0 = false) (read : backing.rest sector dest = .ok r) :
    target.rest sector dest = .ok r := by
  induction backing with
  | raw stored => cases found
  | base image other =>
      cases found
      exact read
  | differ image diff parent ih =>
      obtain ⟨bat, loaded, ⟨-, rfl⟩ | ⟨-, empty, next⟩⟩ := find_differ found
      · exact read
      · change dynamicRead sector 1 (parent.under image.vhd) dest = _ at read
        rw [under_read] at read
        obtain ⟨left, layer, read⟩ := Outcome.bind_eq_ok.mp read
        unfold readLayer at layer
        rw [loaded, Outcome.ok_bind] at layer
        rw [readLink_empty empty layer, done_one, missing, if_neg (by decide)] at read
        rcases next with rfl | found
        · exact read
        · exact ih found read

theorem vhdReadBat_entries (read : vhdReadBat vhd = .ok bat) : bat.entries = vhd.batEntries := by
  unfold vhdReadBat at read
  split at read
  · cases read
  · split at read
    · cases read
    · obtain ⟨buf, -, read⟩ := Outcome.bind_eq_ok.mp read
      cases read
      rfl

theorem find_cases (found : vhdUtilFindSnapshotTarget backing = .ok target) :
    ¬ backing.EmptyLeaf ∧ target = backing ∨
      backing.EmptyLeaf ∧ ∃ image diff parent, backing = .differ image diff parent ∧
        image.vhd.batEntries < 2 ^ 31 ∧ target.stored.path ∈ parent.paths := by
  have own : ∀ backing : Backing, backing.stored.path ∈ backing.paths := by
    intro backing
    cases backing <;> exact List.mem_cons_self
  induction backing with
  | raw stored => cases found
  | base image other =>
      cases found
      exact .inl ⟨not_false, rfl⟩
  | differ image diff parent ih =>
      obtain ⟨bat, loaded, ⟨⟨i, inside, used⟩, rfl⟩ | ⟨few, empty, next⟩⟩ := find_differ found
      · refine .inl ⟨?_, rfl⟩
        rintro ⟨other, read, empty⟩
        rw [loaded] at read
        cases read
        exact used (empty i inside)
      · refine .inr ⟨⟨bat, loaded, empty⟩, image, diff, parent, rfl, vhdReadBat_entries loaded ▸ few, ?_⟩
        rcases next with rfl | found
        · exact own _
        · rcases ih found with ⟨-, rfl⟩ | ⟨-, image', diff', parent', rfl, -, deeper⟩
          · exact own _
          · exact List.mem_cons_of_mem _ deeper

end Layer

end Blktap.Libvhd
