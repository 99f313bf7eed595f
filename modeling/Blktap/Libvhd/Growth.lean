import Blktap.Libvhd.WriteRules

/-! # What sector writes leave alone in the handle -/

namespace Blktap.Libvhd
open Lib Action

def Handle.SameFields (s t : Handle) : Prop :=
  t = { s with
    oldBitmap_eq := s.bitmap_eq, file := t.file, bat := t.bat, batmap := t.batmap, faults := t.faults }

theorem Handle.SameFields.trans {s t u : Handle} (first : s.SameFields t) (second : t.SameFields u) :
    s.SameFields u := by
  unfold Handle.SameFields at *
  rw [second, first]

def Handle.Grown (s t : Handle) : Prop := s.SameFields t ∧ s.file.size ≤ t.file.size

instance : Std.Refl Handle.Grown := ⟨fun _ => ⟨rfl, Nat.le_refl _⟩⟩

instance : IsTrans Handle Handle.Grown :=
  ⟨fun _ _ _ first second => ⟨first.1.trans second.1, first.2.trans second.2⟩⟩

theorem grown_put (s : Handle) (faults : List (Option Fault)) (off size : Nat)
    (data : Nat → UInt8) : s.Grown ({ s with faults }.put off size data) :=
  ⟨rfl, (Context.put_size_le :
    s.toContext.file.size ≤ (s.toContext.put off size data).file.size)⟩

theorem grows_vhdWrite (off size : Nat) (data : Nat → UInt8) :
    Steps Handle.Grown (vhdWrite off size data) := by
  intro s
  unfold vhdWrite
  dsimp only
  cases s.faults.head?.join with
  | some fault => exact grown_put s _ off _ data
  | none =>
      dsimp only
      split
      · exact grown_put s _ off _ data
      · exact grown_put s _ off size data

theorem grows_vhdGetBat : Steps Handle.Grown vhdGetBat := by
  unfold vhdGetBat
  refine .bind .get fun s => .ite (.pure _) (.bind (.lift _) fun bat => ?_)
  exact .modify fun _ => ⟨rfl, Nat.le_refl _⟩

theorem grows_loadedBat : Steps Handle.Grown loadedBat := by
  unfold loadedBat
  refine .bind .get fun s => ?_
  cases s.bat with
  | some bat => exact .pure bat
  | none => exact .undefined

theorem grows_vhdGetBatmap : Steps Handle.Grown vhdGetBatmap := by
  unfold vhdGetBatmap
  refine .bind .get fun s => .ite (.fail _) ?_
  cases s.batmap.filter s.validBatmap with
  | some batmap => exact .pure batmap
  | none =>
      refine .bind (.modify fun _ => ⟨rfl, Nat.le_refl _⟩) fun _ => .bind (.lift _) fun batmap => ?_
      exact .bind (.modify fun _ => ⟨rfl, Nat.le_refl _⟩) fun _ => .pure batmap

theorem grows_endOfData : Steps Handle.Grown endOfData := by
  have headers : Steps Handle.Grown endOfHeaders := by
    unfold endOfHeaders
    refine .bind .get fun s => .ite (.pure _) (.ite ?_ (.pure _))
    exact .bind grows_vhdGetBatmap fun _ => .pure _
  unfold endOfData
  refine .bind .get fun s => .ite (.pure _) (.bind headers fun _ => ?_)
  exact .bind grows_vhdGetBat fun _ => .bind grows_loadedBat fun _ => .pure _

theorem grows_allocateBlock (block : Nat) :
    Steps Handle.Grown (allocateBlock block) := by
  have table : Steps Handle.Grown vhdWriteBat := by
    unfold vhdWriteBat
    exact .bind .get fun _ => .bind grows_loadedBat fun _ => grows_vhdWrite _ _ _
  unfold allocateBlock allocateAt
  refine .bind grows_endOfData fun off => .bind .get fun s => ?_
  refine .bind (grows_vhdWrite _ _ _) fun _ => .bind grows_loadedBat fun bat => ?_
  exact .bind (.modify fun _ => ⟨rfl, Nat.le_refl _⟩) fun _ => table

theorem grows_batmapTest (block : Nat) : Steps Handle.Grown (batmapTest block) := by
  unfold batmapTest
  refine .bind .get fun s => .ite (.pure _) ?_
  cases s.batmap with
  | some batmap => exact .lift _
  | none => exact .pure _

theorem grows_writeData (block sec cnt : Nat) (buf : Nat → UInt8) :
    Steps Handle.Grown (writeData block sec cnt buf) := by
  unfold writeData
  refine .bind grows_loadedBat fun bat => .ite .undefined ?_
  refine .bind (.when (grows_allocateBlock block)) fun _ => ?_
  refine .bind grows_loadedBat fun bat => .bind .get fun s => .bind (grows_vhdWrite _ _ _) fun _ => ?_
  refine .bind (grows_batmapTest block) fun full => .ite (.pure _) ?_
  exact .bind .get fun _ => .bind (.lift _) fun _ => .pure _

theorem grows_vhdWriteBatmap (batmap : Batmap) :
    Steps Handle.Grown (vhdWriteBatmap batmap) := by
  have sectors : Steps Handle.Grown (writeBatmapSectors batmap) := by
    unfold writeBatmapSectors
    refine .bind .get fun s => .ite (.fail _) (.ite .undefined ?_)
    exact .bind (grows_vhdWrite _ _ _) fun _ => grows_vhdWrite _ _ _
  unfold vhdWriteBatmap
  exact .bind sectors.attempt fun _ => .pure _

theorem grows_writeMarksOf (block sec cnt : Nat) (map : Option (Nat → UInt8)) :
    Steps Handle.Grown (writeMarksOf block sec cnt map) := by
  have bitmap : ∀ map, Steps Handle.Grown (vhdWriteBitmap block map) := by
    intro map
    unfold vhdWriteBitmap
    refine .bind .get fun s => .ite (.fail _) (.bind grows_loadedBat fun bat => ?_)
    exact .ite (.fail _) (.ite (.fail _) (grows_vhdWrite _ _ _))
  have set : Steps Handle.Grown (batmapSet block) := by
    unfold batmapSet
    refine .bind .get fun s => ?_
    cases s.batmap with
    | some batmap =>
        refine .bind (.lift _) fun batmap => ?_
        exact .bind (.modify fun _ => ⟨rfl, Nat.le_refl _⟩) fun _ => grows_vhdWriteBatmap batmap
    | none => exact .undefined
  cases map with
  | none => exact .pure _
  | some map =>
      unfold writeMarksOf writeMarks
      refine .bind .get fun s => .bind (bitmap _) fun _ => .bind .get fun _ => ?_
      exact .when set

theorem grows_writeLoop (fuel sector secs : Nat) (buf : Nat → UInt8) :
    Steps Handle.Grown (writeLoop fuel sector secs buf) := by
  induction fuel generalizing sector secs buf with
  | zero => exact .undefined
  | succ fuel ih =>
      unfold writeLoop
      refine .bind .get fun s => .ite .undefined ?_
      refine .bind (grows_writeData _ _ _ _) fun map => ?_
      refine .bind (grows_writeMarksOf _ _ _ map).attempt fun marked => ?_
      cases marked with
      | error code => exact .pure _
      | ok _ => exact .ite (.pure _) (ih _ _ _)

end Blktap.Libvhd
