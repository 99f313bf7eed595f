import Blktap.Libvhd.Create

/-!
# A creation that fails (`out` in `__vhd_create`)
-/

namespace Blktap.Libvhd
open Lib Action

inductive Node
  | regular (file : File)
  | block (device : File)

def Node.isBlock : Node → Bool
  | regular _ => false
  | block _ => true

def Node.file : Node → File
  | regular file => file
  | block device => device

def Node.written (node : Node) (file : File) : Node :=
  match node with
  | regular _ => .regular file
  | block _ => .block file

/-- The name, and which of the calls for it fail: `opens` is for `open`, `tested` for `strdup` and
`vhd_test_file_fixed`, and `faults` for all later steps. -/
structure Place where
  node : Option Node
  opens : Outcome Unit
  tested : Outcome Unit
  faults : List (Option Fault)
  unlinks : Bool

def Place.opened (place : Place) : Node :=
  match place.node with
  | some (.block device) => .block device
  | _ => .regular .empty

def Place.target (place : Place) : Target :=
  { isBlock := place.opened.isBlock, device := place.opened.file, faults := place.faults }

def Request.checked (r : Request) : Outcome DiskType :=
  match diskType? r.type with
  | none => .error (-einval)
  | some type =>
      if type = .diff ∧ r.parent.isNone = true then .error (-einval)
      else if 1023 ≤ r.nameLength then .error (-enametoolong)
      else if r.bytes ≠ 0 ∧ r.mbytes ≠ 0 ∧ r.mbytes < r.bytes then .error (-einval)
      else .ok type

def Place.make (place : Place) (stamp : Stamp) (r : Request) (type : DiskType) : Outcome Unit × File :=
  match place.tested with
  | .ok () =>
      let made := (createContents r >>= createEnds r stamp) (vhdInitializeFooter place.target type r.size)
      (made.1, made.2.file)
  | failed => (failed, place.opened.file)

def vhdClose (_isBlock : Bool) : Bool := false

def Place.out (place : Place) (made : Outcome Unit × File) : Outcome Unit × Option Node :=
  let node := place.opened.written made.2
  match made.1 with
  | .error code => (.error code, if !vhdClose node.isBlock && place.unlinks then none else some node)
  | result => (result, some node)

def Place.vhdCreate (place : Place) (stamp : Stamp) (r : Request) : Outcome Unit × Option Node :=
  match r.checked, place.opens with
  | .ok type, .ok () => place.out (place.make stamp r type)
  | .ok _, failed => (failed, place.node)
  | .error code, _ => (.error code, place.node)
  | .undefined, _ => (.undefined, place.node)

structure Spares (before : Option Node) (result : Outcome Unit × Option Node) : Prop where
  device : ∀ device, before = some (.block device) → ∃ device', result.2 = some (.block device')
  leftover : ∀ code file, result.1 = .error code → result.2 = some (.regular file) →
    before = some (.regular file) ∨ ∀ ctx, vhdOpen file ≠ .ok ctx

def Place.Fails (place : Place) (stamp : Stamp) (r : Request) (file : File) : Prop :=
  ∃ type code, r.checked = .ok type ∧ place.opens = .ok () ∧ place.make stamp r type = (.error code, file)

def Place.Spared (place : Place) (file : File) : Prop :=
  match place.opened with
  | .block _ => place.unlinks = false
  | .regular _ => place.unlinks = true ∨ place.node = some (.regular file) ∨ ∀ ctx, vhdOpen file ≠ .ok ctx

variable {place : Place} {stamp : Stamp} {r : Request}

def smallDevice : Place where
  node := some (.block ⟨512, fun _ => 0⟩)
  opens := .ok ()
  tested := .ok ()
  faults := []
  unlinks := true

end Blktap.Libvhd
