import Blktap.Lib.Outcome
import Blktap.Lib.Scanf

/-!
# Scanning a volume group (`lvm-util.c`)
-/

namespace Blktap.Lvm
open Lib Scanf

def einval : Int := 22
def enomem : Int := 12
def enoent : Int := 2
def eexist : Int := 17
def enametoolong : Int := 36

def maxNameSize : Nat := 256

structure Pv where
  name : Text
  start : Nat
  deriving DecidableEq

inductive SegType
  | linear
  | unknown
  deriving DecidableEq

structure LvSegment where
  type : SegType
  device : Text
  peStart : Nat
  peSize : Nat
  deriving DecidableEq

structure Lv where
  name : Text
  size : Nat
  segments : Nat
  firstSegment : LvSegment
  deriving DecidableEq

/-- `struct vg`: each array is a null pointer or has been allocated, the one of the logical volumes with those that have
been filled in -/
structure Vg where
  name : Text
  extentSize : Nat
  pvCnt : Int
  pvs : Option (List Pv)
  lvCnt : Int
  lvs : Option (List Lv)
  deriving DecidableEq

def Vg.zero : Vg := ⟨[], 0, 0, none, 0, none⟩

def readLines (scan : Text) : List Line := lines 1023 scan

structure VgsRow where
  name : Text
  size : Nat
  lvs : Int
  pvs : Int
  pvname : Text
  pvStart : Nat

def scanVgs (line : Text) : Option VgsRow := do
  let (name, t) ← word 255 line
  let (size, t) ← unsigned t
  let (lvs, t) ← signed32 t
  let (pvs, t) ← signed32 t
  let (pvname, t) ← word 255 t
  let (pvStart, _) ← unsigned t
  some { name, size, lvs, pvs, pvname, pvStart }

structure LvsRow where
  name : Text
  size : Nat
  type : Text
  segs : Nat
  segStart : Nat
  peSize : Nat
  devices : Text

def scanLvsRow (line : Text) : Option LvsRow := do
  let (name, t) ← word 255 line
  let (size, t) ← unsigned t
  let (type, t) ← word 31 t
  let (segs, t) ← unsigned32 t
  let (segStart, t) ← unsigned t
  let (peSize, t) ← unsigned t
  let (devices, _) ← word 1023 t
  some { name, size, type, segs, segStart, peSize, devices }

def copyName (src : Text) : Outcome Text := if maxNameSize - 1 ≤ src.length then .error (-enametoolong) else .ok src

/-- The loop of `lvm_parse_pv` over the entries from some place on; an entry behind the array is not defined. -/
def placePv (name : Text) (start : Nat) : Nat → List Pv → Outcome (List Pv)
  | 0, _ => .error (-enomem)
  | _ + 1, [] => .undefined
  | n + 1, pv :: pvs =>
      if pv.name = [] then copyName name >>= fun name => .ok (⟨name, start⟩ :: pvs)
      else if pv.name = name then .error (-eexist)
      else placePv name start n pvs >>= fun pvs => .ok (pv :: pvs)

def parsePv (pvs : Option (List Pv)) (row : VgsRow) : Outcome (List Pv) :=
  match pvs with
  | none =>
      if row.pvs < 0 then .error (-enomem)
      else if row.pvs = 0 then .error (-enoent)
      else placePv row.pvname row.pvStart row.pvs.toNat (List.replicate row.pvs.toNat ⟨[], 0⟩)
  | some pvs => if row.pvs ≤ 0 then .error (-enoent) else placePv row.pvname row.pvStart row.pvs.toNat pvs

def openLoop (vgname : Text) : List Line → Option (VgsRow × List Pv) → Outcome (Option (VgsRow × List Pv))
  | [], last => .ok last
  | line :: rest, last =>
      match scanVgs line.text with
      | none => .error (-einval)
      | some row =>
          if row.name ≠ vgname then .error (-einval)
          else parsePv (last.map Prod.snd) row >>= fun pvs =>
            if line.ended then openLoop vgname rest (some (row, pvs)) else .ok (some (row, pvs))

def checkPvs : Nat → List Pv → Outcome Unit
  | 0, _ => .ok ()
  | _ + 1, [] => .undefined
  | n + 1, pv :: pvs => if pv.name = [] then .error (-einval) else checkPvs n pvs

/-- `lvm_open_vg` up to its end. Without a line the name is empty, and the number of physical volumes is not set. -/
def openVg (vgname scan : Text) : Outcome Vg :=
  openLoop vgname (readLines scan) none >>= fun last =>
    match last with
    | none => if vgname ≠ [] then .error (-einval) else .undefined
    | some (row, pvs) =>
        checkPvs row.pvs.toNat pvs >>= fun _ =>
          if row.lvs < 0 then .error (-enomem) else .ok ⟨row.name, row.size, row.pvs, some pvs, row.lvs, some []⟩

def lvmOpenVg (vgname scan : Text) : Option (Vg × Int) :=
  match openVg vgname scan with
  | .ok vg => some (vg, 0)
  | .error code => some (.zero, code)
  | .undefined => none

def blanked (devices : Text) : Text := devices.map fun c => if c = ',' ∨ c = '(' ∨ c = ')' then ' ' else c

def parseLvDevices (vg : Vg) (devices : Text) : Outcome (Text × Nat) :=
  match (word 255 (blanked devices)).bind fun (device, t) => (unsigned t).map fun (start, _) => (device, start) with
  | none => .error (-einval)
  | some (device, start) =>
      let peStart := ((((vg.pvs.getD []).take vg.pvCnt.toNat).find? (·.name = device)).map Pv.start).getD (2 ^ 64 - 1)
      if peStart = 2 ^ 64 - 1 then .error (-einval)
      else .ok (device, (start * vg.extentSize + peStart) % 2 ^ 64)

def segType (type : Text) : SegType := if type = "linear".toList then .linear else .unknown

def scanLoop (vg : Vg) : List Line → List Lv → Outcome (List Lv)
  | [], lvs => .ok lvs
  | line :: rest, lvs =>
      if vg.lvCnt ≤ lvs.length then .ok lvs
      else
        match scanLvsRow line.text with
        | none => .error (-einval)
        | some row =>
            if row.segStart ≠ 0 then if line.ended then scanLoop vg rest lvs else .error (-einval)
            else
              parseLvDevices vg row.devices >>= fun (device, peStart) =>
                copyName row.name >>= fun name =>
                  let lv := ⟨name, row.size, row.segs, segType row.type, device, peStart, row.peSize⟩
                  if line.ended then scanLoop vg rest (lvs ++ [lv]) else .error (-einval)

def lvmScanVg (vgname vgs lvs : Text) : Option (Vg × Int) :=
  match lvmOpenVg vgname vgs with
  | none => none
  | some (vg, err) =>
      if err ≠ 0 then some (vg, err)
      else
        match scanLoop vg (readLines lvs) [] with
        | .ok list => some ({ vg with lvs := some list, lvCnt := list.length }, 0)
        | .error code => some (.zero, code)
        | .undefined => none

end Blktap.Lvm
