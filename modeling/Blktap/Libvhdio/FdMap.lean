import Mathlib.Logic.Function.Basic

/-!
# Descriptors of the preload library (`libvhdio.c`)

A descriptor of a VHD is one of `/dev/null` that `_vhd_map` maps to a context. Contexts are numbered as they are
allocated, VHD objects are named by their inodes. A negative descriptor is a number behind every table.
-/

namespace Blktap.Libvhdio

def enoent : Nat := 2
def enomem : Nat := 12
def eacces : Nat := 13
def einval : Nat := 22

/-- `refcnt` is 0 for an object that is not in `_vhd_objects`. `frees`, `opens` and `closes` count how often a context
was freed and an image opened and closed. -/
structure Vhdio where
  mapSize : Nat
  map : Nat → Option Nat
  users : Nat → Nat
  obj : Nat → Nat
  refcnt : Nat → Nat
  rdonly : Nat → Bool
  contexts : Nat
  frees : Nat → Nat
  opens : Nat → Nat
  closes : Nat → Nat

structure Opening where
  calloc : Bool
  guess : Nat
  skip : Bool
  stat : Except Nat Nat
  writes : Bool
  access : Nat
  malloc : Bool
  vhdOpen : Nat
  partition : Nat
  badFlags : Bool
  devNull : Option Nat
  std : Option Nat

def openVhd (o : Opening) (ino : Nat) (lib : Vhdio) : Vhdio × Except Nat Nat :=
  if o.access ≠ 0 ∧ (o.access ≠ eacces ∨ o.writes) then (lib, .error o.access)
  else if !o.malloc then (lib, .error enomem)
  else if o.vhdOpen ≠ 0 then (lib, .error o.vhdOpen)
  else
    ({ lib with
      refcnt := Function.update lib.refcnt ino 1
      rdonly := Function.update lib.rdonly ino (o.access ≠ 0)
      opens := Function.update lib.opens ino (lib.opens ino + 1) }, .ok ino)

def getVhd (o : Opening) (lib : Vhdio) : Vhdio × Except Nat Nat :=
  match o.stat with
  | .error code => (lib, .error code)
  | .ok ino =>
      if lib.refcnt ino = 0 then openVhd o ino lib
      else if o.writes && lib.rdonly ino then (lib, .error eacces)
      else ({ lib with refcnt := Function.update lib.refcnt ino (lib.refcnt ino + 1) }, .ok ino)

def putVhd (ino : Nat) (lib : Vhdio) : Vhdio :=
  let refcnt := lib.refcnt ino - 1
  { lib with
    refcnt := Function.update lib.refcnt ino refcnt
    closes := if refcnt = 0 then Function.update lib.closes ino (lib.closes ino + 1) else lib.closes }

def ioVhdOpen (o : Opening) (lib : Vhdio) : Vhdio × Except Nat Nat :=
  if o.guess ≠ 0 then (lib, .error o.guess)
  else if o.skip then (lib, .error einval)
  else
    match getVhd o lib with
    | (lib, .error code) => (lib, .error code)
    | (lib, .ok ino) =>
        if o.partition ≠ 0 then (putVhd ino lib, .error o.partition) else (lib, .ok ino)

def Vhdio.create (lib : Vhdio) (ino : Nat) : Vhdio :=
  { lib with contexts := lib.contexts + 1, obj := Function.update lib.obj lib.contexts ino }

def Vhdio.mapped (lib : Vhdio) (fd ctx : Nat) : Vhdio :=
  { lib with
    users := Function.update lib.users ctx (lib.users ctx + 1)
    map := Function.update lib.map fd (some ctx) }

def mapSet (fd ctx : Nat) (lib : Vhdio) : Option Vhdio :=
  if lib.mapSize ≤ fd then none else some (lib.mapped fd ctx)

def Vhdio.unmapped (lib : Vhdio) (fd ctx : Nat) : Vhdio :=
  { lib with
    map := Function.update lib.map fd none
    users := Function.update lib.users ctx (lib.users ctx - 1) }

def Vhdio.free (lib : Vhdio) (ctx : Nat) : Vhdio :=
  { lib with frees := Function.update lib.frees ctx (lib.frees ctx + 1) }

def mapClear (fd : Nat) (lib : Vhdio) : Vhdio :=
  if lib.mapSize ≤ fd then lib
  else
    match lib.map fd with
    | none => lib
    | some ctx =>
        let lib := lib.unmapped fd ctx
        if lib.users ctx = 0 then (putVhd (lib.obj ctx) lib).free ctx else lib

inductive Opened
  | failed
  | std (fd : Nat)
  | vhd (fd ctx : Nat)
  deriving DecidableEq

def Opened.ofStd : Option Nat → Opened
  | some fd => .std fd
  | none => .failed

def ioOpen (o : Opening) (lib : Vhdio) : Option (Vhdio × Opened) :=
  if !o.calloc then some (lib, .failed)
  else
    match ioVhdOpen o lib with
    | (lib, .error code) =>
        if code = einval ∨ code = enoent then some (lib, .ofStd o.std) else some (lib, .failed)
    | (lib, .ok ino) =>
        if o.badFlags then some (putVhd ino lib, .failed)
        else
          match o.devNull with
          | none => some (putVhd ino lib, .failed)
          | some fd =>
              (mapSet fd lib.contexts (lib.create ino)).map fun lib' => (lib', .vhd fd lib.contexts)

def dupWrapper (old : Nat) (result : Option Nat) (lib : Vhdio) : Option Vhdio :=
  if lib.mapSize ≤ old then none
  else
    match result, lib.map old with
    | some new, some ctx => mapSet new ctx lib
    | _, _ => some lib

def dup (old : Nat) (result : Option Nat) (lib : Vhdio) : Option Vhdio := dupWrapper old result lib

def dup2 (old new : Nat) (works : Bool) (lib : Vhdio) : Option Vhdio :=
  dupWrapper old (if works then some new else none) lib

def dup3 (old new : Nat) (works : Bool) (lib : Vhdio) : Option Vhdio :=
  dupWrapper old (if works then some new else none) lib

def close (fd : Nat) (lib : Vhdio) : Vhdio := mapClear fd lib

inductive File
  | other
  | vhd (ctx : Nat)
  deriving DecidableEq

def File.ctx? : File → Option Nat
  | other => none
  | vhd ctx => some ctx

structure Process where
  lib : Vhdio
  files : Nat → Option File

inductive Call
  | open (o : Opening)
  | dup (old : Nat) (result : Option Nat)
  | dup2 (old new : Nat) (works : Bool)
  | dup3 (old new : Nat) (works : Bool)
  | close (fd : Nat)

def Process.Possible (p : Process) : Call → Prop
  | .open o => (∀ fd, o.devNull = some fd → p.files fd = none) ∧ ∀ fd, o.std = some fd → p.files fd = none
  | .dup old result => ∀ new, result = some new → p.files old ≠ none ∧ p.files new = none
  | .dup2 old _ works => works = true → p.files old ≠ none
  | .dup3 old new works => works = true → p.files old ≠ none ∧ old ≠ new
  | .close _ => True

def Process.opened (lib : Vhdio) (files : Nat → Option File) : Opened → Process
  | .failed => { lib, files }
  | .std fd => { lib, files := Function.update files fd (some .other) }
  | .vhd fd ctx => { lib, files := Function.update files fd (some (.vhd ctx)) }

def dupFiles (files : Nat → Option File) (old : Nat) : Option Nat → Nat → Option File
  | some new => Function.update files new (files old)
  | none => files

def Process.step (p : Process) : Call → Option Process
  | .open o => (ioOpen o p.lib).map fun (lib, opened) => .opened lib p.files opened
  | .dup old result =>
      (Libvhdio.dup old result p.lib).map fun lib => { lib, files := dupFiles p.files old result }
  | .dup2 old new works => (Libvhdio.dup2 old new works p.lib).map fun lib =>
      { lib, files := dupFiles p.files old (if works then some new else none) }
  | .dup3 old new works => (Libvhdio.dup3 old new works p.lib).map fun lib =>
      { lib, files := dupFiles p.files old (if works then some new else none) }
  | .close fd => some { lib := Libvhdio.close fd p.lib, files := Function.update p.files fd none }

end Blktap.Libvhdio
