import Mathlib.Data.List.Basic
import Mathlib.Logic.Function.Basic
import Mathlib.Algebra.Ring.Int.Defs
import Mathlib.Algebra.Ring.Nat

/-!
# Merging and splitting of operations (`io-optimize.c`)

A `struct iocb` is known by its address, a `struct opio` by its number in the pool. A function returns `none` where it
would follow a null pointer.
-/

namespace Blktap.Tapdisk.Optimize

def eio : Int := 5
def enomem : Int := 12
def einval : Int := 22

inductive Data
  | user (pointer : Nat)
  | opio (op : Nat)
  deriving DecidableEq

structure Iocb where
  data : Data
  opcode : Int
  fildes : Int
  buf : BitVec 64
  nbytes : BitVec 64
  offset : BitVec 64
  deriving DecidableEq

structure Opio where
  buf : BitVec 64 := 0
  nbytes : BitVec 64 := 0
  offset : BitVec 64 := 0
  data : Data := .user 0
  iocb : Option Nat := none
  head : Option Nat := none
  next : Option Nat := none
  listHead : Option Nat := none
  listTail : Option Nat := none
  deriving DecidableEq

structure Event where
  obj : Nat
  res : BitVec 64
  deriving DecidableEq

structure State where
  iocbs : Nat → Iocb
  opios : Nat → Opio
  numOpios : Nat
  free : List Nat

namespace State

def init (numIocbs : Nat) (iocbs : Nat → Iocb) : State where
  iocbs := iocbs
  opios := fun _ => {}
  numOpios := numIocbs
  free := (List.range numIocbs).reverse

def setIocb (s : State) (io : Nat) (iocb : Iocb) : State := { s with iocbs := Function.update s.iocbs io iocb }

def setOpio (s : State) (op : Nat) (opio : Opio) : State := { s with opios := Function.update s.opios op opio }

def freeOpio (s : State) (op : Nat) : State := { s.setOpio op {} with free := op :: s.free }

def restoreIocb (s : State) (op io : Nat) : State :=
  s.setIocb io { s.iocbs io with data := (s.opios op).data, buf := (s.opios op).buf, nbytes := (s.opios op).nbytes }

def contiguousIocbs (l r : Iocb) : Bool :=
  l.fildes == r.fildes && l.offset + l.nbytes == r.offset && l.buf + l.nbytes == r.buf

def opioIocbInit (s : State) (io : Nat) : Option (State × Nat) :=
  match s.free with
  | [] => none
  | op :: free =>
      let iocb := s.iocbs io
      let opio : Opio := { s.opios op with
        buf := iocb.buf, nbytes := iocb.nbytes, offset := iocb.offset, data := iocb.data, iocb := some io,
        listHead := some op, listTail := some op }
      some (({ s with free := free }.setOpio op opio).setIocb io { iocb with data := .opio op }, op)

def opioGet (s : State) (io : Nat) : Option (State × Nat) :=
  match (s.iocbs io).data with
  | .opio op => some (s, op)
  | .user _ => s.opioIocbInit io

def link (s : State) (head io ophead opio : Nat) : Option State :=
  let s := s.setOpio opio { s.opios opio with head := some ophead }
  let s := s.setIocb head { s.iocbs head with nbytes := (s.iocbs head).nbytes + (s.iocbs io).nbytes }
  (s.opios ophead).listTail.map fun tail =>
    let s := s.setOpio tail { s.opios tail with next := some opio }
    s.setOpio ophead { s.opios ophead with listTail := some opio }

def mergeTail (s : State) (head io : Nat) : Option (State × Int) :=
  match s.opioGet head with
  | none => some (s, -enomem)
  | some (s, ophead) =>
      match s.opioGet io with
      | none => some (s, -enomem)
      | some (s, opio) => (s.link head io ophead opio).map fun s => (s, 0)

def merge (s : State) (head io : Nat) : Option (State × Int) :=
  if (s.iocbs head).opcode ≠ (s.iocbs io).opcode then some (s, -einval)
  else if !contiguousIocbs (s.iocbs head) (s.iocbs io) then some (s, -einval)
  else s.mergeTail head io

def mergeLoop (s : State) (last : Nat) : List Nat → Option (State × List Nat)
  | [] => some (s, [last])
  | io :: rest =>
      (s.merge last io).bind fun (s, err) =>
        if err = 0 then mergeLoop s last rest
        else (mergeLoop s io rest).map fun (s, queue) => (s, last :: queue)

def ioMerge (s : State) : List Nat → Option (State × List Nat)
  | [] => some (s, [])
  | first :: rest => s.mergeLoop first rest

def walk {β : Type} (report : Nat → BitVec 64 → β) : Nat → State → Option Nat → Option (State × List β)
  | _, s, none => some (s, [])
  | 0, _, some _ => none
  | bound + 1, s, some op =>
      let entry := s.opios op
      entry.iocb.bind fun io =>
        (walk report bound ((s.restoreIocb op io).freeOpio op) entry.next).map fun (s, reports) =>
          (s, report io entry.nbytes :: reports)

def expandIocb (s : State) (op : Nat) : Option (State × List Nat) := walk (fun io _ => io) s.numOpios s (some op)

def ioExpandIocbs (s : State) : List Nat → Option (State × List Nat)
  | [] => some (s, [])
  | io :: rest =>
      match (s.iocbs io).data with
      | .user _ => (s.ioExpandIocbs rest).map fun (s, queue) => (s, io :: queue)
      | .opio op =>
          (s.expandIocb op).bind fun (s, ios) => (s.ioExpandIocbs rest).map fun (s, queue) => (s, ios ++ queue)

def asInt (res : BitVec 64) : Int := (res.setWidth 32).toInt

def eventError (s : State) (event : Event) : Int :=
  if event.res = (s.iocbs event.obj).nbytes then 0
  else if asInt event.res < 0 then asInt event.res
  else -eio

def expandEvent (s : State) (event : Event) (op : Nat) : Option (State × List Event) :=
  let err := s.eventError event
  walk (fun io nbytes => { obj := io, res := if err ≠ 0 then BitVec.ofInt 64 err else nbytes }) s.numOpios s (some op)

def ioSplit (s : State) : List Event → Option (State × List Event)
  | [] => some (s, [])
  | event :: rest =>
      match (s.iocbs event.obj).data with
      | .user _ => (s.ioSplit rest).map fun (s, events) => (s, event :: events)
      | .opio op =>
          (s.expandEvent event op).bind fun (s, events) => (s.ioSplit rest).map fun (s, more) => (s, events ++ more)

end State

def Iocb.bytes (iocb : Iocb) : List (Int × Int × BitVec 64 × BitVec 64) :=
  (List.range iocb.nbytes.toNat).map fun i =>
    (iocb.fildes, iocb.opcode, iocb.offset + BitVec.ofNat 64 i, iocb.buf + BitVec.ofNat 64 i)

def Iocb.Valid (iocb : Iocb) : Prop := iocb.buf.toNat + iocb.nbytes.toNat < 2 ^ 63 ∧ ∃ pointer, iocb.data = .user pointer

end Blktap.Tapdisk.Optimize
