import Blktap.Tapdisk.IoOptimizeRuns

/-!
# The test filter (`tapdisk-filter.c`)

A fault is injected into an operation by setting its size to zero; a record of the filter has what was there, and the
operation points to the record. Checksums of sectors are kept to be compared with later reads.
-/

namespace Blktap.Tapdisk.Filter
open Optimize

def ioCmdPread : Int := 0
def ioCmdPwrite : Int := 1

def tdFaultRate : Nat := 5

def fiocbSize : Nat := 16

structure Fiocb where
  bytes : BitVec 64 := 0
  data : Data := .user 0
  deriving DecidableEq

inductive Check
  | pre
  | post
  deriving DecidableEq

structure Mismatch where
  write : Bool
  sec : Nat
  hash : BitVec 64
  sum : BitVec 64
  deriving DecidableEq

/-- A `struct tfilter`. `injects` and `checks` are the bits of its mode, `fiocbs` is the address of its records, and the
record that was freed last is the first one of `flist`. An entry of `dhash` without a time is `none`. -/
structure Tfilter where
  injects : Bool
  checks : Bool
  secs : Nat
  iocbs : Nat
  dhash : Nat → Option (BitVec 64)
  fiocbs : Nat
  records : Nat → Fiocb
  flist : List Nat
  warnings : List Mismatch

namespace Tfilter

def init (injects checks : Bool) (iocbs secs fiocbs : Nat) : Tfilter where
  injects := injects
  checks := checks
  secs := secs
  iocbs := iocbs
  dhash := fun _ => none
  fiocbs := fiocbs
  records := fun _ => {}
  flist := if injects then (List.range iocbs).reverse else []
  warnings := []

def address (f : Tfilter) (fio : Nat) : Nat := f.fiocbs + fio * fiocbSize

def has (f : Tfilter) (iop : Nat) : Bool := f.fiocbs ≤ iop && iop < f.fiocbs + f.iocbs * fiocbSize

def injectFault (f : Tfilter) (s : State) (io : Nat) : Tfilter × State :=
  match f.flist with
  | [] => (f, s)
  | fio :: flist =>
      let iocb := s.iocbs io
      ({ f with flist := flist, records := Function.update f.records fio ⟨iocb.nbytes, iocb.data⟩ },
        s.setIocb io { iocb with nbytes := 0, data := .user (f.address fio) })

def faultInjected (f : Tfilter) (s : State) (io : Nat) : Option Nat :=
  match (s.iocbs io).data with
  | .user iop => if f.has iop then some ((iop - f.fiocbs) / fiocbSize) else none
  | .opio _ => none

def recoverFault (f : Tfilter) (s : State) (io fio : Nat) : Tfilter × State :=
  ({ f with flist := fio :: f.flist, records := Function.update f.records fio {} },
    s.setIocb io { s.iocbs io with nbytes := (f.records fio).bytes, data := (f.records fio).data })

def chksum (words : BitVec 64 → BitVec 64) (buf : BitVec 64) : BitVec 64 :=
  (List.range 64).foldl (fun sum i => sum + words (buf + BitVec.ofNat 64 (8 * i))) 0

def checkHash (f : Tfilter) (write : Bool) (sec : Nat) (sum : BitVec 64) : Tfilter :=
  match f.dhash sec with
  | none => f
  | some hash => if hash ≠ sum then { f with warnings := f.warnings ++ [⟨write, sec, hash, sum⟩] } else f

def insertHash (f : Tfilter) (sec : Nat) (sum : BitVec 64) : Tfilter :=
  { f with dhash := Function.update f.dhash sec (some sum) }

def checkSector (f : Tfilter) (type : Check) (rw : Bool) (sec : Nat) (sum : BitVec 64) : Tfilter :=
  if f.secs ≤ sec then f
  else if rw then if type = .pre then f.insertHash sec sum else f.checkHash true sec sum
  else if type = .post then (f.checkHash false sec sum).insertHash sec sum
  else f

def sectorsOf (iocb : Iocb) : List (Nat × BitVec 64) :=
  (List.range ((iocb.nbytes.toNat + 511) / 512)).map fun i =>
    (((iocb.offset + BitVec.ofNat 64 (512 * i)) >>> 9).toNat, iocb.buf + BitVec.ofNat 64 (512 * i))

def checkData (f : Tfilter) (type : Check) (words : BitVec 64 → BitVec 64) (iocb : Iocb) : Tfilter :=
  (sectorsOf iocb).foldl
    (fun f (sec, buf) => f.checkSector type (iocb.opcode = ioCmdPwrite) sec (chksum words buf)) f

def draws (f : Tfilter) (random : Nat → Nat) (io : Nat) : Bool := f.injects && random io % 100 ≤ tdFaultRate

def filterIocb (random : Nat → Nat) (words : BitVec 64 → BitVec 64) (f : Tfilter) (s : State) (io : Nat) :
    Tfilter × State :=
  if f.draws random io then f.injectFault s io
  else if f.checks then (f.checkData .pre words (s.iocbs io), s)
  else (f, s)

def filterIocbs (random : Nat → Nat) (words : BitVec 64 → BitVec 64) (f : Tfilter) (s : State) (ios : List Nat) :
    Tfilter × State :=
  ios.foldl (fun (f, s) io => f.filterIocb random words s io) (f, s)

def filterEvent (words : BitVec 64 → BitVec 64) (f : Tfilter) (s : State) (io : Nat) : Tfilter × State :=
  match if f.injects then f.faultInjected s io else none with
  | some fio => f.recoverFault s io fio
  | none => if f.checks then (f.checkData .post words (s.iocbs io), s) else (f, s)

def filterEvents (words : BitVec 64 → BitVec 64) (f : Tfilter) (s : State) (ios : List Nat) : Tfilter × State :=
  ios.foldl (fun (f, s) io => f.filterEvent words s io) (f, s)

def faults (f : Tfilter) (random : Nat → Nat) (ios : List Nat) : List Nat :=
  (ios.filter (f.draws random)).take f.flist.length

end Tfilter
end Blktap.Tapdisk.Filter
