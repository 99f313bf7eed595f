import Blktap.Lib.Program
import Blktap.Libvhd.Batmap

/-!
# The state of the VHD driver (`block-vhd.c`)

The intrusive lists of the source are lists of request references, and its arrays of pointers into
`bitmap_list` and `vreq_list` hold indices.
-/

namespace Blktap.BlockVhd
open Lib Libvhd

def ebusy : Int := 16
def enospc : Int := 28

def vhdCacheSize : Nat := 32

def vhdReqsData : Nat := 352

inductive Fault
  /-- a failed `ASSERT` -/
  | assertion
  /-- the table of blocks is used at an index that was not loaded -/
  | slot (index : Nat)
  /-- any other access outside of an object -/
  | memory
  | division
  /-- a loop that makes no progress -/
  | endless
  deriving DecidableEq

inductive TdOp
  | read
  | write
  deriving DecidableEq

/-- `td_request_t`. The callback and its data, the image, the vreq and the segment number only travel
along: `id` stands for them. -/
structure TdRequest where
  op : TdOp := .read
  buf : Nat := 0
  sec : Nat := 0
  secs : Nat := 0
  id : Nat := 0
  deriving DecidableEq

def TdRequest.advance (treq : TdRequest) (secs : Nat) : TdRequest :=
  { treq with sec := (treq.sec + secs) % 2 ^ 64, secs := treq.secs - secs, buf := treq.buf + secs * 512 }

abbrev BitmapIndex := Fin vhdCacheSize

inductive RequestRef
  | data (i : Fin vhdReqsData)
  | bitmap (i : BitmapIndex)
  | bat
  | zero
  deriving DecidableEq

inductive VhdOp
  | batWrite
  | dataRead
  | dataWrite
  | bitmapRead
  | bitmapWrite
  | zeroBmWrite
  | redundantBmWrite
  deriving DecidableEq

structure RequestFlags where
  updateBat : Bool := false
  updateBitmap : Bool := false
  queued : Bool := false
  finished : Bool := false
  deriving DecidableEq

/-- `struct vhd_request`; `tx` names the bitmap whose transaction it points to. -/
structure VhdRequest where
  error : Int := 0
  op : VhdOp := .batWrite
  flags : RequestFlags := {}
  treq : TdRequest := {}
  tx : Option BitmapIndex := none
  deriving DecidableEq

structure VhdTransaction where
  error : Int := 0
  closed : Bool := false
  started : Nat := 0
  finished : Nat := 0
  live : Bool := false
  updateBat : Bool := false
  requests : List RequestRef := []
  deriving DecidableEq

structure VhdBitmap where
  blk : Nat := 0
  seqno : Nat := 0
  writePending : Bool := false
  readPending : Bool := false
  locked : Bool := false
  map : Nat → Bool := fun _ => false
  shadow : Nat → Bool := fun _ => false
  tx : VhdTransaction := {}
  queue : List RequestRef := []
  waiting : List RequestRef := []
  req : VhdRequest := {}

structure VhdBatState where
  bat : Bat := { entries := 0, len := 0, bat := fun _ => 0 }
  batmap : Option Batmap := none
  locked : Bool := false
  writeStarted : Bool := false
  pbwBlk : Nat := 0
  pbwOffset : Nat := 0
  req : VhdRequest := {}
  zeroReq : VhdRequest := {}
  batBuf : Nat → Nat := fun _ => 0

structure Tiocb where
  req : RequestRef
  write : Bool
  offset : Nat
  bytes : Nat
  deriving DecidableEq

inductive Answer
  | forward (treq : TdRequest)
  | complete (treq : TdRequest) (err : Int)
  deriving DecidableEq

/-- `struct vhd_state`. `io` are the tiocbs that have not completed, `answers` the requests answered
so far, `zeroSize` the size of the process's buffer of zeros, and `results` what the coming
synchronous writes of the step return. -/
structure VhdState where
  vhd : Vhd
  prealloc : Bool
  spp : Nat
  spb : Nat
  firstDb : Nat := 0
  nextDb : Nat := 0
  bat : VhdBatState := {}
  bmLru : Nat := 0
  bmSecs : Nat := 0
  bitmap : BitmapIndex → Option BitmapIndex := fun _ => none
  bitmapFree : List BitmapIndex := []
  bitmapList : BitmapIndex → VhdBitmap := fun _ => {}
  vreqFree : List RequestRef := ((List.finRange vhdReqsData).map .data).reverse
  vreqList : Fin vhdReqsData → VhdRequest := fun _ => {}
  padbmSize : Nat := 0
  zeroSize : Nat := 0
  io : List Tiocb := []
  answers : List Answer := []
  results : List Int := []

abbrev Driver := Program Fault VhdState

def assert (c : Bool) : Driver Unit := if c then pure () else throw .assertion

def VhdState.request (s : VhdState) : RequestRef → VhdRequest
  | .data i => s.vreqList i
  | .bitmap i => (s.bitmapList i).req
  | .bat => s.bat.req
  | .zero => s.bat.zeroReq

def VhdState.setBitmap (s : VhdState) (i : BitmapIndex) (f : VhdBitmap → VhdBitmap) : VhdState :=
  { s with bitmapList := Function.update s.bitmapList i (f (s.bitmapList i)) }

def VhdState.setTx (s : VhdState) (i : BitmapIndex) (f : VhdTransaction → VhdTransaction) : VhdState :=
  s.setBitmap i fun bm => { bm with tx := f bm.tx }

def VhdState.setRequest (s : VhdState) (ref : RequestRef) (f : VhdRequest → VhdRequest) : VhdState :=
  match ref with
  | .data i => { s with vreqList := Function.update s.vreqList i (f (s.vreqList i)) }
  | .bitmap i => s.setBitmap i fun bm => { bm with req := f bm.req }
  | .bat => { s with bat := { s.bat with req := f s.bat.req } }
  | .zero => { s with bat := { s.bat with zeroReq := f s.bat.zeroReq } }

def nextIn {α : Type} [DecidableEq α] (x : α) : List α → Option α
  | a :: b :: rest => if a = x then some b else nextIn x (b :: rest)
  | _ => none

def VhdState.hasNext (s : VhdState) (ref : RequestRef) : Bool :=
  (List.finRange vhdCacheSize).any fun i =>
    let bm := s.bitmapList i
    (nextIn ref bm.tx.requests).isSome || (nextIn ref bm.queue).isSome ||
      (nextIn ref bm.waiting).isSome

def batEntry (index : Nat) : Driver Nat := do
  let s ← get
  if index < s.bat.bat.entries then pure (s.bat.bat.bat index) else throw (.slot index)

def setBatEntry (index value : Nat) : Driver Unit := do
  let s ← get
  if index < s.bat.bat.entries then
    set { s with bat := { s.bat with
      bat := { s.bat.bat with bat := Function.update s.bat.bat.bat index (value % 2 ^ 32) } } }
  else throw (.slot index)

def quotient (sector : Nat) : Driver Nat := do
  let s ← get
  if s.spb = 0 then throw .division else pure (sector / s.spb)

def blockOf (sector : Nat) : Driver Nat := do
  return (← quotient sector) % 2 ^ 32

def remainder (sector : Nat) : Driver Nat := do
  let s ← get
  if s.spb = 0 then throw .division else pure (sector % s.spb)

def testBatmap (blk : Nat) : Driver Bool := do
  let s ← get
  match s.bat.batmap with
  | none => pure false
  | some batmap =>
      match batmap.test blk with
      | .ok full => pure full
      | _ => throw .memory

def setBatmap (blk : Nat) : Driver Unit := do
  let s ← get
  match s.bat.batmap with
  | none => pure ()
  | some batmap =>
      match batmap.set blk with
      | .ok batmap => set { s with bat := { s.bat with batmap := some batmap } }
      | _ => throw .memory

end Blktap.BlockVhd
