import Blktap.BlockVhd.Finish

/-!
# Opening an image and the steps of its driver

`vhd_open` of the library has given the context. The footer that a strict open overwrites is not
part of the state.
-/

namespace Blktap.BlockVhd
open Lib Libvhd

structure DriverContext extends Context where
  hdrVer : Nat

structure OpenFlags where
  rdonly : Bool
  prealloc : Bool
  query : Bool
  deriving DecidableEq

def vhdCheckVersion (ctx : Context) : Outcome Unit :=
  if ctx.tapdisk ∧ 0x00010003 < ctx.crtrVer then .error (-einval) else .ok ()

/-- The loop of `find_next_free_block`; the sum wraps with 32 bits. -/
def nextFreeBlock (s : VhdState) (bat : Bat) (eom : Nat) : Nat :=
  (List.range bat.entries).foldl
    (fun next i =>
      if bat.bat i ≠ ddBlkUnused ∧ next ≤ bat.bat i then (bat.bat i + s.spb + s.bmSecs) % 2 ^ 32
      else next)
    (secsRoundUp eom)

def findNextFreeBlock (ctx : Context) (s : VhdState) (bat : Bat) : Outcome VhdState := do
  let eom ← vhdEndOfHeaders ctx
  let nextDb := secsRoundUp eom
  let gap := if (nextDb + s.bmSecs) % s.spp = 0 then 0 else s.spp - (nextDb + s.bmSecs) % s.spp
  .ok { s with firstDb := nextDb + gap, nextDb := nextFreeBlock s bat eom }

def batmapOf (ctx : Context) (rdonly : Bool) : Outcome (Option Batmap) :=
  if ctx.hasBatmap then
    match vhdReadBatmap ctx with
    | .ok batmap => .ok (some batmap)
    | .error code => if rdonly then .ok none else .error code
    | .undefined => .undefined
  else .ok none

def vhdInitializeBat (ctx : Context) (flags : OpenFlags) (s : VhdState) : Outcome VhdState := do
  let bat ← vhdReadBat ctx.toVhd
  let s ← (if flags.rdonly then .ok s else findNextFreeBlock ctx s bat)
  let batmap ← batmapOf ctx flags.rdonly
  .ok { s with bat := { s.bat with bat, batmap } }

/-- The size of `padbm_buf`; the source divides sectors by the bytes of a page. -/
def paddedBitmapSize (bmSecs pageSize : Nat) : Nat :=
  bmSecs / pageSize * pageSize + if bmSecs % pageSize = 0 then 0 else pageSize

/-- `vhd_initialize_dynamic_disk`; the buffer of the padded bitmap is filled from `bm_size` bytes
before its end on. -/
def vhdInitializeDynamicDisk (ctx : DriverContext) (flags : OpenFlags) (pageSize : Nat)
    (s : VhdState) : Outcome VhdState :=
  if ctx.hdrVer ≠ 0x00010000 then .error (-einval)
  else
    let spb := ctx.blockSize / 512
    let bmSecs := secsRoundUpNoZero (spb / 8)
    let padbmSize := paddedBitmapSize bmSecs pageSize
    if padbmSize < bmSecs * 512 then .undefined
    else
      let s := { s with spp := pageSize / 512, spb, bmSecs, padbmSize }
      if flags.query then .ok s
      else do
        let s ← vhdInitializeBat ctx.toContext flags s
        .ok { s with bitmapFree := (List.finRange vhdCacheSize).reverse }

def vhdInitialize (flags : OpenFlags) (pageSize zeroSize : Nat) : Nat :=
  if zeroSize ≠ 0 then zeroSize
  else 2 * pageSize + if flags.prealloc then 2 ^ vhdBlockShift else 0

def vhdOpen (ctx : DriverContext) (flags : OpenFlags) (pageSize zeroSize : Nat) :
    Outcome VhdState := do
  vhdCheckVersion ctx.toContext
  let s : VhdState :=
    { vhd := ctx.toVhd, prealloc := flags.prealloc, spp := 1, spb := 1
      zeroSize := vhdInitialize flags pageSize zeroSize }
  if ctx.typeDynamic then vhdInitializeDynamicDisk ctx flags pageSize s else .ok s

def infoSize (vhd : Vhd) : Nat := vhd.currSize / 512

def tapdiskImageCheckTdRequest (size : Nat) (rdonly : Bool) (treq : TdRequest) : Outcome Unit :=
  if treq.op = .write ∧ rdonly then .error (-1)
  else if treq.secs = 0 ∨ size < (treq.sec + treq.secs) % 2 ^ 64 then .error (-einval)
  else .ok ()

inductive Event
  /-- `td_queue_read` or `td_queue_write` hands on an admitted request; `results` is what
  synchronous writes return. -/
  | queue (treq : TdRequest) (results : List Int)
  /-- a tiocb completes -/
  | complete (ref : RequestRef) (err : Int) (logged : Bool) (data : Nat → Bool) (results : List Int)

def runEvent : Event → Driver Unit
  | .queue treq results => do
      modify fun s => { s with results }
      match treq.op with
      | .read => vhdQueueRead treq
      | .write => vhdQueueWrite treq
  | .complete ref err logged data results => do
      modify fun s => { s with results, io := s.io.eraseP fun tiocb => tiocb.req = ref }
      vhdComplete ref err logged data

def execute (s : VhdState) (event : Event) : Except Fault VhdState :=
  (runEvent event s).map Prod.snd

def step (s : VhdState) (event : Event) : Option VhdState := (execute s event).toOption

def possible (rdonly : Bool) (s : VhdState) : Event → Prop
  | .queue treq _ =>
      treq.sec < 2 ^ 64 ∧ treq.secs < 2 ^ 31 ∧
        tapdiskImageCheckTdRequest (infoSize s.vhd) rdonly treq = .ok ()
  | .complete ref _ _ _ _ => ∃ tiocb ∈ s.io, tiocb.req = ref

end Blktap.BlockVhd
