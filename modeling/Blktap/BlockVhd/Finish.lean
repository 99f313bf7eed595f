import Blktap.BlockVhd.Queue

/-!
# Completions (`block-vhd.c`)
-/

namespace Blktap.BlockVhd
open Lib Libvhd Program

def signalCompletion (list : List RequestRef) (error : Int) : Driver Unit :=
  list.forM fun ref => do
    let s ← get
    let r := s.request ref
    tdCompleteRequest r.treq (if error ≠ 0 then error else r.error)
    freeVhdRequest ref

def setShadow (i : BitmapIndex) (sec secs : Nat) : Driver Unit :=
  modify fun s => s.setBitmap i fun bm =>
    { bm with shadow := fun n => (sec ≤ n && n < sec + secs) || bm.shadow n }

def joinQueued (i : BitmapIndex) (ref : RequestRef) : Driver Unit := do
  modify fun s => s.setRequest ref fun r => { r with flags := { r.flags with queued := false } }
  addToTransaction i ref
  let s ← get
  let r := s.request ref
  when (r.flags.finished = true) do
    modify fun s => s.setTx i fun tx => { tx with finished := tx.finished + 1 }
    when (r.error = 0) do
      let sec ← remainder r.treq.sec
      setShadow i sec r.treq.secs

def startNewBitmapTransaction (finishData : BitmapIndex → Driver Unit) (i : BitmapIndex) :
    Driver Unit := do
  let s ← get
  let queue := (s.bitmapList i).queue
  when (queue ≠ []) do
    modify fun s => s.setBitmap i fun bm => { bm with queue := [] }
    let entry ← batEntry (s.bitmapList i).blk
    when (entry = ddBlkUnused) (modify fun s => s.setTx i fun tx => { tx with error := -eio })
    queue.forM (joinQueued i)
    let s ← get
    when ((s.bitmapList i).tx.started ≠ 0 ∧ (s.bitmapList i).tx.completed = true) (finishData i)

def finishBatTransaction (i : BitmapIndex) : Driver Unit := do
  let s ← get
  when (s.bat.locked = true ∧ s.bat.pbwBlk = (s.bitmapList i).blk) do
    if s.bat.req.error ≠ 0 ∧ (s.bitmapList i).tx.live = true then
      modify fun s => s.setTx i fun tx => { tx with closed := true }
    else do
      unlockBat
      initBat

def finishDataWith (finishBitmap : BitmapIndex → Int → Driver Unit) (i : BitmapIndex) :
    Driver Unit := do
  modify fun s => s.setTx i fun tx => { tx with closed := true }
  let s ← get
  if (s.bitmapList i).tx.error = 0 then scheduleBitmapWrite (s.bitmapList i).blk
  else finishBitmap i 0

def settleShadow (i : BitmapIndex) : Driver Unit := do
  let s ← get
  if (s.bitmapList i).tx.error ≠ 0 then
    modify fun s => s.setBitmap i fun bm => { bm with shadow := bm.map }
  else do
    modify fun s => s.setBitmap i fun bm => { bm with map := bm.shadow }
    let full ← testBatmap (s.bitmapList i).blk
    let s ← get
    when (full = false ∧ s.bitmapFull (s.bitmapList i) = true) (setBatmap (s.bitmapList i).blk)

def unlockUnused (i : BitmapIndex) : Driver Unit := do
  let s ← get
  when ((s.bitmapList i).inUse = false) (unlockBitmap i)

/-- `finish_bitmap_transaction`. The three functions call each other; the fuel is the depth to which
they may do so. -/
def finishBitmapTransactionFuel : Nat → BitmapIndex → Int → Driver Unit
  | 0, _, _ => throw .endless
  | fuel + 1, i, error => do
      modify fun s => s.setTx i fun tx =>
        { tx with error := if tx.error ≠ 0 then tx.error else error }
      let s ← get
      if s.prealloc = false ∧ (s.bitmapList i).tx.updateBat = true then do
        -- the write of the table is still awaited
        assert ((s.bitmapList i).blk == s.bat.pbwBlk)
        assert s.bat.writeStarted
        modify fun s => s.setRequest .bat fun r => { r with tx := some i }
      else do
        settleShadow i
        signalCompletion (s.bitmapList i).tx.requests (s.bitmapList i).tx.error
        modify fun s => s.setTx i fun _ => {}
        startNewBitmapTransaction (finishDataWith (finishBitmapTransactionFuel fuel)) i
        unlockUnused i
        finishBatTransaction i

def finishBitmapTransaction (i : BitmapIndex) (error : Int) : Driver Unit :=
  finishBitmapTransactionFuel 2 i error

def finishDataTransaction (i : BitmapIndex) : Driver Unit := finishDataWith finishBitmapTransaction i

def finishWhenCompleted (j i : BitmapIndex) : Driver Unit := do
  let s ← get
  when ((s.bitmapList j).tx.completed = true) (finishDataTransaction i)

def recordBatWrite (i : BitmapIndex) (error : Int) : Driver Unit := do
  let s ← get
  if error = 0 then do
    setBatEntry s.bat.pbwBlk s.bat.pbwOffset
    modify fun s => { s with nextDb := s.bat.pbwOffset + s.spb + s.bmSecs }
  else modify fun s => s.setTx i fun tx => { tx with error }

def settleBatWrite (ref : RequestRef) (i : BitmapIndex) (error : Int) : Driver Unit := do
  let s ← get
  if s.prealloc = true then do
    modify fun s => s.setTx i fun tx =>
      { tx with finished := tx.finished + 1, requests := tx.requests.erase ref }
    finishWhenCompleted i i
  else do
    modify fun s => s.setTx i fun tx => { tx with updateBat := false }
    when (s.bat.req.tx ≠ none) (finishBitmapTransaction i error)

def finishBatWrite (ref : RequestRef) (error : Int) : Driver Unit := do
  let s ← get
  match s.getBitmap s.bat.pbwBlk with
  | none => throw .assertion
  | some i => do
      assert (s.bitmapList i).valid
      assert (s.bat.locked && s.bat.writeStarted)
      assert (s.bitmapList i).tx.live
      recordBatWrite i error
      settleBatWrite ref i error
      finishBatTransaction i

def settleZeroBmWrite (j : BitmapIndex) (error : Int) : Driver Unit :=
  if error ≠ 0 then do
    unlockBat
    initBat
    modify fun s => s.setTx j fun tx => { tx with error, updateBat := false }
  else scheduleBatWrite

def finishZeroBmWrite (ref : RequestRef) (error : Int) : Driver Unit := do
  let s ← get
  let blk ← blockOf (s.request ref).treq.sec
  assert s.bat.locked
  assert (s.bat.pbwBlk == blk)
  match s.getBitmap blk, (s.request ref).tx with
  | some i, some j => do
      assert ((s.bitmapList i).valid && (s.bitmapList i).locked)
      modify fun s => s.setTx j fun tx =>
        { tx with finished := tx.finished + 1, requests := tx.requests.erase ref }
      settleZeroBmWrite j error
      finishWhenCompleted j i
  | none, _ => throw .assertion
  | some _, none => throw .memory

def finishRedundantBmWrite (ref : RequestRef) : Driver Unit := freeVhdRequest ref

def requeue (ref : RequestRef) : Driver Unit := do
  let s ← get
  let tmp := s.request ref
  freeVhdRequest ref
  if tmp.op = .dataRead then vhdQueueRead tmp.treq
  else if tmp.op = .dataWrite then vhdQueueWrite tmp.treq
  else throw .assertion

def finishBitmapRead (ref : RequestRef) (error : Int) : Driver Unit := do
  let s ← get
  let blk ← blockOf (s.request ref).treq.sec
  match s.getBitmap blk with
  | none => throw .assertion
  | some i => do
      assert (s.bitmapList i).readPending
      let waiting := (s.bitmapList i).waiting
      modify fun s => s.setBitmap i fun bm => { bm with waiting := [], readPending := false }
      if error = 0 then do
        modify fun s => s.setBitmap i fun bm => { bm with shadow := bm.map }
        waiting.forM requeue
        unlockUnused i
      else do
        unlockBitmap i
        freeVhdBitmap i
        signalCompletion waiting error

def finishBitmapWrite (ref : RequestRef) (error : Int) : Driver Unit := do
  let s ← get
  let blk ← blockOf (s.request ref).treq.sec
  match s.getBitmap blk with
  | none => throw .memory
  | some i => do
      assert (s.bitmapList i).tx.closed
      assert (s.bitmapList i).valid
      assert (s.bitmapList i).writePending
      modify fun s => s.setBitmap i fun bm => { bm with writePending := false }
      finishBitmapTransaction i error

def finishDataRead (ref : RequestRef) : Driver Unit := signalCompletion [ref] 0

def finishDataWrite (ref : RequestRef) : Driver Unit := do
  modify fun s => s.setRequest ref fun r => { r with flags := { r.flags with finished := true } }
  let s ← get
  let req := s.request ref
  match req.tx with
  | some j => do
      let blk ← blockOf req.treq.sec
      let sec ← remainder req.treq.sec
      match s.getBitmap blk with
      | none => throw .assertion
      | some i => do
          assert ((s.bitmapList i).valid && (s.bitmapList i).locked)
          modify fun s => s.setTx j fun tx => { tx with finished := tx.finished + 1 }
          when (req.error = 0) (setShadow i sec req.treq.secs)
          finishWhenCompleted j i
  | none =>
      when (req.flags.queued = false) do
        assert !s.hasNext ref
        signalCompletion [ref] 0

def logError (ref : RequestRef) (err : Int) (logged : Bool) : Driver Unit := do
  let s ← get
  when (err ≠ 0 ∧ logged = true) do
    let index ← quotient (s.request ref).treq.sec
    let _ ← batEntry index

def fillMap (ref : RequestRef) (data : Nat → Bool) : Driver Unit :=
  match ref with
  | .bitmap i => modify fun s => s.setBitmap i fun bm => { bm with map := data }
  | _ => pure ()

def vhdComplete (ref : RequestRef) (err : Int) (logged : Bool) (data : Nat → Bool) :
    Driver Unit := do
  modify fun s => s.setRequest ref fun r => { r with error := err }
  logError ref err logged
  let s ← get
  match (s.request ref).op with
  | .dataRead => finishDataRead ref
  | .dataWrite => finishDataWrite ref
  | .bitmapRead => do
      fillMap ref data
      finishBitmapRead ref err
  | .bitmapWrite => finishBitmapWrite ref err
  | .zeroBmWrite => finishZeroBmWrite ref err
  | .redundantBmWrite => finishRedundantBmWrite ref
  | .batWrite => finishBatWrite ref err

end Blktap.BlockVhd
