import Blktap.BlockVhd.State

/-!
# The bitmap cache and the pools (`block-vhd.c`)
-/

namespace Blktap.BlockVhd
open Lib Libvhd

def addToTransaction (i : BitmapIndex) (ref : RequestRef) : Driver Unit := do
  let s ← get
  assert !(s.bitmapList i).tx.closed
  modify fun s => s.setRequest ref fun r => { r with tx := some i }
  modify fun s => s.setTx i fun tx =>
    { tx with started := tx.started + 1, requests := tx.requests ++ [ref], live := true }

def VhdTransaction.completed (tx : VhdTransaction) : Bool := tx.started = tx.finished

def initBat : Driver Unit :=
  modify fun s => { s with bat := { s.bat with
    req := { s.bat.req with tx := none, error := 0 }
    pbwBlk := 0, pbwOffset := 0, locked := false, writeStarted := false } }

def lockBat : Driver Unit := modify fun s => { s with bat := { s.bat with locked := true } }

def unlockBat : Driver Unit := modify fun s => { s with bat := { s.bat with locked := false } }

def lockBitmap (i : BitmapIndex) : Driver Unit :=
  modify fun s => s.setBitmap i fun bm => { bm with locked := true }

def unlockBitmap (i : BitmapIndex) : Driver Unit :=
  modify fun s => s.setBitmap i fun bm => { bm with locked := false }

def VhdState.getBitmap (s : VhdState) (block : Nat) : Option BitmapIndex :=
  (List.finRange vhdCacheSize).findSome? fun slot =>
    (s.bitmap slot).filter fun i => (s.bitmapList i).blk = block

def VhdBitmap.valid (bm : VhdBitmap) : Bool := !bm.readPending

def VhdBitmap.inUse (bm : VhdBitmap) : Bool :=
  bm.readPending || bm.writePending || bm.tx.updateBat ||
    !bm.waiting.isEmpty || !bm.tx.requests.isEmpty || !bm.queue.isEmpty

def VhdState.bitmapFull (s : VhdState) (bm : VhdBitmap) : Bool :=
  (List.range (s.spb / 8 * 8)).all bm.map

def VhdState.lruSlot (s : VhdState) : Option (BitmapIndex × BitmapIndex) × Nat :=
  (List.finRange vhdCacheSize).foldl
    (fun found slot =>
      match s.bitmap slot with
      | some i =>
          if (s.bitmapList i).seqno < found.2 ∧ (s.bitmapList i).locked = false then
            (some (slot, i), (s.bitmapList i).seqno)
          else found
      | none => found)
    (none, s.bmLru)

def removeLruBitmap : Driver (Option BitmapIndex) := do
  let s ← get
  match s.lruSlot.1 with
  | none => pure none
  | some (slot, i) =>
      set { s with bitmap := Function.update s.bitmap slot none }
      assert !(s.bitmapList i).inUse
      pure (some i)

def takeBitmap : Driver (Option BitmapIndex) := do
  let s ← get
  match s.bitmapFree with
  | i :: rest => do
      set { s with bitmapFree := rest }
      pure (some i)
  | [] => removeLruBitmap

/-- `alloc_vhd_bitmap` with `init_vhd_bitmap`; `none` is `-EBUSY`. -/
def allocVhdBitmap (blk : Nat) : Driver (Option BitmapIndex) := do
  match ← takeBitmap with
  | none => pure none
  | some i => do
      modify fun s => s.setBitmap i fun _ => { blk }
      pure (some i)

def halveSeqno (s : VhdState) (slot : BitmapIndex) : VhdState :=
  match s.bitmap slot with
  | some i =>
      let t := s.setBitmap i fun bm => { bm with seqno := bm.seqno / 2 }
      { t with bmLru := max t.bmLru (t.bitmapList i).seqno }
  | none => s

def bitmapLruSeqno : Driver Nat := do
  let s ← get
  if s.bmLru = 0xffffffff then
    let halved := (List.finRange vhdCacheSize).foldl halveSeqno { s with bmLru := 0 }
    set { halved with bmLru := halved.bmLru + 1 }
    pure (halved.bmLru + 1)
  else
    set { s with bmLru := s.bmLru + 1 }
    pure (s.bmLru + 1)

def touchBitmap (i : BitmapIndex) : Driver Unit := do
  let seqno ← bitmapLruSeqno
  modify fun s => s.setBitmap i fun bm => { bm with seqno }

def installBitmap (i : BitmapIndex) : Driver Unit := do
  let s ← get
  match (List.finRange vhdCacheSize).find? fun slot => (s.bitmap slot).isNone with
  | some slot =>
      touchBitmap i
      modify fun s => { s with bitmap := Function.update s.bitmap slot (some i) }
  | none => throw .assertion

def freeVhdBitmap (i : BitmapIndex) : Driver Unit := do
  let s ← get
  assert !(s.bitmapList i).locked
  assert !(s.bitmapList i).inUse
  match (List.finRange vhdCacheSize).find? fun slot => s.bitmap slot = some i with
  | some slot =>
      if vhdCacheSize ≤ s.bitmapFree.length then throw .memory
      else set { s with
        bitmap := Function.update s.bitmap slot none
        bitmapFree := i :: s.bitmapFree }
  | none => throw .assertion

inductive BmState
  | einval
  | batLocked
  | batClear
  | bitClear
  | bitSet
  | notCached
  | readPending
  deriving DecidableEq

def readBitmapCache (sector : Nat) (op : VhdOp) : Driver BmState := do
  let s ← get
  if s.vhd.type = .fixed then pure .bitSet
  else do
    let blk ← blockOf sector
    let sec ← remainder sector
    if s.vhd.maxBatSize < blk then pure .einval
    else if (← batEntry blk) = ddBlkUnused then
      if op = .dataWrite ∧ s.bat.pbwBlk ≠ blk ∧ s.bat.locked = true then pure .batLocked
      else pure .batClear
    else if (← testBatmap blk) = true then pure .bitSet
    else
      match s.getBitmap blk with
      | none => pure .notCached
      | some i => do
          touchBitmap i
          if (s.bitmapList i).readPending = true then pure .readPending
          else if (s.bitmapList i).map sec = true then pure .bitSet
          else pure .bitClear

def runLength (map : Nat → Bool) (value : Bool) : Nat → Nat → Nat
  | 0, _ => 0
  | n + 1, sec => if map sec = value then runLength map value n (sec + 1) + 1 else 0

def readBitmapCacheSpan (sector nrSecs : Nat) (value : Bool) : Driver Nat := do
  let s ← get
  if s.vhd.type = .fixed then pure nrSecs
  else do
    let sec ← remainder sector
    let blk ← blockOf sector
    if (← testBatmap blk) = true then pure (min nrSecs (s.spb - sec))
    else
      match s.getBitmap blk with
      | none => throw .assertion
      | some i => do
          assert (s.bitmapList i).valid
          pure (runLength (s.bitmapList i).map value (min nrSecs (s.spb - sec)) sec)

def allocVhdRequest : Driver (Option RequestRef) := do
  let s ← get
  match s.vreqFree with
  | ref :: rest => do
      set { s with vreqFree := rest }
      assert ((s.request ref).treq.secs = 0)
      modify fun s => s.setRequest ref fun _ => {}
      pure (some ref)
  | [] => pure none

def freeVhdRequest (ref : RequestRef) : Driver Unit := do
  modify fun s => s.setRequest ref fun _ => {}
  let s ← get
  if vhdReqsData ≤ s.vreqFree.length then throw .memory
  else set { s with vreqFree := ref :: s.vreqFree }

def aioRead (ref : RequestRef) (offset : Nat) : Driver Unit :=
  modify fun s => { s with io := s.io ++
    [{ req := ref, write := false, offset, bytes := (s.request ref).treq.secs * 512 }] }

def aioWrite (ref : RequestRef) (offset : Nat) : Driver Unit :=
  modify fun s => { s with io := s.io ++
    [{ req := ref, write := true, offset, bytes := (s.request ref).treq.secs * 512 }] }

def vhdZeros (size : Nat) : Driver Unit := do
  let s ← get
  assert (size ≤ s.zeroSize && s.zeroSize != 0)

def tdForwardRequest (treq : TdRequest) : Driver Unit :=
  modify fun s => { s with answers := s.answers ++ [.forward treq] }

def tdCompleteRequest (treq : TdRequest) (err : Int) : Driver Unit :=
  modify fun s => { s with answers := s.answers ++ [.complete treq err] }

end Blktap.BlockVhd
