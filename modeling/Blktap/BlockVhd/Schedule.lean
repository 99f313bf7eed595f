import Blktap.BlockVhd.Cache

/-!
# Scheduling reads and writes (`block-vhd.c`)
-/

namespace Blktap.BlockVhd
open Lib Libvhd

def VhdState.gap (s : VhdState) : Nat :=
  if (s.nextDb + s.bmSecs) % s.spp = 0 then 0 else s.spp - (s.nextDb + s.bmSecs) % s.spp

def reserveNewBlock (blk : Nat) : Driver Nat := do
  let s ← get
  assert !s.bat.writeStarted
  set { s with bat := { s.bat with pbwBlk := blk, pbwOffset := s.nextDb + s.gap } }
  pure s.nextDb

def scheduleBatWrite : Driver Unit := do
  let s ← get
  assert s.bat.locked
  let blk := s.bat.pbwBlk
  let base := blk - blk % 128
  modify fun s => s.setRequest .bat fun _ => {}
  -- memcpy of the 128 entries from `base` on
  let _ ← batEntry base
  if s.bat.bat.len < base + 128 then throw .memory
  else do
    modify fun s => { s with bat := { s.bat with
      batBuf := fun i => if i = blk % 128 then s.bat.pbwOffset % 2 ^ 32 else s.bat.bat.bat (base + i) } }
    modify fun s => s.setRequest .bat fun r =>
      { r with treq := { r.treq with secs := 1 }, op := .batWrite }
    aioWrite .bat (s.vhd.tableOffset + base * 4 % 2 ^ 32)
    modify fun s => { s with bat := { s.bat with writeStarted := true } }

def scheduleZeroBmWrite (i : BitmapIndex) (lbEnd : Nat) : Driver Unit := do
  let s ← get
  let secs := s.bat.pbwOffset - lbEnd + s.bmSecs
  vhdZeros (secs * 512)
  modify fun s => s.setRequest .zero fun _ =>
    { op := .zeroBmWrite, treq := { sec := s.bat.pbwBlk * s.spb % 2 ^ 32, secs } }
  lockBitmap i
  addToTransaction i .zero
  aioWrite .zero (lbEnd * 512)

def scheduleRedundantBmWrite (blk : Nat) : Driver Unit := do
  let s ← get
  assert (s.vhd.type != .fixed)
  assert (← testBatmap blk)
  match ← allocVhdRequest with
  | none => pure ()
  | some ref => do
      let entry ← batEntry blk
      assert (entry != ddBlkUnused)
      modify fun s => s.setRequest ref fun r => { r with
        op := .redundantBmWrite
        treq := { r.treq with sec := blk * s.spb % 2 ^ 32, secs := s.padbmSize / 512 } }
      let padding := (s.padbmSize + 2 ^ 32 - s.bmSecs * 512 % 2 ^ 32) % 2 ^ 32
      aioWrite ref ((entry * 512 + 2 ^ 64 - padding) % 2 ^ 64)

/-- The bitmap of a block, which is put into the cache if it is not there; `none` is `-EBUSY`. -/
def cachedBitmap (blk : Nat) : Driver (Option BitmapIndex) := do
  let s ← get
  match s.getBitmap blk with
  | some i => pure (some i)
  | none =>
      match ← allocVhdBitmap blk with
      | none => pure none
      | some i => do
          installBitmap i
          pure (some i)

def updateBat (blk : Nat) : Driver Int := do
  let entry ← batEntry blk
  assert (entry == ddBlkUnused)
  let s ← get
  if s.bat.locked = true then do
    assert (s.bat.pbwBlk == blk)
    pure 0
  else
    match ← cachedBitmap blk with
    | none => pure (-ebusy)
    | some i => do
        lockBat
        let lbEnd ← reserveNewBlock blk
        scheduleZeroBmWrite i lbEnd
        modify fun s => s.setTx i fun tx => { tx with updateBat := true }
        pure 0

def syncWrite : Driver Int := do
  let s ← get
  match s.results with
  | [] => pure 0
  | err :: rest => do
      set { s with results := rest }
      pure err

def allocateBlock (blk : Nat) : Driver Int := do
  let entry ← batEntry blk
  assert (entry == ddBlkUnused)
  let s ← get
  if s.bat.locked = true then do
    assert (s.bat.pbwBlk == blk)
    if s.bat.req.error ≠ 0 then pure (-ebusy) else pure 0
  else do
    let gap := s.gap
    set { s with
      nextDb := s.nextDb + gap
      bat := { s.bat with pbwBlk := blk, pbwOffset := s.nextDb + gap } }
    vhdZeros ((s.spb + s.bmSecs + gap) * 512)
    let err ← syncWrite
    if err ≠ 0 then pure err
    else
      match ← cachedBitmap blk with
      | none => pure (-ebusy)
      | some i => do
          lockBat
          lockBitmap i
          scheduleBatWrite
          addToTransaction i .bat
          pure 0

def makeRequest (op : VhdOp) (treq : TdRequest) (flags : RequestFlags) :
    Driver (Option RequestRef) := do
  match ← allocVhdRequest with
  | none => pure none
  | some ref => do
      modify fun s => s.setRequest ref fun r => { r with treq, flags, op }
      pure (some ref)

/-- `ASSERT(test_batmap(s, blk) || (bm && bitmap_valid(bm)))` -/
def assertCached (blk : Nat) : Driver Unit := do
  let s ← get
  if (← testBatmap blk) = true then pure ()
  else
    match s.getBitmap blk with
    | none => throw .assertion
    | some i => assert (s.bitmapList i).valid

def dataReadTarget (treq : TdRequest) : Driver Nat := do
  let s ← get
  if s.vhd.type = .fixed then pure treq.sec
  else do
    let blk ← blockOf treq.sec
    let sec ← remainder treq.sec
    let entry ← batEntry blk
    assert (entry != ddBlkUnused)
    assertCached blk
    pure (entry + s.bmSecs + sec)

def scheduleDataRead (treq : TdRequest) (flags : RequestFlags) : Driver Int := do
  let offset ← dataReadTarget treq
  match ← makeRequest .dataRead treq flags with
  | none => pure (-ebusy)
  | some ref => do
      aioRead ref (offset * 512)
      pure 0

def joinTransaction (blk : Nat) (ref : RequestRef) : Driver Unit := do
  let s ← get
  match s.getBitmap blk with
  | none => throw .assertion
  | some i => do
      assert (s.bitmapList i).valid
      lockBitmap i
      if (s.bitmapList i).tx.closed = true then do
        modify fun s => s.setBitmap i fun bm => { bm with queue := bm.queue ++ [ref] }
        modify fun s => s.setRequest ref fun r => { r with flags := { r.flags with queued := true } }
      else addToTransaction i ref

def extendBat (blk : Nat) : Driver Int := do
  let s ← get
  if s.prealloc = true then allocateBlock blk else updateBat blk

def dataWriteTarget (treq : TdRequest) (flags : RequestFlags) :
    Driver (Except Int (Nat × Nat × Nat)) := do
  let s ← get
  if s.vhd.type = .fixed then pure (.ok (0, 0, treq.sec))
  else do
    let blk ← blockOf treq.sec
    let sec ← remainder treq.sec
    let entry ← batEntry blk
    if flags.updateBat = true then do
      let err ← extendBat blk
      let s ← get
      if err ≠ 0 then pure (.error err)
      else pure (.ok (blk, sec, s.bat.pbwOffset + s.bmSecs + sec))
    else pure (.ok (blk, sec, entry + s.bmSecs + sec))

def wantsRedundantBmWrite (blk sec : Nat) : Driver Bool := do
  let s ← get
  if sec ≠ 0 ∨ s.vhd.type = .fixed then pure false
  else if (← batEntry blk) = s.firstDb then pure false
  else testBatmap blk

def prepareBitmap (blk sec : Nat) (ref : RequestRef) (flags : RequestFlags) : Driver Unit := do
  if flags.updateBitmap = true then joinTransaction blk ref
  else if (← wantsRedundantBmWrite blk sec) = true then scheduleRedundantBmWrite blk
  else pure ()

def scheduleDataWrite (treq : TdRequest) (flags : RequestFlags) : Driver Int := do
  match ← dataWriteTarget treq flags with
  | .error err => pure err
  | .ok (blk, sec, offset) =>
      match ← makeRequest .dataWrite treq flags with
      | none => pure (-ebusy)
      | some ref => do
          prepareBitmap blk sec ref flags
          aioWrite ref (offset * 512)
          pure 0

def scheduleBitmapRead (blk : Nat) : Driver Int := do
  let s ← get
  assert s.vhd.typeDynamic
  let entry ← batEntry blk
  assert (entry != ddBlkUnused)
  assert (s.getBitmap blk).isNone
  match ← allocVhdBitmap blk with
  | none => pure (-ebusy)
  | some i => do
      modify fun s => s.setRequest (.bitmap i) fun _ =>
        { op := .bitmapRead, treq := { sec := blk * s.spb % 2 ^ 32, secs := s.bmSecs } }
      aioRead (.bitmap i) (entry * 512)
      lockBitmap i
      installBitmap i
      modify fun s => s.setBitmap i fun bm => { bm with readPending := true }
      pure 0

def bitmapTarget (blk entry : Nat) : Driver Nat := do
  let s ← get
  if entry = ddBlkUnused then do
    assert (s.bat.locked && s.bat.pbwBlk == blk)
    pure s.bat.pbwOffset
  else pure entry

def scheduleBitmapWrite (blk : Nat) : Driver Unit := do
  let s ← get
  let entry ← batEntry blk
  assert s.vhd.typeDynamic
  match s.getBitmap blk with
  | none => throw .assertion
  | some i => do
      assert ((s.bitmapList i).valid && !(s.bitmapList i).writePending)
      let offset ← bitmapTarget blk entry
      modify fun s => s.setRequest (.bitmap i) fun _ =>
        { op := .bitmapWrite, treq := { sec := blk * s.spb % 2 ^ 32, secs := s.bmSecs } }
      aioWrite (.bitmap i) (offset * 512)
      lockBitmap i
      touchBitmap i
      modify fun s => s.setBitmap i fun bm => { bm with writePending := true }

def vhdQueueRequest (op : VhdOp) (treq : TdRequest) : Driver Int := do
  let s ← get
  assert s.vhd.typeDynamic
  let blk ← blockOf treq.sec
  match s.getBitmap blk with
  | none => throw .assertion
  | some i => do
      assert (s.bitmapList i).readPending
      match ← allocVhdRequest with
      | none => pure (-ebusy)
      | some ref => do
          modify fun s => s.setRequest ref fun r => { r with treq, op }
          modify fun s => s.setBitmap i fun bm => { bm with waiting := bm.waiting ++ [ref] }
          lockBitmap i
          pure 0

end Blktap.BlockVhd
