import Blktap.BlockVhd.Schedule

/-!
# Splitting a request into chunks (`vhd_queue_read` and `vhd_queue_write`)

The fuel of the loops is the length of the request, since each round takes at least one sector.
-/

namespace Blktap.BlockVhd
open Lib Libvhd

def toBlockEnd (treq : TdRequest) : Driver Nat := do
  let s ← get
  return min treq.secs (s.spb - (← remainder treq.sec))

def readChunk (treq : TdRequest) : Driver (Except Int Nat) := do
  match ← readBitmapCache treq.sec .dataRead with
  | .einval => pure (.error (-einval))
  | .batClear => do
      let secs ← toBlockEnd treq
      tdForwardRequest { treq with secs }
      pure (.ok secs)
  | .bitClear => do
      let secs ← readBitmapCacheSpan treq.sec treq.secs false
      tdForwardRequest { treq with secs }
      pure (.ok secs)
  | .bitSet => do
      let secs ← readBitmapCacheSpan treq.sec treq.secs true
      let err ← scheduleDataRead { treq with secs } {}
      if err ≠ 0 then pure (.error err) else pure (.ok secs)
  | .notCached => do
      let err ← scheduleBitmapRead (← blockOf treq.sec)
      if err ≠ 0 then pure (.error err)
      else do
        let secs ← toBlockEnd treq
        let err ← vhdQueueRequest .dataRead { treq with secs }
        if err ≠ 0 then pure (.error err) else pure (.ok secs)
  | .readPending => do
      let secs ← toBlockEnd treq
      let err ← vhdQueueRequest .dataRead { treq with secs }
      if err ≠ 0 then pure (.error err) else pure (.ok secs)
  | .batLocked => throw .assertion

def writeChunk (treq : TdRequest) : Driver (Except Int Nat) := do
  match ← readBitmapCache treq.sec .dataWrite with
  | .einval => pure (.error (-einval))
  | .batLocked => pure (.error (-ebusy))
  | .batClear => do
      let secs ← toBlockEnd treq
      let err ← scheduleDataWrite { treq with secs } { updateBat := true, updateBitmap := true }
      if err ≠ 0 then pure (.error err) else pure (.ok secs)
  | .bitClear => do
      let secs ← readBitmapCacheSpan treq.sec treq.secs false
      let err ← scheduleDataWrite { treq with secs } { updateBitmap := true }
      if err ≠ 0 then pure (.error err) else pure (.ok secs)
  | .bitSet => do
      let secs ← readBitmapCacheSpan treq.sec treq.secs true
      let err ← scheduleDataWrite { treq with secs } {}
      if err ≠ 0 then pure (.error err) else pure (.ok secs)
  | .notCached => do
      let secs ← toBlockEnd treq
      let err ← scheduleBitmapRead (← blockOf treq.sec)
      if err ≠ 0 then pure (.error err)
      else do
        let err ← vhdQueueRequest .dataWrite { treq with secs }
        if err ≠ 0 then pure (.error err) else pure (.ok secs)
  | .readPending => do
      let secs ← toBlockEnd treq
      let err ← vhdQueueRequest .dataWrite { treq with secs }
      if err ≠ 0 then pure (.error err) else pure (.ok secs)

def queueLoop (chunk : TdRequest → Driver (Except Int Nat)) : Nat → TdRequest → Driver Unit
  | 0, treq => if treq.secs = 0 then pure () else throw .endless
  | fuel + 1, treq =>
      if treq.secs = 0 then pure ()
      else do
        match ← chunk treq with
        | .error err => tdCompleteRequest treq err
        | .ok secs => queueLoop chunk fuel (treq.advance secs)

def vhdQueueRead (treq : TdRequest) : Driver Unit := queueLoop readChunk treq.secs treq

def vhdQueueWrite (treq : TdRequest) : Driver Unit := queueLoop writeChunk treq.secs treq

end Blktap.BlockVhd
