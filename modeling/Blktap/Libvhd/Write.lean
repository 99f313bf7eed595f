import Blktap.Libvhd.Device

/-!
# Sector writes (`vhd_io_write`)

A block that the table does not have is put behind the end of the data, on the place of the footer;
the footer is written again when all sectors are. `vhd_end_of_data` goes through the table entries
that are loaded, which are those of the whole blocks of 2 MiB of the disk, and the entry of a new
block is cut to 32 bits.
-/

namespace Blktap.Libvhd
open Lib

def Handle.gap (s : Handle) (last : Nat) : Nat :=
  if (last + s.bmSecs) % s.spp = 0 then 0 else s.spp - (last + s.bmSecs) % s.spp

def Handle.cleared (s : Handle) (last : Nat) : Nat :=
  s.bmSecs + s.gap last + if s.sparse then 0 else s.spb

def allocateAt (block off : Nat) : Action Handle Unit := do
  let s ← Action.get
  vhdWrite off (s.cleared (off / 512) * 512) fun _ => 0
  let bat ← loadedBat
  Action.modify fun s => { s with bat := some { bat with
    bat := Function.update bat.bat block ((off / 512 + s.gap (off / 512)) % 2 ^ 32) } }
  vhdWriteBat

def allocateBlock (block : Nat) : Action Handle Unit := do
  let off ← endOfData
  allocateAt block off

def batmapTest (block : Nat) : Action Handle Bool := do
  let s ← Action.get
  if !s.hasBatmap then pure false
  else
    match s.batmap with
    | some batmap => Action.lift (batmap.test block)
    | none => pure false

def batmapSet (block : Nat) : Action Handle Unit := do
  let s ← Action.get
  match s.batmap with
  | some batmap => do
      let batmap ← Action.lift (batmap.set block)
      Action.modify fun s => { s with batmap := some batmap }
      vhdWriteBatmap batmap
  | none => Action.undefined

/-- The first part of a turn of the write loops. The result is the bitmap of the block, unless it is known to be
full. -/
def writeData (block sec cnt : Nat) (buf : Nat → UInt8) : Action Handle (Option (Nat → UInt8)) := do
  let bat ← loadedBat
  if bat.len ≤ block then Action.undefined
  else do
    Action.when (bat.bat block = ddBlkUnused) (allocateBlock block)
    let bat ← loadedBat
    let s ← Action.get
    vhdWrite ((bat.bat block + s.bmSecs + sec) * 512) (cnt * 512) buf
    let full ← batmapTest block
    if full then pure none
    else do
      let s ← Action.get
      let map ← Action.lift (vhdReadBitmap s.toVhd bat block)
      pure (some map)

def vhdBitmapSets (vhd : Vhd) (sec cnt : Nat) (map : Nat → UInt8) : Nat → UInt8 :=
  (List.range cnt).foldl (fun map i => vhdBitmapSet vhd map (sec + i)) map

def writeMarks (block sec cnt : Nat) (map : Nat → UInt8) : Action Handle Unit := do
  let s ← Action.get
  let map := vhdBitmapSets s.toVhd sec cnt map
  vhdWriteBitmap block map
  let s ← Action.get
  Action.when (s.hasBatmap = true ∧ (List.range s.spb).all (vhdBitmapTest s.toVhd map) = true)
    (batmapSet block)

def writeMarksOf (block sec cnt : Nat) : Option (Nat → UInt8) → Action Handle Unit
  | some map => writeMarks block sec cnt map
  | none => pure ()

/-- An error of the first part ends the function at once; an error of the second part is the result of the loop, and the
footer is still written. -/
def writeLoop : Nat → Nat → Nat → (Nat → UInt8) → Action Handle (Except Int Unit)
  | 0, _, _, _ => Action.undefined
  | fuel + 1, sector, secs, buf => do
      let s ← Action.get
      if s.spb = 0 then Action.undefined
      else do
        let sec := sector % s.spb
        let cnt := min secs (s.spb - sec)
        let map ← writeData (s.slot sector) sec cnt buf
        let marked ← Action.attempt (writeMarksOf (s.slot sector) sec cnt map)
        match marked with
        | .error code => pure (.error code)
        | .ok () =>
            if secs - cnt = 0 then pure (.ok ())
            else writeLoop fuel (sector + cnt) (secs - cnt) fun p => buf (cnt * 512 + p)

def writeResult : Except Int Unit → Except Int Unit → Action Handle Unit
  | .error code, _ => Action.fail code
  | .ok (), .error code => Action.fail code
  | .ok (), .ok () => pure ()

def loadTables : Action Handle Unit := do
  vhdGetBat
  let s ← Action.get
  Action.when (s.hasBatmap = true) do
    let _ ← vhdGetBatmap
    pure ()

def dynamicWrite (sec secs : Nat) (buf : Nat → UInt8) : Action Handle Unit := do
  loadTables
  let result ← writeLoop (secs + 1) sec secs buf
  let footer ← Action.attempt vhdWriteFooter
  writeResult result footer

def vhdIoWrite (sec secs : Nat) (buf : Nat → UInt8) : Action Handle Unit := do
  let s ← Action.get
  if s.currSize < (sec + secs) * 512 then Action.fail (-erange)
  else if !s.typeDynamic then vhdWrite (sec * 512) (secs * 512) buf
  else dynamicWrite sec secs buf

end Blktap.Libvhd
