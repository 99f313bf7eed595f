import Blktap.Lib.Outcome
import Blktap.Lib.Run
import Mathlib.Data.List.Basic
import Mathlib.Logic.Function.Basic
import Mathlib.Algebra.Ring.Nat

/-!
# The backend daemon (`xenio.c`)

The daemon reads watch events of XenStore and keeps a list of block devices. An event is handled in a
transaction, whose writes are lost when the handler fails or when the transaction does not end well; the list
and the tapdisks keep what has been done to them. A transaction that has to be run again is one more event.
-/

namespace Blktap.Xenio
open Lib

structure Key where
  domid : Int
  name : String
  deriving DecidableEq

structure Entry where
  frontend : Option String
  xenioSerial : Option Int
  maxRingPageOrder : Option Nat
  state : Option Nat
  params : Option (Nat × Nat × Nat)

def Entry.empty : Entry := ⟨none, none, none, none, none⟩

structure Store where
  entry : Key → Option Entry
  keys : List Key
  complete : ∀ key, key ∈ keys ↔ entry key ≠ none

def Store.init : Store := ⟨fun _ => none, [], fun key => by simp⟩

def Store.set (store : Store) (key : Key) : Option Entry → Store
  | none =>
    { entry := Function.update store.entry key none
      keys := store.keys.filter (· ≠ key)
      complete := fun other => by
        by_cases same : other = key <;> simp [same, store.complete] }
  | some e =>
    { entry := Function.update store.entry key (some e)
      keys := if key ∈ store.keys then store.keys else store.keys ++ [key]
      complete := fun other => by
        have known := store.complete other
        by_cases same : other = key
        · subst same
          by_cases listed : other ∈ store.keys <;> simp [listed]
        · by_cases listed : key ∈ store.keys <;> simp [listed, same, known] }

def Store.write (store : Store) (key : Key) (f : Entry → Entry) : Store :=
  store.set key (some (f ((store.entry key).getD .empty)))

/-- What a guest has written for the device: `none` is a path that is not there. The state may be there and
not be a number. -/
structure Frontend where
  state : Option (Option Int)
  ringPageOrder : Option Int
  ringRef : Option Nat
  ringRefs : Nat → Option Nat
  eventChannel : Option Nat
  protocol : Option String

structure Tap where
  pid : Int
  minor : Nat
  deriving DecidableEq

inductive Detach
  | done
  | gone
  | failed
  deriving DecidableEq

structure Calls where
  memory : Bool
  serialWritten : Bool
  orderWritten : Bool
  devid : Option Nat
  taps : Option (List Tap)
  tapInfo : Option (Nat × Nat)
  watched : Bool
  grefMemory : Bool
  tapConnected : Bool
  paramsWritten : Bool
  stateWritten : Bool
  detach : Detach

structure BlkbackDevice where
  devid : Nat
  tap : Tap
  sectorSize : Nat
  sectors : Nat
  info : Nat
  gref : Option (List Nat)
  port : Nat

structure Device where
  key : Key
  serial : Int
  frontendPath : String
  bdev : BlkbackDevice

/-- The daemon and what it works on. `issued` is the serial that the daemon has committed to the directory since the
toolstack wrote to it, and `settled` says that it has looked at the directory since then. -/
structure State where
  store : Store
  front : String → Frontend
  devices : List Device
  serial : Int
  maxRingPageOrder : Nat
  connects : Key → Nat
  disconnects : Key → Nat
  issued : Key → Option Int
  settled : Key → Bool
  aborted : Bool

def xenbusStateInitialising : Int := 1
def xenbusStateInitWait : Nat := 2
def xenbusStateInitialised : Int := 3
def xenbusStateConnected : Nat := 4
def xenbusStateClosing : Nat := 5
def xenbusStateClosed : Nat := 6

def protoNative : Nat := 1
def protoX8632 : Nat := 2
def protoX8664 : Nat := 3

namespace State

def abort (s : State) : State := { s with aborted := true }

def device (s : State) (key : Key) : Option Device := s.devices.find? (·.key = key)

def checkSerial (s : State) (device : Device) : Bool :=
  (s.store.entry device.key).bind (·.xenioSerial) = some device.serial

def removeDevice (s : State) (device : Device) : State :=
  { s with devices := s.devices.eraseP (·.key = device.key) }

/-- `blkback_probe`; the device number of the tapdisk is never set, so the minor looked for is 0. -/
def blkbackProbe (calls : Calls) : Option BlkbackDevice :=
  calls.devid.bind fun devid =>
    (calls.taps.bind fun taps => taps.find? (·.minor = 0)).map fun tap =>
      let (sectors, sectorSize) := calls.tapInfo.getD (0, 0)
      { devid, tap, sectorSize, sectors, info := 0, gref := none, port := 0 }

def writeSerial (s : State) (key : Key) (serial : Int) : State :=
  { s with
    store := s.store.write key fun e => { e with xenioSerial := some serial }
    issued := Function.update s.issued key (some serial) }

def writeOrder (s : State) (key : Key) : State :=
  { s with store := s.store.write key fun e => { e with maxRingPageOrder := some s.maxRingPageOrder } }

def createDevice (s : State) (key : Key) (calls : Calls) : State × Bool :=
  if !calls.memory then (s, true)
  else
    let numbered := { s with serial := s.serial + 1 }
    match (s.store.entry key).bind (·.frontend) with
    | none => (numbered, true)
    | some frontendPath =>
      if !calls.serialWritten then (numbered, true)
      else
        let recorded := numbered.writeSerial key s.serial
        if s.maxRingPageOrder ≠ 0 && !calls.orderWritten then (recorded, true)
        else
          let ordered := if s.maxRingPageOrder ≠ 0 then recorded.writeOrder key else recorded
          match blkbackProbe calls with
          | none => (ordered, true)
          | some bdev =>
            if !calls.watched then (ordered, true)
            else ({ ordered with devices := s.devices ++ [⟨key, s.serial, frontendPath, bdev⟩] }, false)

/-- `xenio_backend_probe_device`. A device that is there with another serial is to be removed and to be created,
which the assertion does not allow. -/
def probeDevice (s : State) (key : Key) (calls : Calls) : State × Bool :=
  match s.device key, (s.store.entry key).isSome with
  | none, false => (s, false)
  | none, true => s.createDevice key calls
  | some device, false => (s.removeDevice device, false)
  | some device, true => if s.checkSerial device then (s, false) else (s.abort, false)

def probe (s : State) (key : Key) (calls : Calls) : State × Bool :=
  let (t, failed) := s.probeDevice key calls
  ({ t with settled := Function.update t.settled key true }, failed)

def scan (s : State) (calls : Key → Calls) : State :=
  let known := (s.devices.map (·.key)).foldl (fun s key => if s.aborted then s else (s.probe key (calls key)).1) s
  known.store.keys.foldl (fun s key => if s.aborted then s else (s.probe key (calls key)).1) known

def setBdev (s : State) (key : Key) (f : BlkbackDevice → BlkbackDevice) : State :=
  { s with devices := s.devices.map fun d => if d.key = key then { d with bdev := f d.bdev } else d }

def switchState (s : State) (key : Key) (state : Nat) (calls : Calls) : State × Bool :=
  if calls.stateWritten then ({ s with store := s.store.write key fun e => { e with state := some state } }, false)
  else (s, true)

/-- The loop that reads `ring-ref0`, `ring-ref1`, and so on: from `ring-ref1000` on the name does not fit its
twelve bytes. -/
def readRefs (front : Frontend) : Nat → Nat → Outcome (List Nat)
  | 0, _ => .ok []
  | left + 1, i =>
    if 1000 ≤ i then .undefined
    else
      match front.ringRefs i with
      | none => .error 2
      | some ref => (readRefs front left (i + 1)).bind fun refs => .ok (ref :: refs)

/-- The grant references. `1 << order` is not defined for every order that a guest can write. -/
def readGrefs (front : Frontend) (calls : Calls) : Outcome (List Nat) :=
  let order := front.ringPageOrder.getD 0
  if order < 0 ∨ 31 ≤ order then .undefined
  else if !calls.grefMemory then .error 12
  else if order = 0 then
    match front.ringRef with
    | none => .error 2
    | some ref => .ok [ref]
  else readRefs front (2 ^ order.toNat) 0

def readProto (front : Frontend) : Outcome Nat :=
  match front.protocol with
  | none => .ok protoNative
  | some "x86_32-abi" => .ok protoX8632
  | some "x86_64-abi" => .ok protoX8664
  | some _ => .error 2

def readRing (front : Frontend) (calls : Calls) : Outcome (List Nat × Nat) :=
  (readGrefs front calls).bind fun grefs =>
    match front.eventChannel with
    | none => .error 2
    | some port => (readProto front).bind fun _ => .ok (grefs, port)

def attach (s : State) (key : Key) (grefs : List Nat) (port : Nat) : State :=
  { s.setBdev key fun b => { b with gref := some grefs, port } with
    connects := Function.update s.connects key (s.connects key + 1) }

def callDetach (s : State) (key : Key) (calls : Calls) : State :=
  if calls.detach = .failed then s
  else { s with disconnects := Function.update s.disconnects key (s.disconnects key + 1) }

def writeInfo (s : State) (device : Device) (calls : Calls) : State × Bool :=
  let b := device.bdev
  let written := { s with store := s.store.write device.key fun e =>
    { e with params := some (b.sectorSize, b.sectors, b.info) } }
  if calls.paramsWritten && calls.stateWritten then
    (written.switchState device.key xenbusStateConnected calls)
  else ((s.callDetach device.key calls).setBdev device.key fun b => { b with gref := none }, true)

def connectTap (s : State) (device : Device) (calls : Calls) : State × Bool :=
  match device.bdev.gref with
  | some _ => s.writeInfo device calls
  | none =>
    match readRing (s.front device.frontendPath) calls with
    | .undefined => (s.abort, true)
    | .error _ => (s, true)
    | .ok (grefs, port) =>
      if calls.tapConnected then (s.attach device.key grefs port).writeInfo device calls else (s, true)

/-- `blkback_disconnect_tap`. The port is unsigned, so only the grant references tell whether the device is
connected; and `errno` is never `-ESRCH`, so a tapdisk that is gone is an error. -/
def disconnectTap (s : State) (device : Device) (calls : Calls) : State × Bool :=
  match device.bdev.gref with
  | none => (s, false)
  | some _ =>
    let called := s.callDetach device.key calls
    if calls.detach ≠ .done then (called, true)
    else
      (called.setBdev device.key fun b => { b with gref := none, port := 2 ^ 32 - 1 }).switchState device.key
        xenbusStateClosed calls

def frontendChanged (s : State) (device : Device) (state : Int) (calls : Calls) : State × Bool :=
  if state = xenbusStateInitialising then s.switchState device.key xenbusStateInitWait calls
  else if state = xenbusStateInitialised ∨ state = xenbusStateConnected then s.connectTap device calls
  else if state = xenbusStateClosing then s.switchState device.key xenbusStateClosing calls
  else if state = xenbusStateClosed then s.disconnectTap device calls
  else (s, false)

def checkFrontendState (s : State) (device : Device) (calls : Calls) : State × Bool :=
  match (s.front device.frontendPath).state with
  | none => (s, true)
  | some none => (s, true)
  | some (some state) => s.frontendChanged device state calls

def deviceAt (s : State) (path : String) : Option Device := s.devices.find? (·.frontendPath = path)

/-- `xenio_backend_handle_otherend_watch`; without a device it is a `BUG`. -/
def handleOtherend (s : State) (path : String) (calls : Calls) : State × Bool :=
  match s.deviceAt path with
  | none => (s.abort, true)
  | some device => s.checkFrontendState device calls

def finish (s : State) (done : State × Bool) (committed : Bool) : State :=
  if done.2 || !committed then { done.1 with store := s.store, issued := s.issued } else done.1

end State

/-- The toolstack and the guests write their directories, and the daemon gets an event for a frontend, for the directory
of a device, or for a path above these. -/
inductive Event
  | toolstack (key : Key) (entry : Option Entry)
  | guest (path : String) (front : Frontend)
  | otherend (path : String) (calls : Calls) (committed : Bool)
  | backend (key : Key) (calls : Calls) (committed : Bool)
  | scan (calls : Key → Calls) (committed : Bool)

def State.toolstack (s : State) (key : Key) (entry : Option Entry) : State :=
  { s with
    store := s.store.set key entry
    issued := Function.update s.issued key none
    settled := Function.update s.settled key false }

def step (s : State) : Event → Option State
  | .toolstack key entry => some (s.toolstack key entry)
  | .guest path front => some { s with front := Function.update s.front path front }
  | .otherend path calls committed =>
    if s.aborted then none else some (s.finish (s.handleOtherend path calls) committed)
  | .backend key calls committed =>
    if s.aborted then none else some (s.finish (s.probe key calls) committed)
  | .scan calls committed => if s.aborted then none else some (s.finish (s.scan calls, false) committed)

def Frontend.empty : Frontend := ⟨none, none, none, fun _ => none, none, none⟩

def started (maxRingPageOrder : Nat) : State where
  store := .init
  front := fun _ => .empty
  devices := []
  serial := 0
  maxRingPageOrder
  connects := fun _ => 0
  disconnects := fun _ => 0
  issued := fun _ => none
  settled := fun _ => true
  aborted := false

end Blktap.Xenio
