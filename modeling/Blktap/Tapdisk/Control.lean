import Blktap.Lib.Bytes
import Mathlib.Logic.Function.Basic

/-!
# Control connections (`tapdisk-control.c`)

The server takes requests on a table of connection slots. A handler can wait, and then the server dispatches
other events inside of it: the handlers that wait are a stack. What the rest of the server answers, what arrives
and what can be sent are parts of the events. `owner`, `stale`, `writes` and `verdicts` only record what happens.
-/

namespace Blktap.Tapdisk
open Lib

def ctlMaxConnections : Nat := 10

def ctlSendBufsz : Int := 4096

def messageSize : Nat := 536

def maxPathLength : Nat := 256

def grefEntries : Nat := 8

def enomem : Int := 12

section Message

inductive MessageId
  | error | runtimeError | pid | pidRsp | attach | attachRsp | open | openRsp | pause | pauseRsp | resume
  | resumeRsp | close | closeRsp | detach | detachRsp | listMinors | listMinorsRsp | list | listRsp | stats
  | statsRsp | forceShutdown | diskInfo | diskInfoRsp | xenblkifConnect | xenblkifConnectRsp
  | xenblkifDisconnect | xenblkifDisconnectRsp | exit
  deriving DecidableEq

def MessageId.all : List MessageId :=
  [error, runtimeError, pid, pidRsp, attach, attachRsp, .open, openRsp, pause, pauseRsp, resume, resumeRsp, close,
    closeRsp, detach, detachRsp, listMinors, listMinorsRsp, list, listRsp, stats, statsRsp, forceShutdown, diskInfo,
    diskInfoRsp, xenblkifConnect, xenblkifConnectRsp, xenblkifDisconnect, xenblkifDisconnectRsp, exit]

def MessageId.number (id : MessageId) : Nat := MessageId.all.idxOf id + 1

structure Message where
  type : Nat
  cookie : Nat
  body : List UInt8

def decode (l : List UInt8) : Message where
  type := (l.getD 0 0).toNat + (l.getD 1 0).toNat * 256
  cookie := (l.getD 2 0).toNat + (l.getD 3 0).toNat * 256
  body := (l.drop 8).take 528

namespace Message

def word (m : Message) (off : Nat) : Nat := le32 (fun i => m.body.getD i 0) off

def text (m : Message) (off : Nat) : List UInt8 := (m.body.drop off).take maxPathLength

def flags (m : Message) : Nat := m.word 0
def path (m : Message) : List UInt8 := m.text 12
def secondary (m : Message) : List UInt8 := m.text 272

def order (m : Message) : Nat := m.word 40
def pool (m : Message) : List UInt8 := m.text 48

end Message

def flagSecondary : Nat := 0x080

def strnlen (l : List UInt8) (n : Nat) : Nat := ((l.take n).takeWhile (· ≠ 0)).length

def validateRequest (m : Message) : Bool := strnlen m.path maxPathLength < maxPathLength

/-- `1 << order` for an `int`, where only the low bits of the order count -/
def ringPages (order : Nat) : Int := if order % 32 = 31 then -2 ^ 31 else 2 ^ (order % 32)

def grefReads (order : Nat) : List Nat :=
  if ringPages order < 0 ∨ (grefEntries : Int) < ringPages order then [] else List.range (ringPages order).toNat

inductive Handler
  | getPid | list | attach | detach | open | pause | resume | close | stats | connect | disconnect | diskInfo
  deriving DecidableEq

def msgReenter : Nat := 1
def msgVerbose : Nat := 2
def msgVerboseError : Nat := 4

structure ControlInfo where
  handler : Handler
  flags : Nat
  deriving DecidableEq

/-- The entries of `message_infos`; the flags of a disconnect are joined by a logical or, which is 1. -/
def messageInfo : MessageId → Option ControlInfo
  | .pid => some ⟨.getPid, msgReenter⟩
  | .list => some ⟨.list, msgReenter⟩
  | .attach => some ⟨.attach, msgVerbose⟩
  | .detach => some ⟨.detach, msgVerbose⟩
  | .open => some ⟨.open, msgVerbose⟩
  | .pause => some ⟨.pause, msgVerbose⟩
  | .resume => some ⟨.resume, msgVerbose⟩
  | .close => some ⟨.close, msgVerbose⟩
  | .stats => some ⟨.stats, msgReenter⟩
  | .xenblkifConnect => some ⟨.connect, msgVerbose ||| msgVerboseError⟩
  | .xenblkifDisconnect => some ⟨.disconnect, 1⟩
  | .diskInfo => some ⟨.diskInfo, msgVerbose ||| msgVerboseError⟩
  | _ => none

def messageInfosLength : Nat := MessageId.xenblkifDisconnect.number + 1

def messageInfos (type : Nat) : Option ControlInfo := MessageId.all[type - 1]?.bind messageInfo

def ControlInfo.excl (info : ControlInfo) : Bool := info.flags &&& msgReenter = 0

inductive Lookup
  | absent
  | unnamed
  | named
  deriving DecidableEq

def stringReads (handler : Handler) (lookup : Lookup) (m : Message) : List (List UInt8) :=
  match handler, lookup with
  | .open, .unnamed => (if m.flags &&& flagSecondary ≠ 0 then [m.secondary] else []) ++ [m.path]
  | .resume, .unnamed | .resume, .named => if m.path.head? = some 0 then [] else [m.path]
  | .connect, .unnamed | .connect, .named =>
      let len := strnlen m.pool maxPathLength
      if len = 0 ∨ maxPathLength ≤ len then [] else [m.pool]
  | _, _ => []

def StaysInside (handler : Handler) (lookup : Lookup) (m : Message) : Prop :=
  (∀ text ∈ stringReads handler lookup m, (0 : UInt8) ∈ text) ∧
    (handler = .connect → ∀ i ∈ grefReads m.order, i < grefEntries)

instance (handler : Handler) (lookup : Lookup) (m : Message) : Decidable (StaysInside handler lookup m) :=
  inferInstanceAs (Decidable ((∀ text ∈ stringReads handler lookup m, _) ∧ (_ → ∀ i ∈ grefReads m.order, _)))

end Message

structure CtlConn where
  fd : Int
  prod : Int
  cons : Int
  outEvent : Int
  done : Bool
  inEvent : Int
  busy : Bool
  info : Option ControlInfo
  deriving DecidableEq

def CtlConn.init : CtlConn := ⟨0, 0, 0, -1, false, -1, false, none⟩

def CtlConn.connected (c : CtlConn) : Bool := 1 ≤ c.fd

def CtlConn.leftover (c : CtlConn) : Bool := c.done || c.busy || c.info.isSome

inductive CtlCallback
  | request
  | send
  deriving DecidableEq

structure CtlEvent where
  id : Nat
  callback : CtlCallback
  slot : Nat
  masked : Bool

structure Frame where
  slot : Nat
  requester : Option Nat
  info : ControlInfo
  draining : Bool

inductive Fault
  | table
  | message
  | info
  | assertion
  deriving DecidableEq

inductive Verdict
  | dispatched (type : Nat)
  | answered (count : Int) (closed : Bool)
  | dropped
  deriving DecidableEq

structure Control where
  conns : Nat → CtlConn
  table : List Nat
  nConn : Nat
  busy : Bool
  acceptMasked : Bool
  events : List CtlEvent
  uuid : Nat
  frames : List Frame
  fault : Option Fault
  owner : Nat → Option Nat
  made : Nat
  stale : Bool
  writes : List (Option Nat × Option Nat)
  verdicts : List Verdict

structure CtlAnswer where
  lookup : Lookup
  waits : Bool
  vbds : Nat
  stats : Int

inductive SendEnd
  | drained
  | again
  | failed
  deriving DecidableEq

inductive Resume
  | again
  | drain
  | finish

/-- The loop of `tapdisk_ctl_conn_free`, from the entry `n - 1` down; `none` is the failed assertion. -/
def bubble (table : List Nat) : Nat → Nat → Nat → Option (List Nat)
  | 0, _, _ => none
  | n + 1, prev, conn =>
      let next := table.getD n 0
      if next = conn then some (table.set n prev) else bubble (table.set n prev) n next conn

namespace Control

def updateConn (s : Control) (k : Nat) (c : CtlConn) : Control := { s with conns := Function.update s.conns k c }

def setOwner (s : Control) (k : Nat) (c : Option Nat) : Control := { s with owner := Function.update s.owner k c }

def fail (s : Control) (fault : Fault) : Control := { s with fault := some fault }

def register (s : Control) (callback : CtlCallback) (slot : Nat) : Control :=
  { s with events := s.events ++ [⟨s.uuid, callback, slot, false⟩], uuid := s.uuid + 1 }

def unregister (s : Control) (id : Int) : Control := { s with events := s.events.filter fun e => (e.id : Int) ≠ id }

def mask (s : Control) (id : Int) (masked : Bool) : Control :=
  { s with events := s.events.map fun e => if (e.id : Int) = id then { e with masked } else e }

def connFree (s : Control) (k : Nat) : Control :=
  match bubble s.table s.nConn k k with
  | some table => { s with table, nConn := s.nConn - 1 }
  | none => s.fail .assertion

def dropOut (s : Control) (k : Nat) : Control :=
  if 0 ≤ (s.conns k).outEvent then
    (s.unregister (s.conns k).outEvent).updateConn k { s.conns k with outEvent := -1 }
  else s

def closeFd (s : Control) (k : Nat) : Control :=
  { (s.updateConn k { s.conns k with fd := -1 }).setOwner k none with acceptMasked := false }

def connClose (s : Control) (k : Nat) : Control :=
  let quiet := s.dropOut k
  if 0 ≤ (quiet.conns k).fd then (quiet.closeFd k).connFree k else quiet

def room (c : CtlConn) : Int := (ctlSendBufsz - c.prod) % 2 ^ 64

def connWrite (s : Control) (k : Nat) (requester : Option Nat) (size : Int) : Control :=
  let c := s.conns k
  let size := min (room c) size
  let noted := { s with writes := (requester, s.owner k) :: s.writes }
  if size = 0 then noted
  else (noted.updateConn k { c with prod := c.prod + size }).mask c.outEvent false

def writeMessage (s : Control) (k : Nat) (requester : Option Nat) : Control :=
  match (s.conns k).info with
  | some _ => s.connWrite k requester messageSize
  | none => s.fail .info

def connRelease (s : Control) (k : Nat) : Control :=
  let done := s.updateConn k { s.conns k with done := true }
  if (done.conns k).prod = (done.conns k).cons then done.connClose k else done

def dropIn (s : Control) (k : Nat) : Control :=
  if (s.conns k).inEvent ≠ 0 then
    (s.unregister (s.conns k).inEvent).updateConn k { s.conns k with inEvent := -1 }
  else s

def releaseConnection (s : Control) (k : Nat) : Control := (s.dropIn k).connRelease k

def sendBuf (s : Control) (k sent : Nat) : Control :=
  s.updateConn k { s.conns k with cons := (s.conns k).cons + min (sent : Int) ((s.conns k).prod - (s.conns k).cons) }

def closeConnection (s : Control) (k sent : Nat) : Control :=
  let released := s.releaseConnection k
  let pushed := if (released.conns k).connected then released.sendBuf k sent else released
  pushed.connClose k

def connOpen (s : Control) (k : Nat) (fd : Int) : Control :=
  let used := { s with stale := s.stale || (s.conns k).leftover, nConn := s.nConn + 1 }
  let registered := used.register .send k
  let opened := registered.updateConn k { s.conns k with outEvent := s.uuid, fd, prod := 0, cons := 0 }
  let owned := { opened.setOwner k (some s.made) with made := s.made + 1 }
  { owned.mask s.uuid true with acceptMasked := s.acceptMasked || decide (ctlMaxConnections ≤ s.nConn + 1) }

/-- `tapdisk_ctl_conn_open` when the event cannot be registered: the slot is not given back. -/
def connLeak (s : Control) (k : Nat) : Control :=
  { s.updateConn k { s.conns k with outEvent := -enomem } with
    stale := s.stale || (s.conns k).leftover
    nConn := s.nConn + 1 }

def openIn (s : Control) (k : Nat) (inOk : Bool) : Control :=
  if inOk then (s.register .request k).updateConn k { s.conns k with inEvent := s.uuid }
  else s.updateConn k { s.conns k with inEvent := -enomem }

def accept (s : Control) (fd : Int) (outOk inOk : Bool) : Control :=
  if fd = -1 then s
  else if ctlMaxConnections ≤ s.nConn then s
  else
    let k := s.table.getD s.nConn 0
    if outOk then (s.connOpen k fd).openIn k inOk else s.connLeak k

def responses (info : ControlInfo) (answer : CtlAnswer) : Nat :=
  if info.handler = .list then answer.vbds + 1 else 1

def writeMessages (s : Control) (k : Nat) (requester : Option Nat) : Nat → Control
  | 0 => s
  | n + 1 => writeMessages (s.writeMessage k requester) k requester n

def skipStats (s : Control) (k : Nat) (info : ControlInfo) (answer : CtlAnswer) : Control :=
  if info.handler = .stats then s.updateConn k { s.conns k with prod := (s.conns k).prod + answer.stats } else s

def respond (s : Control) (f : Frame) (answer : CtlAnswer) : Control :=
  (s.writeMessages f.slot f.requester (responses f.info answer)).skipStats f.slot f.info answer

def handled (s : Control) (f : Frame) : Control :=
  { s.updateConn f.slot { s.conns f.slot with busy := false } with busy := s.busy && !f.info.excl }

def finish (s : Control) (f : Frame) (rest : List Frame) (answer : CtlAnswer) : Control :=
  let written := s.respond f answer
  if written.fault.isSome then written
  else { (written.handled f).releaseConnection f.slot with frames := rest }

def refuse (s : Control) (k sent : Nat) : Control :=
  let written := s.writeMessage k (s.owner k)
  if written.fault.isSome then written
  else
    let closed := written.closeConnection k sent
    let count := (written.conns k).prod - (s.conns k).prod
    { closed with verdicts := .answered count (decide ((closed.conns k).fd < 0)) :: s.verdicts }

def waitsFor (info : ControlInfo) (answer : CtlAnswer) : Bool :=
  answer.waits && decide ((info.handler = .pause ∨ info.handler = .close) ∧ answer.lookup ≠ .absent)

def entered (s : Control) (f : Frame) (type : Nat) : Control :=
  { s.updateConn f.slot { s.conns f.slot with busy := true, info := some f.info } with
    busy := s.busy || f.info.excl
    frames := f :: s.frames
    verdicts := .dispatched type :: s.verdicts }

def dispatch (s : Control) (k : Nat) (info : ControlInfo) (m : Message) (answer : CtlAnswer) : Control :=
  let f : Frame := ⟨k, s.owner k, info, false⟩
  let running := s.entered f m.type
  if ¬ StaysInside info.handler answer.lookup m then running.fail .message
  else if waitsFor info answer then running
  else running.finish f s.frames answer

def handleRequest (s : Control) (k : Nat) (input : List UInt8) (answer : CtlAnswer) (sent : Nat) : Control :=
  if input.length < messageSize then { s.closeConnection k sent with verdicts := .dropped :: s.verdicts }
  else
    let m := decode (input.take messageSize)
    if (s.conns k).busy then s.refuse k sent
    else if ¬ validateRequest m then s.refuse k sent
    else if MessageId.exit.number < m.type then s.refuse k sent
    else if messageInfosLength ≤ m.type then s.fail .table
    else
      match messageInfos m.type with
      | none => s.refuse k sent
      | some info => if info.excl && s.busy then s.refuse k sent else s.dispatch k info m answer

def sendEvent (s : Control) (k sent : Nat) (ending : SendEnd) (timeout : Bool) : Control :=
  let pushed := s.sendBuf k sent
  match ending with
  | .again => pushed
  | .failed => pushed.connClose k
  | .drained =>
      if (s.conns k).done ∨ timeout then pushed.connClose k else pushed.mask (s.conns k).outEvent true

/-- A handler that waits goes on: `tapdisk_control_pause_vbd` and the first loop of `tapdisk_control_close_image`
end when the connection is closed, the second loop of the latter does not. -/
def resume (s : Control) (r : Resume) (answer : CtlAnswer) : Option Control :=
  match s.frames with
  | [] => none
  | f :: rest =>
      if ¬ f.draining ∧ (s.conns f.slot).fd < 0 then some (s.finish f rest answer)
      else
        match r with
        | .again => some s
        | .finish => some (s.finish f rest answer)
        | .drain =>
            if f.info.handler = .close ∧ ¬ f.draining then
              some { s with frames := { f with draining := true } :: rest }
            else none

def init : Control where
  conns := fun _ => .init
  table := List.range ctlMaxConnections
  nConn := 0
  busy := false
  acceptMasked := false
  events := []
  uuid := 2
  frames := []
  fault := none
  owner := fun _ => none
  made := 0
  stale := false
  writes := []
  verdicts := []

end Control

inductive CtlStep
  | accept (fd : Int) (outOk inOk : Bool)
  | request (id : Nat) (input : List UInt8) (answer : CtlAnswer) (sent : Nat)
  | send (id sent : Nat) (ending : SendEnd) (timeout : Bool)
  | resume (r : Resume) (answer : CtlAnswer)

namespace Control

def dispatchable (s : Control) (id : Nat) (callback : CtlCallback) : Option CtlEvent :=
  s.events.find? fun e => e.id = id ∧ e.callback = callback ∧ e.masked = false

def step (s : Control) (e : CtlStep) : Option Control :=
  if s.fault.isSome then none
  else
    match e with
    | .accept fd outOk inOk => if s.acceptMasked ∨ fd < -1 then none else some (s.accept fd outOk inOk)
    | .request id input answer sent =>
        (s.dispatchable id .request).map fun e => s.handleRequest e.slot input answer sent
    | .send id sent ending timeout =>
        (s.dispatchable id .send).bind fun e =>
          let left := (s.conns e.slot).prod - (s.conns e.slot).cons
          if (sent : Int) ≤ left ∧ (ending = .drained → (sent : Int) = left) then
            some (s.sendEvent e.slot sent ending timeout)
          else none
    | .resume r answer => s.resume r answer

end Control
end Blktap.Tapdisk
