import Mathlib.Data.Nat.Bitwise
import Mathlib.Logic.Function.Basic

/-!
# Pausing and resuming a VBD (`tapdisk-vbd.c`)

What drivers, files and the clock do are parts of the events. `snap` is taken when a pause completes; `issues` are the
requests that have been handed to an image and `resumes` the resumes that have succeeded.
-/

namespace Blktap.Tapdisk.Pause

def rdonly : Nat := 0x4
def strict : Nat := 0x8
def shareable : Nat := 0x10
def addCache : Nat := 0x20
def logDirty : Nat := 0x80
def localCache : Nat := 0x100
def openSecondary : Nat := 0x400
def standby : Nat := 0x800
def ignoreEnospc : Nat := 0x1000

def flagTest (flags flag : Nat) : Bool := flags &&& flag ≠ 0

def eperm : Nat := 1
def enospc : Nat := 28
def enosys : Nat := 38
def eagain : Nat := 11
def ebusy : Nat := 16
def einval : Nat := 22
def ealready : Nat := 114
def estale : Nat := 116
def eshutdown : Nat := 108
def enotty : Nat := 25

def requestTimeout : Int := 120
def retryInterval : Int := 1
def eioRetries : Nat := 10

structure Image where
  id : Nat
  flags : Nat
  deriving DecidableEq

inductive Queue
  | new
  | pending
  | failed
  | completed
  deriving DecidableEq

structure Vreq where
  listHead : Option Queue
  write : Bool
  iov : List Nat
  error : Int
  submitting : Nat
  secsPending : Nat
  ts : Int
  lastTry : Int

inductive Mode
  | disabled
  | mirror
  | standby
  deriving DecidableEq

structure Snapshot where
  flags : Nat
  held : List Nat
  issues : Nat

structure Resumption where
  before : Nat
  opened : Nat
  held : List Nat
  issued : List Nat

structure Vbd where
  dead : Bool
  closed : Bool
  quiesceRequested : Bool
  quiesced : Bool
  pauseRequested : Bool
  paused : Bool
  shutdownRequested : Bool
  name : Option (List UInt8)
  flags : Nat
  images : List Image
  secondary : Option Image
  mode : Mode
  retired : Option Image
  tap : Bool
  vreq : Nat → Vreq
  queue : Queue → List Nat
  flights : Nat → List Nat
  freed : Bool
  snap : Option Snapshot
  issues : List Nat
  resumes : List Resumption

structure Part where
  secs : Nat
  result : Option (Int × Bool)

structure Io where
  check : Int
  segments : List (List Part × List Part)

/-- How an attempt to open goes on: `strdup`, the images of the chain, and the results for the parts of
`tapdisk_vbd_open_vdi` that depend on flags -/
structure Attempt where
  strdup : Int
  chain : Except Int (List Image)
  chain_error : chain ≠ .error 0
  dirtyLog : Except Int Image
  blockCache : Except Int Image
  lcache : Except Int Image
  validate : Int
  secondary : Except Int Image

namespace Vbd

section Requests

def setVreq (s : Vbd) (id : Nat) (v : Vreq) : Vbd := { s with vreq := Function.update s.vreq id v }

def setQueue (s : Vbd) (q : Queue) (l : List Nat) : Vbd := { s with queue := Function.update s.queue q l }

def holder (s : Vbd) (id : Nat) : Option Queue :=
  [Queue.new, .pending, .failed, .completed].find? fun q => id ∈ s.queue q

/-- `tapdisk_vbd_move_request`. The list head of the last request of a list is written, and has to be that list. -/
def moveRequest (s : Vbd) (id : Nat) (dest : Queue) : Option Vbd :=
  (s.holder id).bind fun q =>
    if (s.queue q).getLast? = some id ∧ (s.vreq id).listHead ≠ some q then none
    else
      let removed := s.setQueue q ((s.queue q).erase id)
      some ((removed.setQueue dest (removed.queue dest ++ [id])).setVreq id { s.vreq id with listHead := some dest })

def queueReady (s : Vbd) : Bool := !s.dead && !s.closed && !s.quiesced && !s.quiesceRequested

def timedOut (v : Vreq) (now : Int) : Bool := requestTimeout - (now - v.ts) / 1000000 < 0

def shouldRetry (s : Vbd) (v : Vreq) (now : Int) : Bool :=
  !s.dead && !s.shutdownRequested && v.error.natAbs ∉ [eperm, enosys, estale, enospc] && !timedOut v now

def completeVbdRequest (s : Vbd) (id : Nat) (now : Int) : Option Vbd :=
  let v := s.vreq id
  if v.submitting = 0 ∧ v.secsPending = 0 then
    s.moveRequest id (if v.error ≠ 0 ∧ s.shouldRetry v now then .failed else .completed)
  else some s

def completeTreq (s : Vbd) (id secs : Nat) (res now : Int) : Option Vbd :=
  let err := if res ≤ 0 then res else -res
  let v := s.vreq id
  (s.setVreq id { v with
    secsPending := v.secsPending - secs
    error := if v.error ≠ 0 then v.error else err }).completeVbdRequest id now

def failover (s : Vbd) : Option Vbd :=
  match s.mode, s.images, s.secondary with
  | .disabled, _, _ => some s
  | .mirror, leaf :: rest, _ => some { s with images := rest, retired := some leaf, secondary := none, mode := .disabled }
  | .standby, leaf :: rest, some second =>
      some { s with images := second :: leaf :: rest, secondary := none, mode := .disabled }
  | _, _, _ => none

def completeTdRequest (s : Vbd) (id secs : Nat) (result : Int × Bool) (now : Int) : Option Vbd :=
  if result.1.natAbs = enospc ∧ result.2 then s.failover.bind fun s => s.completeTreq id secs 0 now
  else s.completeTreq id secs result.1 now

def land (id : Nat) (now : Int) : Vbd → List Part → Option Vbd
  | s, [] => some s
  | s, part :: rest =>
      match part.result with
      | none => land id now { s with flights := Function.update s.flights id (s.flights id ++ [part.secs]) } rest
      | some result => (s.completeTdRequest id part.secs result now).bind fun s => land id now s rest

def Covers (parts : List Part) (secs : Nat) : Prop :=
  (parts.map Part.secs).sum = secs ∧ ∀ part ∈ parts, part.result = none → 0 < part.secs

instance (parts : List Part) (secs : Nat) : Decidable (Covers parts secs) := inferInstanceAs (Decidable (_ ∧ _))

def queueTreq (s : Vbd) (id secs : Nat) (parts : List Part) (now : Int) : Option Vbd :=
  if Covers parts secs then land id now { s with issues := s.issues ++ [id] } parts else none

def issueSegments (id : Nat) (now : Int) : Vbd → List Nat → List (List Part × List Part) → Option Vbd
  | s, [], _ => some s
  | s, secs :: iov, segments =>
      let parts := segments.headD ([], [])
      let v := s.vreq id
      let next :=
        if s.mode = .mirror ∧ v.write then
          ((s.setVreq id { v with secsPending := v.secsPending + secs + secs }).queueTreq id secs parts.2 now).bind
            fun s => s.queueTreq id secs parts.1 now
        else (s.setVreq id { v with secsPending := v.secsPending + secs }).queueTreq id secs parts.1 now
      next.bind fun s => issueSegments id now s iov segments.tail

def issued (s : Vbd) (id : Nat) (err now : Int) : Option (Int × Vbd) :=
  let v := s.vreq id
  let s := s.setVreq id { v with submitting := v.submitting - 1 }
  if v.secsPending = 0 then
    (s.completeVbdRequest id now).map fun t => (if err ≠ 0 then err else v.error, t)
  else some (err, s)

def reissue (s : Vbd) (id : Nat) (parts : List Part) (now : Int) : Option Vbd :=
  let v := s.vreq id
  let submitted := s.setVreq id { v with submitting := v.submitting + 1, lastTry := now }
  (land id now { submitted with issues := s.issues ++ [id] } parts).bind fun s =>
    (s.issued id 0 now).map Prod.snd

def checkIssue (s : Vbd) (io : Io) : Int :=
  if s.images = [] then -enosys else if ¬ s.queueReady then -eagain else io.check

def issueRequest (s : Vbd) (id : Nat) (io : Io) (now : Int) : Option (Int × Vbd) :=
  ((s.setVreq id { s.vreq id with submitting := 1, lastTry := now }).moveRequest id .pending).bind fun s =>
    let err := s.checkIssue io
    if err ≠ 0 then (s.setVreq id { s.vreq id with error := err }).issued id err now
    else (issueSegments id now s (s.vreq id).iov io.segments).bind fun s => s.issued id 0 now

def requestCompleted (s : Vbd) (id : Nat) : Bool := (s.vreq id).listHead = some .completed

def reissueFailed (io : Nat → Io) (now : Int) : Vbd → List Nat → Option Vbd
  | s, [] => some s
  | s, id :: rest =>
      let v := s.vreq id
      if v.secsPending ≠ 0 then reissueFailed io now s rest
      else if s.shutdownRequested then (s.completeVbdRequest id now).bind fun s => reissueFailed io now s rest
      else if v.error ≠ -ebusy ∧ now / 1000000 - v.lastTry / 1000000 < retryInterval then reissueFailed io now s rest
      else
        ((s.setVreq id { v with error := 0 }).issueRequest id (io id) now).bind fun (err, s) =>
          if err ≠ 0 ∧ ¬ s.requestCompleted id then some s else reissueFailed io now s rest

def issueNew (io : Nat → Io) (now : Int) : Vbd → List Nat → Option Vbd
  | s, [] => some s
  | s, id :: rest =>
      (s.issueRequest id (io id) now).bind fun (err, s) =>
        if err ≠ 0 ∧ ¬ s.requestCompleted id then some s else issueNew io now s rest

def killAll (s : Vbd) (l : List Nat) : Option Vbd :=
  l.foldlM (fun s id => (s.setVreq id { s.vreq id with error := -eshutdown }).moveRequest id .completed) s

def killRequests (s : Vbd) : Option Vbd := (s.killAll (s.queue .new)).bind fun s => s.killAll (s.queue .failed)

def issueRequests (s : Vbd) (io : Nat → Io) (now : Int) : Option Vbd :=
  if s.dead then s.killRequests
  else if s.quiesced ∨ s.quiesceRequested then some s
  else (reissueFailed io now s (s.queue .failed)).bind fun s => issueNew io now s (s.queue .new)

def checkQueueState (s : Vbd) (io : Nat → Io) (now : Int) : Option Vbd :=
  ((s.queue .failed).foldlM
    (fun s id => if timedOut (s.vreq id) now then s.completeVbdRequest id now else some s) s).bind fun s =>
    if s.queue .new ≠ [] ∨ s.queue .failed ≠ [] then s.issueRequests io now else some s

def recheckState (s : Vbd) (io : Nat → Io) (now : Int) : Option Vbd :=
  if s.queue .new = [] ∨ s.quiesced ∨ s.quiesceRequested then some s else issueNew io now s (s.queue .new)

end Requests

section Control

def closeVdi (s : Vbd) : Vbd :=
  { s with
    images := []
    secondary := if s.mode ≠ .mirror then none else s.secondary
    retired := none
    closed := true }

def quiesceQueue (s : Vbd) : Bool × Vbd :=
  if s.queue .pending ≠ [] then (false, { s with quiesceRequested := true })
  else (true, { s with quiesceRequested := false, quiesced := true })

def takeSnap (s : Vbd) : Vbd :=
  { s with snap := s.snap.or (some ⟨s.flags, s.queue .new ++ s.queue .failed, s.issues.length⟩) }

def pause (s : Vbd) : Vbd :=
  let quiet := { s with pauseRequested := true }.quiesceQueue
  if quiet.1 then { quiet.2.closeVdi.takeSnap with pauseRequested := false, paused := true } else quiet.2

def close (s : Vbd) : Vbd :=
  if s.queue .pending ≠ [] ∨ s.queueReady ∧ (s.queue .new ≠ [] ∨ s.queue .failed ≠ [] ∨ s.queue .completed ≠ []) then
    { s with shutdownRequested := true }
  else { s.closeVdi with freed := true }

def checkRequested (s : Vbd) : Vbd :=
  let quiet := if s.quiesceRequested then s.quiesceQueue.2 else s
  let paused := if quiet.pauseRequested then quiet.pause else quiet
  if paused.shutdownRequested then paused.close else paused

def checkState (s : Vbd) (io : Nat → Io) (now : Int) : Option Vbd := (s.checkQueueState io now).map checkRequested

def concat {α : Type} (head1 head2 : List α) : List α × List α := (head1 ++ head2, [])

def openChain (images : List Image) : Except Int (List Image) → Except Int (List Image)
  | .ok opened => .ok (concat opened images).2
  | .error err => .error err

def addDirtyLog (log : Except Int Image) : List Image → Option (Except Int (List Image))
  | [] => none
  | leaf :: rest => some (log.map fun log => leaf :: rest ++ [log])

def addBlockCache (cache : Except Int Image) : List Image → Except Int (List Image)
  | [] => .ok []
  | image :: rest =>
      if flagTest image.flags rdonly ∧ flagTest image.flags shareable then cache.map fun cache => cache :: image :: rest
      else (addBlockCache cache rest).map fun rest => image :: rest

def addLocalCache (cache : Except Int Image) : List Image → Except Int (List Image)
  | parent :: next :: rest => cache.map fun cache => parent :: cache :: next :: rest
  | images => .ok images

def validateChain (err : Int) : List Image → Option Int
  | [] => some 0
  | [_] => none
  | _ => some err

def addSecondary (s : Vbd) (secondary : Except Int Image) : Except Int Vbd :=
  match s.images with
  | [] => .error (-einval)
  | leaf :: rest =>
      secondary.map fun second =>
        let leaf := { leaf with flags := leaf.flags ||| ignoreEnospc }
        if flagTest s.flags standby then { s with secondary := some second, images := leaf :: rest, mode := .standby }
        else { s with secondary := some second, images := leaf :: second :: rest, mode := .mirror }

def addImages (flags : Nat) (a : Attempt) (images : List Image) : Option (Except Int (List Image)) :=
  (if flagTest flags logDirty then addDirtyLog a.dirtyLog images else some (.ok images)).map fun images => do
    let images ← images
    let images ← if flagTest flags addCache then addBlockCache a.blockCache images else pure images
    if flagTest flags localCache then addLocalCache a.lcache images else pure images

def openValidated (s : Vbd) (a : Attempt) : Option (Except Int Vbd) :=
  (validateChain a.validate s.images).map fun err =>
    if err ≠ 0 then .error err
    else if flagTest s.flags openSecondary then s.addSecondary a.secondary else .ok s

def openFailed (s : Vbd) (old : Option (List UInt8)) : Vbd := { s with name := old, images := [], flags := 0 }

def openVdi (s : Vbd) (name : Option (List UInt8)) (flags : Nat) (a : Attempt) : Option (Int × Vbd) :=
  if s.images ≠ [] then some (-ebusy, s.openFailed s.name)
  else if name = none ∧ s.name = none then some (-einval, s.openFailed s.name)
  else if name ≠ none ∧ a.strdup ≠ 0 then some (a.strdup, s.openFailed s.name)
  else
    let named := { s with name := name.or s.name }
    match openChain named.images a.chain with
    | .error err => some (err, named.openFailed s.name)
    | .ok images =>
        let opened := { named with images, closed := false, flags }
        (addImages flags a images).bind fun
          | .error err => some (err, opened.openFailed s.name)
          | .ok images =>
              (openValidated { opened with images } a).map fun
                | .error err => (err, opened.openFailed s.name)
                | .ok t => (0, t)

def reopen (name : Option (List UInt8)) : Nat → Vbd → List Attempt → Option (Int × Vbd)
  | 0, _, _ | _, _, [] => none
  | n + 1, s, a :: rest =>
      (s.openVdi name (s.flags ||| strict) a).bind fun (err, t) =>
        if err = 0 ∨ n = 0 then some (err, t) else reopen name n t rest

def start (s : Vbd) : Vbd :=
  { s with quiesced := false, quiesceRequested := false, paused := false, pauseRequested := false }

def noteResume (s t : Vbd) : Vbd :=
  match s.snap with
  | none => t
  | some snap =>
      { t with resumes := t.resumes ++ [⟨snap.flags, s.flags, snap.held, t.issues.drop s.issues.length⟩] }

def resume (s : Vbd) (name : Option (List UInt8)) (attempts : List Attempt) (io : Nat → Io) (now : Int) : Option Vbd :=
  if ¬ s.paused then some s
  else
    (reopen name eioRetries s attempts).bind fun (err, t) =>
      if err ≠ 0 then some t
      else ({ t.start with snap := none }.checkState io now).map fun u => noteResume t u

def openImage (s : Vbd) (path : List UInt8) (flags : Nat) (a : Attempt) : Option Vbd :=
  if s.name ≠ none then some s
  else
    (s.openVdi (some path) flags a).map fun (err, t) =>
      if err ≠ 0 then t else if t.images = [] then { t.closeVdi with name := none } else t

/-- `tapdisk_control_close_image` when `tapdisk_blktap_remove_device` has given `err` and the handler waits no more -/
def closeImage (s : Vbd) (err : Int) : Option Vbd :=
  if err = -enotty ∧ s.queue .pending ≠ [] then none
  else if err ≠ 0 ∧ err ≠ -enotty then some s
  else some { s.closeVdi with name := none, freed := !s.tap }

end Control

end Vbd

inductive Event
  | request (id : Nat) (write : Bool) (iov : List Nat) (now : Int)
  | check (io : Nat → Io) (now : Int)
  | recheck (io : Nat → Io) (now : Int)
  | answer (id secs : Nat) (parts : List Part) (now : Int)
  | forward (id secs : Nat) (parts : List Part) (now : Int)
  | kick
  | pause
  | resume (name : Option (List UInt8)) (attempts : List Attempt) (io : Nat → Io) (now : Int)
  | openImage (path : List UInt8) (flags : Nat) (a : Attempt)
  | closeImage (err : Int)
  | kill
  | close

open Vbd in
def step (s : Vbd) : Event → Option Vbd
  | e =>
    if s.freed then none
    else
      match e with
      | .request id write iov now =>
          if (s.holder id).isSome then none
          else
            let queued := (s.setVreq id { s.vreq id with write, iov, ts := now }).setQueue .new (s.queue .new ++ [id])
            some { queued with snap := s.snap.map fun snap => { snap with held := snap.held ++ [id] } }
      | .check io now => s.checkState io now
      | .recheck io now => s.recheckState io now
      | .answer id secs parts now =>
          if secs ∈ s.flights id ∧ Vbd.Covers parts secs ∧ (∀ part ∈ parts, 0 < part.secs) then
            land id now { s with flights := Function.update s.flights id ((s.flights id).erase secs) } parts
          else none
      | .forward id secs parts now =>
          if secs ∈ s.flights id ∧ Vbd.Covers parts secs ∧ (∀ part ∈ parts, 0 < part.secs) then
            let s := { s with flights := Function.update s.flights id ((s.flights id).erase secs) }
            if s.queueReady then s.reissue id parts now else s.completeTreq id secs (-ebusy) now
          else none
      | .kick => some (s.setQueue .completed [])
      | .pause => some s.pause
      | .resume name attempts io now => s.resume name attempts io now
      | .openImage path flags a => s.openImage path flags a
      | .closeImage err => s.closeImage err
      | .kill => some { s.quiesceQueue.2 with dead := true }
      | .close => some s.close

def create (vreq : Nat → Vreq) (tap : Bool) : Vbd where
  dead := false
  closed := false
  quiesceRequested := false
  quiesced := false
  pauseRequested := false
  paused := false
  shutdownRequested := false
  name := none
  flags := 0
  images := []
  secondary := none
  mode := .disabled
  retired := none
  tap := tap
  vreq := vreq
  queue := fun _ => []
  flights := fun _ => []
  freed := false
  snap := none
  issues := []
  resumes := []

end Blktap.Tapdisk.Pause
