import Mathlib.Algebra.Ring.Nat
import Mathlib.Data.Finset.Card
import Mathlib.Data.Int.DivMod

/-!
# The event scheduler (`scheduler.c`)

Callbacks may register, unregister and mask events, and wait for events themselves. The frames are the calls of
`scheduler_wait_for_events` that have not returned, the innermost one first. A step is what happens up to the
next point where other code may run.
-/

namespace Blktap.Tapdisk.Sched

inductive Dir
  | read
  | write
  | except
  deriving DecidableEq, Repr

structure Poll where
  read : Bool
  write : Bool
  except : Bool
  timeout : Bool
  deriving DecidableEq, Repr

namespace Poll

def none : Poll := ⟨false, false, false, false⟩

def timer : Poll := ⟨false, false, false, true⟩

def has (p : Poll) : Dir → Bool
  | .read => p.read
  | .write => p.write
  | .except => p.except

def add (p : Poll) : Dir → Poll
  | .read => { p with read := true }
  | .write => { p with write := true }
  | .except => { p with except := true }

def any (p : Poll) : Bool := p.read || p.write || p.except || p.timeout

end Poll

/-- An `event_t`. The callback is arbitrary code. `found` counts how often a wait has found the event ready, `called`
how often its callback was called for it and `skipped` how often it was masked. -/
structure Event where
  mode : Poll
  dead : Bool
  pending : Poll
  masked : Bool
  id : Nat
  fd : Int
  timeout : Int
  deadline : Int
  found : Nat
  called : Nat
  skipped : Nat
  deriving DecidableEq, Repr

def int32 (value : Int) : Int := value.bmod (2 ^ 32)

/-- The three sets of descriptors, as one. All descriptors are below `FD_SETSIZE`. -/
abbrev FdSets := Finset (Dir × Int)

namespace Event

def watches (e : Event) : FdSets := ({.read, .write, .except} : Finset Dir).filter (fun d => e.mode.has d) |>.image (·, e.fd)

def raise (e : Event) (pending : Poll) : Event :=
  { e with pending, found := if e.pending.any then e.found else e.found + 1 }

end Event

def preparedSets (events : List Event) : FdSets :=
  events.foldl (fun sets e => if e.masked || e.dead then sets else sets ∪ e.watches) ∅

def preparedTimeout (events : List Event) (now : Int) : Int :=
  events.foldl (fun timeout e =>
    if e.masked || e.dead || !e.mode.timeout then timeout
    else if 0 < int32 (e.deadline - now) then min timeout (int32 (e.deadline - now))
    else 0) 600

def takeFd (d : Dir) (r : Event × FdSets × Int) : Event × FdSets × Int :=
  let (e, sets, nfds) := r
  if e.mode.has d ∧ (d, e.fd) ∈ sets then (e.raise (e.pending.add d), sets.erase (d, e.fd), nfds - 1)
  else (e, sets, nfds)

def checkFdEvents : List Event → FdSets → Int → List Event × Int
  | [], _, nfds => ([], nfds)
  | e :: es, sets, nfds =>
      if nfds = 0 then (e :: es, nfds)
      else if e.dead then
        let (es, nfds) := checkFdEvents es sets nfds
        (e :: es, nfds)
      else
        let (e, sets, nfds) := takeFd .except (takeFd .write (takeFd .read (e, sets, nfds)))
        let (es, nfds) := checkFdEvents es sets nfds
        (e :: es, nfds)

/-- `scheduler_check_timeouts`. There is no result when the `BUG_ON` is met. -/
def checkTimeouts (now : Int) : List Event → Option (List Event)
  | [] => some []
  | e :: es =>
      if e.pending.any && e.masked then none
      else
        let e := if e.dead || e.pending.any || !e.mode.timeout || now < e.deadline then e else e.raise .timer
        (checkTimeouts now es).map (e :: ·)

def checkEvents (events : List Event) (ready : FdSets) (now : Int) : Option (List Event) :=
  let (events, left) :=
    if ready.card = 0 then (events, 0) else checkFdEvents events ready ready.card
  (checkTimeouts now events).bind fun events => if left = 0 then some events else none

inductive Phase
  /-- a recursive wait goes on with the events that are pending -/
  | before
  | selecting
  | after
  deriving DecidableEq, Repr

/-- A `scheduler_wait_for_events` that has not returned: the place of its loop in the list of events, the number
`n_dispatched` and whether the loop is in a callback. -/
structure Frame where
  phase : Phase
  next : Nat
  ran : Nat
  calling : Bool
  deriving DecidableEq, Repr

/-- A `scheduler_t` and the frames, and whether a callback was called in spite of its event, a ready event was missed or
memory was released under a loop -/
structure State where
  events : List Event
  uuid : Nat
  timeout : Int
  maxTimeout : Int
  depth : Nat
  frames : List Frame
  bug : Bool
  revoked : Nat → Bool
  hidden : Nat → Bool
  stray : Bool
  missed : Bool
  loose : Bool

def State.initial : State where
  events := []
  uuid := 1
  timeout := 0
  maxTimeout := 0
  depth := 0
  frames := []
  bug := false
  revoked := fun _ => false
  hidden := fun _ => false
  stray := false
  missed := false
  loose := false

namespace State

def nextUuid (s : State) : Nat := if (s.uuid + 1) % 2 ^ 32 = 0 then 1 else (s.uuid + 1) % 2 ^ 32

def registerEvent (s : State) (mode : Poll) (fd timeout now : Int) (cb mem : Bool) : Except Int Nat × State :=
  if !cb then (.error (-22), s)
  else if !mode.any then (.error (-22), s)
  else if !mem then (.error (-12), s)
  else
    (.ok s.uuid,
      { s with
        events := s.events ++
          [{ mode, dead := false, pending := .none, masked := false, id := s.uuid, fd, timeout
             deadline := int32 (now + timeout), found := 0, called := 0, skipped := 0 }]
        uuid := s.nextUuid
        revoked := Function.update s.revoked s.uuid false
        hidden := Function.update s.hidden s.uuid false })

end State

def changeFirst (id : Nat) (change : Event → Event) : List Event → List Event
  | [] => []
  | e :: es => if e.id = id then change e :: es else e :: changeFirst id change es

namespace State

def unregisterEvent (s : State) (id : Nat) : State :=
  if id = 0 then s
  else
    { s with
      events := changeFirst id (fun e => { e with dead := true }) s.events
      revoked := Function.update s.revoked id true }

def maskEvent (s : State) (id : Nat) (masked : Bool) : State :=
  if id = 0 then s
  else
    { s with
      events := changeFirst id (fun e => { e with masked }) s.events
      hidden := Function.update s.hidden id masked }

def setMaxTimeout (s : State) (timeout : Int) : State :=
  if 0 ≤ timeout then { s with maxTimeout := min s.maxTimeout timeout } else s

def gcEvents (s : State) (rest : List Frame) : State :=
  { s with
    events := s.events.filter fun e => !e.dead
    loose := s.loose || (!rest.isEmpty && s.events.any (·.dead)) }

def leave (s : State) (rest : List Frame) : State := { s with depth := s.depth - 1, frames := rest }

def enter (s : State) : State :=
  { s with
    depth := s.depth + 1
    frames := { phase := if 1 < s.depth + 1 then .before else .selecting, next := 0, ran := 0, calling := false } ::
      s.frames }

def told (ready : FdSets) (now : Int) (e e' : Event) : Bool :=
  e.dead || e.masked ||
    ([Dir.read, .write, .except].all (fun d => !e.mode.has d || decide ((d, e.fd) ∉ ready) || e'.pending.has d) &&
      (!e.mode.timeout || decide (now < e.deadline) || e'.pending.any))

def select (s : State) (rest : List Frame) (ready : Option FdSets) (start now : Int) : State :=
  let s := { s with timeout := min (preparedTimeout s.events start) s.maxTimeout }
  match ready with
  | none => s.leave rest
  | some ready =>
      match checkEvents s.events ready now with
      | none => { s with bug := true }
      | some events =>
          { s with
            events, timeout := 600, maxTimeout := 600
            frames := { phase := .after, next := 0, ran := 0, calling := false } :: rest
            missed := s.missed || !(s.events.zip events).all fun (e, e') => told ready now e e' }

def endLoop (s : State) (f : Frame) (rest : List Frame) : State :=
  match f.phase with
  | .before =>
      if 0 < f.ran then s.leave rest
      else { s with frames := { phase := .selecting, next := 0, ran := 0, calling := false } :: rest }
  | .selecting => s
  | .after => if s.depth = 1 then (s.gcEvents rest).leave rest else s.leave rest

def turn (s : State) (f : Frame) (rest : List Frame) (now : Int) : State :=
  match s.events[f.next]? with
  | none => s.endLoop f rest
  | some e =>
      if e.dead || !e.pending.any then { s with frames := { f with next := f.next + 1 } :: rest }
      else
        let e := { e with
          pending := .none
          deadline := if e.mode.timeout then int32 (now + e.timeout) else e.deadline }
        if e.masked then
          { s with
            events := s.events.set f.next { e with skipped := e.skipped + 1 }
            frames := { f with next := f.next + 1, ran := f.ran + 1 } :: rest }
        else
          { s with
            events := s.events.set f.next { e with called := e.called + 1 }
            frames := { f with calling := true } :: rest
            stray := s.stray || s.revoked e.id || s.hidden e.id }

def finish (s : State) (f : Frame) (rest : List Frame) : State :=
  { s with frames := { f with next := f.next + 1, ran := f.ran + 1, calling := false } :: rest }

def clientRuns (s : State) : Bool := s.frames.head?.all (·.calling)

end State

inductive Step
  | register (mode : Poll) (fd timeout now : Int) (cb mem : Bool)
  | unregister (id : Nat)
  | mask (id : Nat) (masked : Bool)
  | maxTimeout (timeout : Int)
  | wait
  | select (ready : Option FdSets) (start now : Int)
  | turn (now : Int)
  | finish

open State in
def State.perform (s : State) (step : Step) : Option State :=
  if s.bug then none
  else
    match step with
    | .register mode fd timeout now cb mem =>
        if s.clientRuns then some (s.registerEvent mode fd timeout now cb mem).2 else none
    | .unregister id => if s.clientRuns then some (s.unregisterEvent id) else none
    | .mask id masked => if s.clientRuns then some (s.maskEvent id masked) else none
    | .maxTimeout timeout => if s.clientRuns then some (s.setMaxTimeout timeout) else none
    | .wait => if s.clientRuns then some s.enter else none
    | .select ready start now =>
        match s.frames with
        | [] => none
        | f :: rest =>
            if f.phase = .selecting ∧ ready.all (fun ready => decide (ready ⊆ preparedSets s.events)) then
              some (s.select rest ready start now)
            else none
    | .turn now =>
        match s.frames with
        | [] => none
        | f :: rest => if f.phase ≠ .selecting ∧ !f.calling then some (s.turn f rest now) else none
    | .finish =>
        match s.frames with
        | [] => none
        | f :: rest => if f.calling then some (s.finish f rest) else none

end Blktap.Tapdisk.Sched
