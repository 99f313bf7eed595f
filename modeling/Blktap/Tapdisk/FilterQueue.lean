import Blktap.Lib.Run
import Blktap.Tapdisk.Filter
import Blktap.Tapdisk.Tqueue

/-!
# The queue with its filter (`tapdisk-queue.c`)

A request and its operation have one number. A function stops where it runs a callback, which is arbitrary code: while
it runs, requests may be queued, and `next` goes on where it has returned.
-/

namespace Blktap.Tapdisk.Filter
open Optimize Lib

structure Prep where
  tiocb : Nat
  fd : Int
  rw : Bool
  buf : BitVec 64
  size : BitVec 64
  offset : BitVec 64

def Prep.iocb (p : Prep) : Iocb where
  data := .user p.tiocb
  opcode := if p.rw then ioCmdPwrite else ioCmdPread
  fildes := p.fd
  buf := p.buf
  nbytes := p.size
  offset := p.offset

structure Call where
  tiocb : Nat
  iocb : Iocb
  err : Int
  faulted : Bool
  failed : Bool

/-- Where a function is in its loop of callbacks. `left` are the requests that are still to be cancelled, and `failed`
is the number of all of them. -/
inductive Work
  | idle
  | events (reports : List Event)
  | cancel (tiocb : Nat) (left : List Nat) (err : Int) (failed : Nat)
  deriving DecidableEq

structure Filtered where
  queue : Tqueue.Queue
  mem : State
  filter : Tfilter
  work : Work
  asked : Nat → Iocb
  faulted : Nat → Bool
  failed : Nat → Bool
  requests : List (Nat × Iocb)
  calls : List Call

def members (s : State) (io : Nat) : List Nat :=
  match (s.iocbs io).data with
  | .user _ => [io]
  | .opio op => ((s.expandIocb op).map Prod.snd).getD []

namespace Filtered

def init (size : Nat) (filter : Tfilter) (iocbs : Nat → Iocb) : Filtered where
  queue := Tqueue.Queue.init size
  mem := State.init size iocbs
  filter := filter
  work := .idle
  asked := iocbs
  faulted := fun _ => false
  failed := fun _ => false
  requests := []
  calls := []

def tiocbOf (s : Filtered) (io : Nat) : Option Nat :=
  match (s.mem.iocbs io).data with
  | .user pointer => if s.filter.has pointer then none else some pointer
  | .opio _ => none

def queueTiocb (s : Filtered) (p : Prep) : Filtered :=
  { s with
    queue := s.queue.tapdiskQueueTiocb p.tiocb
    mem := s.mem.setIocb p.tiocb p.iocb
    asked := Function.update s.asked p.tiocb p.iocb
    faulted := Function.update s.faulted p.tiocb false
    failed := Function.update s.failed p.tiocb false
    requests := s.requests ++ [(p.tiocb, p.iocb)] }

def completeTiocb (s : Filtered) (tiocb : Nat) (res : BitVec 64) (work : Work) : Filtered :=
  let err := s.mem.eventError ⟨tiocb, res⟩
  { s with
    work := work
    calls := s.calls ++ [⟨tiocb, s.mem.iocbs tiocb, err, s.faulted tiocb, s.failed tiocb⟩] }

def cancelTiocbs (s : Filtered) (err : Int) (pending : Nat) : Option Filtered :=
  match s.queue.queued with
  | [] => some s
  | first :: left =>
      (s.tiocbOf first).map fun tiocb =>
        let s := { s with
          queue := { s.queue with queued := [] }
          failed := fun t => s.failed t || (first :: left).contains t }
        s.completeTiocb tiocb (BitVec.ofInt 64 err) (.cancel tiocb left err pending)

def faultedBy (s : Filtered) (random : Nat → Nat) (t : Nat) : Bool :=
  s.faulted t || (s.filter.faults random s.queue.queued).contains t

def filtered (s : Filtered) (random : Nat → Nat) (words : BitVec 64 → BitVec 64) : Filtered :=
  let (filter, mem) := s.filter.filterIocbs random words s.mem s.queue.queued
  { s with filter := filter, mem := mem, faulted := s.faultedBy random }

def merged (s : Filtered) (random : Nat → Nat) (words : BitVec 64 → BitVec 64) : Option (State × List Nat) :=
  (s.filtered random words).mem.ioMerge s.queue.queued

def lioSubmit (s : Filtered) (random : Nat → Nat) (words : BitVec 64 → BitVec 64) (result : Int) : Option Filtered :=
  if s.queue.queued = [] then some s
  else
    (s.merged random words).bind fun (mem, merged) =>
      let submitted := result.toNat
      let err := if result < 0 then result else -eio
      let s := { s.filtered random words with
        mem := mem
        queue := { s.queue with
          iocbsPending := s.queue.iocbsPending + submitted
          tiocbsPending := s.queue.tiocbsPending + s.queue.queued.length
          inFlight := s.queue.inFlight ++ (merged.take submitted).map (members mem)
          queued := [] } }
      if submitted < merged.length then
        (mem.ioExpandIocbs (merged.drop submitted)).bind fun (mem, rest) =>
          { s with mem := mem, queue := { s.queue with queued := rest } }.cancelTiocbs err rest.length
      else some s

def failedBy (s : Filtered) (events : List Event) (t : Nat) : Bool :=
  s.failed t || events.any fun event =>
    event.res ≠ (s.mem.iocbs event.obj).nbytes && (members s.mem event.obj).contains t

def reported (s : Filtered) (words : BitVec 64 → BitVec 64) (events : List Event) : Option (Filtered × Nat) :=
  (s.mem.ioSplit events).map fun (mem, reports) =>
    let (filter, mem) := s.filter.filterEvents words mem (reports.map Event.obj)
    ({ s with filter := filter, mem := mem, work := .events reports, failed := s.failedBy events }, reports.length)

def lioEvent (s : Filtered) (words : BitVec 64 → BitVec 64) (events : List Event) : Option Filtered :=
  (s.reported words events).map fun (after, split) =>
    { after with
      queue := { s.queue with
        iocbsPending := s.queue.iocbsPending - events.length
        tiocbsPending := s.queue.tiocbsPending - split
        inFlight := s.queue.inFlight.filter fun group => !(events.map Event.obj).contains (group.headD 0) } }

def rwioSubmit (s : Filtered) (random : Nat → Nat) (words : BitVec 64 → BitVec 64) (results : Nat → BitVec 64)
    (after : BitVec 64 → BitVec 64) : Option Filtered :=
  if s.queue.queued = [] then some s
  else
    (s.merged random words).bind fun (mem, merged) =>
      let s := { s.filtered random words with mem := mem, queue := { s.queue with queued := [] } }
      (s.reported after (merged.map fun io => ⟨io, results io⟩)).map Prod.fst

def next (s : Filtered) : Option Filtered :=
  match s.work with
  | .idle => none
  | .events [] => some { s with queue := s.queue.queueDeferredTiocbs s.queue.size, work := .idle }
  | .events (event :: reports) =>
      (s.tiocbOf event.obj).map fun tiocb => s.completeTiocb tiocb event.res (.events reports)
  | .cancel tiocb left err failed =>
      match s.queue.next tiocb with
      | none => some { s with work := .idle, queue := { s.queue with tiocbsPending := s.queue.tiocbsPending - failed } }
      | some tiocb =>
          some (s.completeTiocb tiocb (BitVec.ofInt 64 err) (.cancel tiocb left.tail err failed))

end Filtered

inductive Step
  | queue (p : Prep)
  | lioSubmit (random : Nat → Nat) (words : BitVec 64 → BitVec 64) (result : Int)
  | rwioSubmit (random : Nat → Nat) (words : BitVec 64 → BitVec 64) (results : Nat → BitVec 64)
      (after : BitVec 64 → BitVec 64)
  | event (words : BitVec 64 → BitVec 64) (events : List Event)
  | cancel
  | next

namespace Filtered

def perform (s : Filtered) : Step → Option Filtered
  | .queue p => some (s.queueTiocb p)
  | .lioSubmit random words result => s.lioSubmit random words result
  | .rwioSubmit random words results after => s.rwioSubmit random words results after
  | .event words events => s.lioEvent words events
  | .cancel => s.cancelTiocbs (-eio) 0
  | .next => s.next

def outstanding (s : Filtered) : List Nat := (s.requests.map Prod.fst).diff (s.calls.map Call.tiocb)

def Answered (nbytes res : BitVec 64) : Prop := res.toNat ≤ nbytes.toNat ∨ 2 ^ 63 ≤ res.toNat

/-- Callers queue requests that are not outstanding, and the kernel takes and completes what it was given. -/
def Allowed (s : Filtered) : Step → Prop
  | .queue p => p.tiocb ∉ s.outstanding ∧ s.filter.has p.tiocb = false ∧ p.buf.toNat + p.size.toNat < 2 ^ 63
  | .lioSubmit random words result => s.work = .idle ∧ -2 ^ 31 ≤ result ∧
      ∀ mem merged, s.merged random words = some (mem, merged) → result ≤ merged.length
  | .rwioSubmit random words results _ => s.work = .idle ∧ ∀ mem merged, s.merged random words = some (mem, merged) →
      ∀ io ∈ merged, Answered (mem.iocbs io).nbytes (results io)
  | .event _ events => s.work = .idle ∧ (events.map Event.obj).Subperm (s.queue.inFlight.map (·.headD 0)) ∧
      ∀ event ∈ events, Answered (s.mem.iocbs event.obj).nbytes event.res
  | .cancel => s.work = .idle
  | .next => s.work ≠ .idle

def Records (s after : Filtered) : Prop :=
  ∀ sec, after.filter.dhash sec ≠ s.filter.dhash sec →
    ∃ t, sec ∈ (Tfilter.sectorsOf (after.asked t)).map Prod.fst ∧ after.faulted t = false ∧
      ((after.asked t).opcode = ioCmdPwrite ∨ after.failed t = false)

def Right (s : Filtered) (step : Step) : Prop := ∃ after, s.perform step = some after ∧ Records s after

def Unchecked (s : Filtered) (t : Nat) : Prop :=
  (s.asked t).opcode = ioCmdPwrite ∨ ∀ sector ∈ Tfilter.sectorsOf (s.asked t), s.filter.secs ≤ sector.1

def Ends (s : Filtered) : Prop := ∀ last ∈ s.queue.queued.getLast?, s.queue.next last = none

/-- No request of the event with a fault is empty where the operation did not fail, and where it failed no checksum of
another one would be recorded. -/
def Seen (s : Filtered) (event : Event) : Prop :=
  (event.res = (s.mem.iocbs event.obj).nbytes →
    ∀ t ∈ members s.mem event.obj, s.faulted t = true → (s.asked t).nbytes ≠ 0) ∧
  (s.filter.checks = true → event.res ≠ (s.mem.iocbs event.obj).nbytes →
    ∀ t ∈ members s.mem event.obj, s.faulted t = false → s.Unchecked t)

/-- No fault is injected into a request whose operation the kernel does not take, nothing goes unseen, and the last
request that is cancelled has no link. -/
def Meets (s : Filtered) : Step → Prop
  | .queue _ => True
  | .lioSubmit random words result => ∀ mem merged, s.merged random words = some (mem, merged) →
      result < merged.length →
        s.Ends ∧ ∀ io ∈ merged.drop result.toNat, ∀ t ∈ members mem io, t ∉ s.filter.faults random s.queue.queued
  | .rwioSubmit random words results _ => ∀ mem merged, s.merged random words = some (mem, merged) →
      ∀ io ∈ merged, { s.filtered random words with mem := mem }.Seen ⟨io, results io⟩
  | .event _ events => ∀ event ∈ events, s.Seen event
  | .cancel => s.Ends
  | .next =>
      match s.work with
      | .cancel tiocb left _ _ => tiocb ∈ s.outstanding → left = [] ∧ s.queue.next tiocb = none
      | _ => True

end Filtered
end Blktap.Tapdisk.Filter
