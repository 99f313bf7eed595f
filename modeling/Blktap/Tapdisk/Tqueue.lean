import Mathlib.Data.List.Basic
import Mathlib.Logic.Function.Basic
import Mathlib.Data.List.Perm.Subperm

/-!
# The queue of I/O requests (`tapdisk-queue.c`)

Requests that do not fit are deferred, in a list through the requests themselves. A callback is arbitrary code
that may queue more of them; how requests are merged, and what the kernel does with them, is left open.
-/

namespace Blktap.Tapdisk.Tqueue

/-- A request is known by its address, `next` is its field of that name, and `inFlight` has the requests of each
operation that the kernel works on. -/
structure Queue where
  size : Nat
  queued : List Nat
  inFlight : List (List Nat)
  iocbsPending : Int
  tiocbsPending : Int
  deferred : Option (Nat × Nat)
  tiocbsDeferred : Int
  deferrals : Nat
  next : Nat → Option Nat

namespace Queue

def init (size : Nat) : Queue where
  size := size
  queued := []
  inFlight := []
  iocbsPending := 0
  tiocbsPending := 0
  deferred := none
  tiocbsDeferred := 0
  deferrals := 0
  next := fun _ => none

def full (q : Queue) : Bool := (q.size : Int) ≤ q.tiocbsPending + q.queued.length

def queueTiocb (q : Queue) (tiocb : Nat) : Queue :=
  { q with
    next :=
      match q.queued.getLast? with
      | some prev => Function.update q.next prev (some tiocb)
      | none => q.next
    queued := q.queued ++ [tiocb] }

def deferTiocb (q : Queue) (tiocb : Nat) : Queue :=
  let q := { q with tiocbsDeferred := q.tiocbsDeferred + 1, deferrals := q.deferrals + 1 }
  match q.deferred with
  | none => { q with deferred := some (tiocb, tiocb) }
  | some (head, tail) =>
      { q with deferred := some (head, tiocb), next := Function.update q.next tail (some tiocb) }

def queueDeferredTiocb (q : Queue) : Queue :=
  match q.deferred with
  | none => q
  | some (head, tail) =>
      let q := { q with deferred := (q.next head).map fun head => (head, tail) }
      let q := q.queueTiocb head
      { q with tiocbsDeferred := q.tiocbsDeferred - 1 }

def queueDeferredTiocbs : Nat → Queue → Queue
  | 0, q => q
  | places + 1, q =>
      if !q.full && q.deferred.isSome then queueDeferredTiocbs places q.queueDeferredTiocb else q

def tapdiskQueueTiocb (q : Queue) (tiocb : Nat) : Queue :=
  let q := { q with next := Function.update q.next tiocb none }
  if !q.full then q.queueTiocb tiocb else q.deferTiocb tiocb

def callbacks (q : Queue) (tiocbs : List Nat) : Queue := tiocbs.foldl tapdiskQueueTiocb q

/-- The loop of `cancel_tiocbs`. The callbacks are given by what they queue, one for each request that is completed. -/
def cancelLoop (q : Queue) : Option Nat → List (List Nat) → Option Queue
  | none, [] => some q
  | some tiocb, queues :: rest =>
      let q := q.callbacks queues
      cancelLoop q (q.next tiocb) rest
  | _, _ => none

def cancelTiocbs (q : Queue) (queues : List (List Nat)) : Option (Queue × Nat) :=
  if q.queued = [] then some (q, 0)
  else (cancelLoop { q with queued := [] } q.queued.head? queues).map fun after => (after, q.queued.length)

def failTiocbs (q : Queue) (rest : List Nat) (queues : List (List Nat)) : Option (Queue × Nat) :=
  cancelTiocbs { q with queued := rest } queues

def lioSubmit (q : Queue) (groups : List (List Nat)) (result : Int) (queues : List (List Nat)) : Option Queue :=
  if q.queued = [] then some q
  else if groups.flatten ≠ q.queued ∨ [] ∈ groups ∨ (groups.length : Int) < result then none
  else
    let submitted := result.toNat
    let after := { q with
      iocbsPending := q.iocbsPending + submitted
      tiocbsPending := q.tiocbsPending + q.queued.length
      inFlight := q.inFlight ++ groups.take submitted
      queued := [] }
    if submitted < groups.length then
      (after.failTiocbs (groups.drop submitted).flatten queues).map fun (after, failed) =>
        { after with tiocbsPending := after.tiocbsPending - failed }
    else some after

def lioEvent (q : Queue) (done : List (List Nat)) (queues : List (List Nat)) : Option Queue :=
  if ¬ done.Subperm q.inFlight ∨ queues.length ≠ done.flatten.length then none
  else
    let after := { q with
      inFlight := q.inFlight.diff done
      iocbsPending := q.iocbsPending - done.length
      tiocbsPending := q.tiocbsPending - done.flatten.length }
    some ((after.callbacks queues.flatten).queueDeferredTiocbs q.size)

def rwioSubmit (q : Queue) (queues : List (List Nat)) : Option Queue :=
  if q.queued = [] then some q
  else if queues.length ≠ q.queued.length then none
  else some ((({ q with queued := [] }).callbacks queues.flatten).queueDeferredTiocbs q.size)

end Queue

inductive Submit
  | lio (groups : List (List Nat)) (result : Int) (queues : List (List Nat))
  | rwio (queues : List (List Nat))

inductive Step
  | queue (tiocb : Nat)
  | submit (submit : Submit)
  | event (done : List (List Nat)) (queues : List (List Nat))

namespace Queue

def tapdiskSubmitTiocbs (q : Queue) : Submit → Option Queue
  | .lio groups result queues => q.lioSubmit groups result queues
  | .rwio queues => q.rwioSubmit queues

def tapdiskSubmitAllTiocbs (q : Queue) : List Submit → Option Queue
  | [] => none
  | submit :: rest =>
      (q.tapdiskSubmitTiocbs submit).bind fun q => if q.queued = [] then some q else q.tapdiskSubmitAllTiocbs rest

def perform (q : Queue) : Step → Option Queue
  | .queue tiocb => some (q.tapdiskQueueTiocb tiocb)
  | .submit submit => q.tapdiskSubmitTiocbs submit
  | .event done queues => q.lioEvent done queues

end Queue

end Blktap.Tapdisk.Tqueue
