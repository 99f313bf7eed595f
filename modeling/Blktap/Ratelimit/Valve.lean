import Blktap.Lib.TailQueue
import Mathlib.Data.Fintype.Card
import Mathlib.Algebra.Ring.Nat

/-!
# The rate limiting valve (`block-valve.c`)

A valve asks the daemon for credit over a stream socket, stores a write while it lacks the credit for it, and tells
the daemon when the writes are done. The state holds the valve, its connections with the record that the daemon keeps
of each, and the writes that the image below the valve has not completed.
-/

namespace Blktap.Ratelimit
open Lib

def tdRlbRequestMax : Nat := 8 <<< 20

def maxRequests : Nat := 32

def bufMessages : Nat := 32

def unsigned (n : Nat) : Nat := n % 2 ^ 32

def treqSize (secs : Nat) : Nat := unsigned (secs <<< 9)

abbrev Slot := Fin maxRequests

structure ValveReq where
  need : Nat
  done : Nat
  deriving DecidableEq

structure ValveRequest where
  treq : Nat
  secs : Nat

inductive ValveQueue
  | stor
  | forw
  deriving DecidableEq

structure Forwarded where
  secs : Nat
  req : Option Slot
  paid : Option Nat

inductive Stage
  | backlog
  | accepted
  | shut
  deriving DecidableEq

/-- One connection of the valve: what is in flight to the daemon and from it, whether the valve has closed its
end, and the daemon's `struct ratelimit_connection`. -/
structure Connection where
  up : List ValveReq
  down : List Nat
  closed : Bool
  stage : Stage
  need : Nat
  gntd : Nat
  waiting : Bool

def Connection.fresh : Connection := ⟨[], [], false, .backlog, 0, 0, false⟩

structure State where
  killed : Bool
  sock : Option Nat
  retry : Bool
  cred : Nat
  need : Nat
  done : Nat
  queues : TailQueues ValveQueue Slot
  reqv : Slot → ValveRequest
  free : List Slot
  links : Nat → Connection
  made : Nat
  below : List Forwarded
  /-- An end has closed or killed a connection because of what the other end has sent. -/
  refused : Bool
  /-- The daemon is gone. -/
  crashed : Bool

namespace State

def updateLink (s : State) (k : Nat) (f : Connection → Connection) : State :=
  { s with links := Function.update s.links k (f (s.links k)) }

def freeRequest (s : State) (req : Slot) : Option State :=
  if maxRequests ≤ s.free.length then none else some { s with free := req :: s.free }

def stored (s : State) : Option (List Slot) := s.queues.walk maxRequests (s.queues.first .stor)

def releaseStored (s : State) (req : Slot) : Option State :=
  { s with below := ⟨(s.reqv req).treq, none, none⟩ :: s.below }.freeRequest req

def sockClose (s : State) : State :=
  match s.sock with
  | none => s
  | some k => { s.updateLink k fun c => { c with closed := true } with sock := none }

def connClose (s : State) : Option State :=
  s.sockClose.stored.bind fun l => l.foldlM releaseStored s.sockClose

def connOpen (s : State) (reached : Bool) : State :=
  if reached && !s.crashed then
    { s with
      sock := some s.made
      made := s.made + 1
      links := Function.update s.links s.made .fresh
      cred := 0
      need := 0
      done := 0
      retry := false }
  else { s with retry := true }

def connReset (s : State) (reached : Bool) : Option State := s.connClose.map (·.connOpen reached)

def kill (s : State) : Option State := { s with killed := true, refused := true }.connClose

def granted (s : State) (cred : Nat) : State := { s with cred := unsigned (s.cred + cred), need := s.need - cred }

def connReceive (s : State) (k : Nat) (buf : List Nat) (reached : Bool) : Option State :=
  let read := s.updateLink k fun c => { c with down := c.down.drop buf.length }
  if buf.any (tdRlbRequestMax ≤ ·) then read.kill
  else if s.need < buf.sum then { read with refused := true }.connReset reached
  else some (read.granted buf.sum)

def connRequest (s : State) (k size : Nat) (sent reached : Bool) : Option State :=
  let asked := { s with need := unsigned (s.need + size), done := 0 }
  if sent ∧ (s.links k).stage ≠ .shut then
    some (asked.updateLink k fun c => { c with up := c.up ++ [⟨size, s.done⟩] })
  else asked.connReset reached

def expendRequest (s : State) (secs : Nat) : Option State :=
  if s.killed then some s
  else if s.sock = none then some s
  else if s.cred < treqSize secs then none
  else some { s with cred := s.cred - treqSize secs }

def payer (s : State) : Option Nat := if s.killed then none else s.sock

def forward (s : State) (secs : Nat) (req : Option Slot) (paid : Option Nat) : State :=
  { s with below := ⟨secs, req, paid⟩ :: s.below }

/-- The loop of `valve_forward_stored_requests`; `none` is a loop that does not end, or a null pointer. -/
def forwardStored : Nat → Option Slot → State → Option State
  | _, none, s => some s
  | 0, some _, _ => none
  | bound + 1, some req, s =>
      let secs := (s.reqv req).treq
      match s.expendRequest secs with
      | none => some s
      | some spent =>
          let gone := spent.forward secs (some req) s.payer
          (gone.queues.remove .stor req).bind fun queues =>
            forwardStored bound (s.queues.next req) { gone with queues := queues.insertHead .forw req }

def forwardStoredRequests (s : State) : Option State :=
  forwardStored (s.cred + maxRequests) (s.queues.first .stor) s

def insertStored (s : State) (req : Slot) (secs : Nat) : State :=
  { s with reqv := Function.update s.reqv req ⟨secs, secs⟩, queues := s.queues.insertTail .stor req }

def storeRequest (s : State) (k secs : Nat) (sent reached : Bool) : Option State :=
  match s.free with
  | [] => some s
  | req :: free =>
      let asked := connRequest { s with free } k (treqSize secs) sent reached
      asked.map (·.insertStored req secs)

def queueWrite (s : State) (secs : Nat) (sent reached : Bool) : Option State :=
  match s.expendRequest secs, s.sock with
  | some spent, _ => some (spent.forward secs none s.payer)
  | none, some k => s.storeRequest k secs sent reached
  | none, none => none

def queueRead (s : State) (secs : Nat) : State := s.forward secs none none

def sockEvent (s : State) (n : Nat) (reached : Bool) : Option State :=
  s.sock.bind fun k =>
    if 0 < n ∧ n ≤ bufMessages ∧ n ≤ (s.links k).down.length then
      (s.connReceive k ((s.links k).down.take n) reached).bind forwardStoredRequests
    else none

def sockLost (s : State) (reached : Bool) : Option State :=
  if s.sock = none then none else (s.connReset reached).bind forwardStoredRequests

def schedEvent (s : State) (sent reached : Bool) : Option State :=
  s.sock.bind fun k => if 0 < s.done then s.connRequest k 0 sent reached else some s

def retryTimeout (s : State) (reached : Bool) : Option State := if s.retry then some (s.connOpen reached) else none

def completeTreq (s : State) (req : Slot) (secs : Nat) : Option State :=
  if (s.reqv req).secs < secs then none
  else
    let rest := (s.reqv req).secs - secs
    let counted := { s with
      reqv := Function.update s.reqv req { s.reqv req with secs := rest }
      done := unsigned (s.done + treqSize secs) }
    if rest = 0 then counted.freeRequest req else some counted

def completeBelow (s : State) (i secs : Nat) : Option State :=
  s.below[i]?.bind fun w =>
    if 0 < secs ∧ secs ≤ w.secs then
      let left := if secs = w.secs then s.below.eraseIdx i else s.below.set i { w with secs := w.secs - secs }
      match w.req with
      | none => some { s with below := left }
      | some req => { s with below := left }.completeTreq req secs
    else none

def init : State where
  killed := false
  sock := none
  retry := false
  cred := 0
  need := 0
  done := 0
  queues := .init
  reqv := fun _ => ⟨0, 0⟩
  free := List.finRange maxRequests
  links := fun _ => .fresh
  made := 0
  below := []
  refused := false
  crashed := false

def opened (reached : Bool) : State := init.connOpen reached

end State
end Blktap.Ratelimit
