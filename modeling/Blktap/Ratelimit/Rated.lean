import Blktap.Ratelimit.Valve
import Blktap.Lib.Run

/-!
# The rate limiting daemon (`td-rated.c`)

The daemon serves many valves, which only share the credit that it hands out. What is left of the credit when a
dispatch comes to a connection of this valve is a part of the event. For the wait queue the model has the `waiting`
flags; but the daemon takes every connection that it closes off the queue, and one that is not queued takes the daemon
down.
-/

namespace Blktap.Ratelimit
open Lib

namespace Connection

/-- One turn of the loop of `rlb_conn_receive`; `none` is `-EINVAL`. -/
def receiveReq (c : Connection) (req : ValveReq) : Option Connection :=
  if tdRlbRequestMax < req.need then none
  else if c.gntd < req.done then none
  else if tdRlbRequestMax < c.need + req.need then none
  else some { c with need := c.need + req.need, gntd := c.gntd - req.done }

def receive (c : Connection) (n : Nat) : Option Connection :=
  ((c.up.take n).foldlM receiveReq { c with up := c.up.drop n }).map fun c =>
    { c with waiting := c.waiting || decide (0 < c.need) }

def respond (c : Connection) (need : Nat) : Connection :=
  { c with
    down := c.down ++ [need]
    need := c.need - need
    gntd := c.gntd + need
    waiting := decide (0 < c.need - need) }

end Connection

namespace State

def crash (s : State) : State :=
  { s with crashed := true, links := fun k => { s.links k with stage := .shut } }

def rlbConnClose (s : State) (k : Nat) : State :=
  if (s.links k).waiting then s.updateLink k fun c => { c with stage := .shut, waiting := false } else s.crash

def rlbAcceptConn (s : State) (k : Nat) : Option State :=
  if k < s.made ∧ (s.links k).stage = .backlog then
    some (s.updateLink k fun c => { c with stage := .accepted, need := 0, gntd := 0, waiting := false })
  else none

def rlbConnReceive (s : State) (k n : Nat) : Option State :=
  if (s.links k).stage = .accepted ∧ 0 < n ∧ n ≤ bufMessages ∧ n ≤ (s.links k).up.length then
    match (s.links k).receive n with
    | some c => some (s.updateLink k fun _ => c)
    | none => some ({ s with refused := true }.rlbConnClose k)
  else none

def rlbConnLost (s : State) (k : Nat) : Option State :=
  if (s.links k).stage = .accepted ∧ (s.links k).closed then some (s.rlbConnClose k) else none

def rlbConnRespond (s : State) (k need : Nat) (sent : Bool) : State :=
  if sent ∧ ¬ (s.links k).closed then s.updateLink k (·.respond need) else s.rlbConnClose k

def Waits (s : State) (k : Nat) : Prop := (s.links k).stage = .accepted ∧ (s.links k).waiting

instance (s : State) (k : Nat) : Decidable (s.Waits k) := inferInstanceAs (Decidable (_ ∧ _))

def dispatchLow (s : State) (k cred : Nat) (sent : Bool) : Option State :=
  if s.Waits k ∧ 0 < cred then some (s.rlbConnRespond k (min cred (s.links k).need) sent) else none

def dispatchToken (s : State) (k : Nat) (sent : Bool) : Option State :=
  if s.Waits k then some (s.rlbConnRespond k (s.links k).need sent) else none

end State

inductive Event
  | queueWrite (secs : Nat) (sent reached : Bool)
  | queueRead (secs : Nat)
  | sock (n : Nat) (reached : Bool)
  | sockLost (reached : Bool)
  | sched (sent reached : Bool)
  | retry (reached : Bool)
  | complete (i secs : Nat)
  | accept (k : Nat)
  | receive (k n : Nat)
  | lost (k : Nat)
  | dispatchLow (k cred : Nat) (sent : Bool)
  | dispatchToken (k : Nat) (sent : Bool)

def step (s : State) : Event → Option State
  | .queueWrite secs sent reached => s.queueWrite secs sent reached
  | .queueRead secs => some (s.queueRead secs)
  | .sock n reached => s.sockEvent n reached
  | .sockLost reached => s.sockLost reached
  | .sched sent reached => s.schedEvent sent reached
  | .retry reached => s.retryTimeout reached
  | .complete i secs => s.completeBelow i secs
  | .accept k => s.rlbAcceptConn k
  | .receive k n => s.rlbConnReceive k n
  | .lost k => s.rlbConnLost k
  | .dispatchLow k cred sent => s.dispatchLow k cred sent
  | .dispatchToken k sent => s.dispatchToken k sent

def bytes (secs : Nat) : Nat := secs * 512

namespace State

def storedBytes (s : State) (l : List Slot) : Nat := (l.map fun req => bytes (s.reqv req).treq).sum

def flying (s : State) (k : Nat) : Nat := (s.below.map fun w => if w.paid = some k then bytes w.secs else 0).sum

def Sends (s : State) (sent : Bool) : Prop := sent ∧ ∀ k ∈ s.sock, (s.links k).stage ≠ .shut

structure Sound (s : State) : Prop where
  kept : s.refused = false
  balance : ∀ k ∈ s.sock, (s.links k).stage = .accepted → (s.links k).gntd =
    (s.links k).down.sum + s.cred + (s.flying k + s.done) + ((s.links k).up.map (·.done)).sum
  covered : s.sock ≠ none → ∃ l, s.stored = some l ∧ s.storedBytes l ≤ s.cred + s.need
  released : s.sock ≠ none → ∃ t, (s.granted s.need).forwardStoredRequests = some t ∧ t.stored = some []

/-- The condition on a write of the guest. The slot that it gets is not the head of `forw` (the one forwarded last) next
to a single stored one. -/
def Storable (s : State) (secs : Nat) (sent : Bool) : Prop :=
  s.sock ≠ none → 0 < secs → s.cred < treqSize secs ∧ (s.free ≠ [] →
    bytes secs ≤ tdRlbRequestMax ∧ s.Sends sent ∧
      (s.queues.first .forw = s.free.head? → ∀ req ∈ s.queues.first .stor, s.queues.next req ≠ none))

/-- The valve resets only while it stores nothing, the writes that complete have been paid for, and the daemon is not
asked for more than it takes and closes only connections that wait. -/
def Meets (s : State) : Event → Prop
  | .queueWrite secs sent _ => s.Storable secs sent
  | .sockLost _ => s.queues.first .stor = none
  | .sched sent _ => 0 < s.done → s.Sends sent ∨ s.queues.first .stor = none
  | .complete i _ => ∀ w ∈ s.below[i]?, w.req ≠ none → ∀ k ∈ s.sock, w.paid = some k
  | .receive k n => (s.links k).need + (((s.links k).up.take n).map (·.need)).sum ≤ tdRlbRequestMax
  | .lost k => (s.links k).waiting
  | .dispatchLow k cred _ => min cred (s.links k).need < tdRlbRequestMax
  | .dispatchToken k _ => (s.links k).need < tdRlbRequestMax
  | _ => True

instance (s : State) (sent : Bool) : Decidable (s.Sends sent) := inferInstanceAs (Decidable (_ ∧ _))

instance (s : State) (secs : Nat) (sent : Bool) : Decidable (s.Storable secs sent) :=
  inferInstanceAs (Decidable (_ → _ → _ ∧ (_ → _ ∧ _ ∧ (_ → ∀ req ∈ s.queues.first .stor, _))))

instance (s : State) : (event : Event) → Decidable (s.Meets event)
  | .queueWrite secs sent _ => inferInstanceAs (Decidable (s.Storable secs sent))
  | .sockLost _ => inferInstanceAs (Decidable (_ = _))
  | .sched sent _ => inferInstanceAs (Decidable (0 < s.done → s.Sends sent ∨ s.queues.first .stor = none))
  | .complete i _ => inferInstanceAs (Decidable (∀ w ∈ s.below[i]?, w.req ≠ none → ∀ k ∈ s.sock, w.paid = some k))
  | .receive _ _ => inferInstanceAs (Decidable (_ ≤ _))
  | .lost _ => inferInstanceAs (Decidable (_ = true))
  | .dispatchLow _ _ _ | .dispatchToken _ _ => inferInstanceAs (Decidable (_ < _))
  | .queueRead _ | .sock _ _ | .retry _ | .accept _ => .isTrue trivial

end State
end Blktap.Ratelimit
