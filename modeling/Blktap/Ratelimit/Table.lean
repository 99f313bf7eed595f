import Blktap.Lib.Bytes
import Blktap.Lib.Linked
import Blktap.Lib.Run
import Blktap.Ratelimit.Token

/-!
# The connections of the rate limiting daemon (`td-rated.c`)

A slot of the table is free or holds a connection. A connection is on the queue `open`, and on the queue `wait`
while it needs credit; it has links of its own for each queue. What the sockets give, which grants can be sent
and what credit the valve has are parts of the events.
-/

namespace Blktap.Ratelimit
open Lib

def fdSetsize : Int := 1024

structure RlbConn where
  sock : Int
  need : Nat
  gntd : Nat
  waiting : Bool
  deriving DecidableEq

structure Bridge where
  connv : Nat → RlbConn
  free : List Nat
  opened : TailQueues Unit Nat
  wait : TailQueues Unit Nat
  /-- An entry has been taken off a queue that it was not on. -/
  misused : Bool
  /-- A `BUG`, a null pointer, a descriptor outside of the descriptor set, or a loop that does not end. -/
  crashed : Bool
  stopped : Bool

/-- What `recv` gives: the bytes that are there, none at the end of the stream, or an error. -/
inductive Recv
  | bytes (l : List UInt8)
  | error (errno : Nat)

def unsignedLong (byte : Nat → UInt8) (off : Nat) : Nat := le32 byte off + le32 byte (off + 4) * 2 ^ 32

def requests (l : List UInt8) : List ValveReq :=
  let byte i := l.getD i 0
  (List.range (l.length / 16)).map fun i => ⟨unsignedLong byte (16 * i), unsignedLong byte (16 * i + 8)⟩

def RlbConn.receiveReq (c : RlbConn) (req : ValveReq) : RlbConn × Bool :=
  if tdRlbRequestMax < req.need then (c, false)
  else if c.gntd < req.done then (c, false)
  else
    let counted := { c with need := (c.need + req.need) % 2 ^ 64, gntd := c.gntd - req.done }
    (counted, decide (counted.need ≤ tdRlbRequestMax))

def RlbConn.receiveReqs (c : RlbConn) : List ValveReq → RlbConn × Bool
  | [] => (c, true)
  | req :: reqs =>
      match c.receiveReq req with
      | (c, true) => c.receiveReqs reqs
      | (c, false) => (c, false)

def RlbConn.granted (c : RlbConn) (need : Nat) : RlbConn :=
  { c with need := c.need - need, gntd := (c.gntd + need) % 2 ^ 64 }

def RlbConn.Ends (c : RlbConn) : Recv → Prop
  | .error _ => True
  | .bytes l => l.length = 0 ∨ l.length % 16 ≠ 0 ∨ (c.receiveReqs (requests l)).2 = false

instance (c : RlbConn) : (recv : Recv) → Decidable (c.Ends recv)
  | .error _ => .isTrue trivial
  | .bytes _ => inferInstanceAs (Decidable (_ ∨ _ ∨ _))

/-- `rlb_token_dispatch` grants in `full` while the credit is not negative, and `rlb_meminfo_dispatch_low` no more than
the credit that is left. -/
structure Pass where
  full : Bool
  cred : Int
  sent : Nat → Bool

def Pass.spent (pass : Pass) : Bool := if pass.full then pass.cred < 0 else pass.cred ≤ 0

def Pass.amount (pass : Pass) (need : Nat) : Nat := if pass.full then need else min pass.cred.toNat need

/-- One turn of `rlb_main_iterate`, with what `recv` and `accept` give -/
structure Iterate where
  input : Nat → Option Recv
  stdin : Bool
  accepted : Option Int
  passes : List Pass

namespace Bridge

def updateConn (s : Bridge) (k : Nat) (c : RlbConn) : Bridge := { s with connv := Function.update s.connv k c }

def setWait (s : Bridge) (wait : TailQueues Unit Nat) : Bridge := { s with wait }

def setOpened (s : Bridge) (opened : TailQueues Unit Nat) : Bridge := { s with opened }

def crash (s : Bridge) : Bridge := { s with crashed := true }

def andThen (s : Bridge) (f : Bridge → Bridge) : Bridge := if s.crashed then s else f s

def takeWait (s : Bridge) (k : Nat) : Bridge :=
  let noted := { s with misused := s.misused || !s.wait.holds rlbConnMax () k }
  match s.wait.remove () k with
  | some wait => noted.setWait wait
  | none => noted.crash

def takeOpen (s : Bridge) (k : Nat) : Bridge :=
  let noted := { s with misused := s.misused || !s.opened.holds rlbConnMax () k }
  match s.opened.remove () k with
  | some opened => noted.setOpened opened
  | none => noted.crash

def connFree (s : Bridge) (k : Nat) : Bridge :=
  if rlbConnMax ≤ s.free.length then s.crash else { s with free := k :: s.free }

def closeSock (s : Bridge) (k : Nat) : Bridge :=
  if (s.connv k).sock = 0 then s else s.updateConn k { s.connv k with sock := -1 }

def connClose (s : Bridge) (k : Nat) : Bridge :=
  (((s.closeSock k).takeWait k).andThen (·.takeOpen k)).andThen (·.connFree k)

def received (s : Bridge) (k : Nat) (c : RlbConn) : Bridge :=
  if c.need ≠ 0 ∧ c.waiting = false then
    (s.updateConn k { c with waiting := true }).setWait (s.wait.insertTail () k)
  else s.updateConn k c

/-- `-EAGAIN` passes the first check and fails the next one, because as a size it is no multiple of the size of a
message. -/
def connReceive (s : Bridge) (k : Nat) : Recv → Bridge
  | .error _ => s.connClose k
  | .bytes l =>
      if l.length = 0 then s.connClose k
      else if l.length % 16 ≠ 0 then s.connClose k
      else
        match (s.connv k).receiveReqs (requests l) with
        | (c, true) => s.received k c
        | (c, false) => (s.updateConn k c).connClose k

def connRespond (s : Bridge) (k need : Nat) (sent : Bool) : Bridge :=
  if (s.connv k).need < need then s.crash
  else if sent then
    let c := (s.connv k).granted need
    if c.need = 0 then ((s.updateConn k c).takeWait k).andThen (·.updateConn k { c with waiting := false })
    else s.updateConn k c
  else s.connClose k

/-- `rlb_accept_conn`; the result 0 of `accept` counts as a failure, and no other. -/
def acceptConn (s : Bridge) (sock : Int) : Bridge :=
  if sock = 0 then s
  else
    match s.free with
    | [] => s
    | k :: free =>
        { s.updateConn k ⟨sock, 0, 0, false⟩ with
          free
          wait := s.wait.wipe k
          opened := (s.opened.wipe k).insertTail () k }

def passLoop (pass : Pass) : Nat → Option Nat → Int → Bridge → Bridge
  | _, none, _, s => s
  | 0, some _, _, s => s.crash
  | bound + 1, some k, cred, s =>
      if { pass with cred }.spent then s
      else
        let need := { pass with cred }.amount (s.connv k).need
        (s.connRespond k need (pass.sent k)).andThen (passLoop pass bound (s.wait.next k) (cred - need))

def dispatch (s : Bridge) (pass : Pass) : Bridge := passLoop pass rlbConnMax (s.wait.first ()) pass.cred s

def receiveLoop (input : Nat → Option Recv) : Nat → Option Nat → Nat → Bridge → Bridge × Nat
  | _, none, nfds, s => (s, nfds)
  | 0, some _, nfds, s => (s.crash, nfds)
  | bound + 1, some k, nfds, s =>
      match input k with
      | none => receiveLoop input bound (s.opened.next k) nfds s
      | some recv =>
          let read := s.connReceive k recv
          if nfds = 1 ∨ read.crashed then (read, nfds - 1)
          else receiveLoop input bound (s.opened.next k) (nfds - 1) read

def openList (s : Bridge) : List Nat := (s.opened.walk rlbConnMax (s.opened.first ())).getD []

def ready (s : Bridge) (e : Iterate) : Nat :=
  (s.openList.filter fun k => (e.input k).isSome).length + e.stdin.toNat + e.accepted.isSome.toNat

def dispatchAll (s : Bridge) (passes : List Pass) : Bridge :=
  passes.foldl (fun s pass => s.andThen (·.dispatch pass)) s

def acceptReady (s : Bridge) (e : Iterate) (nfds : Nat) : Bridge :=
  let nfds := if nfds ≠ 0 ∧ e.stdin then nfds - 1 else nfds
  let (s, nfds) := match e.accepted with
    | some sock => if nfds ≠ 0 then (s.acceptConn sock, nfds - 1) else (s, nfds)
    | none => (s, nfds)
  if nfds = 0 then s else s.crash

def iterate (s : Bridge) (e : Iterate) : Option Bridge :=
  if s.openList.any fun k => (s.connv k).sock < 0 ∨ fdSetsize ≤ (s.connv k).sock then some s.crash
  else if s.ready e = 0 then if s.wait.first () = none then none else some (s.dispatchAll e.passes)
  else
    let (read, nfds) := receiveLoop e.input rlbConnMax (s.opened.first ()) (s.ready e) s
    some ((read.andThen (·.dispatchAll e.passes)).andThen (·.acceptReady e nfds))

def closeLoop : Nat → Option Nat → Bridge → Bridge
  | _, none, s => s
  | 0, some _, s => s.crash
  | bound + 1, some k, s => (s.connClose k).andThen (closeLoop bound (s.opened.next k))

def shutdown (s : Bridge) : Bridge := { closeLoop rlbConnMax (s.opened.first ()) s with stopped := true }

def init : Bridge where
  connv := fun _ => ⟨0, 0, 0, false⟩
  free := List.range rlbConnMax
  opened := .init
  wait := .init
  misused := false
  crashed := false
  stopped := false

end Bridge

inductive BridgeEvent
  | iterate (e : Iterate)
  | shutdown

def bridgeStep (s : Bridge) (event : BridgeEvent) : Option Bridge :=
  if s.crashed ∨ s.stopped then none
  else
    match event with
    | .iterate e => s.iterate e
    | .shutdown => some s.shutdown

namespace Bridge

structure Sound (s : Bridge) : Prop where
  slots : ∃ opened, s.opened.walk rlbConnMax (s.opened.first ()) = some opened ∧
    (s.free ++ opened).Perm (List.range rlbConnMax)
  waiting : ∃ wait, s.wait.walk rlbConnMax (s.wait.first ()) = some wait ∧ wait.Nodup ∧ wait ⊆ s.openList ∧
    ∀ k ∈ s.openList, (k ∈ wait ↔ (s.connv k).waiting) ∧ ((s.connv k).waiting ↔ 0 < (s.connv k).need)
  bounded : ∀ k ∈ s.openList, (s.connv k).need ≤ tdRlbRequestMax
  consistent : s.misused = false ∧ s.crashed = false

/-- Only connections that wait are closed, and `accept` gives a descriptor that fits in a descriptor set. -/
def Meets (s : Bridge) : BridgeEvent → Prop
  | .iterate e =>
      (∀ k ∈ s.openList, ∀ recv ∈ e.input k, (s.connv k).Ends recv → (s.connv k).waiting) ∧
      ∀ sock ∈ e.accepted, 0 ≤ sock ∧ sock < fdSetsize
  | .shutdown => ∀ k ∈ s.openList, (s.connv k).waiting

instance (s : Bridge) : (event : BridgeEvent) → Decidable (s.Meets event)
  | .iterate e => inferInstanceAs (Decidable
      ((∀ k ∈ s.openList, ∀ recv ∈ e.input k, (s.connv k).Ends recv → (s.connv k).waiting) ∧
        ∀ sock ∈ e.accepted, 0 ≤ sock ∧ sock < fdSetsize))
  | .shutdown => inferInstanceAs (Decidable (∀ k ∈ s.openList, (s.connv k).waiting = true))

end Bridge
end Blktap.Ratelimit
