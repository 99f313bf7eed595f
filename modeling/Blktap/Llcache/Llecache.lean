import Blktap.Llcache.Llpcache

/-!
# The ephemeral leaf cache (`block-llcache.c`, LLE)

A guest write is forwarded to LOCAL, which answers it in parts, each with its own result. When LOCAL runs out
of space the whole write goes to SHARED, and so does everything after it. SHARED is in front of LOCAL.
-/

namespace Blktap.Llcache
open Lib Tapdisk

inductive LleMode
  | localLeaf
  | shared
  deriving DecidableEq

structure LlecacheRequest where
  treq : WriteTreq
  pending : Nat
  error : Int

/-- `outcome` is what the callback has been given for each part of a write, `origin` and `route` the modes in which a
write and a read were queued. -/
structure Lle where
  mode : LleMode
  reqv : Nat → LlecacheRequest
  free : List Nat
  forwarded : Nat → Finset Nat
  sharing : Nat → Finset Nat
  leaf : Target → Store
  guest : Guest
  outcome : Nat → List (Finset Nat × Int)
  origin : Nat → LleMode
  route : Nat → LleMode
  panicked : Bool

namespace Lle

def panic (w : Lle) : Lle := { w with panicked := true }

def completeRequest (w : Lle) (treq : WriteTreq) (res : Int) : Lle :=
  { w with guest := w.guest.answer treq.write treq.extent.sectors res }

def freeRequest (w : Lle) (i : Nat) : Lle :=
  if maxReq ≤ w.free.length then w.panic else { w with free := i :: w.free }

def queueShared (w : Lle) (treq : WriteTreq) : Lle :=
  { w with sharing := Function.update w.sharing treq.write treq.extent.sectors }

def take (w : Lle) (i : Nat) (free : List Nat) (treq : WriteTreq) : Lle :=
  { w with free, reqv := Function.update w.reqv i { w.reqv i with treq, pending := treq.extent.secs } }

/-- `llecache_forward_write`. When the queue is not `ready`, the request of the guest is completed by
`td_forward_request` itself and the callback of the clone is never called. -/
def forwardWrite (w : Lle) (treq : WriteTreq) (ready : Bool) : Lle :=
  match w.free with
  | [] => w.completeRequest treq (-ebusy)
  | i :: free =>
      if ready then
        { w.take i free treq with forwarded := Function.update w.forwarded i treq.extent.sectors }
      else (w.take i free treq).completeRequest treq (-ebusy)

def queueWrite (w : Lle) (treq : WriteTreq) (ready : Bool) : Lle :=
  match w.mode with
  | .localLeaf => w.forwardWrite treq ready
  | .shared => w.queueShared treq

def writeCb (w : Lle) (i secs : Nat) (error : Int) : Lle :=
  let req := w.reqv i
  if req.pending < secs then w.panic
  else
    let req := { req with pending := req.pending - secs, error := llWriteError req.error error }
    let merged : Lle := { w with reqv := Function.update w.reqv i req }
    if req.pending ≠ 0 then merged
    else if req.error = -enospc then ({ merged with mode := .shared }.queueShared req.treq).freeRequest i
    else (merged.completeRequest req.treq error).freeRequest i

def giveBack (w : Lle) (i : Nat) (part : Finset Nat) (error : Int) : Lle :=
  { w with
    forwarded := Function.update w.forwarded i (w.forwarded i \ part)
    outcome := Function.update w.outcome (w.reqv i).treq.write
      (w.outcome (w.reqv i).treq.write ++ [(part, error)]) }

def shows (w : Lle) : LleMode → Nat → Option Nat
  | .localLeaf, x => ((w.leaf .localLeaf).content x).getD none
  | .shared, x => ((w.leaf .sharedLeaf).content x).getD (((w.leaf .localLeaf).content x).getD none)

def storeIn (w : Lle) (target : Target) (n x : Nat) : Lle :=
  { w with leaf := Function.update w.leaf target ((w.leaf target).put n x) }

inductive Event
  | write (extent : Tapdisk.Extent) (ready : Bool)
  | store (i x : Nat)
  | part (i : Nat) (part : Finset Nat) (error : Int)
  | shareStore (n x : Nat)
  | shareAnswer (n : Nat) (part : Finset Nat) (res : Int)
  | read (extent : Tapdisk.Extent)
  | fetch (r x : Nat)

def step (w : Lle) (event : Event) : Option Lle :=
  if w.panicked then none
  else match event with
    | .write extent ready =>
        if extent.secs = 0 then none
        else some (queueWrite
          { w with
            guest := w.guest.startWrite extent
            origin := Function.update w.origin w.guest.history.count w.mode }
          { write := w.guest.history.count, extent } ready)
    | .store i x => if x ∈ w.forwarded i then some (w.storeIn .localLeaf (w.reqv i).treq.write x) else none
    | .part i part error =>
        if part.Nonempty ∧ part ⊆ w.forwarded i ∧
            (error = 0 → ∀ x ∈ part, (w.leaf .localLeaf).stored (w.reqv i).treq.write x = true) then
          some ((w.giveBack i part error).writeCb i part.card error)
        else none
    | .shareStore n x => if x ∈ w.sharing n then some (w.storeIn .sharedLeaf n x) else none
    | .shareAnswer n part res =>
        if part.Nonempty ∧ part ⊆ w.sharing n ∧
            (res = 0 → ∀ x ∈ part, (w.leaf .sharedLeaf).stored n x = true) then
          some { w with
            sharing := Function.update w.sharing n (w.sharing n \ part)
            guest := w.guest.answer n part res }
        else none
    | .read extent =>
        if extent.secs = 0 then none
        else some { w with
          guest := w.guest.startRead extent, route := Function.update w.route w.guest.reads w.mode }
    | .fetch r x =>
        if r < w.guest.reads ∧ x ∈ (w.guest.reading r).extent.sectors then
          some { w with guest := w.guest.fetch r {x} (w.shows (w.route r) x) }
        else none

def opened (localLeaf sharedLeaf : Nat → Bool) : Lle where
  mode := .localLeaf
  reqv := fun _ => { treq := ⟨0, ⟨0, 0⟩⟩, pending := 0, error := 0 }
  free := (List.range maxReq).reverse
  forwarded := fun _ => ∅
  sharing := fun _ => ∅
  leaf := fun target => match target with
    | .localLeaf => .holding localLeaf
    | .sharedLeaf => .holding sharedLeaf
  guest := .idle
  outcome := fun _ => []
  origin := fun _ => .localLeaf
  route := fun _ => .localLeaf
  panicked := false

end Lle

end Blktap.Llcache
