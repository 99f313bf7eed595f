import Blktap.Tapdisk.Guest
import Blktap.Lib.FreeList

/-!
# The persistent leaf cache (`block-llcache.c`, LLP)

A guest write is forked into two clones, one for the LOCAL leaf and one for SHARED. The clones are requests
of the VBD and end in any order, each with its own error. What a sector holds is named by the guest write
whose data it is.
-/

namespace Blktap.Llcache
open Lib Tapdisk

def ebusy : Int := 16
def enospc : Int := 28

def maxReq : Nat := 64

def llWriteError (curr error : Int) : Int := if error ≠ 0 ∧ (curr = 0 ∨ curr = -enospc) then error else 0

@[simp] theorem llWriteError_zero (curr : Int) : llWriteError curr 0 = 0 := by simp [llWriteError]

theorem llWriteError_or (curr error : Int) : llWriteError curr error = 0 ∨ llWriteError curr error = error := by
  unfold llWriteError
  split
  · exact .inr rfl
  · exact .inl rfl

inductive Target
  | localLeaf
  | sharedLeaf
  deriving DecidableEq

inductive LlpMode
  | mirror
  | shared
  deriving DecidableEq

structure WriteTreq where
  write : Nat
  extent : Tapdisk.Extent

structure LlpcacheRequest where
  treq : WriteTreq
  error : Int
  pending : Target → Bool

def LlpcacheRequest.merge (req : LlpcacheRequest) (target : Target) (error : Int) : LlpcacheRequest :=
  { req with pending := Function.update req.pending target false, error := llWriteError req.error error }

/-- `outcome` is what the callback of a clone was given, `route` the mode in which a read was queued. -/
structure Llp where
  mode : LlpMode
  reqv : Nat → LlpcacheRequest
  free : List Nat
  queued : Nat → Target → Bool
  leaf : Target → Store
  guest : Guest
  outcome : Nat → Target → Option Int
  route : Nat → LlpMode
  panicked : Bool

namespace Llp

def panic (w : Llp) : Llp := { w with panicked := true }

def completeRequest (w : Llp) (treq : WriteTreq) (res : Int) : Llp :=
  { w with guest := w.guest.answer treq.write treq.extent.sectors res }

def freeRequest (w : Llp) (i : Nat) : Llp :=
  if maxReq ≤ w.free.length then w.panic else { w with free := i :: w.free }

def requeueTreq (w : Llp) (i : Nat) (target : Target) : Llp :=
  { w with
    queued := Function.update w.queued i (Function.update (w.queued i) target true)
    reqv := Function.update w.reqv i
      { w.reqv i with pending := Function.update (w.reqv i).pending target true } }

/-- The `memset` of `llpcache_alloc_request` clears as many bytes as a pointer has, so that `error` keeps what the last
write has left in it. -/
def take (w : Llp) (i : Nat) (free : List Nat) (treq : WriteTreq) : Llp :=
  { w with free, reqv := Function.update w.reqv i { w.reqv i with treq } }

def forkWrite (w : Llp) (treq : WriteTreq) : Llp :=
  match w.free with
  | [] => w.completeRequest treq (-ebusy)
  | i :: free => ((w.take i free treq).requeueTreq i .localLeaf).requeueTreq i .sharedLeaf

def switches (target : Target) (error : Int) : Bool := target = .localLeaf ∧ error = -enospc

def counted (target : Target) (error : Int) : Int := if switches target error then 0 else error

def mergeError (w : Llp) (i : Nat) (target : Target) (error : Int) : Llp :=
  { w with
    mode := if switches target error then .shared else w.mode
    reqv := Function.update w.reqv i ((w.reqv i).merge target (counted target error)) }

def writeCb (w : Llp) (i : Nat) (target : Target) (error : Int) : Llp :=
  if (w.reqv i).pending target then
    let merged := w.mergeError i target error
    let req := merged.reqv i
    if req.pending .localLeaf ∨ req.pending .sharedLeaf then merged
    else (merged.completeRequest req.treq req.error).freeRequest i
  else w.panic

/-- `llpcache_queue_read`; behind the case for LLP_SHARED there is no `break`. -/
def queueRead (w : Llp) (extent : Tapdisk.Extent) : Llp :=
  let begun : Llp :=
    { w with guest := w.guest.startRead extent, route := Function.update w.route w.guest.reads w.mode }
  match w.mode with
  | .mirror => begun
  | .shared => begun.panic

def dequeue (w : Llp) (i : Nat) (target : Target) (error : Int) : Llp :=
  { w with
    queued := Function.update w.queued i (Function.update (w.queued i) target false)
    outcome := Function.update w.outcome (w.reqv i).treq.write
      (Function.update (w.outcome (w.reqv i).treq.write) target (some error)) }

def shows (w : Llp) : LlpMode → Nat → Option Nat
  | .mirror, x => ((w.leaf .localLeaf).content x).getD (((w.leaf .sharedLeaf).content x).getD none)
  | .shared, x => ((w.leaf .sharedLeaf).content x).getD none

inductive Event
  | write (extent : Tapdisk.Extent)
  | store (i : Nat) (target : Target) (x : Nat)
  | finish (i : Nat) (target : Target) (error : Int)
  | read (extent : Tapdisk.Extent)
  | fetch (r x : Nat)

/-- A clone stores sectors into the leaf that `llpcache_forward_write` sends it to, and only ends well when all its
sectors are stored. -/
def step (w : Llp) (event : Event) : Option Llp :=
  if w.panicked then none
  else match event with
    | .write extent =>
        if extent.secs = 0 then none
        else some (Llp.forkWrite { w with guest := w.guest.startWrite extent }
          { write := w.guest.history.count, extent })
    | .store i target x =>
        if w.queued i target ∧ x ∈ (w.reqv i).treq.extent.sectors then
          some { w with leaf :=
            Function.update w.leaf target ((w.leaf target).put (w.reqv i).treq.write x) }
        else none
    | .finish i target error =>
        let treq := (w.reqv i).treq
        if w.queued i target ∧
            (error = 0 → ∀ x ∈ treq.extent.sectors, (w.leaf target).stored treq.write x = true) then
          some ((w.dequeue i target error).writeCb i target error)
        else none
    | .read extent => if extent.secs = 0 then none else some (w.queueRead extent)
    | .fetch r x =>
        if r < w.guest.reads ∧ x ∈ (w.guest.reading r).extent.sectors then
          some { w with guest := w.guest.fetch r {x} (w.shows (w.route r) x) }
        else none

def opened (localLeaf sharedLeaf : Nat → Bool) : Llp where
  mode := .mirror
  reqv := fun _ => { treq := ⟨0, ⟨0, 0⟩⟩, error := 0, pending := fun _ => false }
  free := (List.range maxReq).reverse
  queued := fun _ _ => false
  leaf := fun target => match target with
    | .localLeaf => .holding localLeaf
    | .sharedLeaf => .holding sharedLeaf
  guest := .idle
  outcome := fun _ _ => none
  route := fun _ => .mirror
  panicked := false

end Llp

end Blktap.Llcache
