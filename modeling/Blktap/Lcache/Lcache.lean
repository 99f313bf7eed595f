import Blktap.Tapdisk.Guest
import Blktap.Lib.FreeList

/-!
# The local read cache (`block-lcache.c`)

The cache is between a leaf and its parents. What the leaf does not have is read from the parents, given to
the guest, and then written to the leaf by a request of its own, which goes through the VBD like a guest
write. The parents do not change; what they hold is `none`, as it is older than every guest write.
-/

namespace Blktap.Lcache
open Lib Tapdisk

def ebusy : Int := 16
def enospc : Int := 28

def maxReq : Nat := 64

structure ReadTreq where
  read : Nat
  extent : Tapdisk.Extent

structure LcacheRequest where
  treq : ReadTreq
  secs : Nat
  err : Int

structure Cache where
  reqv : Nat → LcacheRequest
  free : List Nat
  wrEn : Bool
  forwarded : Nat → Finset Nat
  writing : Nat → Bool
  leaf : Store
  guest : Guest
  panicked : Bool

namespace Cache

def panic (w : Cache) : Cache := { w with panicked := true }

def freeRequest (w : Cache) (i : Nat) : Cache :=
  if maxReq ≤ w.free.length then w.panic else { w with free := i :: w.free }

def take (w : Cache) (i : Nat) (free : List Nat) (treq : ReadTreq) : Cache :=
  { w with free, reqv := Function.update w.reqv i { treq, secs := treq.extent.secs, err := 0 } }

/-- `lcache_queue_read`. The read fails when there is no request, or when the queue is not `ready` to forward
it; then the callback of the clone is never called. -/
def queueRead (w : Cache) (treq : ReadTreq) (ready : Bool) : Cache :=
  match w.free with
  | [] => w
  | i :: free =>
      if ready then
        { w.take i free treq with forwarded := Function.update w.forwarded i treq.extent.sectors }
      else w.take i free treq

def storeRead (w : Cache) (i : Nat) : Cache := { w with writing := Function.update w.writing i true }

def deliver (w : Cache) (treq : ReadTreq) : Cache :=
  { w with guest := w.guest.fetch treq.read treq.extent.sectors none }

def completeRead (w : Cache) (i : Nat) (probe : Option Bool) : Cache :=
  let req := w.reqv i
  if req.err ≠ 0 then w.freeRequest i
  else
    let enabled := probe.getD w.wrEn
    let done := { w.deliver req.treq with wrEn := enabled }
    if enabled then done.storeRead i else done.freeRequest i

def readCb (w : Cache) (i secs : Nat) (err : Int) (probe : Option Bool) : Cache :=
  let req := w.reqv i
  if req.secs < secs then w.panic
  else
    let req := { req with secs := req.secs - secs, err := if req.err ≠ 0 then req.err else err }
    let merged : Cache := { w with reqv := Function.update w.reqv i req }
    if req.secs = 0 then merged.completeRead i probe else merged

def writeCb (w : Cache) (i : Nat) (error : Int) : Cache :=
  (if error = -enospc then { w with wrEn := false } else w).freeRequest i

inductive Event
  | write (extent : Tapdisk.Extent)
  | store (n x : Nat)
  | answer (n : Nat) (part : Finset Nat) (res : Int)
  | read (extent : Tapdisk.Extent)
  | hit (r x : Nat)
  | miss (r : Nat) (extent : Tapdisk.Extent) (ready : Bool)
  | part (i : Nat) (part : Finset Nat) (err : Int) (probe : Option Bool)
  | storeBack (i x : Nat)
  | backDone (i : Nat) (error : Int)

def step (w : Cache) (event : Event) : Option Cache :=
  if w.panicked then none
  else match event with
    | .write extent => if extent.secs = 0 then none else some { w with guest := w.guest.startWrite extent }
    | .store n x =>
        if n < w.guest.history.count ∧ n ∉ w.guest.history.ended ∧ x ∈ (w.guest.ask n).sectors then
          some { w with leaf := w.leaf.put n x }
        else none
    | .answer n part res =>
        if n < w.guest.history.count ∧ n ∉ w.guest.history.ended ∧ part ⊆ (w.guest.ask n).sectors ∧
            Disjoint part (w.guest.answered n) ∧ (res = 0 → ∀ x ∈ part, w.leaf.stored n x = true) then
          some { w with guest := w.guest.answer n part res }
        else none
    | .read extent => if extent.secs = 0 then none else some { w with guest := w.guest.startRead extent }
    | .hit r x =>
        match w.leaf.content x with
        | some writer =>
            if r < w.guest.reads ∧ x ∈ (w.guest.reading r).extent.sectors then
              some { w with guest := w.guest.fetch r {x} writer }
            else none
        | none => none
    | .miss r extent ready =>
        if r < w.guest.reads ∧ extent.secs ≠ 0 ∧ extent.sectors ⊆ (w.guest.reading r).extent.sectors ∧
            ∀ x ∈ extent.sectors, w.leaf.content x = none then
          some (w.queueRead { read := r, extent } ready)
        else none
    | .part i part err probe =>
        if part.Nonempty ∧ part ⊆ w.forwarded i then
          some (readCb { w with forwarded := Function.update w.forwarded i (w.forwarded i \ part) } i part.card
            err probe)
        else none
    | .storeBack i x =>
        if w.writing i ∧ x ∈ (w.reqv i).treq.extent.sectors then some { w with leaf := w.leaf.putOld x }
        else none
    | .backDone i error =>
        if w.writing i then some (writeCb { w with writing := Function.update w.writing i false } i error)
        else none

def opened (leaf : Nat → Bool) : Cache where
  reqv := fun _ => { treq := ⟨0, ⟨0, 0⟩⟩, secs := 0, err := 0 }
  free := (List.range maxReq).reverse
  wrEn := true
  forwarded := fun _ => ∅
  writing := fun _ => false
  leaf := .holding leaf
  guest := .idle
  panicked := false

end Cache

end Blktap.Lcache
