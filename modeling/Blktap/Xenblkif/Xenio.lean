import Mathlib.Data.List.Basic
import Mathlib.Logic.Function.Basic
import Mathlib.Algebra.Ring.Nat

/-!
# Ring messages and their parsing (`xenio-blkif.c`)

The shared ring is kept as the list of all requests that the guest has produced and of all
responses written so far. `reqCons` counts the requests consumed, so it is also the index of the
next one.
-/

namespace Blktap.Xenblkif

def blkifMaxSegmentsPerRequest : Nat := 11
def xcPageSize : Nat := 4096
def blkifOpRead : Nat := 0
def blkifOpWrite : Nat := 1

structure Segment where
  gref : Nat
  firstSect : Nat
  lastSect : Nat
  deriving DecidableEq, Repr

structure BlkifRequest where
  operation : Nat
  nrSegments : Nat
  id : Nat
  sectorNumber : Nat
  seg : Nat → Segment

structure Iovec where
  base : Nat
  len : Nat
  deriving DecidableEq, Repr

structure XenioReq where
  op : Nat
  id : Nat
  status : Int
  offset : Nat
  segs : Nat → Segment
  nSegs : Nat
  vma : Option Nat
  iov : List Iovec

/-- A page holds the sectors 0 to 7; the bound on `last` admits 8. -/
def segmentFails (seg : Segment) : Bool :=
  decide (seg.lastSect < seg.firstSect) || decide (xcPageSize / 512 < seg.lastSect)

def requestMalformed (msg : BlkifRequest) : Bool :=
  decide (blkifMaxSegmentsPerRequest < msg.nrSegments) ||
    (List.range msg.nrSegments).any fun i => segmentFails (msg.seg i)

def storedSegments (msg : BlkifRequest) : Nat :=
  if blkifMaxSegmentsPerRequest < msg.nrSegments then 0
  else match (List.range msg.nrSegments).find? fun i => segmentFails (msg.seg i) with
    | some i => i + 1
    | none => msg.nrSegments

/-- `memset(req, 0, sizeof(req))` clears the bytes of `op` only: every other field that the request
does not set keeps what the slot's last user left there, its mapping included. -/
def parseRequest (msg : BlkifRequest) (req : XenioReq) : XenioReq × Bool :=
  let segs := fun i => if i < storedSegments msg then msg.seg i else req.segs i
  ({ req with
      op := msg.operation, nSegs := msg.nrSegments, id := msg.id
      offset := msg.sectorNumber * 512 % 2 ^ 64, segs := segs },
    requestMalformed msg)

def vectorSegment (page : Nat) (seg : Segment) (iov : List Iovec) : List Iovec :=
  let next := page + seg.firstSect * 512
  let size := (seg.lastSect - seg.firstSect + 1) * 512
  match iov.getLast? with
  | some v =>
      if next ≠ v.base + v.len then iov ++ [⟨next, size⟩]
      else iov.dropLast ++ [⟨v.base, v.len + size⟩]
  | none => iov ++ [⟨next, size⟩]

def xenioVectorRequest (req : XenioReq) (vma : Nat) : XenioReq :=
  let iov := (List.range req.nSegs).foldl
    (fun iov i => vectorSegment (vma + i * xcPageSize) (req.segs i) iov) []
  { req with iov := iov }

/-- `xenio_blkif_mmap_one`, given the address at which the grants were mapped, if they were. -/
def mmapOne (mapped : Option Nat) (req : XenioReq) : XenioReq × Bool :=
  match mapped with
  | some vma => (xenioVectorRequest { req with vma := some vma } vma, false)
  | none => ({ req with vma := none }, true)

structure Response where
  seq : Nat
  id : Nat
  op : Nat
  status : Int
  deriving DecidableEq, Repr

structure Ring where
  size : Nat
  prod : List BlkifRequest
  reqCons : Nat
  rsps : List Response
  /-- How many of the responses the guest has been shown. -/
  pushed : Nat

def Ring.unconsumed (ring : Ring) : Nat := ring.prod.length - ring.reqCons

def Ring.work (ring : Ring) : Bool :=
  decide (0 < ring.unconsumed) && decide (ring.reqCons ≠ ring.rsps.length + ring.size)

/-- The number that is returned and the number of requests that are copied: the counter is incremented before it is
compared. -/
def getRequestsOnce (ring : Ring) (count : Nat) : Nat × Nat :=
  if count = 0 then (0, 0)
  else if ring.unconsumed ≤ count then (ring.unconsumed, ring.unconsumed)
  else (count + 1, count)

/-- `xenio_blkif_get_requests`. A further turn of its loop, which takes requests that arrived
meanwhile, does what a further call does. -/
def getRequests (ring : Ring) (count : Nat) : Nat × Nat :=
  if ring.work then getRequestsOnce ring count else (0, 0)

def Ring.putResponses (ring : Ring) (rsps : List Response) (final : Bool) : Ring :=
  let all := ring.rsps ++ rsps
  { ring with rsps := all, pushed := if final then all.length else ring.pushed }

@[simp] theorem parseRequest_id (msg : BlkifRequest) (req : XenioReq) :
    (parseRequest msg req).1.id = msg.id := rfl

@[simp] theorem parseRequest_op (msg : BlkifRequest) (req : XenioReq) :
    (parseRequest msg req).1.op = msg.operation := rfl

@[simp] theorem parseRequest_fails (msg : BlkifRequest) (req : XenioReq) :
    (parseRequest msg req).2 = requestMalformed msg := rfl

@[simp] theorem putResponses_rsps (ring : Ring) (rsps : List Response) (final : Bool) :
    (ring.putResponses rsps final).rsps = ring.rsps ++ rsps := rfl

@[simp] theorem putResponses_reqCons (ring : Ring) (rsps : List Response) (final : Bool) :
    (ring.putResponses rsps final).reqCons = ring.reqCons := rfl

@[simp] theorem putResponses_prod (ring : Ring) (rsps : List Response) (final : Bool) :
    (ring.putResponses rsps final).prod = ring.prod := rfl

end Blktap.Xenblkif
