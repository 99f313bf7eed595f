import Blktap.Lib.Run
import Blktap.Xenblkif.Xenio

/-!
# Request slots of a block interface (`tapdisk-xenblkif.c`)

`reqsFree` is an array of `ringSize` slots: its last `nReqsFree` entries are the free list.
-/

namespace Blktap.Xenblkif

inductive TdOp
  | read
  | write
  deriving DecidableEq, Repr

structure TdIovec where
  base : Nat
  secs : Nat
  deriving DecidableEq, Repr

structure Vreq where
  op : TdOp
  iovcnt : Nat
  sec : Nat

structure TapReq where
  vreq : Vreq
  xenio : XenioReq
  iov : Nat → TdIovec
  msg : BlkifRequest
  seq : Nat

structure Stats where
  reqsIn : Nat := 0
  reqsOut : Nat := 0
  kicksIn : Nat := 0
  kicksOut : Nat := 0
  errorsMsg : Nat := 0
  errorsMap : Nat := 0
  errorsImg : Nat := 0

structure Blkif where
  ringSize : Nat
  reqs : Nat → TapReq
  nReqsFree : Nat
  reqsFree : Nat → Nat
  ring : Ring
  stats : Stats
  queued : List Nat

def freeRequest (blkif : Blkif) (slot : Nat) : Option Blkif :=
  let free := blkif.nReqsFree + 1
  if blkif.ringSize < free then none
  else some { blkif with
    nReqsFree := free
    reqsFree := Function.update blkif.reqsFree (blkif.ringSize - free) slot }

def reqsInit (ring : Ring) (memory : Nat → TapReq) (array : Nat → Nat) : Option Blkif :=
  let blkif : Blkif :=
    { ringSize := ring.size, reqs := memory, nReqsFree := 0, reqsFree := array, ring := ring
      stats := {}, queued := [] }
  (List.range ring.size).foldlM freeRequest blkif

def Blkif.setReq (blkif : Blkif) (slot : Nat) (tapreq : TapReq) : Blkif :=
  { blkif with reqs := Function.update blkif.reqs slot tapreq }

def respond (tapreq : TapReq) (status : Int) : Response :=
  { seq := tapreq.seq, id := tapreq.xenio.id, op := tapreq.xenio.op, status := status }

def answerRequest (unmapped error final : Bool) (blkif : Blkif) (slot : Nat) : Blkif :=
  let tapreq := blkif.reqs slot
  let status := if error then -1 else 0
  let vma := if unmapped then none else tapreq.xenio.vma
  let xenio := { tapreq.xenio with status := status, vma := vma }
  { blkif.setReq slot { tapreq with xenio := xenio } with
    ring := blkif.ring.putResponses [respond tapreq status] final }

def countOut (final : Bool) (blkif : Blkif) : Blkif :=
  let kicks := blkif.stats.kicksOut + if final then 1 else 0
  { blkif with stats := { blkif.stats with
      reqsOut := blkif.stats.reqsOut + 1, kicksOut := kicks } }

def completeRequest (unmapped error final : Bool) (blkif : Blkif) (slot : Nat) : Option Blkif :=
  (freeRequest (answerRequest unmapped error final blkif slot) slot).map (countOut final)

def requestCb (unmapped : Bool) (error final : Bool) (blkif : Blkif) (slot : Nat) :
    Option Blkif :=
  (completeRequest unmapped error final blkif slot).map fun blkif =>
    { blkif with stats := { blkif.stats with
        errorsImg := blkif.stats.errorsImg + if error then 1 else 0 } }

def offsetSector (offset : Nat) : Nat :=
  if offset < 2 ^ 63 then offset / 512 else offset / 512 + (2 ^ 64 - 2 ^ 55)

/-- `tapdisk_xenblkif_vector_request` never advances its two pointers, so each turn of its loop
copies the first vector. -/
def vectorRequest (tapreq : TapReq) : TapReq :=
  let iov := match tapreq.xenio.iov with
    | [] => tapreq.iov
    | v :: _ => Function.update tapreq.iov 0 ⟨v.base, v.len / 512⟩
  { tapreq with
    iov := iov
    vreq := { tapreq.vreq with
      iovcnt := tapreq.xenio.iov.length, sec := offsetSector tapreq.xenio.offset } }

def tdOp (op : Nat) : Option TdOp :=
  if op = blkifOpRead then some .read else if op = blkifOpWrite then some .write else none

def makeVbdRequest (mapped : Option Nat) (tapreq : TapReq) : TapReq × Bool :=
  match tdOp tapreq.xenio.op with
  | none => (tapreq, true)
  | some op =>
      let (xenio, fails) := mmapOne mapped tapreq.xenio
      let tapreq := { tapreq with xenio := xenio }
      if fails then (tapreq, true)
      else (vectorRequest { tapreq with vreq := { tapreq.vreq with op := op } }, false)

structure Grants where
  map : Nat → Option Nat
  unmap : Nat → Bool

/-- The body of the loop of `tapdisk_xenblkif_queue_requests`. `tapdisk_vbd_queue_request` appends
to a list and never fails. -/
def queueRequest (grants : Grants) (i : Nat) (blkif : Blkif) (slot : Nat) : Option Blkif :=
  let tapreq := blkif.reqs slot
  let (xenio, malformed) := parseRequest tapreq.msg tapreq.xenio
  let tapreq := { tapreq with xenio := xenio }
  if malformed then
    completeRequest (grants.unmap i) true true
      { blkif.setReq slot tapreq with
        stats := { blkif.stats with errorsMsg := blkif.stats.errorsMsg + 1 } } slot
  else
    let (tapreq, fails) := makeVbdRequest (grants.map i) tapreq
    if fails then
      completeRequest (grants.unmap i) true true
        { blkif.setReq slot tapreq with
          stats := { blkif.stats with errorsMap := blkif.stats.errorsMap + 1 } } slot
    else some { blkif.setReq slot tapreq with queued := blkif.queued ++ [slot] }

def queueRequests (grants : Grants) (base : Nat) : Nat → Blkif → Option Blkif
  | 0, blkif => some blkif
  | n + 1, blkif => (queueRequests grants base n blkif).bind fun blkif =>
      queueRequest grants n blkif (blkif.reqsFree (base + n))

def copyRequests (blkif : Blkif) (base : Nat) : Nat → Nat → TapReq
  | 0 => blkif.reqs
  | n + 1 =>
      let reqs := copyRequests blkif base n
      let slot := blkif.reqsFree (base + n)
      match blkif.ring.prod[blkif.ring.reqCons + n]? with
      | some msg => Function.update reqs slot
          { reqs slot with msg := msg, seq := blkif.ring.reqCons + n }
      | none => reqs

/-- It is undefined when `xenio_blkif_get_requests` returns more than `nReqsFree`: the batch then extends past the
array, and its last message is read from there. -/
def fetchRequests (blkif : Blkif) : Option (Blkif × Nat) :=
  let (n, copied) := getRequests blkif.ring blkif.nReqsFree
  if blkif.nReqsFree < n then none
  else
    let base := blkif.ringSize - blkif.nReqsFree
    some ({ blkif with
      reqs := copyRequests blkif base copied
      nReqsFree := blkif.nReqsFree - n
      ring := { blkif.ring with reqCons := blkif.ring.reqCons + copied } }, n)

def Blkif.arrive (blkif : Blkif) (msgs : List BlkifRequest) : Blkif :=
  { blkif with ring := { blkif.ring with prod := blkif.ring.prod ++ msgs } }

/-- Each element of `arrivals` holds the requests that the guest produces before one look at the ring; after the last of
them the ring is empty. -/
def fetchLoop : Blkif → List (List BlkifRequest) → Option Blkif
  | blkif, [] => (fetchRequests blkif).map Prod.fst
  | blkif, msgs :: arrivals => (fetchRequests (blkif.arrive msgs)).bind fun (blkif, n) =>
      if n = 0 then some blkif else fetchLoop blkif arrivals

def batchSize (blkif fetched : Blkif) : Nat := blkif.nReqsFree - fetched.nReqsFree

def ringEvent (grants : Grants) (arrivals : List (List BlkifRequest)) (blkif : Blkif) :
    Option Blkif :=
  let kicked := { blkif with stats := { blkif.stats with kicksIn := blkif.stats.kicksIn + 1 } }
  (fetchLoop kicked arrivals).bind fun fetched =>
    let n := batchSize blkif fetched
    if n = 0 then some fetched
    else queueRequests grants (blkif.ringSize - blkif.nReqsFree) n
      { fetched with stats := { fetched.stats with reqsIn := fetched.stats.reqsIn + n } }

inductive Event
  /-- The event channel fires; what the guest produces meanwhile and what mapping yields. -/
  | ringEvent (grants : Grants) (arrivals : List (List BlkifRequest))
  /-- The VBD calls back for one of the requests it holds. -/
  | complete (slot : Nat) (error final unmapped : Bool)

def step (blkif : Blkif) : Event → Option Blkif
  | .ringEvent grants arrivals => ringEvent grants arrivals blkif
  | .complete slot error final unmapped =>
      if slot ∈ blkif.queued then
        requestCb unmapped error final { blkif with queued := blkif.queued.erase slot } slot
      else none

end Blktap.Xenblkif
