import Mathlib.Data.List.Basic
import Mathlib.Logic.Function.Basic
import Mathlib.Algebra.Ring.Nat

/-!
# Reads through a VHD index (`block-vindex.c`)

The index says for each sector in which file it is. A block of the index is read into one of four cached tables
before it is used, and requests that come meanwhile wait on it. Each turn of a loop is a step: whether a file can
be opened and how a read ends are parts of the steps.
-/

namespace Blktap.Vindex

def vhdIndexFilePoolSize : Nat := 12
def vhdIndexCacheSize : Nat := 4

def vhdIndexRequests : Nat := 32 * 11 + vhdIndexCacheSize

def ddBlkUnused : Nat := 0xFFFFFFFF

def einval : Int := 22
def ebusy : Int := 16
def enoent : Int := 2

structure Entry where
  fileId : Nat
  offset : Nat
  deriving DecidableEq

def Entry.used (e : Entry) : Bool := e.offset ≠ ddBlkUnused

structure Index where
  spb : Nat
  spb_pos : 0 < spb
  vhdBlocks : Nat
  vhdBlocks_lt : vhdBlocks < 2 ^ 32
  bat : Nat → Nat
  entry : Nat → Nat → Entry

structure Treq where
  token : Nat
  sec : Nat
  secs : Nat
  buf : Nat
  deriving DecidableEq

def Treq.take (t : Treq) (n : Nat) : Treq := { t with secs := n }

def Treq.advance (t : Treq) (n : Nat) : Treq := { t with sec := t.sec + n, secs := t.secs - n, buf := t.buf + n }

structure Waiting where
  req : Nat
  treq : Treq

structure Block where
  blk : Nat
  seqno : Nat
  pending : Bool
  valid : Bool
  table : Nat → Entry
  queue : List Waiting

def Block.zero : Block := ⟨0, 0, false, false, fun _ => ⟨0, 0⟩, []⟩

structure FileRef where
  opened : Bool
  fid : Nat
  seqno : Nat
  refcnt : Nat

structure Flight where
  req : Nat
  treq : Treq
  file : Nat
  fid : Nat
  off : Nat

structure MetaRead where
  block : Nat
  blk : Nat
  sec : Nat

/-- A failed `ASSERT`, or a null pointer -/
inductive Fault
  | assertion
  | null
  deriving DecidableEq

inductive Answer
  | error (err : Int)
  | data (fid off : Nat)
  deriving DecidableEq

/-- `struct vhd_index`. `forwarded`, `told` and `issued` are the pieces that the parent has got, the pieces that are
completed and the reads that have been queued. -/
structure Driver where
  blocks : Nat → Block
  cache : Nat → Option Nat
  cacheFree : List Nat
  fds : Nat → FileRef
  free : List Nat
  indexSet : Nat → Bool
  flights : List Flight
  metas : List MetaRead
  call : Option Treq
  replaying : Option Nat
  fault : Option Fault
  forwarded : List Treq
  told : List (Treq × Answer)
  issued : List Treq

inductive Found
  | invalid
  | batClear
  | bitClear
  | bitSet
  | cacheMiss
  | metaReadPending
  deriving DecidableEq

def lesser (seqno : Nat → Nat) (lru : Option Nat) (i : Nat) : Option Nat :=
  match lru with
  | none => some i
  | some least => if seqno i < seqno least then some i else lru

def leastUsed (seqno : Nat → Nat) (candidates : List Nat) : Option Nat := candidates.foldl (lesser seqno) none

/-- `++seqno`, which halves all of the numbers before it wraps -/
def touched (seqno : Nat → Nat) (size i : Nat) : Nat → Nat :=
  let next := Function.update seqno i (seqno i + 1)
  if seqno i + 1 = 0xFFFFFFFF then fun j => if j < size then next j / 2 else next j else next

namespace Index
variable (x : Index)

def blkOf (sec : Nat) : Nat := sec / x.spb % 2 ^ 32

def inBlock (t : Treq) : Nat := min t.secs (x.spb - t.sec % x.spb)

end Index

namespace Driver
variable (s : Driver)

def fail (fault : Fault) : Driver := { s with fault := some fault }

def setBlock (b : Nat) (block : Block) : Driver := { s with blocks := Function.update s.blocks b block }

def touchBlock (b : Nat) : Driver :=
  { s with blocks := fun i =>
      { s.blocks i with seqno := touched (fun i => (s.blocks i).seqno) vhdIndexCacheSize b i } }

def getBlock (blk : Nat) : Option Nat :=
  (List.range vhdIndexCacheSize).findSome? fun i => (s.cache i).filter fun b => (s.blocks b).blk = blk

def lruBlock : Option Nat :=
  leastUsed (fun i => ((s.cache i).map fun b => (s.blocks b).seqno).getD 0)
    ((List.range vhdIndexCacheSize).filter fun i => (s.cache i).any fun b => !(s.blocks b).pending)

def initializeBlock (b : Nat) : Driver := s.setBlock b { Block.zero with seqno := (s.blocks b).seqno }

def allocateBlock : Option (Driver × Nat) :=
  match s.cacheFree with
  | b :: cacheFree => some ((({ s with cacheFree }).initializeBlock b).touchBlock b, b)
  | [] =>
      s.lruBlock.bind fun i => (s.cache i).map fun b =>
        ((({ s with cache := Function.update s.cache i none }).initializeBlock b).touchBlock b, b)

def installBlock (blk : Nat) : Option (Driver × Nat) :=
  s.allocateBlock.map fun (t, b) =>
    let named := t.setBlock b { t.blocks b with blk }
    match (List.range vhdIndexCacheSize).find? fun i => named.cache i = none with
    | some i => ({ named with cache := Function.update named.cache i (some b) }, b)
    | none => (named.fail .assertion, b)

def findFile (fid : Nat) : Option Nat := (List.range vhdIndexFilePoolSize).find? fun i => (s.fds i).fid = fid

def lruFile : Option Nat :=
  leastUsed (fun i => (s.fds i).seqno)
    (((List.range vhdIndexFilePoolSize).filter (0 < ·)).filter fun i => (s.fds i).refcnt = 0)

def useFile (i : Nat) : Driver :=
  let fds := fun j => { s.fds j with seqno := touched (fun j => (s.fds j).seqno) vhdIndexFilePoolSize i j }
  { s with fds := Function.update fds i { fds i with refcnt := (fds i).refcnt + 1 } }

def getFile (fid : Nat) (opens : Bool) : Driver × Except Int Nat :=
  match s.findFile fid with
  | some i => (s.useFile i, .ok i)
  | none =>
      match s.lruFile with
      | none => (s, .error (-ebusy))
      | some i =>
          if opens then
            let opened := { s with fds := Function.update s.fds i { s.fds i with opened := true, fid, refcnt := 0 } }
            (opened.useFile i, .ok i)
          else
            ({ s with fds := Function.update s.fds i { s.fds i with opened := false, fid := 0, refcnt := 0 } },
              .error (-enoent))

def allocateRequest : Option (Driver × Nat) :=
  match s.free with
  | [] => none
  | req :: free => some (if s.indexSet req then { s with free }.fail .assertion else { s with free }, req)

def complete (t : Treq) (answer : Answer) : Driver := { s with told := (t, answer) :: s.told }

def forward (t : Treq) : Driver := { s with forwarded := t :: s.forwarded }

def setCall (t : Treq) : Driver := { s with call := some t }

def failRead (t : Treq) (err : Int) : Driver := { s.complete t (.error err) with call := none }

def blockValid (b : Nat) : Bool := !(s.blocks b).pending && (s.blocks b).valid

end Driver

section Reads
variable (x : Index) (s : Driver)
open Driver

def readCache (sec : Nat) : Found :=
  let blk := x.blkOf sec
  if x.vhdBlocks ≤ blk then .invalid
  else if x.bat blk = ddBlkUnused then .batClear
  else
    match s.getBlock blk with
    | none => .cacheMiss
    | some b =>
        if (s.blocks b).pending then .metaReadPending
        else if ((s.blocks b).table (sec % x.spb)).used then .bitSet
        else .bitClear

def touchRead (sec : Nat) : Driver :=
  let blk := x.blkOf sec
  if x.vhdBlocks ≤ blk ∨ x.bat blk = ddBlkUnused then s
  else
    match s.getBlock blk with
    | none => s
    | some b => s.touchBlock b

def readCacheSpan (t : Treq) (value : Bool) : Option Nat :=
  if x.vhdBlocks ≤ x.blkOf t.sec then none
  else
    match s.getBlock (x.blkOf t.sec) with
    | none => none
    | some b =>
        if s.blockValid b then
          some ((List.range (x.inBlock t)).takeWhile fun i =>
            ((s.blocks b).table (t.sec % x.spb + i)).used == value).length
        else none

/-- `vhd_index_schedule_meta_read` of a block that is not in the cache; the number of its first sector has 32 bits. -/
def scheduleMetaRead (blk : Nat) : Driver × Int :=
  match s.installBlock blk with
  | none => (s, -ebusy)
  | some (t, b) =>
      ({ t.setBlock b { t.blocks b with pending := true } with
        metas := ⟨b, blk, blk * x.spb % 2 ^ 32⟩ :: t.metas }, 0)

def readable (t : Treq) : Bool :=
  match s.getBlock (x.blkOf t.sec) with
  | none => false
  | some b => s.blockValid b && (List.range t.secs).all fun i =>
      let entry := (s.blocks b).table (t.sec % x.spb + i)
      entry.fileId ≠ 0 && entry.used

def firstEntry (t : Treq) : Entry :=
  ((s.getBlock (x.blkOf t.sec)).map fun b => (s.blocks b).table (t.sec % x.spb)).getD ⟨0, 0⟩

/-- `vhd_index_schedule_data_read`. When there is no file, the request is freed through its null block. -/
def scheduleDataRead (t : Treq) (opens : Bool) : Driver × Int :=
  if readable x s t then
    match s.allocateRequest with
    | none => (s, -ebusy)
    | some (taken, req) =>
        let entry := firstEntry x s t
        match taken.getFile entry.fileId opens with
        | (after, .error err) => (after.fail .null, err)
        | (after, .ok file) =>
            ({ after with
              indexSet := Function.update after.indexSet req true
              flights := ⟨req, t, file, (after.fds file).fid, entry.offset⟩ :: after.flights }, 0)
  else (s.fail .assertion, 0)

def queueRequest (t : Treq) : Driver × Int :=
  match s.allocateRequest with
  | none => (s, -ebusy)
  | some (taken, req) =>
      match taken.getBlock (x.blkOf t.sec) with
      | none => (taken.fail .assertion, 0)
      | some b =>
          if (taken.blocks b).pending then
            (taken.setBlock b { taken.blocks b with queue := (taken.blocks b).queue ++ [⟨req, t⟩] }, 0)
          else (taken.fail .assertion, 0)

def goOn (t : Treq) (n : Nat) : Driver × Int → Driver
  | (s, err) => if s.fault.isSome then s else if err = 0 then s.setCall (t.advance n) else s.failRead t err

def turnRead (t : Treq) (opens : Bool) : Driver :=
  let after := touchRead x s t.sec
  match readCache x s t.sec with
  | .invalid => after.failRead t (-einval)
  | .batClear => (after.forward (t.take (x.inBlock t))).setCall (t.advance (x.inBlock t))
  | .bitClear =>
      match readCacheSpan x after t false with
      | none => after.fail .assertion
      | some n => (after.forward (t.take n)).setCall (t.advance n)
  | .bitSet =>
      match readCacheSpan x after t true with
      | none => after.fail .assertion
      | some n => goOn t n (scheduleDataRead x after (t.take n) opens)
  | .cacheMiss =>
      match scheduleMetaRead x after (x.blkOf t.sec) with
      | (scheduled, err) =>
          if scheduled.fault.isSome then scheduled
          else if err ≠ 0 then scheduled.failRead t err
          -- what this returns is not looked at
          else goOn t (x.inBlock t) ((queueRequest x scheduled (t.take (x.inBlock t))).1, 0)
  | .metaReadPending => goOn t (x.inBlock t) (queueRequest x after (t.take (x.inBlock t)))

def turnReplay (b : Nat) : Driver :=
  match (s.blocks b).queue with
  | [] => { s with replaying := none }
  | w :: queue =>
      { s.setBlock b { s.blocks b with queue } with
        free := w.req :: s.free
        indexSet := Function.update s.indexSet w.req false
        call := some w.treq }

def turn (opens : Bool) : Option Driver :=
  match s.call, s.replaying with
  | some t, _ => some (if t.secs = 0 then { s with call := none } else turnRead x s t opens)
  | none, some b => some (turnReplay s b)
  | none, none => none

def queueRead (sec secs : Nat) : Driver :=
  let t : Treq := ⟨s.issued.length, sec, secs, 0⟩
  { s with call := some t, issued := t :: s.issued }

/-- `vhd_index_complete_meta_read`. When it fails, the first waiting request gets the error and its null file is
put. -/
def completeMetaRead (i : Nat) (ok : Bool) : Option Driver :=
  s.metas[i]?.map fun m =>
    let left := { s with metas := s.metas.eraseIdx i }
    match left.getBlock (x.blkOf m.sec) with
    | none => left.fail .assertion
    | some b =>
        if (left.blocks b).pending then
          if ok then
            let read := left.setBlock m.block { left.blocks m.block with table := x.entry m.blk }
            { read.setBlock b { read.blocks b with pending := false, valid := true } with replaying := some b }
          else
            let cleared := left.setBlock b { left.blocks b with pending := false, table := fun _ => ⟨0, 0⟩ }
            match (cleared.blocks b).queue with
            | [] => cleared
            | w :: _ => (cleared.complete w.treq (.error (-5))).fail .null
        else left.fail .assertion

def completeDataRead (i : Nat) (err : Int) : Option Driver :=
  s.flights[i]?.map fun f =>
    let answer := if err = 0 then Answer.data f.fid f.off else .error err
    let put := { s with
      flights := s.flights.eraseIdx i
      fds := Function.update s.fds f.file { s.fds f.file with refcnt := (s.fds f.file).refcnt - 1 } }
    (put.complete f.treq answer).fail .null

inductive Step
  | read (sec secs : Nat)
  | turn (opens : Bool)
  | metaDone (i : Nat) (ok : Bool)
  | dataDone (i : Nat) (err : Int)

def step (s : Driver) (e : Step) : Option Driver :=
  if s.fault.isSome then none
  else
    match e with
    | .turn opens => turn x s opens
    | .read sec secs => if s.call = none ∧ s.replaying = none then some (queueRead s sec secs) else none
    | .metaDone i ok => if s.call = none ∧ s.replaying = none then completeMetaRead x s i ok else none
    | .dataDone i err => if s.call = none ∧ s.replaying = none then completeDataRead s i err else none

def init : Driver where
  blocks := fun _ => .zero
  cache := fun _ => none
  cacheFree := (List.range vhdIndexCacheSize).reverse
  fds := fun _ => ⟨false, 0, 0, 0⟩
  free := (List.range vhdIndexRequests).reverse
  indexSet := fun _ => false
  flights := []
  metas := []
  call := none
  replaying := none
  fault := none
  forwarded := []
  told := []
  issued := []

end Reads
end Blktap.Vindex
