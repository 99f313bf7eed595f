import Blktap.Ratelimit.Valve
import Mathlib.Data.List.FinRange

/-!
# The requests of a valve (`block-valve.c`)

A valve on its own, with what becomes of each write that it stores. What the daemon sends, whether it takes a
message and whether it can be reached are parts of the events, and so are the pieces of a write that the image
below completes before it returns. The issuer of a write queues nothing when it is called back.
-/

namespace Blktap.Ratelimit
open Lib

structure Story where
  forwards : Nat
  failed : Bool
  completions : List Int
  deriving DecidableEq

def Story.fresh : Story := ⟨0, false, []⟩

structure Flight where
  secs : Nat
  req : Slot

/-- `struct td_valve`. `token` numbers the stored writes, `asked` is the connection on which the need of a
request has been sent, and `stories` what has become of the stored writes. -/
structure Book where
  killed : Bool
  sock : Option Nat
  retry : Bool
  cred : Nat
  need : Nat
  done : Nat
  queues : TailQueues ValveQueue Slot
  reqv : Slot → ValveRequest
  free : List Slot
  made : Nat
  flights : List Flight
  token : Slot → Nat
  asked : Slot → Option Nat
  count : Nat
  stories : Nat → Story

abbrev Piece := Nat × Int

namespace Book

def walk (s : Book) (q : ValveQueue) : Option (List Slot) := s.queues.walk maxRequests (s.queues.first q)

def tell (s : Book) (req : Slot) (f : Story → Story) : Book :=
  { s with stories := Function.update s.stories (s.token req) (f (s.stories (s.token req))) }

def freeRequest (s : Book) (req : Slot) : Option Book :=
  if maxRequests ≤ s.free.length then none else some { s with free := req :: s.free }

def releaseStored (s : Book) (req : Slot) : Option Book :=
  (s.tell req fun w => { w with forwards := w.forwards + 1 }).freeRequest req

def connClose (s : Book) : Option Book :=
  (s.walk .stor).bind fun l => l.foldlM releaseStored { s with sock := none }

def connOpen (s : Book) (reached : Bool) : Book :=
  if reached then { s with sock := some s.made, made := s.made + 1, cred := 0, need := 0, done := 0, retry := false }
  else { s with retry := true }

def connReset (s : Book) (reached : Bool) : Option Book := s.connClose.map (·.connOpen reached)

def kill (s : Book) : Option Book := { s with killed := true }.connClose

def connReceive (s : Book) (buf : List Nat) (reached : Bool) : Option Book :=
  if buf.any (tdRlbRequestMax ≤ ·) then s.kill
  else if s.need < buf.sum then s.connReset reached
  else some { s with cred := unsigned (s.cred + buf.sum), need := s.need - buf.sum }

def connRequest (s : Book) (size : Nat) (sent reached : Bool) : Option Book :=
  let asked := { s with need := unsigned (s.need + size), done := 0 }
  if sent then some asked else asked.connReset reached

def expendRequest (s : Book) (secs : Nat) : Option Book :=
  if s.killed then some s
  else if s.sock = none then some s
  else if s.cred < treqSize secs then none
  else some { s with cred := s.cred - treqSize secs }

/-- `__valve_complete_treq` for a piece; `none` is its `BUG_ON`. -/
def completeTreq (s : Book) (req : Slot) (secs : Nat) (error : Int) : Option Book :=
  if (s.reqv req).secs < secs then none
  else
    let rest := (s.reqv req).secs - secs
    let counted := { s.tell req fun w => { w with failed := w.failed || decide (error ≠ 0) } with
      reqv := Function.update s.reqv req { s.reqv req with secs := rest }
      done := unsigned (s.done + treqSize secs) }
    if rest = 0 then
      (counted.tell req fun w => { w with completions := error :: w.completions }).freeRequest req
    else some counted

def completePieces (req : Slot) : Nat → List Piece → Book → Option (Book × Nat)
  | left, [], s => some (s, left)
  | left, (secs, error) :: pieces, s =>
      if 0 < secs ∧ secs ≤ left then
        (s.completeTreq req secs error).bind (completePieces req (left - secs) pieces)
      else none

def forward (s : Book) (req : Slot) (pieces : List Piece) : Option Book :=
  (completePieces req (s.reqv req).treq pieces (s.tell req fun w => { w with forwards := w.forwards + 1 })).map
    fun (t, left) => if left = 0 then t else { t with flights := ⟨left, req⟩ :: t.flights }

def moveHead (s : Book) (req : Slot) : Option Book :=
  (s.queues.remove .stor req).map fun queues => { s with queues := queues.insertHead .forw req }

def forwardStored : Nat → Option Slot → List (List Piece) → Book → Option Book
  | _, none, _, s => some s
  | 0, some _, _, _ => none
  | bound + 1, some req, passes, s =>
      match s.expendRequest (s.reqv req).treq with
      | none => some s
      | some spent =>
          ((spent.forward req (passes.headD [])).bind (·.moveHead req)).bind
            (forwardStored bound (s.queues.next req) passes.tail)

def forwardStoredRequests (s : Book) (passes : List (List Piece)) : Option Book :=
  forwardStored (s.cred + maxRequests) (s.queues.first .stor) passes s

def insertStored (s : Book) (req : Slot) (secs : Nat) (on : Option Nat) : Book :=
  { s with
    reqv := Function.update s.reqv req ⟨secs, secs⟩
    queues := s.queues.insertTail .stor req
    token := Function.update s.token req s.count
    asked := Function.update s.asked req on
    count := s.count + 1 }

def storeRequest (s : Book) (secs : Nat) (sent reached : Bool) : Option Book :=
  match s.free with
  | [] => some s
  | req :: free =>
      (connRequest { s with free } (treqSize secs) sent reached).map
        (·.insertStored req secs (if sent then s.sock else none))

def queueWrite (s : Book) (secs : Nat) (sent reached : Bool) : Option Book :=
  match s.expendRequest secs with
  | some spent => some spent
  | none => s.storeRequest secs sent reached

def sockEvent (s : Book) (buf : List Nat) (reached : Bool) (passes : List (List Piece)) : Option Book :=
  if s.sock = none ∨ bufMessages < buf.length then none
  else (s.connReceive buf reached).bind (·.forwardStoredRequests passes)

def sockLost (s : Book) (reached : Bool) (passes : List (List Piece)) : Option Book :=
  if s.sock = none then none else (s.connReset reached).bind (·.forwardStoredRequests passes)

def schedEvent (s : Book) (sent reached : Bool) : Option Book :=
  if s.sock = none then none else if 0 < s.done then s.connRequest 0 sent reached else some s

def retryTimeout (s : Book) (reached : Bool) : Option Book := if s.retry then some (s.connOpen reached) else none

def completeBelow (s : Book) (i secs : Nat) (error : Int) : Option Book :=
  s.flights[i]?.bind fun w =>
    if 0 < secs ∧ secs ≤ w.secs then
      let flights := if secs = w.secs then s.flights.eraseIdx i else s.flights.set i { w with secs := w.secs - secs }
      { s with flights }.completeTreq w.req secs error
    else none

def init : Book where
  killed := false
  sock := none
  retry := false
  cred := 0
  need := 0
  done := 0
  queues := .init
  reqv := fun _ => ⟨0, 0⟩
  free := List.finRange maxRequests
  made := 0
  flights := []
  token := fun _ => 0
  asked := fun _ => none
  count := 0
  stories := fun _ => .fresh

def opened (reached : Bool) : Book := init.connOpen reached

end Book

inductive BookEvent
  | queueWrite (secs : Nat) (sent reached : Bool)
  | sock (buf : List Nat) (reached : Bool) (passes : List (List Piece))
  | sockLost (reached : Bool) (passes : List (List Piece))
  | sched (sent reached : Bool)
  | retry (reached : Bool)
  | complete (i secs : Nat) (error : Int)

namespace Book

def step (s : Book) : BookEvent → Option Book
  | .queueWrite secs sent reached => s.queueWrite secs sent reached
  | .sock buf reached passes => s.sockEvent buf reached passes
  | .sockLost reached passes => s.sockLost reached passes
  | .sched sent reached => s.schedEvent sent reached
  | .retry reached => s.retryTimeout reached
  | .complete i secs error => s.completeBelow i secs error

inductive Told (s : Book) (stor forw : List Slot) (n : Nat) : Prop
  | waits (req : Slot) : req ∈ stor → s.token req = n → s.stories n = .fresh → Told s stor forw n
  | flies (req : Slot) : req ∈ forw → s.token req = n → (s.stories n).forwards = 1 →
      (s.stories n).completions = [] → Told s stor forw n
  | ended (error : Int) : (s.stories n).forwards = 1 → (s.stories n).completions = [error] →
      ((s.stories n).failed → error ≠ 0) → Told s stor forw n

/-- The books of a valve are right. -/
def Right (s : Book) : Prop :=
  ∃ stor forw, s.walk .stor = some stor ∧ s.walk .forw = some forw ∧
    (stor ++ forw ++ s.free).Perm (List.finRange maxRequests) ∧
    (∀ n < s.count, Told s stor forw n) ∧
    ∀ req ∈ stor, s.sock ≠ none ∧ s.asked req = s.sock

def Empty (s : Book) : Prop := s.queues.first .stor = none

def Leaves (s : Book) (passes : List (List Piece)) : Prop :=
  ∀ p ∈ ((s.walk .stor).getD []).zip passes, (p.2.map (·.1)).sum < (s.reqv p.1).treq

/-- The need of a write that is stored is sent, the connection is closed only while nothing is stored, and no stored
write is completed. -/
def Meets (s : Book) : BookEvent → Prop
  | .queueWrite secs sent _ => (s.expendRequest secs).isNone → s.free ≠ [] → sent
  | .sock buf _ passes => (buf.any (tdRlbRequestMax ≤ ·) ∨ s.need < buf.sum → s.Empty) ∧ s.Leaves passes
  | .sockLost _ _ => s.Empty
  | .sched sent _ => 0 < s.done → ¬ sent → s.Empty
  | .retry _ => True
  | .complete i secs _ => ∀ w ∈ s.flights[i]?, secs ≠ w.secs

instance (s : Book) : Decidable s.Empty := inferInstanceAs (Decidable (_ = _))

instance (s : Book) (passes : List (List Piece)) : Decidable (s.Leaves passes) :=
  inferInstanceAs (Decidable (∀ p ∈ ((s.walk .stor).getD []).zip passes, _))

instance (s : Book) : (e : BookEvent) → Decidable (s.Meets e)
  | .queueWrite secs sent _ => inferInstanceAs (Decidable ((s.expendRequest secs).isNone → s.free ≠ [] → sent))
  | .sock buf _ passes => inferInstanceAs (Decidable ((buf.any (tdRlbRequestMax ≤ ·) ∨ s.need < buf.sum → s.Empty) ∧ s.Leaves passes))
  | .sockLost _ _ => inferInstanceAs (Decidable s.Empty)
  | .sched sent _ => inferInstanceAs (Decidable (0 < s.done → ¬ sent → s.Empty))
  | .retry _ => .isTrue trivial
  | .complete i secs _ => inferInstanceAs (Decidable (∀ w ∈ s.flights[i]?, secs ≠ w.secs))

end Book
end Blktap.Ratelimit
