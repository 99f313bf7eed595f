import Blktap.Lock.DotLock

/-!
# The names that a lock touches (`lock.c`)

One call of `lock`, `unlock` or `lock_delta` on a directory of names. A file is given by its name behind the last
slash. Every call into the file system answers as it likes, and other processes may change the directory in between.
The file names that a call makes, reads as locks and removes are noted, and so is a name that keeps it from the lock.
-/

namespace Blktap.Lock.Names

abbrev Name := List Char

def eio : Nat := 5
def enomem : Nat := 12
def lockEstat : Int := -3
def lockEnolock : Int := -13
def defaultLeaseTimeSecs : Int := 30
def intMax : Int := 2147483647

def lfPostfix : Name := ['.', 'x', 'e', 'n', 'l', 'k']

inductive Format
  | lfxl
  | lffl

def Format.letter : Format → Char
  | .lfxl => 'x'
  | .lffl => 'f'

def createLockfn (fn : Name) : Name := fn ++ lfPostfix

def createLockfnLink (fn : Name) (format : Format) (host uuid : Name) (readonly : Bool) : Name :=
  fn ++ lfPostfix ++ '.' :: host ++ '.' :: uuid ++ ['.', format.letter, if readonly then 'r' else 'w']

def clockfn (fn : Name) (uniq : Nat) : Name :=
  let digits := Nat.toDigits 10 uniq
  fn ++ ['.', 'x', 'e', 'n'] ++ List.replicate (8 - digits.length) '0' ++ digits ++ ['.', 't', 'm', 'p']

inductive Own (fn : Name) : Name → Prop
  | lockfn : Own fn (createLockfn fn)
  | link (format : Format) (host uuid : Name) (readonly : Bool) :
      Own fn (createLockfnLink fn format host uuid readonly)
  | clock (uniq : Nat) : Own fn (clockfn fn uniq)

def Alone (fn : Name) (dir : List Name) : Prop := ∀ name ∈ dir, fn <+: name → name = fn ∨ Own fn name

inductive Touch
  | create (name : Name)
  | read (name : Name)
  | remove (name : Name)
  | blocked (name : Name)

def Touch.name : Touch → Name
  | create name | read name | remove name | blocked name => name

def isspace (c : Char) : Bool := c = ' ' || (9 ≤ c.toNat && c.toNat ≤ 13)

def digitsValue (text : Name) : Int :=
  (text.takeWhile Char.isDigit).foldl (fun n c => 10 * n + (c.toNat - 48 : Nat)) 0

def atoi (text : Name) : Int :=
  match text.dropWhile isspace with
  | '-' :: rest => -digitsValue rest
  | '+' :: rest => digitsValue rest
  | rest => digitsValue rest

def leaseOf (text : Name) : Option Int :=
  if '.' ∈ text then some (atoi (text.reverse.takeWhile (· ≠ '.')).reverse) else none

structure Caller where
  folder : Name
  fn : Name
  host : Name
  uuid : Name
  force : Bool
  readonly : Bool

namespace Caller

def lockfn (c : Caller) : Name := createLockfn c.fn
def xlink (c : Caller) : Name := createLockfnLink c.fn .lfxl c.host c.uuid c.readonly
def flink (c : Caller) : Name := createLockfnLink c.fn .lffl c.host c.uuid c.readonly

def counts (c : Caller) (name : Name) : Bool :=
  name ≠ c.fn && name ≠ c.lockfn && name ≠ c.flink && c.fn.isPrefixOf name

def owns (c : Caller) (text : Name) : Bool :=
  let xlink := c.folder ++ c.xlink
  text.length = xlink.length && text.take (xlink.length - 1) = xlink.take (xlink.length - 1)

end Caller

def evaluate (eval : Eval) (name : Name) (readonly : Bool) : Bool :=
  match eval with
  | .writer => name.getLast? = some 'w'
  | .reader => name.getLast? = some 'r' && !readonly

inductive Pc
  | create
  | reopen
  | check
  | rewind
  | steal
  | write
  | undo
  | link
  | stat
  | drop (again : Bool)
  | dropLink (again : Bool)
  | unlinkX
  | own
  | readOwn
  | openDir (eval : Eval)
  | scan (eval : Eval) (left : List Name) (established : Bool)
  | update
  | fill
  | stale
  | clock (made : Int)
  | clockStat (uniq : Nat) (made : Int)
  | clockDrop (uniq : Nat) (age : Option Int)
  | breakLock
  | release
  | done

structure Local where
  pc : Pc
  attempts : Nat
  retstatus : Int
  status : Int
  leaseTime : Int
  established : Int

inductive Reply
  | ok
  | fail (errno : Nat)
  | noMemory
  | text (bytes : Name)
  | same
  | other (errno : Nat)
  | entry (text : Except Nat Name) (removed : Bool)
  | last (errno : Nat)
  | time (seconds : Int)
  | clock (uniq : Nat)

inductive Event
  | run (reply : Reply)
  | others (dir : List Name)

namespace Local

def goto (l : Local) (pc : Pc) : Local := { l with pc }

def failed (l : Local) (retstatus status : Int) : Local := { l with retstatus, status }

def skipScan (l : Local) : Local := l.goto (if 0 ≤ l.retstatus then .update else .release)

def finish (l : Local) : Local := if l.retstatus = 0 then { l with status := 0, pc := .own } else l.skipScan

def tryAgain (l : Local) : Local :=
  if retryMax < l.attempts then
    let given := { l with attempts := l.attempts + 1 }
    if l.retstatus = lockExlockOpen then given.goto .stale else given.finish
  else { l with attempts := l.attempts + 1, pc := .create }

def forceLock (l : Local) (force : Bool) (errno : Nat) : Local :=
  if errno = eio then (l.failed lockExlockOpen eio).finish
  else if force then l.goto .steal
  else { l with retstatus := lockExlockOpen }.tryAgain

def linkOrFinish (l : Local) : Local :=
  let counted := { l with attempts := l.attempts + 1 }
  if l.attempts < retryMax then counted.goto .link else counted.finish

def giveUp (l : Local) (retstatus status : Int) : Local := (l.failed retstatus status).skipScan

def passed (l : Local) : Eval → Local
  | .writer => l.goto (.openDir .reader)
  | .reader => { l with leaseTime := if l.established = 0 then l.leaseTime else l.established }.skipScan

def held (l : Local) (eval : Eval) : Local :=
  let retstatus := match eval with | .writer => lockEheldWr | .reader => lockEheldRd
  { l with retstatus, leaseTime := if l.established = 0 then l.leaseTime else l.established }.skipScan

end Local

structure State where
  caller : Caller
  dir : List Name
  l : Local
  touched : List Touch

namespace State

def setLocal (s : State) (l : Local) : State := { s with l }

def touch (s : State) (t : Touch) : State := { s with touched := t :: s.touched }

def make (s : State) (name : Name) : State :=
  { s.touch (.create name) with dir := if name ∈ s.dir then s.dir else name :: s.dir }

def unlink (s : State) (name : Name) (removed : Bool) : State :=
  { s.touch (.remove name) with dir := if removed then s.dir.filter (· ≠ name) else s.dir }

def unlinkOwn (s : State) (name : Name) : Reply → Option State
  | .ok => if name ∈ s.dir then some (s.unlink name true) else none
  | .fail _ => some (s.unlink name false)
  | _ => none

/-- The first lock with a dot in its name gives the lease time; without force the evaluation function decides. -/
def holder (s : State) (eval : Eval) (name : Name) (left : List Name) (established : Bool) (text : Except Nat Name)
    (removed : Bool) : State :=
  let read : Except Nat (Bool × Int) :=
    if established then .ok (true, s.l.established)
    else text.map fun bytes => match leaseOf bytes with
      | some lease => (true, lease)
      | none => (false, s.l.established)
  let s := if established then s else s.touch (.read name)
  match read with
  | .error errno => s.setLocal (s.l.giveUp lockEread errno)
  | .ok (known, lease) =>
      if s.caller.force then
        (s.unlink name removed).setLocal { s.l with established := 0, pc := .scan eval left known }
      else if evaluate eval name s.caller.readonly then
        (s.touch (.blocked name)).setLocal ({ s.l with established := lease }.held eval)
      else s.setLocal { s.l with established := lease, pc := .scan eval left known }

def scanned (s : State) (eval : Eval) (left : List Name) (established : Bool) : Reply → Option State
  | .entry text removed =>
      match left with
      | [] => none
      | name :: left =>
          if s.caller.counts name then some (s.holder eval name left established text removed)
          else some (s.setLocal (s.l.goto (.scan eval left established)))
  | .last errno =>
      match left with
      | [] => some (s.setLocal (if errno = 0 then s.l.giveUp lockEread eio else s.l.passed eval))
      | _ :: _ => none
  | _ => none

def opened (s : State) (eval : Eval) : Reply → Option State
  | .noMemory => some (s.setLocal ({ s.l with established := 0 }.passed eval))
  | .fail errno => some (s.setLocal (s.l.giveUp lockEread (if errno = 0 then eio else errno)))
  | .ok => some (s.setLocal (if s.dir = [] then s.l.giveUp lockEread eio
      else { s.l with established := 0, pc := .scan eval s.dir false }))
  | _ => none

def takes (s : State) : Pc → Reply → Option State
  | .create, .ok => if s.caller.lockfn ∈ s.dir then none
      else some ((s.make s.caller.lockfn).setLocal (s.l.goto .write))
  | .create, .fail errno =>
      some (s.setLocal (if errno = eio then (s.l.failed lockExlockOpen eio).finish else s.l.goto .reopen))
  | .reopen, .ok => if s.caller.lockfn ∈ s.dir then some (s.setLocal (s.l.goto .check)) else none
  | .reopen, .fail errno => some (s.setLocal (s.l.forceLock s.caller.force errno))
  | .check, .noMemory => some (s.setLocal (s.l.failed lockEnomem enomem).finish)
  | .check, .fail errno => some ((s.touch (.read s.caller.lockfn)).setLocal (s.l.forceLock s.caller.force errno))
  | .check, .text bytes => some ((s.touch (.read s.caller.lockfn)).setLocal
      (if s.caller.owns bytes then s.l.goto .rewind else s.l.forceLock s.caller.force 0))
  | .rewind, .ok => some (s.setLocal (s.l.goto .write))
  | .rewind, .fail errno => some (s.setLocal (s.l.forceLock s.caller.force errno))
  | .steal, reply => (s.unlinkOwn s.caller.lockfn reply).map fun s => s.setLocal <|
      match reply with
      | .fail errno =>
          if errno = eio then (s.l.failed lockExlockOpen eio).finish else (s.l.failed lockExlockOpen (-1)).tryAgain
      | _ => (s.l.failed lockExlockOpen 0).tryAgain
  | .write, .ok => some (s.setLocal s.l.linkOrFinish)
  | .write, .fail errno => some (s.setLocal <|
      if errno = eio then (s.l.failed lockExlockWrite eio).finish else (s.l.failed lockExlockWrite errno).goto .undo)
  | .undo, reply => (s.unlinkOwn s.caller.lockfn reply).map fun s => s.setLocal s.l.tryAgain
  | .link, .ok => if s.caller.lockfn ∈ s.dir ∧ s.caller.xlink ∉ s.dir
      then some ((s.make s.caller.xlink).setLocal (s.l.goto .stat)) else none
  | .link, .fail _ => some (s.setLocal (s.l.goto .stat))
  | .stat, .same => if s.caller.lockfn ∈ s.dir ∧ s.caller.xlink ∈ s.dir
      then some (s.setLocal ((s.l.failed 0 0).goto .unlinkX)) else none
  | .stat, .other errno => if s.caller.lockfn ∈ s.dir ∧ s.caller.xlink ∈ s.dir
      then some (s.setLocal { s.l with status := errno, pc := .drop true }) else none
  | .stat, .fail _ => some (s.setLocal (s.l.goto (.drop false)))
  | .drop again, reply => (s.unlinkOwn s.caller.lockfn reply).map fun s => s.setLocal (s.l.goto (.dropLink again))
  | .dropLink again, reply => (s.unlinkOwn s.caller.xlink reply).map fun s => s.setLocal <|
      if again then { s.l with retstatus := lockEinode }.tryAgain else { s.l with status := lockEstat }.finish
  | .unlinkX, reply => (s.unlinkOwn s.caller.xlink reply).map fun s => s.setLocal s.l.finish
  | _, _ => none

def breaks (s : State) : Pc → Reply → Option State
  | .stale, .time made => if s.caller.lockfn ∈ s.dir then some (s.setLocal (s.l.goto (.clock made))) else none
  | .stale, .fail _ => some (s.setLocal s.l.finish)
  | .clock made, .clock uniq =>
      some ((s.make (clockfn s.caller.fn uniq)).setLocal (s.l.goto (.clockStat uniq made)))
  | .clock _, .fail _ | .clock _, .noMemory => some (s.setLocal s.l.finish)
  | .clockStat uniq made, .time now => some (s.setLocal (s.l.goto (.clockDrop uniq (some (now - made)))))
  | .clockStat uniq _, .fail _ => some (s.setLocal (s.l.goto (.clockDrop uniq none)))
  | .clockDrop uniq age, reply => (s.unlinkOwn (clockfn s.caller.fn uniq) reply).map fun s => s.setLocal <|
      match age with
      | some diff => if defaultLeaseTimeSecs < diff then s.l.goto .breakLock else s.l.finish
      | none => s.l.finish
  | .breakLock, reply => (s.unlinkOwn s.caller.lockfn reply).map fun s => s.setLocal { s.l with attempts := 0 }.tryAgain
  | _, _ => none

def keeps (s : State) : Pc → Reply → Option State
  | .own, .ok => if s.caller.flink ∈ s.dir then some (s.setLocal { s.l with retstatus := 1, pc := .readOwn }) else none
  | .own, .fail errno =>
      some (s.setLocal (if errno = eio then s.l.giveUp lockEinode eio else s.l.goto (.openDir .writer)))
  | .readOwn, .text bytes => some ((s.touch (.read s.caller.flink)).setLocal
      { s.l with leaseTime := (leaseOf bytes).getD 10 }.skipScan)
  | .readOwn, .fail errno => some ((s.touch (.read s.caller.flink)).setLocal
      (if errno = eio then s.l.giveUp lockEinode eio else { s.l with leaseTime := 10 }.skipScan))
  | .openDir eval, reply => s.opened eval reply
  | .scan eval left established, reply => s.scanned eval left established reply
  | .update, .ok => some ((s.make s.caller.flink).setLocal (s.l.goto .fill))
  | .update, .fail errno => some (s.setLocal ((s.l.failed lockEopen errno).goto .release))
  | .fill, .ok => some (s.setLocal (s.l.goto .release))
  | .fill, .fail errno => some (s.setLocal (s.l.failed lockEupdate errno).tryAgain)
  | .release, reply => (s.unlinkOwn s.caller.lockfn reply).map fun s => s.setLocal
      { s.l with leaseTime := if s.l.retstatus < 0 then -1 else s.l.leaseTime, pc := .done }
  | _, _ => none

def step (s : State) : Event → Option State
  | .run reply =>
      match s.l.pc with
      | .stale | .clock _ | .clockStat .. | .clockDrop .. | .breakLock => s.breaks s.l.pc reply
      | .own | .readOwn | .openDir _ | .scan .. | .update | .fill | .release => s.keeps s.l.pc reply
      | _ => s.takes s.l.pc reply
  | .others dir => some { s with dir }

def lock (caller : Caller) (dir : List Name) (memory : Bool) (leaseTime : Int) : State :=
  let fresh : Local := ⟨.create, 1, 0, 0, leaseTime, 0⟩
  ⟨caller, dir, if memory then fresh else (fresh.failed lockEnomem enomem).finish, []⟩

end State

def unlock (fn host uuid : Name) (readonly memory : Bool) (reply : Option Nat) : Nat × Int × List Touch :=
  if memory then
    let link := createLockfnLink fn .lffl host uuid readonly
    match reply with
    | some errno => (errno, lockEnolock, [.remove link])
    | none => (0, 0, [.remove link])
  else (0, lockEnomem, [])

inductive Answer
  | noMemory
  | gone (errno : Nat)
  | found (mtime : Int) (text : Name)

structure Delta where
  reterrno : Nat
  result : Int
  maxLease : Int
  established : Bool
  touched : List Touch

namespace Delta

def scan (fn : Name) (now : Int) (answer : Name → Answer) : List Name → Delta → Delta
  | [], d => d
  | name :: left, d =>
      if name ≠ fn && fn.isPrefixOf name then
        let seen := { d with touched := .read name :: d.touched }
        match answer name with
        | .noMemory => { d with result := lockEnomem }
        | .gone errno => { seen with reterrno := errno }
        | .found mtime text =>
            let diff := max 0 (now - mtime)
            let timed := { seen with result := if diff < d.result then diff else d.result }
            match d.established, leaseOf text with
            | false, some lease => scan fn now answer left { timed with maxLease := lease, established := true }
            | _, _ => scan fn now answer left timed
      else scan fn now answer left d

def finish (d : Delta) : Delta :=
  let result := if d.result = intMax then lockEnolock else d.result
  { d with result, maxLease := if result < 0 ∨ d.reterrno ≠ 0 then -1 else d.maxLease }

end Delta

end Blktap.Lock.Names
