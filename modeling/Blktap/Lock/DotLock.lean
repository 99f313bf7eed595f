import Mathlib.Data.List.Basic
import Mathlib.Logic.Function.Basic

/-!
# Dot locks (`lock.c`)

A caller is a host with a uuid. While it takes a lock it has made the file `.xenlk`, and a final link of its own keeps
the lock. Every call into the file system is a step, whose reply says whether it fails, what a scan finds, and which
error number is left behind. The name of no caller begins another one's.
-/

namespace Blktap.Lock

def retryMax : Nat := 16

def lockEnomem : Int := -2
def lockEheldWr : Int := -4
def lockEheldRd : Int := -5
def lockEopen : Int := -6
def lockExlockOpen : Int := -7
def lockExlockWrite : Int := -8
def lockEinode : Int := -9
def lockEupdate : Int := -10
def lockEread : Int := -11

inductive Eval
  | writer
  | reader
  deriving DecidableEq

section Types
variable (κ : Type)

abbrev Link := κ × Bool

inductive Pc
  | idle
  | create
  | reopen
  | check (ino : Nat)
  | write (ino : Nat)
  | undo
  | link
  | stat
  | statLink (ino : Nat)
  | drop (again : Bool)
  | dropLink (again : Bool)
  | unlinkX
  | own
  | readOwn
  | scan (eval : Eval) (left : List (Link κ))
  | update
  | fill
  | stale
  | breakLock
  | release

structure Local where
  pc : Pc κ
  readonly : Bool
  attempts : Nat
  retstatus : Int

structure Files where
  guard : Option Nat
  nextIno : Nat
  maker : Nat → Option κ
  text : Nat → Option κ
  xlink : Link κ → Option Nat
  links : List (Link κ)

/-- `held` is the lock that the last call of a caller has got and that it has not given back. -/
structure Dir where
  files : Files κ
  call : κ → Local κ
  held : κ → Option Bool

inductive Reply
  | ok
  | fail (eio : Bool)
  | entry (name : Link κ)
  | foreign
  | last (errno : Nat)
  | expired (old : Bool)
  | noMemory

inductive Event
  | call (c : κ) (readonly memory : Bool)
  | unlock (c : κ) (readonly ok : Bool)
  | run (c : κ) (reply : Reply κ)

end Types

variable {κ : Type} [DecidableEq κ]

namespace Local

def goto (l : Local κ) (pc : Pc κ) : Local κ := { l with pc }

def finish (l : Local κ) : Local κ := l.goto (if l.retstatus = 0 then .own else .release)

def failed (l : Local κ) (retstatus : Int) : Local κ := { l with retstatus }

def tryAgain (l : Local κ) : Local κ :=
  if retryMax < l.attempts then
    let given := { l with attempts := l.attempts + 1 }
    if l.retstatus = lockExlockOpen then given.goto .stale else given.finish
  else { l with attempts := l.attempts + 1, pc := .create }

def retry (l : Local κ) (eio : Bool) : Local κ :=
  if eio then (l.failed lockExlockOpen).finish else (l.failed lockExlockOpen).tryAgain

def linkOrFinish (l : Local κ) : Local κ :=
  let counted := { l with attempts := l.attempts + 1 }
  if l.attempts < retryMax then counted.goto .link else counted.finish

def giveUp (l : Local κ) (retstatus : Int) : Local κ := (l.failed retstatus).goto .release

def forget (l : Local κ) (name : Link κ) : Local κ :=
  match l.pc with
  | .scan eval left => l.goto (.scan eval (left.filter (· ≠ name)))
  | _ => l

end Local

namespace Files

def unlinkGuard (f : Files κ) (reply : Reply κ) : Files κ :=
  match reply with
  | .ok => { f with guard := none }
  | _ => f

def unlinkXlink (f : Files κ) (name : Link κ) (reply : Reply κ) : Files κ :=
  match reply with
  | .ok => { f with xlink := Function.update f.xlink name none }
  | _ => f

def addGuard (f : Files κ) (c : κ) : Files κ :=
  { f with
    guard := some f.nextIno
    nextIno := f.nextIno + 1
    maker := Function.update f.maker f.nextIno (some c) }

def addXlink (f : Files κ) (name : Link κ) : Files κ :=
  if f.xlink name = none then { f with xlink := Function.update f.xlink name f.guard } else f

def due (f : Files κ) (own : Link κ) : List (Link κ) := f.links.filter (· ≠ own)

def counts (eval : Eval) (readonly : Bool) (name : Link κ) : Bool :=
  match eval with
  | .writer => !name.2
  | .reader => name.2 && !readonly

def passed (f : Files κ) (c : κ) (l : Local κ) : Eval → Local κ
  | .writer => l.goto (.scan .reader (f.due (c, l.readonly)))
  | .reader => l.goto .update

def heldError : Eval → Int
  | .writer => lockEheldWr
  | .reader => lockEheldRd

def scanned (f : Files κ) (c : κ) (l : Local κ) (eval : Eval) (left : List (Link κ)) : Reply κ → Option (Local κ)
  | .entry name =>
      if name ∉ f.links then none
      else if name = (c, l.readonly) then some l
      else if counts eval l.readonly name then some (l.giveUp (heldError eval))
      else some (l.goto (.scan eval (left.filter (· ≠ name))))
  | .foreign => some (l.giveUp (heldError eval))
  | .last errno =>
      if left ≠ [] then none
      else if errno = 0 then some (l.giveUp lockEread)
      else some (f.passed c l eval)
  | .fail _ => some (l.giveUp lockEread)
  | .noMemory => some (f.passed c l eval)
  | _ => none

def addLink (f : Files κ) (name : Link κ) : Files κ := if name ∈ f.links then f else { f with links := name :: f.links }

def act (f : Files κ) (c : κ) (l : Local κ) (reply : Reply κ) : Option (Files κ × Local κ) :=
  let own := (c, l.readonly)
  match l.pc, reply with
  | .create, .ok =>
      match f.guard with
      | none => some (f.addGuard c, l.goto (.write f.nextIno))
      | some _ => some (f, l.goto .reopen)
  | .create, .fail eio => some (f, if eio then (l.failed lockExlockOpen).finish else l.goto .reopen)
  | .reopen, .ok =>
      match f.guard with
      | some ino => some (f, l.goto (.check ino))
      | none => some (f, l.retry false)
  | .reopen, .fail eio => some (f, l.retry eio)
  | .check ino, .ok => some (f, if f.text ino = some c then l.goto (.write ino) else l.retry false)
  | .check _, .fail eio => some (f, l.retry eio)
  | .check _, .noMemory => some (f, (l.failed lockEnomem).finish)
  | .write ino, .ok => some ({ f with text := Function.update f.text ino (some c) }, l.linkOrFinish)
  | .write _, .fail eio =>
      some (f, if eio then (l.failed lockExlockWrite).finish else (l.failed lockExlockWrite).goto .undo)
  | .undo, .ok | .undo, .fail _ => some (f.unlinkGuard reply, l.tryAgain)
  | .link, .ok => some (f.addXlink own, l.goto .stat)
  | .link, .fail _ => some (f, l.goto .stat)
  | .stat, .ok => some (f, match f.guard with | some ino => l.goto (.statLink ino) | none => l.goto (.drop false))
  | .stat, .fail _ => some (f, l.goto (.drop false))
  | .statLink ino, .ok =>
      some (f, match f.xlink own with
        | some other => if ino = other then (l.failed 0).goto .unlinkX else l.goto (.drop true)
        | none => l.goto (.drop false))
  | .statLink _, .fail _ => some (f, l.goto (.drop false))
  | .drop again, .ok | .drop again, .fail _ => some (f.unlinkGuard reply, l.goto (.dropLink again))
  | .dropLink again, .ok | .dropLink again, .fail _ =>
      some (f.unlinkXlink own reply, if again then (l.failed lockEinode).tryAgain else l.finish)
  | .unlinkX, .ok | .unlinkX, .fail _ => some (f.unlinkXlink own reply, l.finish)
  | .own, .ok => some (f, if own ∈ f.links then (l.failed 1).goto .readOwn else l.goto (.scan .writer (f.due own)))
  | .own, .fail eio => some (f, if eio then l.giveUp lockEinode else l.goto (.scan .writer (f.due own)))
  | .readOwn, .ok => some (f, l.goto .update)
  | .readOwn, .fail eio => some (f, if eio then l.giveUp lockEinode else l.goto .update)
  | .scan eval left, reply => (f.scanned c l eval left reply).map fun l => (f, l)
  | .update, .ok => some (f.addLink own, l.goto .fill)
  | .update, .fail _ => some (f, l.giveUp lockEopen)
  | .fill, .ok => some (f, l.goto .release)
  | .fill, .fail _ => some (f, (l.failed lockEupdate).tryAgain)
  | .stale, .expired old => some (f, if old then l.goto .breakLock else l.finish)
  | .stale, .fail _ => some (f, l.finish)
  | .breakLock, .ok | .breakLock, .fail _ => some (f.unlinkGuard reply, { l with attempts := 0 }.tryAgain)
  | .release, .ok | .release, .fail _ => some (f.unlinkGuard reply, l.goto .idle)
  | _, _ => none

end Files

namespace Local

def begin (readonly memory : Bool) : Local κ :=
  let fresh : Local κ := ⟨.create, readonly, 1, 0⟩
  if memory then fresh else (fresh.failed lockEnomem).finish

end Local

namespace Dir

def setCall (s : Dir κ) (c : κ) (l : Local κ) : Dir κ := { s with call := Function.update s.call c l }

def setHeld (s : Dir κ) (c : κ) (lock : Option Bool) : Dir κ := { s with held := Function.update s.held c lock }

def returned (s : Dir κ) (c : κ) (l : Local κ) : Dir κ :=
  match l.pc with
  | .release => s.setHeld c (if 0 ≤ l.retstatus then some l.readonly else none)
  | _ => s

def removeLink (s : Dir κ) (name : Link κ) : Dir κ :=
  { s with
    files := { s.files with links := s.files.links.filter (· ≠ name) }
    call := fun d => (s.call d).forget name }

def step (s : Dir κ) : Event κ → Option (Dir κ)
  | .call c readonly memory =>
      match (s.call c).pc with
      | .idle => some (s.setCall c (.begin readonly memory))
      | _ => none
  | .unlock c readonly ok =>
      match (s.call c).pc with
      | .idle =>
          if ok ∧ (c, readonly) ∈ s.files.links then
            some ((s.removeLink (c, readonly)).setHeld c (if s.held c = some readonly then none else s.held c))
          else some s
      | _ => none
  | .run c reply =>
      (s.files.act c (s.call c) reply).map fun (files, l) =>
        ({ s with files }.setCall c l).returned c (s.call c)

def init : Dir κ where
  files := ⟨none, 0, fun _ => none, fun _ => none, fun _ => none, []⟩
  call := fun _ => ⟨.idle, false, 0, 0⟩
  held := fun _ => none

end Dir
end Blktap.Lock
