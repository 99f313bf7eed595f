import Blktap.TapCtl.Transport

/-!
# The list of VBDs (`tap-ctl-list.c`)

`tap-ctl` finds the minors and the tapdisks, asks each tapdisk for its VBDs, and joins the three. A queue that is not
initialised is `none`. What fails is given: `glob`, an allocation, a connection, or a daemon that stops in between.
-/

namespace Blktap.TapCtl
open Lib Tapdisk
open Output (Vbd Tap int32 encode listMessages)

def einval : Int := 22

def ebusy : Int := 16

def colon : UInt8 := 58

section Entries

structure Entry where
  pid : Int
  minor : Int
  state : Int
  type : Option Text
  path : Option Text
  deriving DecidableEq

def tapListAlloc : Entry := ⟨-1, -1, -1, none, none⟩

def parseParams (memory : Bool) (params : Text) : Int × Option Text × Option Text :=
  if colon ∈ params then
    if memory then (0, some (params.takeWhile (· ≠ colon)), some (params.dropWhile (· ≠ colon)).tail)
    else (-enomem, none, none)
  else (-einval, none, none)

def tapCtlListFree : Option (List Entry) → Outcome Unit
  | some _ => .ok ()
  | none => .undefined

end Entries

section Finding

inductive Glob
  | noMatch
  | failed (errno : Nat) (positive : 0 < errno)
  | paths (numbers : List (Option Int))

/-- The loop over the paths. `none` is when an allocation fails. -/
def collect (memory : Nat → Bool) (entry : Int → Option Entry) (i : Nat) (list : List Entry) :
    List (Option Int) → Option (List Entry)
  | [] => some list
  | number :: rest => if memory i then collect memory entry (i + 1) (list ++ (number.bind entry).toList) rest else none

def find (memory : Nat → Bool) (entry : Int → Option Entry) : Glob → Int × List Entry
  | .noMatch => (0, [])
  | .failed errno _ => (-errno, [])
  | .paths numbers =>
      match collect memory entry 0 [] numbers with
      | some list => (0, list)
      | none => (-enomem, [])

def ofMinor (minor : Int) : Entry := { tapListAlloc with minor := minor }

def ofPid (pid : Int) : Entry := { tapListAlloc with pid := pid }

def findMinors (memory : Nat → Bool) (glob : Glob) : Int × List Entry := find memory (fun n => some (ofMinor n)) glob

def findTapdisks (memory : Nat → Bool) (getPid : Int → Int) (glob : Glob) : Int × List Entry :=
  let found := find memory (fun n => if getPid n < 0 then none else some (ofPid (getPid n))) glob
  (if found.1 ≠ 0 then found.1 else found.2.length, found.2)

end Finding

section Daemons

def minorOf (vbd : Vbd) : Int := (vbd.tap.map Tap.minor).getD (-1)

/-- A VBD as the daemon makes it: its numbers are of type `int`, the state has few flags, and the name is from a message
that has been validated. -/
structure Known (vbd : Vbd) : Prop where
  minor : -2 ^ 31 ≤ minorOf vbd ∧ minorOf vbd < 2 ^ 31
  state : vbd.state < 2 ^ 31
  name : ∀ name ∈ vbd.name, 0 ∉ name ∧ name.length < maxPathLength

inductive Refusal
  | busy
  | invalid

def Refusal.code : Refusal → Int
  | busy => ebusy
  | invalid => einval

def errorResponse (refusal : Refusal) : Message where
  type := MessageId.error.number
  cookie := 0
  body := int32 refusal.code

inductive Ending
  | hangsUp (bytes : Nat)
  | refuses (messages : Nat) (refusal : Refusal)

structure Daemon where
  connect : Int
  write : Int
  vbds : List Vbd
  few : vbds.length < 2 ^ 31
  known : ∀ vbd ∈ vbds, Known vbd
  ending : Ending

def listCookie : Nat := 2 ^ 16 - 1

def Daemon.stream (d : Daemon) : List UInt8 :=
  match d.ending with
  | .hangsUp bytes => ((listMessages d.vbds listCookie).flatMap encode).take bytes
  | .refuses messages refusal =>
      ((listMessages d.vbds listCookie).take messages).flatMap encode ++ encode (errorResponse refusal)

def Daemon.answers (d : Daemon) : Bool :=
  d.connect = 0 && d.write = 0 &&
    match d.ending with
    | .hangsUp bytes => (d.vbds.length + 1) * messageSize ≤ bytes
    | .refuses messages _ => d.vbds.length < messages

end Daemons

section Listing

def tapCtlReadMessage (incoming : List UInt8) : Option (Message × List UInt8) :=
  if messageSize ≤ incoming.length then some (decode (incoming.take messageSize), incoming.drop messageSize) else none

/-- A field of type `int` -/
def intAt (m : Message) (off : Nat) : Int := Int.bmod (m.word off) (2 ^ 32)

def listPath (m : Message) : Text := (m.body.drop 12).takeWhile (· ≠ 0)

structure Memory where
  entry : Nat → Bool
  strings : Nat → Bool

def newEntry (strings : Bool) (pid : Int) (m : Message) : Option Entry :=
  let tl := { tapListAlloc with pid := pid, minor := intAt m 4, state := intAt m 8 }
  if m.body.getD 12 0 ≠ 0 then
    match parseParams strings (listPath m) with
    | (0, type, path) => some { tl with type := type, path := path }
    | _ => none
  else some tl

theorem readMessage_shorter {incoming rest : List UInt8} {m : Message}
    (read : tapCtlReadMessage incoming = some (m, rest)) : rest.length < incoming.length := by
  have size : 0 < messageSize := by decide
  unfold tapCtlReadMessage at read
  split at read
  · cases read
    rw [List.length_drop]
    omega
  · cases read

structure Listing where
  i : Nat
  incoming : List UInt8
  vbds : List Entry

def listTurn (memory : Memory) (pid : Int) (s : Listing) : Listing ⊕ List Entry :=
  match tapCtlReadMessage s.incoming with
  | none => .inr []
  | some (message, rest) =>
      if intAt message 0 = 0 then .inr s.vbds
      else if memory.entry s.i then
        match newEntry (memory.strings s.i) pid message with
        | some tl => .inl ⟨s.i + 1, rest, tl :: s.vbds⟩
        | none => .inr []
      else .inr []

theorem listTurn_shorter {memory : Memory} {pid : Int} {s t : Listing} (next : listTurn memory pid s = .inl t) :
    t.incoming.length < s.incoming.length := by
  unfold listTurn at next
  split at next
  case h_1 => cases next
  case h_2 read =>
    split at next
    case isTrue => cases next
    split at next
    case isFalse => cases next
    split at next
    case h_2 => cases next
    cases next
    exact readMessage_shorter read

def listLoop (memory : Memory) (pid : Int) (s : Listing) : List Entry :=
  match _next : listTurn memory pid s with
  | .inl t => listLoop memory pid t
  | .inr list => list
termination_by s.incoming.length
decreasing_by exact listTurn_shorter _next

/-- `_tap_ctl_list_tapdisk`: the code that it returns before it initialises the list, or the list. From there on it
returns 0. -/
def listTapdisk (memory : Memory) (d : Daemon) (pid : Int) : Except Int (List Entry) :=
  if d.connect ≠ 0 then .error d.connect
  else if d.write ≠ 0 then .error d.write
  else .ok (listLoop memory pid ⟨0, d.stream, []⟩)

end Listing

section Joining

structure System where
  minors : Glob
  sockets : Glob
  minorMemory : Nat → Bool
  socketMemory : Nat → Bool
  getPid : Int → Int
  daemon : Int → Daemon
  memory : Int → Memory

def dropMinor (minors : List Entry) (v : Entry) : List Entry := minors.eraseP fun m => m.minor = v.minor

def joinTapdisk (s : System) (lists : List Entry × List Entry) (t : Entry) : List Entry × List Entry :=
  match listTapdisk (s.memory t.pid) (s.daemon t.pid) t.pid with
  | .ok (v :: vbds) => ((v :: vbds).foldl dropMinor lists.1, lists.2 ++ v :: vbds)
  | _ => (lists.1, lists.2 ++ [t])

def listFail (list vbds tapdisks minors : Option (List Entry)) (err : Int) : Outcome (Int × List Entry) := do
  tapCtlListFree list
  tapCtlListFree vbds
  tapCtlListFree tapdisks
  tapCtlListFree minors
  pure (err, [])

/-- `tap_ctl_list`: what it returns, and the list, which its callers have initialised. -/
def tapCtlList (s : System) : Outcome (Int × List Entry) :=
  let (err, minors) := findMinors s.minorMemory s.minors
  if err < 0 then listFail (some []) none none (some minors) err
  else
    let (err, tapdisks) := findTapdisks s.socketMemory s.getPid s.sockets
    if err < 0 then listFail (some []) none (some tapdisks) (some minors) err
    else
      let lists := tapdisks.foldl (joinTapdisk s) (minors, [])
      .ok (0, lists.2 ++ lists.1)

end Joining

section Purpose

def outerJoin (minors pids : List Int) (vbds : Int → List Entry) : List Entry :=
  pids.flatMap (fun pid => if vbds pid = [] then [ofPid pid] else vbds pid) ++
    (minors.filter fun minor => minor ∉ (pids.flatMap vbds).map Entry.minor).map ofMinor

def Glob.numbers : Glob → List Int
  | .paths numbers => numbers.filterMap id
  | _ => []

def System.pids (s : System) : List Int := (s.sockets.numbers.map s.getPid).filter fun pid => 0 ≤ pid

def ofVbd (pid : Int) (vbd : Vbd) : Entry where
  pid := pid
  minor := minorOf vbd
  state := vbd.state
  type := vbd.name.bind fun name => (parseParams true name).2.1
  path := vbd.name.bind fun name => (parseParams true name).2.2

def System.vbds (s : System) (pid : Int) : List Entry :=
  if (s.daemon pid).answers then (s.daemon pid).vbds.map (ofVbd pid) else []

def System.Found (s : System) : Prop :=
  0 ≤ (findMinors s.minorMemory s.minors).1 ∧ 0 ≤ (findTapdisks s.socketMemory s.getPid s.sockets).1

/-- `tap_ctl_list` frees only queues that were initialised. When the early steps succeed, it returns the outer join. -/
structure Right (s : System) : Prop where
  defined : tapCtlList s ≠ .undefined
  joined : s.Found → ∃ list, tapCtlList s = .ok (0, list) ∧ list.Perm (outerJoin s.minors.numbers s.pids s.vbds)

def Taken (memory : Memory) (i : Nat) (vbd : Vbd) : Prop :=
  memory.entry i = true ∧ ∀ name ∈ vbd.name, name ≠ [] → colon ∈ name ∧ memory.strings i = true

end Purpose

end Blktap.TapCtl
