import Blktap.Tapdisk.Stats
import Blktap.Tapdisk.Control

/-!
# The output of a control connection (`tapdisk-control.c`)
-/

namespace Blktap.Tapdisk.Output
open Lib
open Bind (kleisliRight)

def word : Nat := 2 ^ 64

def bufsz : Nat := 4096

def enodev : Nat := 19

def allVbds : Nat := 2 ^ 16 - 1

section Records

structure Valve where
  brname : Int
  flags : Nat
  cred : Int
  need : Int
  done : Int
  stored : Int
  stor : Nat
  forwarded : Int
  forw : Nat

inductive Driver
  | aio (pending : Int)
  | valve (valve : Valve)
  | plain (type : Nat)

def diskTypes : List String :=
  ["aio", "sync", "vmdk", "vhdsync", "vhd", "ram", "qcow", "bc", "vhdi", "log", "remus disk replicator (remus)", "lc",
    "lle", "llp", "valve"]

def Driver.type : Driver → Nat
  | aio _ => 0
  | valve _ => 14
  | plain type => type

def Driver.isAio : Driver → Bool
  | aio _ => true
  | _ => false

def Driver.name (driver : Driver) : Option Text := diskTypes[driver.type]?.map ascii

structure Count where
  fst : Nat
  snd : Nat

structure Image where
  name : Option Text
  hits : Count
  fail : Count
  driver : Driver

structure Tap where
  minor : Int
  reqs : Count
  kicks : Count

structure Vbd where
  uuid : Nat
  name : Option Text
  state : Nat
  secs : Count
  images : List Image
  tap : Option Tap
  redirects : Nat

end Records

section Statistics

def pair (key : String) (first second : Arg) : Stats → Option Stats :=
  Stats.field key (.enter squareOpen) >=> (Stats.val first >=> Stats.val second) >=> Stats.leave squareClose

def count (key : String) (n : Count) : Stats → Option Stats := pair key (.u n.fst) (.u n.snd)

def maxAioReqs : Nat := 352

def aioStats (pending : Int) : Stats → Option Stats :=
  Stats.field "reqs" (.enter braceOpen) >=>
    (Stats.field "max" (.value (.u maxAioReqs)) >=> Stats.field "pending" (.value (.d pending))) >=>
    Stats.leave braceClose

def valveStats (v : Valve) : Stats → Option Stats :=
  Stats.field "bridge" (.value (.d v.brname)) >=> Stats.field "flags" (.value (.x v.flags)) >=>
    Stats.field "cred" (.value (.d v.cred)) >=> Stats.field "need" (.value (.d v.need)) >=>
    Stats.field "done" (.value (.d v.done)) >=> pair "stor" (.d v.stored) (.u v.stor) >=>
    pair "forw" (.d v.forwarded) (.u v.forw)

def statusStats : Driver → Stats → Option Stats
  | .aio pending =>
      Stats.field "status" (.enter braceOpen) >=> aioStats pending >=> Stats.leave braceClose
  | .valve v => Stats.field "status" (.enter braceOpen) >=> valveStats v >=> Stats.leave braceClose
  | .plain _ => Stats.field "status" .null

def driverStats (driver : Driver) : Stats → Option Stats :=
  Stats.field "type" (.value (.d driver.type)) >=> Stats.field "name" (.value (.s driver.name)) >=>
    statusStats driver

def imageStats (image : Image) : Stats → Option Stats :=
  Stats.enter braceOpen >=>
    (Stats.field "name" (.value (.s image.name)) >=> count "hits" image.hits >=> count "fail" image.fail >=>
      Stats.field "driver" (.enter braceOpen) >=> driverStats image.driver >=> Stats.leave braceClose) >=>
    Stats.leave braceClose

def blktapStats (tap : Tap) : Stats → Option Stats :=
  Stats.field "minor" (.value (.d tap.minor)) >=> count "reqs" tap.reqs >=> count "kicks" tap.kicks

def tapStats : Option Tap → Stats → Option Stats
  | none => some
  | some tap => Stats.field "tap" (.enter braceOpen) >=> blktapStats tap >=> Stats.leave braceClose

def vbdStats (vbd : Vbd) : Stats → Option Stats :=
  Stats.enter braceOpen >=>
    (Stats.field "name" (.value (.s vbd.name)) >=> count "secs" vbd.secs >=>
      (Stats.field "images" (.enter squareOpen) >=> eachOf imageStats vbd.images >=> Stats.leave squareClose) >=>
      tapStats vbd.tap >=>
      Stats.field "FIXME_enospc_redirect_count" (.value (.u vbd.redirects))) >=>
    Stats.leave braceClose

def allStats (vbds : List Vbd) : Stats → Option Stats :=
  Stats.enter squareOpen >=> eachOf vbdStats vbds >=> Stats.leave squareClose

end Statistics

section Connection

structure Conn where
  mem : Nat → UInt8
  prod : Nat
  cons : Nat
  done : Bool
  closed : Bool
  failed : Bool
  stream : Text

def le (size value : Nat) : Text := (List.range size).map (leByte value)

def int32 (n : Int) : Text := le 4 (n % 2 ^ 32).toNat

def encode (m : Message) : Text :=
  le 2 m.type ++ le 2 m.cookie ++ List.replicate 4 0 ++ (m.body.take 528 ++ List.replicate (528 - m.body.length) 0)

namespace Conn

def opened (mem : Nat → UInt8) : Conn := ⟨mem, 0, 0, false, false, false, []⟩

def queued (c : Conn) : Text := load c.mem c.cons (c.prod - c.cons)

def write (c : Conn) (bytes : Text) : Conn :=
  let rest := (bufsz + word - c.prod) % word
  let bytes := bytes.take rest
  { c with mem := store c.mem c.prod bytes, prod := c.prod + bytes.length }

def writeMessage (c : Conn) (m : Message) : Conn := c.write (encode m)

end Conn

def listResponse (cookie : Nat) (count minor : Int) (state : Nat) (path : Text) : Message where
  type := MessageId.listRsp.number
  cookie := cookie
  body := int32 count ++ int32 minor ++ int32 state ++ path

def putName (path : Text) : Option Text → Text
  | none => 0 :: path.tail
  | some name => name.take maxPathLength ++ List.replicate (maxPathLength - name.length) 0

/-- The messages of `tapdisk_control_list` from a VBD on. The last one keeps what is left of the one before. -/
def listResponses (cookie : Nat) : Int → Nat → Text → List Vbd → List Message
  | count, state, path, [] => [listResponse cookie count (-1) state (putName path none)]
  | count, _, path, vbd :: rest =>
      let path := putName path vbd.name
      listResponse cookie count ((vbd.tap.map Tap.minor).getD (-1)) vbd.state path ::
        listResponses cookie (count - 1) vbd.state path rest

def listMessages (vbds : List Vbd) (cookie : Nat) : List Message :=
  listResponses cookie vbds.length 0 (List.replicate maxPathLength 0) vbds

def list (vbds : List Vbd) (cookie : Nat) (c : Conn) : Conn :=
  (listMessages vbds cookie).foldl Conn.writeMessage c

def statsResponse (cookie length : Nat) : Message where
  type := MessageId.statsRsp.number
  cookie := cookie
  body := List.replicate 8 0 ++ le 8 length

def getVbd (vbds : List Vbd) (uuid : Nat) : Option Vbd := vbds.find? fun vbd => vbd.uuid = uuid

/-- What `tapdisk_control_stats` calls to write the statistics; `none` is `-ENODEV`. -/
def statsWriter (vbds : List Vbd) (cookie : Nat) : Option (Stats → Option Stats) :=
  if cookie ≠ allVbds then (getVbd vbds cookie).map vbdStats else some (allStats vbds)

/-- `tapdisk_control_stats` from `out` on. The error is a length like any other. -/
def statsOut (cookie rv : Nat) (c : Conn) : Conn :=
  let c := c.writeMessage (statsResponse cookie rv)
  { c with prod := (c.prod + rv) % word }

/-- `tapdisk_control_stats`. `none` is when the writer leaves its counters. -/
def stats (vbds : List Vbd) (cookie : Nat) (c : Conn) : Option Conn :=
  match statsWriter vbds cookie with
  | none => some (statsOut cookie (word - enodev) c)
  | some writer =>
      (writer (.init c.mem messageSize (bufsz - messageSize))).map fun st =>
        statsOut cookie st.out.pos { c with mem := st.out.mem }

inductive Request
  | list (cookie : Nat)
  | stats (cookie : Nat)
  | other (response : Message)

def handle (vbds : List Vbd) : Request → Conn → Option Conn
  | .list cookie, c => some (list vbds cookie c)
  | .stats cookie, c => stats vbds cookie c
  | .other response, c => some (c.writeMessage response)

def release (c : Conn) : Conn := { c with done := true, closed := decide (c.prod = c.cons) }

inductive Sent
  | took (n : Nat)
  | again
  | failed

def sendEvent (c : Conn) : List Sent → Option Conn
  | [] => if c.prod = c.cons then some { c with closed := c.done } else none
  | sent :: rest =>
      if c.prod = c.cons then none
      else
        match sent with
        | .took n =>
            if 0 < n ∧ n ≤ c.prod - c.cons then
              sendEvent { c with cons := c.cons + n, stream := c.stream ++ load c.mem c.cons n } rest
            else none
        | .again => if rest.isEmpty then some c else none
        | .failed => if rest.isEmpty then some { c with closed := true, failed := true } else none

def sendEvents (c : Conn) : List (List Sent) → Option Conn
  | [] => some c
  | results :: rest => if c.closed then none else (sendEvent c results).bind fun c => sendEvents c rest

def serve (vbds : List Vbd) (request : Request) (mem : Nat → UInt8) : Option Conn :=
  (handle vbds request (.opened mem)).map release

end Connection
end Blktap.Tapdisk.Output
