import Blktap.Lib.Ring

/-!
# The syslog client (`tapdisk-syslog.c`)

A message goes to the socket at once, or through a ring of bytes when the socket would block. `formatted` and
`accepted` are the strings that have been formatted and the packets that the socket has taken, in their order.
-/

namespace Blktap.Tapdisk.Syslog
open Lib

def packetMax : Nat := 1024

def word : Nat := 2 ^ 64

structure Message where
  text : List UInt8
  noNul : 0 ∉ text

namespace Message

def line (m : Message) : List UInt8 := m.text.take (packetMax - 1)

def len (m : Message) : Nat := min m.text.length packetMax

def packet (m : Message) : List UInt8 := (m.line ++ [0]).take m.len

end Message

inductive Connect
  | ok
  | again
  | error

inductive Send
  | accepted
  | again
  | notConnected (connect : Connect)
  | error

inductive Direct
  | sent
  | again
  | failed
  deriving DecidableEq

/-- `td_syslog_t`. The counters have 64 bits and `oom` has 32. -/
structure Log where
  ringsz : Nat
  ring : Nat → UInt8
  prod : Nat
  cons : Nat
  masked : Bool
  oom : Nat
  count : Nat
  bytes : Nat
  xmits : Nat
  fails : Nat
  drops : Nat
  formatted : List (List UInt8)
  accepted : List (List UInt8)

namespace Log

def used (s : Log) : Nat := (s.prod + word - s.cons) % word

def ringFree (s : Log) : Nat := (s.ringsz + word - s.used) % word

def ringWriteStr (s : Log) (msg : List UInt8) : Option Log :=
  let msg := msg.take packetMax
  if s.ringFree < msg.length + 1 then none
  else
    let bytes := msg.takeWhile (· ≠ 0) ++ [0]
    some { s with
      ring := put word s.ringsz s.ring s.prod bytes
      prod := (s.prod + bytes.length) % word }

def readBytes (s : Log) : Nat → Nat → List UInt8
  | 0, _ => []
  | size + 1, cons =>
      if cons = s.prod then []
      else
        let c := s.ring (slot word s.ringsz cons)
        c :: if c = 0 then [] else readBytes s size ((cons + 1) % word)

def ringReadPkt (s : Log) : Option (List UInt8) :=
  match s.readBytes packetMax s.cons with
  | [] => none
  | c :: cs => some (c :: cs).dropLast

def drop (s : Log) : Log := { s with oom := (s.oom + 1) % 2 ^ 32, drops := (s.drops + 1) % word }

def fail (s : Log) : Log := { s with fails := (s.fails + 1) % word }

def transmit (s : Log) : Log := { s with xmits := (s.xmits + 1) % word }

def accept (s : Log) (packet : List UInt8) : Log := { s with accepted := s.accepted ++ [packet] }

def attempts : List Send → Option (Direct × Nat × List Send)
  | [] => none
  | .accepted :: rest => some (.sent, 1, rest)
  | .again :: rest | .notConnected .again :: rest => some (.again, 1, rest)
  | .notConnected .ok :: rest => (attempts rest).map fun (direct, xmits, rest) => (direct, xmits + 1, rest)
  | .notConnected .error :: rest | .error :: rest => some (.failed, 1, rest)

def busy (s : Log) (m : Message) : Bool × Log :=
  if s.oom ≠ 0 then (false, s.drop)
  else
    match s.ringWriteStr m.packet with
    | some s => (true, s)
    | none => (false, s.drop)

def vsyslog (s : Log) (m : Message) (results : List Send) : Option (Bool × Log × List Send) :=
  let s := { s with
    count := (s.count + 1) % word
    bytes := (s.bytes + m.len) % word
    formatted := s.formatted ++ [m.line] }
  if s.cons ≠ s.prod then
    let queued := s.busy m
    some (queued.1, queued.2, results)
  else
    (attempts results).map fun (direct, xmits, rest) =>
      let s := { s with xmits := (s.xmits + xmits) % word }
      match direct with
      | .sent => (true, s.accept m.packet, rest)
      | .again =>
          let queued := { s with masked := false }.busy m
          (queued.1, queued.2, rest)
      | .failed => (false, s.fail, rest)

/-- `tapdisk_syslog_ring_dispatch` up to the warning: packets are sent until the ring is empty or the socket would
block. Any other error discards the packet. -/
def dispatch : Log → List Send → Option (Log × List Send)
  | s, [] =>
      match s.ringReadPkt with
      | none => some (s, [])
      | some _ => none
  | s, result :: rest =>
      match s.ringReadPkt with
      | none => some (s, result :: rest)
      | some packet =>
          let t := s.transmit
          let done := { t with cons := (t.cons + packet.length + 1) % word }
          match result with
          | .again => some (t, rest)
          | .accepted => dispatch (done.accept packet) rest
          | _ => dispatch done.fail rest

def ringWarning (s : Log) (warning : Message) (results : List Send) : Option (Log × List Send) :=
  (vsyslog { s with oom := 0 } warning results).map fun (ok, t, rest) =>
    (if ok then t else { t with oom := s.oom }, rest)

def sockEvent (s : Log) (warning : Message) (results : List Send) : Option (Log × List Send) :=
  (s.dispatch results).bind fun (s, rest) =>
    (if s.oom = 0 then some (s, rest) else s.ringWarning warning rest).map fun (s, rest) =>
      (if s.cons = s.prod then { s with masked := true } else s, rest)

/-- The results of the calls of the socket come with the event, and `warning` is what a warning would say. -/
inductive Event
  | log (m : Message) (results : List Send)
  | writable (warning : Message) (results : List Send)

def step (s : Log) : Event → Option Log
  | .log m results => (s.vsyslog m results).bind fun (_, s, rest) => if rest.isEmpty then some s else none
  | .writable warning results =>
      if s.masked then none
      else (s.sockEvent warning results).bind fun (s, rest) => if rest.isEmpty then some s else none

def init (bufsz : Nat) : Log where
  ringsz := (bufsz + word - packetMax) % word
  ring := fun _ => 0
  prod := 0
  cons := 0
  masked := true
  oom := 0
  count := 0
  bytes := 0
  xmits := 0
  fails := 0
  drops := 0
  formatted := []
  accepted := []

end Log
end Blktap.Tapdisk.Syslog
