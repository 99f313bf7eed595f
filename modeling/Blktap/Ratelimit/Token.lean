import Blktap.Lib.Int64
import Blktap.Lib.Outcome
import Blktap.Lib.Run
import Blktap.Ratelimit.Valve
import Mathlib.Algebra.Order.Ring.Abs
import Mathlib.Algebra.Order.Ring.Int

/-!
# The token bucket valve (`td-rated.c`)

The bucket regains credit with time and hands it out to the connections on the wait queue. Clock readings are
in microseconds. The wait queue is the list of the needs on it, and one event is one turn of
`rlb_main_iterate`: what the connections send and which of them hang up, and then the dispatch.
-/

namespace Blktap.Ratelimit
open Lib

def einval : Int := 22

def rlbConnMax : Nat := 1024

section Options

def isSpace (c : Char) : Bool := c ∈ [' ', '\t', '\n', '\x0b', '\x0c', '\r']

def digit (c : Char) : Nat :=
  if '0' ≤ c ∧ c ≤ '9' then c.toNat - '0'.toNat
  else if 'a' ≤ c ∧ c ≤ 'z' then c.toNat - 'a'.toNat + 10
  else if 'A' ≤ c ∧ c ≤ 'Z' then c.toNat - 'A'.toNat + 10
  else 36

def numberBase : List Char → Nat × List Char
  | '0' :: x :: d :: s => if (x = 'x' ∨ x = 'X') ∧ digit d < 16 then (16, d :: s) else (8, '0' :: x :: d :: s)
  | '0' :: s => (8, '0' :: s)
  | s => (10, s)

def numberSign : List Char → Bool × List Char
  | '-' :: s => (true, s)
  | '+' :: s => (false, s)
  | s => (false, s)

def strtoul (s : List Char) : Nat × List Char :=
  let (negative, unsigned) := numberSign (s.dropWhile isSpace)
  let (base, number) := numberBase unsigned
  let digits := number.takeWhile fun c => digit c < base
  let value := digits.foldl (fun value c => value * base + digit c) 0
  if digits = [] then (0, s)
  else
    (if 2 ^ 64 ≤ value then 2 ^ 64 - 1 else if negative then (2 ^ 64 - value) % 2 ^ 64 else value,
      number.drop digits.length)

def unitPower (c : Char) : Option Nat :=
  if c = 'G' ∨ c = 'g' then some 3
  else if c = 'M' ∨ c = 'm' then some 2
  else if c = 'K' ∨ c = 'k' then some 1
  else none

def rlbStrtol (s : List Char) : Int :=
  let (l, rest) := strtoul s
  match rest with
  | [] => long l
  | p :: rest =>
      match unitPower p, rest with
      | some power, 'i' :: _ => long (l * 1024 ^ power)
      | some power, [] => long (l * 1000 ^ power)
      | _, _ => -einval

end Options

structure Token where
  cred : Int
  cap : Int
  rate : Int
  deriving DecidableEq

namespace Token

def setTimeo (token : Token) : Option Int := do
  let debt ← int64 (-token.cred)
  let us ← int64 (debt * 1000000)
  int64 (us.tdiv token.rate)

def refill (token : Token) (elapsed : Int) : Option Token := do
  let room ← int64 (token.cap - token.cred)
  let roomUsec ← int64 (room * 1000000)
  let rounded ← int64 (roomUsec + (token.rate - 1))
  let maxUsec := rounded.tdiv token.rate
  let usec ← int64 elapsed
  let worth ← int64 (min usec maxUsec * token.rate)
  let cred ← int64 (token.cred + worth.tdiv 1000000)
  return { token with cred := min cred token.cap }

def reset (token : Token) : Token := { token with cred := token.cap }

end Token

inductive TokenOption
  | rate (arg : List Char)
  | cap (arg : List Char)
  | unknown

def tokenOption (token : Token) : TokenOption → Outcome Token
  | .rate arg => if rlbStrtol arg < 0 then .error (-einval) else .ok { token with rate := rlbStrtol arg }
  | .cap arg => if rlbStrtol arg < 0 then .error (-einval) else .ok { token with cap := rlbStrtol arg }
  | .unknown => .error (-einval)

def tokenCreate (options : List TokenOption) : Outcome Token := do
  let token ← options.foldlM tokenOption ⟨0, 0, 0⟩
  if token.rate = 0 then .error (-einval) else return token.reset

inductive Change
  | join (need : Nat)
  | more (i need : Nat)
  | leave (i : Nat)

def change (wait : List Nat) : Change → Option (List Nat)
  | .join need =>
      if 0 < need ∧ need ≤ tdRlbRequestMax ∧ wait.length < rlbConnMax then some (wait ++ [need]) else none
  | .more i need =>
      wait[i]?.bind fun old => if old + need ≤ tdRlbRequestMax then some (wait.set i (old + need)) else none
  | .leave i => if i < wait.length then some (wait.eraseIdx i) else none

/-- `due` is what the time was worth, in millionths and as far as there was room for it, and `gained` what the credit
regained. -/
structure Bucket where
  token : Token
  now : Nat
  wait : List Nat
  granted : Nat
  due : Int
  gained : Int
  overflow : Bool

structure Turn where
  now : Nat
  changes : List Change
  sent : Nat → Bool

namespace Bucket

def grant (s : Bucket) (need : Nat) (sent : Bool) : Bucket :=
  { s with
    token := { s.token with cred := s.token.cred - need }
    granted := if sent then s.granted + need else s.granted }

/-- The loop of `rlb_token_dispatch`. `rlb_conn_respond` takes a connection off the wait queue, or closes it. -/
def dispatch (sent : Nat → Bool) : Nat → List Nat → Bucket → Bucket
  | _, [], s => { s with wait := [] }
  | i, need :: wait, s =>
      if s.token.cred < 0 then { s with wait := need :: wait }
      else dispatch sent (i + 1) wait (s.grant need (sent i))

def timer (s : Bucket) : Option Int := if s.wait = [] then some 0 else s.token.setTimeo

def worth (token : Token) (elapsed : Int) : Int :=
  min (elapsed * token.rate) ((token.cap - token.cred) * 1000000)

def refilled (s : Bucket) (now : Nat) (token : Token) : Bucket :=
  if s.wait = [] then { s with token, now }
  else { s with
    token, now
    due := s.due + worth s.token (now - s.now)
    gained := s.gained + (token.cred - s.token.cred) }

def start (token : Token) (now : Nat) : Bucket := ⟨token, now, [], 0, 0, 0, false⟩

end Bucket

def turn (s : Bucket) (e : Turn) : Option Bucket :=
  if s.now ≤ e.now ∧ e.now - s.now < 2 ^ 63 ∧ s.overflow = false then
    (e.changes.foldlM change s.wait).map fun wait =>
      match s.timer, s.token.refill (e.now - s.now) with
      | some _, some token => (s.refilled e.now token).dispatch e.sent 0 wait
      | _, _ => { s with overflow := true }
  else none

def always (_ : Bucket) (_ : Turn) : Prop := True

def within (start length : Nat) (_ : Bucket) (e : Turn) : Prop := start ≤ e.now ∧ e.now ≤ start + length

structure Token.Sound (token : Token) : Prop where
  inRange : ∀ now s, Run turn always (.start token now) s → s.overflow = false
  capped : ∀ now s, Run turn always (.start token now) s → s.token.cred ≤ token.cap
  limited : ∀ now s t begin length, Run turn always (.start token now) s → Run turn (within begin length) s t →
    ((t.granted : Int) - s.granted) * 1000000 ≤ (token.cap + tdRlbRequestMax) * 1000000 + token.rate * length
  lossless : ∃ bound : Int, ∀ now s t, Run turn always (.start token now) s → Run turn always s t →
    |t.due - s.due - (t.gained - s.gained) * 1000000| ≤ bound

/-- The products of the refill fit, and a microsecond is worth a whole number of bytes, or more than there is ever room
for. -/
def Token.Exact (token : Token) : Prop :=
  (token.cap + tdRlbRequestMax) * 1000000 + (token.rate - 1) < 2 ^ 63 ∧
  (1000000 ∣ token.rate ∨ (token.cap + tdRlbRequestMax) * 1000000 ≤ token.rate)

end Blktap.Ratelimit
