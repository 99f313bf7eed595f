import Mathlib.Data.List.Basic
import Mathlib.Algebra.Ring.Nat

/-!
# Requests through a chain of images (`tapdisk-vbd.c`)
-/

namespace Blktap.Tapdisk

def eperm : Int := 1
def ebusy : Int := 16
def einval : Int := 22

inductive Op
  | read
  | write
  deriving DecidableEq

structure Treq where
  op : Op
  sec : Nat
  secs : Nat
  buf : Nat

inductive Answer
  | serve
  | fail (code : Int)
  | forward (ready : Bool)

structure Part where
  secs : Nat
  answer : Answer

def Honest {α : Type} (size : Nat) (content : Nat → Option α) (op : Op) : Nat → List Part → Prop
  | _, [] => True
  | sec, part :: parts =>
      (match part.answer with
        | .serve => ∀ x, sec ≤ x → x < sec + part.secs → x < size ∧ (op = .read → content x ≠ none)
        | .forward _ => op = .read → ∀ x, sec ≤ x → x < sec + part.secs → content x = none
        | .fail code => code ≠ 0) ∧
      Honest size content op (sec + part.secs) parts

structure Image (α : Type) where
  size : Nat
  rdonly : Bool
  content : Nat → Option α
  split : Treq → List Part
  size_lt : size < 2 ^ 55
  inside : ∀ x, size ≤ x → content x = none
  covers : ∀ treq, ((split treq).map Part.secs).sum = treq.secs
  positive : ∀ treq, ∀ part ∈ split treq, 0 < part.secs
  honest : ∀ treq, Honest size content treq.op treq.sec (split treq)

structure Done (α : Type) where
  sec : Nat
  secs : Nat
  buf : Nat
  res : Int
  data : Option (Nat → α)

section Chain
variable {α : Type} (zero : α)

def Treq.done (treq : Treq) (res : Int) (data : Option (Nat → α)) : Done α :=
  { sec := treq.sec, secs := treq.secs, buf := treq.buf, res, data }

def Image.check (image : Image α) (treq : Treq) : Int :=
  if treq.op = .write ∧ image.rdonly then -eperm
  else if treq.secs = 0 ∨ image.size < (treq.sec + treq.secs) % 2 ^ 64 then -einval
  else 0

def Treq.skip (treq : Treq) (secs : Nat) : Treq :=
  { treq with sec := treq.sec + secs, secs := treq.secs - secs, buf := treq.buf + secs }

def Treq.zeros (treq : Treq) : Done α := treq.done 0 (some fun _ => zero)

def reissue (parent : Option (Image α)) (queue : Treq → List (Done α)) (treq : Treq) : List (Done α) :=
  match parent with
  | none => [treq.zeros zero]
  | some parent =>
      if parent.size < (treq.sec + treq.secs) % 2 ^ 64 then
        let secs := if treq.sec < parent.size then parent.size - treq.sec else 0
        (treq.skip secs).zeros zero :: if secs = 0 then [] else queue { treq with secs }
      else queue treq

def forward (ready : Bool) (parent : Option (Image α)) (queue : Treq → List (Done α)) (treq : Treq) :
    List (Done α) :=
  if ready then reissue zero parent queue treq else [treq.done (-ebusy) none]

def Image.served (image : Image α) (treq : Treq) : Done α :=
  treq.done 0 (match treq.op with
    | .read => some fun i => (image.content (treq.sec + i)).getD zero
    | .write => none)

def Image.answer (image : Image α) (forward : Bool → Treq → List (Done α)) (op : Op) :
    Nat → Nat → List Part → List (Done α)
  | _, _, [] => []
  | sec, buf, part :: parts =>
      let treq : Treq := { op, sec, secs := part.secs, buf }
      (match part.answer with
        | .serve => [image.served zero treq]
        | .fail code => [treq.done code none]
        | .forward ready => forward ready treq) ++
      image.answer forward op (sec + part.secs) (buf + part.secs) parts

def queueRequest : List (Image α) → Treq → List (Done α)
  | [], _ => []
  | image :: below, treq =>
      if image.check treq ≠ 0 then [treq.done (image.check treq) none]
      else image.answer zero (fun ready => forward zero ready below.head? (queueRequest below)) treq.op
        treq.sec treq.buf (image.split treq)

def chainData : List (Image α) → Nat → α
  | [], _ => zero
  | image :: below, x => if image.size ≤ x then zero else (image.content x).getD (chainData below x)

end Chain

end Blktap.Tapdisk
