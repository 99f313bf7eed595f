import Blktap.Lib.Formatted
import Mathlib.Control.Basic
import Mathlib.Logic.Function.Basic

/-!
# The statistics (`tapdisk-stats.c`)
-/

namespace Blktap.Tapdisk
open Lib

abbrev Text := List UInt8

def ascii (s : String) : Text := s.toList.map fun c => UInt8.ofNat c.toNat

def separator : Text := ascii ", "
def quote : UInt8 := 0x22
def space : UInt8 := 0x20
def squareOpen : UInt8 := 0x5b
def squareClose : UInt8 := 0x5d
def braceOpen : UInt8 := 0x7b
def braceClose : UInt8 := 0x7d

inductive Arg
  | s (name : Option Text)
  | d (n : Int)
  | u (n : Nat)
  | x (n : Nat)

def decimal (n : Nat) : Text := (Nat.toDigits 10 n).map fun c => UInt8.ofNat c.toNat

def hexadecimal (n : Nat) : Text := (Nat.toDigits 16 n).map fun c => UInt8.ofNat c.toNat

def Arg.text : Arg → Text
  | .s name => quote :: name.getD (ascii "(null)") ++ [quote]
  | .d n => if n < 0 then ascii "-" ++ decimal n.natAbs else decimal n.natAbs
  | .u n => decimal n
  | .x n => if n = 0 then ascii "0" else ascii "0x" ++ hexadecimal n

def statsMaxDepth : Nat := 8

structure Stats where
  out : Cursor
  nElem : Nat → Nat
  depth : Nat

inductive Conv
  | null
  | enter (t : UInt8)
  | value (arg : Arg)

def fieldKey (key : String) : Text := quote :: ascii key ++ ascii "\": "

namespace Stats

def init (mem : Nat → UInt8) (base size : Nat) : Stats := ⟨⟨base, size, 0, mem⟩, fun _ => 0, 0⟩

def sprintf (st : Stats) (text : Text) : Stats := { st with out := st.out.print text }

/-- `__stats_enter`. The assertion lets a depth pass whose counter is behind the end of `n_elem`. -/
def down (st : Stats) : Option Stats :=
  if statsMaxDepth ≤ st.depth + 1 then none
  else some { st with depth := st.depth + 1, nElem := Function.update st.nElem (st.depth + 1) 0 }

def up (st : Stats) : Stats := { st with depth := st.depth - 1 }

def next (st : Stats) : Stats :=
  let n := st.nElem st.depth
  let st := if 0 < n then st.sprintf separator else st
  { st with nElem := Function.update st.nElem st.depth (n + 1) }

def openBracket (t : UInt8) (st : Stats) : Option Stats := (st.sprintf [t, space]).down

def enter (t : UInt8) (st : Stats) : Option Stats := st.next.openBracket t

def leave (t : UInt8) (st : Stats) : Option Stats := some (st.up.sprintf [space, t])

def val (arg : Arg) (st : Stats) : Option Stats := some (st.next.sprintf arg.text)

def field (key : String) (conv : Conv) (st : Stats) : Option Stats :=
  let st := st.next.sprintf (fieldKey key)
  match conv with
  | .null => some (st.sprintf (ascii "null"))
  | .enter t => st.openBracket t
  | .value arg => st.down.bind fun st => (st.val arg).map up

end Stats

def eachOf {α : Type} (f : α → Stats → Option Stats) (l : List α) (st : Stats) : Option Stats :=
  l.foldlM (fun st x => f x st) st

structure Item where
  text : Text
  levels : Nat

def listing (n : Nat) : List Text → Text
  | [] => []
  | text :: rest => (if 0 < n then separator else []) ++ text ++ listing (n + 1) rest

def deepest (items : List Item) : Nat := items.foldr (fun item n => max item.levels n) 0

namespace Item

def value (arg : Arg) : Item := ⟨arg.text, 0⟩

def entry (key : String) (arg : Arg) : Item := ⟨fieldKey key ++ arg.text, 1⟩

def missing (key : String) : Item := ⟨fieldKey key ++ ascii "null", 0⟩

def group (t : UInt8) (items : List Item) (t' : UInt8) : Item :=
  ⟨[t, space] ++ listing 0 (items.map text) ++ [space, t'], deepest items + 1⟩

def labelled (key : String) (item : Item) : Item := { item with text := fieldKey key ++ item.text }

end Item

theorem listing_append (n : Nat) (texts texts' : List Text) :
    listing n (texts ++ texts') = listing n texts ++ listing (n + texts.length) texts' := by
  induction texts generalizing n with
  | nil => simp [listing]
  | cons text texts ih =>
      simp only [List.cons_append, listing, ih, List.append_assoc, List.length_cons]
      rw [Nat.add_right_comm, Nat.add_assoc n]

theorem deepest_append (items items' : List Item) :
    deepest (items ++ items') = max (deepest items) (deepest items') := by
  induction items with
  | nil => simp [deepest]
  | cons item items ih =>
      simp only [List.cons_append, deepest, List.foldr_cons] at ih ⊢
      rw [ih, Nat.max_assoc]

structure Wrote (st st' : Stats) (texts : List Text) : Prop where
  depth : st'.depth = st.depth
  count : st'.nElem st.depth = st.nElem st.depth + texts.length
  below : ∀ d < st.depth, st'.nElem d = st.nElem d
  printed : st.out.Printed (listing (st.nElem st.depth) texts) st'.out

def Writes (f : Stats → Option Stats) (items : List Item) : Prop :=
  ∀ st : Stats, st.depth < statsMaxDepth →
    if st.depth + deepest items < statsMaxDepth then ∃ st', f st = some st' ∧ Wrote st st' (items.map Item.text)
    else f st = none

section Rules
variable {st st' st'' : Stats} {items items' : List Item} {f g : Stats → Option Stats} {item : Item}

open Bind (kleisliRight)

@[simp] theorem Stats.next_depth : st.next.depth = st.depth := by
  simp only [Stats.next]
  split <;> rfl

@[simp] theorem Stats.next_nElem :
    st.next.nElem = Function.update st.nElem st.depth (st.nElem st.depth + 1) := by
  simp only [Stats.next]
  split <;> rfl

theorem Stats.next_out :
    st.next.out = if 0 < st.nElem st.depth then st.out.print separator else st.out := by
  simp only [Stats.next]
  split <;> rfl

@[simp] theorem deepest_singleton : deepest [item] = item.levels := by
  simp [deepest]

theorem Wrote.nothing : Wrote st st [] := ⟨rfl, rfl, fun _ _ => rfl, .none⟩

theorem Wrote.append {texts texts' : List Text} (first : Wrote st st' texts) (second : Wrote st' st'' texts') :
    Wrote st st'' (texts ++ texts') := by
  have printed := second.printed
  rw [first.depth, first.count] at printed
  constructor
  · rw [second.depth, first.depth]
  · rw [← first.depth, second.count, first.depth, first.count, List.length_append, Nat.add_assoc]
  · intro d below
    rw [second.below d (by rwa [first.depth]), first.below d below]
  · rw [listing_append]
    exact first.printed.append printed

theorem Writes.nothing : Writes some [] := by
  intro st shallow
  rw [if_pos (by simpa [deepest] using shallow)]
  exact ⟨st, rfl, .nothing⟩

theorem Writes.seq (first : Writes f items) (second : Writes g items') : Writes (f >=> g) (items ++ items') := by
  intro st shallow
  have before := first st shallow
  rw [deepest_append, List.map_append]
  change ite _ (∃ st', (f st).bind g = some st' ∧ _) ((f st).bind g = none)
  by_cases room : st.depth + deepest items < statsMaxDepth
  · rw [if_pos room] at before
    obtain ⟨st', ran, wrote⟩ := before
    have after := second st' (by rwa [wrote.depth])
    rw [wrote.depth] at after
    rw [ran]
    by_cases room' : st.depth + deepest items' < statsMaxDepth
    · rw [if_pos room'] at after
      obtain ⟨st'', ran', wrote'⟩ := after
      rw [if_pos (by omega)]
      exact ⟨st'', ran', wrote.append wrote'⟩
    · rw [if_neg room'] at after
      rw [if_neg (by omega)]
      exact after
  · rw [if_neg room] at before
    rw [before, if_neg (by omega)]
    rfl

theorem Wrote.element (text : Text) : Wrote st (st.next.sprintf text) [text] := by
  constructor
  · simp [Stats.sprintf]
  · simp [Stats.sprintf]
  · intro d below
    simp [Stats.sprintf, Nat.ne_of_lt below]
  · simp only [listing, List.append_nil, Stats.next_out, Stats.sprintf]
    split
    · exact Cursor.Printed.one.append .one
    · exact .one

theorem Writes.val (arg : Arg) : Writes (Stats.val arg) [.value arg] := by
  intro st shallow
  rw [if_pos (by simpa [Item.value] using shallow)]
  exact ⟨_, rfl, .element _⟩

theorem Wrote.more {text text' : Text} (wrote : Wrote st st' [text]) :
    Wrote st (st'.sprintf text') [text ++ text'] := by
  constructor
  · exact wrote.depth
  · exact wrote.count
  · exact wrote.below
  · have last : st'.out.Printed text' (st'.sprintf text').out := .one
    have printed := wrote.printed.append last
    simpa [listing] using printed

theorem down_eq (room : st.depth + 1 < statsMaxDepth) :
    st.down = some { st with depth := st.depth + 1, nElem := Function.update st.nElem (st.depth + 1) 0 } :=
  if_neg (Nat.not_le.mpr room)

theorem Writes.deeper {text : Text} (wrote : Wrote st st' [text]) (inner : Writes f items) :
    if st.depth + (deepest items + 1) < statsMaxDepth then
      ∃ st'', (st'.down.bind fun st => (f st).map Stats.up) = some st'' ∧ Wrote st st'' [text ++ listing 0 (items.map Item.text)]
    else (st'.down.bind fun st => (f st).map Stats.up) = none := by
  by_cases room : st'.depth + 1 < statsMaxDepth
  · have ran := inner { st' with depth := st'.depth + 1, nElem := Function.update st'.nElem (st'.depth + 1) 0 } room
    rw [down_eq room, Option.bind_some]
    rw [wrote.depth] at ran room
    split
    · next enough =>
        rw [if_pos (by simp only; omega)] at ran
        obtain ⟨last, done, written⟩ := ran
        have lower := written.below
        have depth := written.depth
        have printed := written.printed
        simp only at lower depth printed
        refine ⟨last.up, by rw [wrote.depth, done]; rfl, ?_⟩
        constructor
        · simp [Stats.up, depth]
        · rw [Stats.up, lower _ (Nat.lt_succ_self _), Function.update_of_ne (Nat.ne_of_lt (Nat.lt_succ_self _))]
          exact wrote.count
        · intro d below
          rw [Stats.up, lower d (by omega), Function.update_of_ne (by omega)]
          exact wrote.below d below
        · rw [Function.update_self] at printed
          simpa [listing, Stats.up] using wrote.printed.append printed
    · next short =>
        rw [if_neg (by simp only; omega)] at ran
        rw [wrote.depth, ran]
        rfl
  · rw [if_neg (by rw [wrote.depth] at room; omega), Stats.down, if_pos (Nat.not_lt.mp room)]
    rfl

theorem Writes.bracket {text : Text} {t' : UInt8} (wrote : Wrote st st' [text]) (inner : Writes f items) :
    if st.depth + (deepest items + 1) < statsMaxDepth then
      ∃ st'', (st'.down.bind fun st => (f st).bind (Stats.leave t')) = some st'' ∧
        Wrote st st'' [text ++ listing 0 (items.map Item.text) ++ [space, t']]
    else (st'.down.bind fun st => (f st).bind (Stats.leave t')) = none := by
  have ran := Writes.deeper wrote inner
  have closing : (st'.down.bind fun st => (f st).bind (Stats.leave t')) =
      (st'.down.bind fun st => (f st).map Stats.up).map fun st => st.sprintf [space, t'] := by
    cases st'.down with
    | none => rfl
    | some lower =>
        simp only [Option.bind_some, Option.map_map]
        cases f lower <;> rfl
  rw [closing]
  split
  · next room =>
      rw [if_pos room] at ran
      obtain ⟨st'', done, written⟩ := ran
      rw [done]
      exact ⟨_, rfl, written.more⟩
  · next short =>
      rw [if_neg short] at ran
      rw [ran]
      rfl

theorem Writes.group {t t' : UInt8} (inner : Writes f items) :
    Writes (Stats.enter t >=> f >=> Stats.leave t') [.group t items t'] := by
  intro st _
  rw [deepest_singleton]
  exact Writes.bracket (Wrote.element [t, space]) inner

theorem Writes.labelled {key : String} {t t' : UInt8} (inner : Writes f items) :
    Writes (Stats.field key (.enter t) >=> f >=> Stats.leave t') [.labelled key (.group t items t')] := by
  intro st _
  rw [deepest_singleton]
  simp only [Item.labelled, Item.group, ← List.append_assoc]
  exact Writes.bracket (Wrote.element (fieldKey key)).more inner

theorem Writes.entry (key : String) (arg : Arg) : Writes (Stats.field key (.value arg)) [.entry key arg] := by
  intro st _
  rw [deepest_singleton]
  have alone : listing 0 ([Item.value arg].map Item.text) = arg.text := by simp [listing, Item.value]
  have first : Wrote st _ [fieldKey key] := Wrote.element (fieldKey key)
  have ran := Writes.deeper first (Writes.val arg)
  rw [alone, deepest_singleton] at ran
  exact ran

theorem Writes.missing (key : String) : Writes (Stats.field key .null) [.missing key] := by
  intro st shallow
  rw [if_pos (by simpa [Item.missing] using shallow)]
  exact ⟨_, rfl, (Wrote.element _).more⟩

theorem Writes.each {α : Type} {f : α → Stats → Option Stats} {item : α → Item} {l : List α}
    (one : ∀ x ∈ l, Writes (f x) [item x]) : Writes (eachOf f l) (l.map item) := by
  induction l with
  | nil => exact .nothing
  | cons x l ih =>
      have rest := ih fun y mem => one y (List.mem_cons_of_mem x mem)
      exact (one x List.mem_cons_self).seq rest

end Rules
end Blktap.Tapdisk
