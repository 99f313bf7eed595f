import Blktap.Lib.Run
import Blktap.Lock.DotLock
import Mathlib.Algebra.Order.Ring.Int

/-! # Runs of dot locks -/

set_option linter.unusedSectionVars false

namespace Blktap.Lock
open Lib

variable {κ : Type} [DecidableEq κ]

def Reply.isOk : Reply κ → Bool
  | .ok => true
  | _ => false

def Reply.lacksMemory : Reply κ → Bool
  | .noMemory => true
  | _ => false

namespace Files
variable {f f' : Files κ} {c d : κ} {l l' : Local κ} {reply : Reply κ} {eval : Eval} {left : List (Link κ)}

def Holds (f : Files κ) (c : κ) : Prop := ∃ i, f.guard = some i ∧ f.maker i = some c

def Free (f : Files κ) (own : Link κ) : Prop := ∀ n ∈ f.links, n ≠ own → n.2 = true ∧ own.2 = true

def PlaceAt (f : Files κ) (c : κ) (l : Local κ) : Pc κ → Prop
  | .idle | .drop true | .dropLink true => True
  | .create | .reopen => l.retstatus ≤ 0
  | .check i => l.retstatus ≤ 0 ∧ i < f.nextIno ∧ (f.maker i = some c → f.guard = some i)
  | .write i => l.retstatus ≤ 0 ∧ f.guard = some i ∧ f.maker i = some c
  | .link | .stat | .statLink _ | .unlinkX => l.retstatus ≤ 0 ∧ Holds f c
  | .undo | .stale | .breakLock | .drop false | .dropLink false => l.retstatus < 0
  | .own => Holds f c
  | .readOwn | .update => Holds f c ∧ Free f (c, l.readonly)
  | .scan .writer left => Holds f c ∧ ∀ n ∈ f.links, n ≠ (c, l.readonly) → n.2 = false → n ∈ left
  | .scan .reader left => Holds f c ∧ (∀ n ∈ f.links, n ≠ (c, l.readonly) → n.2 = true) ∧
      (l.readonly = false → ∀ n ∈ f.links, n ≠ (c, l.readonly) → n ∈ left)
  | .fill => Holds f c ∧ Free f (c, l.readonly) ∧ (c, l.readonly) ∈ f.links
  | .release => 0 ≤ l.retstatus → (c, l.readonly) ∈ f.links

def Place (f : Files κ) (c : κ) (l : Local κ) : Prop := PlaceAt f c l l.pc

structure Tidy (f : Files κ) : Prop where
  fresh : ∀ i, f.guard = some i → i < f.nextIno
  text : ∀ i d, f.text i = some d → f.maker i = some d ∧ i < f.nextIno
  links : ∀ m ∈ f.links, ∀ n ∈ f.links, m ≠ n → m.2 = true ∧ n.2 = true

structure Moves (f f' : Files κ) (c : κ) : Prop where
  guard : f'.guard = f.guard ∨ ∀ i, f.guard = some i → f.maker i = some c
  maker : ∀ i, i < f.nextIno → f'.maker i = f.maker i
  next : f.nextIno ≤ f'.nextIno
  links : f'.links = f.links ∨ Holds f c ∧ ∀ n ∈ f.links, n ∈ f'.links

theorem Moves.refl : Moves f f c := ⟨.inl rfl, fun _ _ => rfl, le_rfl, .inl rfl⟩

theorem Holds.unique (first : Holds f c) (second : Holds f d) : c = d := by
  obtain ⟨i, guard, maker⟩ := first
  obtain ⟨j, guard', maker'⟩ := second
  cases guard.symm.trans guard'
  exact Option.some.inj (maker.symm.trans maker')

theorem Moves.guard_eq (moves : Moves f f' c) (holds : Holds f d) (other : d ≠ c) : f'.guard = f.guard := by
  rcases moves.guard with same | mine
  · exact same
  · obtain ⟨i, guard, maker⟩ := holds
    exact absurd (Option.some.inj (maker.symm.trans (mine i guard))) other

theorem Moves.links_eq (moves : Moves f f' c) (holds : Holds f d) (other : d ≠ c) : f'.links = f.links := by
  rcases moves.links with same | ⟨mine, -⟩
  · exact same
  · exact absurd (holds.unique mine) other

theorem Holds.other (holds : Holds f d) (moves : Moves f f' c) (tidy : Tidy f) (other : d ≠ c) : Holds f' d := by
  have same := moves.guard_eq holds other
  obtain ⟨i, guard, maker⟩ := holds
  exact ⟨i, same.trans guard, (moves.maker i (tidy.fresh i guard)).trans maker⟩

theorem Moves.mem_links (moves : Moves f f' c) {n : Link κ} (member : n ∈ f.links) : n ∈ f'.links := by
  rcases moves.links with same | ⟨-, more⟩
  · exact same ▸ member
  · exact more n member

theorem Free.other {own : Link κ} (free : Free f own) (same : f'.links = f.links) : Free f' own := by
  unfold Free
  rwa [same]

theorem Place.other (place : Place f d l) (moves : Moves f f' c) (tidy : Tidy f) (other : d ≠ c) : Place f' d l := by
  unfold Place at place ⊢
  cases pc : l.pc with
  | idle | create | reopen | undo | stale | breakLock => rwa [pc] at place
  | drop again | dropLink again =>
      rw [pc] at place
      cases again <;> exact place
  | check i =>
      rw [pc] at place
      obtain ⟨negative, small, own⟩ := place
      refine ⟨negative, lt_of_lt_of_le small moves.next, fun maker => ?_⟩
      have maker' := (moves.maker i small).symm.trans maker
      exact (moves.guard_eq ⟨i, own maker', maker'⟩ other).trans (own maker')
  | write i =>
      rw [pc] at place
      obtain ⟨negative, guard, maker⟩ := place
      exact ⟨negative, (moves.guard_eq ⟨i, guard, maker⟩ other).trans guard,
        (moves.maker i (tidy.fresh i guard)).trans maker⟩
  | link | stat | statLink | unlinkX =>
      rw [pc] at place
      exact ⟨place.1, place.2.other moves tidy other⟩
  | own =>
      rw [pc] at place
      exact Holds.other place moves tidy other
  | readOwn | update =>
      rw [pc] at place
      exact ⟨place.1.other moves tidy other, place.2.other (moves.links_eq place.1 other)⟩
  | scan eval left =>
      rw [pc] at place
      cases eval with
      | writer =>
          obtain ⟨holds, writers⟩ := place
          refine ⟨holds.other moves tidy other, ?_⟩
          rwa [moves.links_eq holds other]
      | reader =>
          obtain ⟨holds, none, readers⟩ := place
          refine ⟨holds.other moves tidy other, ?_⟩
          rw [moves.links_eq holds other]
          exact ⟨none, readers⟩
  | fill =>
      rw [pc] at place
      obtain ⟨holds, free, member⟩ := place
      exact ⟨holds.other moves tidy other, free.other (moves.links_eq holds other), moves.mem_links member⟩
  | release =>
      rw [pc] at place
      exact fun positive => moves.mem_links (place positive)

theorem place_giveUp {error : Int} (negative : error < 0) : Place f c (l.giveUp error) :=
  fun positive => absurd positive (not_le.mpr negative)

theorem place_finish (negative : l.retstatus < 0) : Place f c l.finish := by
  have release : l.finish = l.goto .release := congrArg l.goto (if_neg (by omega))
  rw [release]
  exact fun positive => absurd positive (not_le.mpr negative)

theorem place_finish_holds (low : l.retstatus ≤ 0) (holds : Holds f c) : Place f c l.finish := by
  by_cases zero : l.retstatus = 0
  · have own : l.finish = l.goto .own := congrArg l.goto (if_pos zero)
    rw [own]
    exact holds
  · exact place_finish (by omega)

theorem place_tryAgain (negative : l.retstatus < 0) : Place f c l.tryAgain := by
  unfold Local.tryAgain
  split
  · simp only
    split
    · exact negative
    · exact place_finish negative
  · exact le_of_lt negative

theorem place_retry {eio : Bool} : Place f c (l.retry eio) := by
  unfold Local.retry
  split
  · exact place_finish (show lockExlockOpen < 0 by decide)
  · exact place_tryAgain (show lockExlockOpen < 0 by decide)

theorem place_linkOrFinish (low : l.retstatus ≤ 0) (holds : Holds f c) : Place f c l.linkOrFinish := by
  unfold Local.linkOrFinish
  simp only
  split
  · exact ⟨low, holds⟩
  · exact place_finish_holds low holds

theorem mem_due {own n : Link κ} (member : n ∈ f.links) (other : n ≠ own) : n ∈ f.due own :=
  List.mem_filter.mpr ⟨member, decide_eq_true other⟩

theorem place_passes {name : Link κ} (place : PlaceAt f c l (.scan eval left))
    (passes : counts eval l.readonly name = false) (inside : name ∈ f.links) (other : name ≠ (c, l.readonly)) :
    Place f c (l.goto (.scan eval (left.filter (· ≠ name)))) := by
  cases eval with
  | writer =>
      obtain ⟨holds, writers⟩ := place
      have reader : name.2 = true := by simpa [counts] using passes
      refine ⟨holds, fun n member others writer => List.mem_filter.mpr ⟨writers n member others writer, ?_⟩⟩
      refine decide_eq_true fun same => ?_
      rw [same, reader] at writer
      cases writer
  | reader =>
      obtain ⟨holds, none, readers⟩ := place
      refine ⟨holds, none, fun writes => ?_⟩
      have reads : l.readonly = true := by simpa [counts, none name inside other] using passes
      cases reads.symm.trans writes

theorem place_passed (place : PlaceAt f c l (.scan eval [])) : Place f c (f.passed c l eval) := by
  cases eval with
  | writer =>
      obtain ⟨holds, writers⟩ := place
      refine ⟨holds, fun n member other => ?_, fun _ n member other => mem_due member other⟩
      by_contra writer
      exact absurd (writers n member other (Bool.eq_false_of_not_eq_true writer)) List.not_mem_nil
  | reader =>
      obtain ⟨holds, none, readers⟩ := place
      refine ⟨holds, fun n member other => ⟨none n member other, ?_⟩⟩
      by_contra writes
      exact absurd (readers (Bool.eq_false_of_not_eq_true writes) n member other) List.not_mem_nil

theorem place_scanned (here : l.pc = .scan eval left) (place : Place f c l) (memory : reply.lacksMemory = false)
    (action : f.scanned c l eval left reply = some l') : Place f c l' := by
  have at_scan : PlaceAt f c l (.scan eval left) := here ▸ place
  unfold scanned at action
  split at action
  · rename_i name
    split at action
    · cases action
    · rename_i inside
      split at action
      · cases Option.some.inj action
        exact place
      · rename_i other
        split at action
        · cases Option.some.inj action
          refine place_giveUp ?_
          cases eval <;> decide
        · rename_i passes
          cases Option.some.inj action
          exact place_passes at_scan (Bool.eq_false_of_not_eq_true passes) (not_not.mp inside) other
  · cases Option.some.inj action
    refine place_giveUp ?_
    cases eval <;> decide
  · rename_i errno
    split at action
    · cases action
    · rename_i seen
      split at action
      · cases Option.some.inj action
        exact place_giveUp (by decide)
      · cases Option.some.inj action
        rw [not_not.mp seen] at at_scan
        exact place_passed at_scan
  · cases Option.some.inj action
    exact place_giveUp (by decide)
  · cases memory
  · cases action

/-- A caller removes no file `.xenlk` of another one, the two `lstat` of a call that has seen no error succeed, and
there is memory for the scans. -/
def Careful (f : Files κ) (c : κ) (l : Local κ) (reply : Reply κ) : Prop :=
  match l.pc with
  | .undo | .drop _ | .breakLock | .release => reply.isOk → ∀ i ∈ f.guard, f.maker i = some c
  | .stat => l.retstatus = 0 → reply.isOk ∧ f.guard ≠ none
  | .statLink _ => l.retstatus = 0 → reply.isOk ∧ f.xlink (c, l.readonly) ≠ none
  | .scan _ _ => reply.lacksMemory = false
  | _ => True

instance (f : Files κ) (c : κ) (l : Local κ) (reply : Reply κ) : Decidable (Careful f c l reply) := by
  unfold Careful
  split <;> infer_instance

theorem moves_unlinkGuard (careful : reply.isOk → ∀ i ∈ f.guard, f.maker i = some c) :
    Moves f (f.unlinkGuard reply) c := by
  cases reply with
  | ok => exact ⟨.inr fun i guard => careful rfl i guard, fun _ _ => rfl, le_rfl, .inl rfl⟩
  | _ => exact .refl

theorem Tidy.unlinkGuard (tidy : Tidy f) : Tidy (f.unlinkGuard reply) := by
  cases reply with
  | ok => exact ⟨fun i none => (nomatch none), tidy.text, tidy.links⟩
  | _ => exact tidy

theorem moves_unlinkXlink {name : Link κ} : Moves f (f.unlinkXlink name reply) c := by
  cases reply <;> exact ⟨.inl rfl, fun _ _ => rfl, le_rfl, .inl rfl⟩

theorem Tidy.unlinkXlink {name : Link κ} (tidy : Tidy f) : Tidy (f.unlinkXlink name reply) := by
  cases reply <;> exact ⟨tidy.fresh, tidy.text, tidy.links⟩

theorem Holds.unlinkXlink {name : Link κ} (holds : Holds f c) : Holds (f.unlinkXlink name reply) c := by
  cases reply <;> exact holds

structure Acts (f f' : Files κ) (c : κ) (l' : Local κ) : Prop where
  tidy : Tidy f'
  place : Place f' c l'
  moves : Moves f f' c

theorem Acts.same (tidy : Tidy f) (place : Place f c l) : Acts f f c l := ⟨tidy, place, .refl⟩

theorem acts_addGuard (tidy : Tidy f) (low : l.retstatus ≤ 0) (none : f.guard = none) :
    Acts f (f.addGuard c) c (l.goto (.write f.nextIno)) := by
  have maker : ∀ i, i < f.nextIno → (f.addGuard c).maker i = f.maker i :=
    fun i small => Function.update_of_ne (Nat.ne_of_lt small) _ _
  refine ⟨⟨fun i new => ?_, fun i d text => ?_, tidy.links⟩, ⟨low, rfl, Function.update_self ..⟩,
    ⟨.inr fun i guard => ?_, maker, Nat.le_succ _, .inl rfl⟩⟩
  · cases Option.some.inj new
    exact Nat.lt_succ_self _
  · obtain ⟨own, small⟩ := tidy.text i d text
    exact ⟨(maker i small).trans own, Nat.lt_succ_of_lt small⟩
  · cases none.symm.trans guard

theorem acts_write {i : Nat} (tidy : Tidy f) (low : l.retstatus ≤ 0) (guard : f.guard = some i)
    (maker : f.maker i = some c) : Acts f { f with text := Function.update f.text i (some c) } c l.linkOrFinish := by
  refine ⟨⟨tidy.fresh, fun j d text => ?_, tidy.links⟩, place_linkOrFinish low ⟨i, guard, maker⟩,
    ⟨.inl rfl, fun _ _ => rfl, le_rfl, .inl rfl⟩⟩
  by_cases same : j = i
  · subst same
    have own : (some c : Option κ) = some d := (Function.update_self j (some c) f.text).symm.trans text
    cases own
    exact ⟨maker, tidy.fresh j guard⟩
  · exact tidy.text j d ((Function.update_of_ne same (some c) f.text).symm.trans text)

theorem acts_addLink (tidy : Tidy f) (holds : Holds f c) (free : Free f (c, l.readonly)) :
    Acts f (f.addLink (c, l.readonly)) c (l.goto .fill) := by
  unfold addLink
  split
  · rename_i inside
    exact .same tidy ⟨holds, free, inside⟩
  · refine ⟨⟨tidy.fresh, tidy.text, fun m first n second other => ?_⟩, ⟨holds, fun n member other => ?_,
      List.mem_cons_self⟩, ⟨.inl rfl, fun _ _ => rfl, le_rfl, .inr ⟨holds, fun n member => List.mem_cons_of_mem _ member⟩⟩⟩
    · rcases List.mem_cons.mp first with rfl | old
      · rcases List.mem_cons.mp second with rfl | old'
        · exact absurd rfl other
        · exact (free n old' other.symm).symm
      · rcases List.mem_cons.mp second with rfl | old'
        · exact free m old other
        · exact tidy.links m old n old' other
    · exact free n ((List.mem_cons.mp member).resolve_left other) other

theorem acts_unlinkGuard (tidy : Tidy f) (careful : reply.isOk → ∀ i ∈ f.guard, f.maker i = some c)
    (place : Place (f.unlinkGuard reply) c l) : Acts f (f.unlinkGuard reply) c l :=
  ⟨tidy.unlinkGuard, place, moves_unlinkGuard careful⟩

theorem acts_unlinkXlink {name : Link κ} (tidy : Tidy f) (place : Place (f.unlinkXlink name reply) c l) :
    Acts f (f.unlinkXlink name reply) c l := ⟨tidy.unlinkXlink, place, moves_unlinkXlink⟩

theorem acts_addXlink {name : Link κ} (tidy : Tidy f) (low : l.retstatus ≤ 0) (holds : Holds f c) :
    Acts f (f.addXlink name) c (l.goto .stat) := by
  unfold addXlink
  split
  · exact ⟨⟨tidy.fresh, tidy.text, tidy.links⟩, ⟨low, holds⟩, ⟨.inl rfl, fun _ _ => rfl, le_rfl, .inl rfl⟩⟩
  · exact .same tidy ⟨low, holds⟩

theorem place_scan (holds : Holds f c) : Place f c (l.goto (.scan .writer (f.due (c, l.readonly)))) :=
  ⟨holds, fun _ member other _ => mem_due member other⟩

theorem Tidy.free {own : Link κ} (tidy : Tidy f) (inside : own ∈ f.links) : Free f own :=
  fun n member other => tidy.links n member own inside other

theorem acts_act (tidy : Tidy f) (place : Place f c l) (careful : Careful f c l reply)
    (action : f.act c l reply = some (f', l')) : Acts f f' c l' := by
  have at_pc := place
  unfold Place at at_pc
  unfold Careful at careful
  unfold act at action
  simp only at action
  cases here : l.pc with
  | idle =>
      rw [here] at action
      cases action
  | create =>
      rw [here] at action at_pc
      cases reply with
      | ok =>
          simp only at action
          split at action
          · cases Option.some.inj action
            exact acts_addGuard tidy at_pc ‹_›
          · cases Option.some.inj action
            exact .same tidy at_pc
      | fail eio =>
          cases Option.some.inj action
          refine .same tidy ?_
          split
          · exact place_finish (show lockExlockOpen < 0 by decide)
          · exact at_pc
      | _ => cases action
  | reopen =>
      rw [here] at action at_pc
      cases reply with
      | ok =>
          simp only at action
          split at action
          · rename_i ino guard
            cases Option.some.inj action
            exact .same tidy ⟨at_pc, tidy.fresh ino guard, fun _ => guard⟩
          · cases Option.some.inj action
            exact .same tidy place_retry
      | fail eio =>
          cases Option.some.inj action
          exact .same tidy place_retry
      | _ => cases action
  | check ino =>
      rw [here] at action at_pc
      obtain ⟨low, small, own⟩ := at_pc
      cases reply with
      | ok =>
          cases Option.some.inj action
          refine .same tidy ?_
          split
          · rename_i mine
            have maker := (tidy.text ino c mine).1
            exact ⟨low, own maker, maker⟩
          · exact place_retry
      | fail eio =>
          cases Option.some.inj action
          exact .same tidy place_retry
      | noMemory =>
          cases Option.some.inj action
          exact .same tidy (place_finish (show lockEnomem < 0 by decide))
      | _ => cases action
  | write ino =>
      rw [here] at action at_pc
      obtain ⟨low, guard, maker⟩ := at_pc
      cases reply with
      | ok =>
          cases Option.some.inj action
          exact acts_write tidy low guard maker
      | fail eio =>
          cases Option.some.inj action
          refine .same tidy ?_
          split
          · exact place_finish (show lockExlockWrite < 0 by decide)
          · exact (show lockExlockWrite < 0 by decide)
      | _ => cases action
  | undo =>
      rw [here] at action at_pc careful
      cases reply with
      | ok | fail =>
          cases Option.some.inj action
          exact acts_unlinkGuard tidy careful (place_tryAgain at_pc)
      | _ => cases action
  | link =>
      rw [here] at action at_pc
      cases reply with
      | ok =>
          cases Option.some.inj action
          exact acts_addXlink tidy at_pc.1 at_pc.2
      | fail eio =>
          cases Option.some.inj action
          exact .same tidy at_pc
      | _ => cases action
  | stat =>
      rw [here] at action at_pc careful
      obtain ⟨low, holds⟩ := at_pc
      cases reply with
      | ok =>
          cases Option.some.inj action
          refine .same tidy ?_
          split
          · exact ⟨low, holds⟩
          · rename_i none
            exact lt_of_le_of_ne low fun zero => (careful zero).2 none
      | fail eio =>
          cases Option.some.inj action
          exact .same tidy (lt_of_le_of_ne low fun zero => nomatch (careful zero).1)
      | _ => cases action
  | statLink ino =>
      rw [here] at action at_pc careful
      obtain ⟨low, holds⟩ := at_pc
      cases reply with
      | ok =>
          cases Option.some.inj action
          refine .same tidy ?_
          split
          · split
            · exact ⟨le_refl (0 : Int), holds⟩
            · trivial
          · rename_i none
            exact lt_of_le_of_ne low fun zero => (careful zero).2 none
      | fail eio =>
          cases Option.some.inj action
          exact .same tidy (lt_of_le_of_ne low fun zero => nomatch (careful zero).1)
      | _ => cases action
  | drop again =>
      rw [here] at action at_pc careful
      have next : Place (f.unlinkGuard reply) c (l.goto (.dropLink again)) := by
        cases again with
        | true => trivial
        | false => exact at_pc
      cases reply with
      | ok | fail =>
          cases Option.some.inj action
          exact acts_unlinkGuard tidy careful next
      | _ => cases action
  | dropLink again =>
      rw [here] at action at_pc
      have next : ∀ g : Files κ, Place g c (if again then (l.failed lockEinode).tryAgain else l.finish) := by
        intro g
        cases again with
        | true => exact place_tryAgain (show lockEinode < 0 by decide)
        | false => exact place_finish at_pc
      cases reply with
      | ok | fail =>
          cases Option.some.inj action
          exact acts_unlinkXlink tidy (next _)
      | _ => cases action
  | unlinkX =>
      rw [here] at action at_pc
      obtain ⟨low, holds⟩ := at_pc
      cases reply with
      | ok | fail =>
          cases Option.some.inj action
          exact acts_unlinkXlink tidy (place_finish_holds low holds.unlinkXlink)
      | _ => cases action
  | own =>
      rw [here] at action at_pc
      cases reply with
      | ok =>
          cases Option.some.inj action
          refine .same tidy ?_
          split
          · exact ⟨at_pc, tidy.free ‹_›⟩
          · exact place_scan at_pc
      | fail eio =>
          cases Option.some.inj action
          refine .same tidy ?_
          split
          · exact place_giveUp (by decide)
          · exact place_scan at_pc
      | _ => cases action
  | readOwn =>
      rw [here] at action at_pc
      cases reply with
      | ok =>
          cases Option.some.inj action
          exact .same tidy at_pc
      | fail eio =>
          cases Option.some.inj action
          refine .same tidy ?_
          split
          · exact place_giveUp (by decide)
          · exact at_pc
      | _ => cases action
  | scan eval left =>
      rw [here] at action careful
      obtain ⟨next, scan, same⟩ := Option.map_eq_some_iff.mp action
      cases same
      exact .same tidy (place_scanned here place careful scan)
  | update =>
      rw [here] at action at_pc
      cases reply with
      | ok =>
          cases Option.some.inj action
          exact acts_addLink tidy at_pc.1 at_pc.2
      | fail eio =>
          cases Option.some.inj action
          exact .same tidy (place_giveUp (by decide))
      | _ => cases action
  | fill =>
      rw [here] at action at_pc
      cases reply with
      | ok =>
          cases Option.some.inj action
          exact .same tidy fun _ => at_pc.2.2
      | fail eio =>
          cases Option.some.inj action
          exact .same tidy (place_tryAgain (show lockEupdate < 0 by decide))
      | _ => cases action
  | stale =>
      rw [here] at action at_pc
      cases reply with
      | expired old =>
          cases Option.some.inj action
          refine .same tidy ?_
          split
          · exact at_pc
          · exact place_finish at_pc
      | fail eio =>
          cases Option.some.inj action
          exact .same tidy (place_finish at_pc)
      | _ => cases action
  | breakLock =>
      rw [here] at action at_pc careful
      cases reply with
      | ok | fail =>
          cases Option.some.inj action
          exact acts_unlinkGuard tidy careful (place_tryAgain at_pc)
      | _ => cases action
  | release =>
      rw [here] at action careful
      cases reply with
      | ok | fail =>
          cases Option.some.inj action
          exact acts_unlinkGuard tidy careful trivial
      | _ => cases action

end Files
namespace Dir
open Files
variable {s t : Dir κ} {c d : κ} {l : Local κ} {reply : Reply κ} {readonly memory : Bool}

def Exclusive (s : Dir κ) : Prop := ∀ c d, c ≠ d → s.held c = some false → s.held d = none

def Meets (s : Dir κ) : Event κ → Prop
  | .run c reply => Careful s.files c (s.call c) reply
  | _ => True

instance (s : Dir κ) (e : Event κ) : Decidable (Meets s e) :=
  match e with
  | .run c reply => inferInstanceAs (Decidable (Careful s.files c (s.call c) reply))
  | .call .. | .unlock .. => .isTrue trivial

structure Good (s : Dir κ) : Prop where
  tidy : Tidy s.files
  place : ∀ c, Place s.files c (s.call c)
  held : ∀ c readonly, s.held c = some readonly → (c, readonly) ∈ s.files.links

theorem Good.exclusive (good : Good s) : s.Exclusive := by
  intro c d other writer
  by_contra some
  obtain ⟨readonly, lock⟩ := Option.ne_none_iff_exists'.mp some
  have apart : ((c, false) : Link κ) ≠ (d, readonly) := fun same => other (congrArg Prod.fst same)
  have goes := good.tidy.links _ (good.held c false writer) _ (good.held d readonly lock) apart
  cases goes.1

theorem Good.call (good : Good s) : Good (s.setCall c (.begin readonly memory)) := by
  refine ⟨good.tidy, fun d => ?_, good.held⟩
  change Place s.files d (Function.update s.call c _ d)
  by_cases same : d = c
  · rw [same, Function.update_self]
    unfold Local.begin
    simp only
    split
    · exact le_refl (0 : Int)
    · exact place_finish (show lockEnomem < 0 by decide)
  · rw [Function.update_of_ne same]
    exact good.place d

theorem place_forget {name : Link κ} {f : Files κ} (place : Place f d l) (other : d ≠ name.1) :
    Place { f with links := f.links.filter (· ≠ name) } d (l.forget name) := by
  have old : ∀ n ∈ f.links.filter (· ≠ name), n ∈ f.links ∧ n ≠ name :=
    fun n member => ⟨(List.mem_filter.mp member).1, of_decide_eq_true (List.mem_filter.mp member).2⟩
  have kept : ∀ readonly, (d, readonly) ∈ f.links → (d, readonly) ∈ f.links.filter (· ≠ name) := by
    refine fun readonly member => List.mem_filter.mpr ⟨member, decide_eq_true fun same => ?_⟩
    exact other (congrArg Prod.fst same)
  unfold Place at place ⊢
  unfold Local.forget
  cases here : l.pc with
  | idle | create | reopen | check | write | undo | link | stat | statLink | unlinkX | own | stale | breakLock =>
      rw [here] at place
      simp only [here]
      exact place
  | drop again | dropLink again =>
      rw [here] at place
      simp only [here]
      cases again <;> exact place
  | readOwn | update =>
      rw [here] at place
      simp only [here]
      exact ⟨place.1, fun n member => place.2 n (old n member).1⟩
  | scan eval left =>
      rw [here] at place
      simp only
      cases eval with
      | writer =>
          obtain ⟨holds, writers⟩ := place
          refine ⟨holds, fun n member other' writer => List.mem_filter.mpr ⟨?_, decide_eq_true (old n member).2⟩⟩
          exact writers n (old n member).1 other' writer
      | reader =>
          obtain ⟨holds, none, readers⟩ := place
          refine ⟨holds, fun n member => none n (old n member).1, fun writes n member other' => ?_⟩
          exact List.mem_filter.mpr ⟨readers writes n (old n member).1 other', decide_eq_true (old n member).2⟩
  | fill =>
      rw [here] at place
      simp only [here]
      exact ⟨place.1, fun n member => place.2.1 n (old n member).1, kept _ place.2.2⟩
  | release =>
      rw [here] at place
      simp only [here]
      exact fun positive => kept _ (place positive)

theorem Good.unlock (good : Good s) (idle : (s.call c).pc = .idle) :
    Good ((s.removeLink (c, readonly)).setHeld c (if s.held c = some readonly then none else s.held c)) := by
  refine ⟨⟨good.tidy.fresh, good.tidy.text, fun m first n second other => ?_⟩, fun d => ?_, fun d kind lock => ?_⟩
  · exact good.tidy.links m (List.mem_filter.mp first).1 n (List.mem_filter.mp second).1 other
  · change Place _ d ((s.call d).forget (c, readonly))
    by_cases same : d = c
    · have forgotten : (s.call d).forget (c, readonly) = s.call d := by
        unfold Local.forget
        rw [same, idle]
      rw [forgotten, same]
      unfold Place
      rw [idle]
      trivial
    · exact place_forget (good.place d) same
  · change Function.update s.held c _ d = some kind at lock
    change (d, kind) ∈ s.files.links.filter (· ≠ (c, readonly))
    by_cases same : d = c
    · subst same
      rw [Function.update_self] at lock
      split at lock
      · cases lock
      · rename_i other
        refine List.mem_filter.mpr ⟨good.held d kind lock, decide_eq_true fun equal => other ?_⟩
        rw [lock, (Prod.mk.inj equal).2]
    · rw [Function.update_of_ne same] at lock
      exact List.mem_filter.mpr ⟨good.held d kind lock, decide_eq_true fun equal => same (congrArg Prod.fst equal)⟩

theorem Good.run {files : Files κ} (good : Good s) (careful : Careful s.files c (s.call c) reply)
    (action : s.files.act c (s.call c) reply = some (files, l)) :
    Good (({ s with files }.setCall c l).returned c (s.call c)) := by
  have acts := acts_act good.tidy (good.place c) careful action
  have place : ∀ d, Place files d (Function.update s.call c l d) := by
    intro d
    by_cases same : d = c
    · rw [same, Function.update_self]
      exact acts.place
    · rw [Function.update_of_ne same]
      exact (good.place d).other acts.moves good.tidy same
  have held : ∀ d kind, s.held d = some kind → (d, kind) ∈ files.links :=
    fun d kind lock => acts.moves.mem_links (good.held d kind lock)
  unfold returned
  split
  · rename_i released
    refine ⟨acts.tidy, place, fun d kind lock => ?_⟩
    change Function.update s.held c _ d = some kind at lock
    by_cases same : d = c
    · subst same
      rw [Function.update_self] at lock
      split at lock
      · rename_i positive
        cases Option.some.inj lock
        have known := good.place d
        unfold Place at known
        rw [released] at known
        exact acts.moves.mem_links (known positive)
      · cases lock
    · rw [Function.update_of_ne same] at lock
      exact held d kind lock
  · exact ⟨acts.tidy, place, held⟩

theorem Good.step {e : Event κ} (good : Good s) (meets : Meets s e) (action : step s e = some t) : Good t := by
  cases e with
  | call c readonly memory =>
      simp only [Dir.step] at action
      split at action
      · cases Option.some.inj action
        exact good.call
      · cases action
  | unlock c readonly ok =>
      simp only [Dir.step] at action
      split at action
      · split at action
        · cases Option.some.inj action
          exact good.unlock ‹_›
        · cases Option.some.inj action
          exact good
      · cases action
  | run c reply =>
      obtain ⟨⟨files, l⟩, act, rfl⟩ := Option.map_eq_some_iff.mp action
      exact good.run meets act

theorem good_init : Good (init : Dir κ) :=
  ⟨⟨fun _ none => (nomatch none), fun _ _ none => (nomatch none), fun _ member => (nomatch member)⟩, fun _ => trivial,
    fun _ _ none => (nomatch none)⟩

def stays (c : Nat) : List (Event Nat) := [.ok, .ok, .ok].map (.run c)

end Dir
end Blktap.Lock
