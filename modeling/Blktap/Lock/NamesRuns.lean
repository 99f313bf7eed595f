import Mathlib.Algebra.Order.BigOperators.Group.List
import Mathlib.Algebra.Order.Ring.Nat
import Blktap.Lib.Run
import Blktap.Lock.Names

/-! # A lock touches its own files -/

namespace Blktap.Lock.Names

open Lib

def Pc.left : Pc → List Name
  | .scan _ left _ => left
  | _ => []

namespace Local

@[simp] theorem skipScan_left (l : Local) : l.skipScan.pc.left = [] := by
  simp only [skipScan, goto]
  split <;> rfl

@[simp] theorem finish_left (l : Local) : l.finish.pc.left = [] := by
  simp only [finish]
  split
  · rfl
  · simp

@[simp] theorem tryAgain_left (l : Local) : l.tryAgain.pc.left = [] := by
  simp only [tryAgain, goto]
  split
  · split
    · rfl
    · simp
  · rfl

@[simp] theorem forceLock_left (l : Local) (force : Bool) (errno : Nat) : (l.forceLock force errno).pc.left = [] := by
  simp only [forceLock]
  split
  · simp
  · split
    · rfl
    · simp

@[simp] theorem linkOrFinish_left (l : Local) : l.linkOrFinish.pc.left = [] := by
  simp only [linkOrFinish, goto]
  split
  · rfl
  · simp

@[simp] theorem giveUp_left (l : Local) (retstatus status : Int) : (l.giveUp retstatus status).pc.left = [] := by
  simp [giveUp]

@[simp] theorem passed_left (l : Local) (eval : Eval) : (l.passed eval).pc.left = [] := by
  cases eval
  · rfl
  · simp [passed]

@[simp] theorem held_left (l : Local) (eval : Eval) : (l.held eval).pc.left = [] := by
  simp [held]

@[simp] theorem goto_left (l : Local) (pc : Pc) : (l.goto pc).pc.left = pc.left := rfl

end Local

variable {fn name d : Name} {s t w : State}

theorem Alone.own {dir : List Name} (alone : Alone fn dir) (member : name ∈ dir) (begins : fn <+: name)
    (different : name ≠ fn) : Own fn name :=
  (alone name member begins).resolve_left different

structure Within (fn : Name) (s t : State) : Prop where
  caller : t.caller = s.caller
  touched : ∀ touch ∈ t.touched, touch ∈ s.touched ∨ Own fn touch.name
  dir : ∀ name, ¬ Own fn name → (name ∈ t.dir ↔ name ∈ s.dir)

namespace Within

theorem refl (s : State) : Within fn s s := ⟨rfl, fun _ member => .inl member, fun _ _ => .rfl⟩

theorem trans (first : Within fn s t) (second : Within fn t w) : Within fn s w where
  caller := second.caller.trans first.caller
  touched touch member := (second.touched touch member).elim (first.touched touch) .inr
  dir name foreign := (second.dir name foreign).trans (first.dir name foreign)

theorem setLocal (inside : Within fn s t) (l : Local) : Within fn s (t.setLocal l) :=
  ⟨inside.caller, inside.touched, inside.dir⟩

theorem touch (inside : Within fn s t) (touch : Touch) (own : Own fn touch.name) : Within fn s (t.touch touch) where
  caller := inside.caller
  touched other member := by
    rcases List.mem_cons.mp member with rfl | old
    · exact .inr own
    · exact inside.touched other old
  dir := inside.dir

theorem make (inside : Within fn s t) (own : Own fn name) : Within fn s (t.make name) where
  caller := inside.caller
  touched := (inside.touch (.create name) own).touched
  dir other foreign := by
    have different : other ≠ name := by
      rintro rfl
      exact foreign own
    rw [← inside.dir other foreign]
    simp only [State.make]
    split
    · rfl
    · simp [different]

theorem unlink (inside : Within fn s t) (own : Own fn name) (removed : Bool) : Within fn s (t.unlink name removed) where
  caller := inside.caller
  touched := (inside.touch (.remove name) own).touched
  dir other foreign := by
    have different : other ≠ name := by
      rintro rfl
      exact foreign own
    rw [← inside.dir other foreign]
    cases removed <;> simp [State.unlink, different]

theorem unlinkOwn {reply : Reply} (own : Own fn name) (action : s.unlinkOwn name reply = some t) : Within fn s t := by
  cases reply <;> simp only [State.unlinkOwn, reduceCtorEq] at action
  · split at action
    · cases action
      exact (refl s).unlink own true
    · cases action
  · cases action
    exact (refl s).unlink own false

theorem alone (inside : Within fn s t) (alone : Alone fn s.dir) : Alone fn t.dir := by
  intro name member begins
  by_cases own : Own fn name
  · exact .inr own
  · exact alone name ((inside.dir name own).mp member) begins

end Within

theorem Caller.own_lockfn (c : Caller) : Own c.fn c.lockfn := .lockfn

theorem Caller.own_xlink (c : Caller) : Own c.fn c.xlink := .link ..

theorem Caller.own_flink (c : Caller) : Own c.fn c.flink := .link ..

theorem Caller.counts_iff {c : Caller} :
    c.counts name = true ↔ name ≠ c.fn ∧ name ≠ c.lockfn ∧ name ≠ c.flink ∧ c.fn <+: name := by
  simp [Caller.counts, and_assoc]

def Calm (s t : State) : Prop := Within s.caller.fn s t ∧ t.l.pc.left = []

theorem Calm.setLocal {l : Local} (calm : l.pc.left = []) : Calm s (s.setLocal l) :=
  ⟨(Within.refl s).setLocal l, calm⟩

theorem Calm.unlinked {reply : Reply} {next : State → Local} (own : Own s.caller.fn name)
    (calm : ∀ t : State, (next t).pc.left = [])
    (action : ((s.unlinkOwn name reply).map fun t => t.setLocal (next t)) = some t) : Calm s t := by
  obtain ⟨u, removed, rfl⟩ := Option.map_eq_some_iff.mp action
  exact ⟨(Within.unlinkOwn own removed).setLocal _, calm u⟩

theorem takes_calm {pc : Pc} {reply : Reply} (action : s.takes pc reply = some t) : Calm s t := by
  have inside : Within s.caller.fn s s := .refl s
  unfold State.takes at action
  split at action
  · split at action
    · cases action
    · cases action
      exact ⟨(inside.make s.caller.own_lockfn).setLocal _, rfl⟩
  · cases action
    apply Calm.setLocal
    split
    · simp
    · rfl
  · split at action
    · cases action
      exact .setLocal rfl
    · cases action
  · cases action
    exact .setLocal (by simp)
  · cases action
    exact .setLocal (by simp)
  · cases action
    exact ⟨(inside.touch (.read _) s.caller.own_lockfn).setLocal _, by simp [State.setLocal]⟩
  · cases action
    refine ⟨(inside.touch (.read _) s.caller.own_lockfn).setLocal _, ?_⟩
    simp only [State.setLocal]
    split
    · rfl
    · simp
  · cases action
    exact .setLocal rfl
  · cases action
    exact .setLocal (by simp)
  · refine .unlinked s.caller.own_lockfn (fun u => ?_) action
    split
    · split <;> simp
    · simp
  · cases action
    exact .setLocal (by simp)
  · cases action
    apply Calm.setLocal
    split
    · simp
    · rfl
  · exact .unlinked s.caller.own_lockfn (fun u => by simp) action
  · split at action
    · cases action
      exact ⟨(inside.make s.caller.own_xlink).setLocal _, rfl⟩
    · cases action
  · cases action
    exact .setLocal rfl
  · split at action
    · cases action
      exact .setLocal rfl
    · cases action
  · split at action
    · cases action
      exact .setLocal rfl
    · cases action
  · cases action
    exact .setLocal rfl
  · exact .unlinked s.caller.own_lockfn (fun u => rfl) action
  · refine .unlinked s.caller.own_xlink (fun u => ?_) action
    split <;> simp
  · exact .unlinked s.caller.own_xlink (fun u => by simp) action
  · cases action

theorem breaks_calm {pc : Pc} {reply : Reply} (action : s.breaks pc reply = some t) : Calm s t := by
  unfold State.breaks at action
  split at action
  · split at action
    · cases action
      exact .setLocal rfl
    · cases action
  · cases action
    exact .setLocal (by simp)
  · cases action
    exact ⟨((Within.refl s).make (.clock _)).setLocal _, rfl⟩
  · cases action
    exact .setLocal (by simp)
  · cases action
    exact .setLocal (by simp)
  · cases action
    exact .setLocal rfl
  · cases action
    exact .setLocal rfl
  · refine .unlinked (.clock _) (fun u => ?_) action
    split
    · split
      · rfl
      · simp
    · simp
  · exact .unlinked s.caller.own_lockfn (fun u => by simp) action
  · cases action

structure Good (fn : Name) (s : State) : Prop where
  caller : s.caller.fn = fn
  dir : Alone fn s.dir
  left : Alone fn s.l.pc.left
  touched : ∀ touch ∈ s.touched, Own fn touch.name

def Scans (s t : State) : Prop := Within s.caller.fn s t ∧ ∀ name ∈ t.l.pc.left, name ∈ s.dir ∨ name ∈ s.l.pc.left

theorem Calm.scans (calm : Calm s t) : Scans s t := ⟨calm.1, by simp [calm.2]⟩

theorem holder_scans {eval : Eval} {left : List Name} {established removed : Bool} {text : Except Nat Name}
    (own : Own s.caller.fn name) (rest : ∀ other ∈ left, other ∈ s.dir ∨ other ∈ s.l.pc.left) :
    Scans s (s.holder eval name left established text removed) := by
  have seen : Within s.caller.fn s (if established then s else s.touch (.read name)) := by
    split
    · exact .refl s
    · exact (Within.refl s).touch (.read name) own
  have caller := seen.caller
  unfold State.holder
  generalize (if established then s else s.touch (.read name)) = u at seen caller
  dsimp only
  split
  · exact ⟨seen.setLocal _, by simp [State.setLocal]⟩
  · split
    · exact ⟨(seen.unlink own removed).setLocal _, rest⟩
    · split
      · exact ⟨(seen.touch (.blocked name) own).setLocal _, by simp [State.setLocal]⟩
      · exact ⟨seen.setLocal _, rest⟩

theorem scanned_scans {eval : Eval} {left : List Name} {established : Bool} {reply : Reply}
    (pc : s.l.pc = .scan eval left established) (alone : Alone s.caller.fn left)
    (action : s.scanned eval left established reply = some t) : Scans s t := by
  unfold State.scanned at action
  split at action
  · split at action
    · cases action
    next name left =>
    have rest : ∀ other ∈ left, other ∈ s.dir ∨ other ∈ s.l.pc.left := by
      intro other member
      simp [pc, Pc.left, member]
    split at action
    next counted =>
      cases action
      obtain ⟨different, _, _, begins⟩ := Caller.counts_iff.mp counted
      exact holder_scans (alone.own (by simp) begins different) rest
    · cases action
      exact ⟨(Within.refl s).setLocal _, rest⟩
  · split at action
    · cases action
      apply Calm.scans
      apply Calm.setLocal
      split <;> simp
    · cases action
  · cases action

theorem opened_scans {eval : Eval} {reply : Reply} (action : s.opened eval reply = some t) : Scans s t := by
  unfold State.opened at action
  split at action
  · cases action
    exact Calm.scans (.setLocal (by simp))
  · cases action
    exact Calm.scans (.setLocal (by simp))
  · cases action
    split
    · exact Calm.scans (.setLocal (by simp))
    · exact ⟨(Within.refl s).setLocal _, fun name member => .inl member⟩
  · cases action

theorem keeps_scans {pc : Pc} {reply : Reply} (current : s.l.pc = pc) (alone : Alone s.caller.fn pc.left)
    (action : s.keeps pc reply = some t) : Scans s t := by
  have inside : Within s.caller.fn s s := .refl s
  unfold State.keeps at action
  split at action
  · split at action
    · cases action
      exact Calm.scans (.setLocal rfl)
    · cases action
  · cases action
    apply Calm.scans
    apply Calm.setLocal
    split
    · simp
    · rfl
  · cases action
    exact Calm.scans ⟨(inside.touch (.read _) s.caller.own_flink).setLocal _, by simp [State.setLocal]⟩
  · cases action
    refine Calm.scans ⟨(inside.touch (.read _) s.caller.own_flink).setLocal _, ?_⟩
    simp only [State.setLocal]
    split <;> simp
  · exact opened_scans action
  · exact scanned_scans current alone action
  · cases action
    exact Calm.scans ⟨(inside.make s.caller.own_flink).setLocal _, rfl⟩
  · cases action
    exact Calm.scans (.setLocal rfl)
  · cases action
    exact Calm.scans (.setLocal rfl)
  · cases action
    exact Calm.scans (.setLocal (by simp))
  · exact Calm.scans (.unlinked s.caller.own_lockfn (fun u => rfl) action)
  · cases action

theorem run_scans {reply : Reply} (alone : Alone s.caller.fn s.l.pc.left)
    (action : s.step (.run reply) = some t) : Scans s t := by
  simp only [State.step] at action
  split at action
  iterate 5 exact (breaks_calm action).scans
  iterate 7 exact keeps_scans rfl alone action
  exact (takes_calm action).scans

def Meets (s : State) : Event → Prop
  | .run _ => True
  | .others dir => Alone s.caller.fn dir

theorem Good.step {e : Event} (good : Good fn s) (others : Meets s e) (action : s.step e = some t) : Good fn t := by
  obtain ⟨rfl, dir, left, touched⟩ := good
  cases e with
  | others entries =>
      cases action
      exact ⟨rfl, others, left, touched⟩
  | run reply =>
      obtain ⟨inside, seen⟩ := run_scans left action
      refine ⟨congrArg Caller.fn inside.caller, inside.alone dir, fun name member begins => ?_, fun touch member => ?_⟩
      · rcases seen name member with found | old
        · exact dir name found begins
        · exact left name old begins
      · exact (inside.touched touch member).elim (touched touch) id

end Blktap.Lock.Names
