import Blktap.Tapdisk.IoGroups
import Mathlib.Data.List.Perm.Subperm

/-! # Runs of merging and splitting -/

namespace Blktap.Tapdisk.Optimize

structure Flow where
  mem : State
  prepared : Nat → Iocb
  held : List Nat
  inFlight : List Nat

inductive Step
  | prep (io : Nat) (iocb : Iocb)
  | submit (queue : List Nat) (submitted : Nat)
  | complete (events : List Event)

namespace Flow

def start (num : Nat) (iocbs : Nat → Iocb) : Flow where
  mem := State.init num iocbs
  prepared := iocbs
  held := []
  inFlight := []

def prep (f : Flow) (io : Nat) (iocb : Iocb) : Flow :=
  { f with mem := f.mem.setIocb io iocb, prepared := Function.update f.prepared io iocb }

def submit (f : Flow) (queue : List Nat) (submitted : Nat) : Option (Flow × List Nat) :=
  (f.mem.ioMerge queue).bind fun (s, merged) =>
    (s.ioExpandIocbs (merged.drop submitted)).map fun (s, cancelled) =>
      ({ f with mem := s, held := (f.held ++ queue).diff cancelled, inFlight := f.inFlight ++ merged.take submitted },
        cancelled)

def complete (f : Flow) (events : List Event) : Option (Flow × List Event) :=
  (f.mem.ioSplit events).map fun (s, reports) =>
    ({ f with
        mem := s
        held := f.held.diff (reports.map Event.obj)
        inFlight := f.inFlight.diff (events.map Event.obj) }, reports)

def Allowed (f : Flow) : Step → Prop
  | .prep io _ => io ∉ f.held
  | .submit queue _ => queue.Nodup ∧ ∀ io ∈ queue, io ∉ f.held ∧ (f.prepared io).Valid
  | .complete events => (events.map Event.obj).Subperm f.inFlight

def perform (f : Flow) : Step → Option Flow
  | .prep io iocb => some (f.prep io iocb)
  | .submit queue submitted => (f.submit queue submitted).map Prod.fst
  | .complete events => (f.complete events).map Prod.fst

end Flow

inductive Reached (num : Nat) (iocbs : Nat → Iocb) : Flow → Prop
  | start : Reached num iocbs (Flow.start num iocbs)
  | next {f f' : Flow} {step : Step} : Reached num iocbs f → f.Allowed step → f.perform step = some f' →
      Reached num iocbs f'

structure Sound (num : Nat) (f : Flow) (groups : List Group) : Prop where
  represents : Represents num f.prepared f.mem groups
  heads : (groups.map Group.head).Perm f.inFlight
  held : (groups.flatMap Group.iocbs).Perm f.held

variable {num : Nat} {f f' : Flow} {groups : List Group} {prepared : Nat → Iocb} {s : State}

theorem Represents.congr {prepared' : Nat → Iocb} {s' : State} (before : Represents num prepared s groups)
    (same : ∀ io ∈ groups.flatMap Group.iocbs, prepared' io = prepared io ∧ s'.iocbs io = s.iocbs io)
    (others : ∀ io, io ∉ groups.flatMap Group.iocbs → s'.iocbs io = prepared' io)
    (opios : s'.opios = s.opios) (size : s'.numOpios = s.numOpios) (free : s'.free = s.free) :
    Represents num prepared' s' groups := by
  have here : ∀ g ∈ groups, ∀ io ∈ g.iocbs, prepared' io = prepared io ∧ s'.iocbs io = s.iocbs io :=
    fun g member io inside => same io (List.mem_flatMap.2 ⟨g, member, inside⟩)
  apply Represents.mk
  · intro g member
    have holds := before.holds g member
    cases g with
    | single io =>
        obtain ⟨prepared_same, iocb_same⟩ := here _ member io (by simp [Group.iocbs])
        exact iocb_same.trans (holds.trans prepared_same.symm)
    | chain io op rest =>
        obtain ⟨listed, data, tail⟩ := holds
        refine ⟨listed.congr ?_ (fun p _ => by rw [opios]), ?_, by rw [opios, tail]⟩
        · intro p inside saved
          obtain ⟨prepared_same, iocb_same⟩ := here _ member p.1 (List.mem_map_of_mem inside)
          refine Saved.congr ?_ iocb_same (by rw [opios])
          constructor
          · rw [saved.buf, prepared_same]
          · rw [saved.nbytes, prepared_same]
          · rw [saved.data, prepared_same]
          · exact saved.iocb
          · rw [saved.fildes, prepared_same]
          · rw [saved.opcode, prepared_same]
          · rw [saved.offset, prepared_same]
        · rw [(here _ member io (by simp [Group.iocbs])).2, data]
  · intro g member
    have covers := before.covers g member
    have head := (here g member g.head (head_mem g)).2
    constructor
    · rw [head, covers.bytes]
      apply List.flatMap_congr
      intro io inside
      rw [(here g member io inside).1]
    · rw [head]
      exact covers.inside
  · exact before.nodup
  · intro io inside
    rw [(same io inside).1]
    exact before.valid io inside
  · exact others
  · rw [size, before.size]
  · rw [free]
    exact before.pool
  · rw [opios]
    exact before.zero

theorem Represents.prep {io : Nat} (before : Represents num prepared s groups) (iocb : Iocb)
    (outside : io ∉ groups.flatMap Group.iocbs) :
    Represents num (Function.update prepared io iocb) (s.setIocb io iocb) groups := by
  have away : ∀ other ∈ groups.flatMap Group.iocbs, other ≠ io := by
    rintro other inside rfl
    exact outside inside
  refine @Represents.congr num groups prepared s _ (s.setIocb io iocb) before ?_ ?_ rfl rfl rfl
  · intro other inside
    exact ⟨Function.update_of_ne (away other inside) _ _, Function.update_of_ne (away other inside) _ _⟩
  · intro other not_inside
    by_cases here : other = io
    · simp [here, State.setIocb]
    · rw [Function.update_of_ne here, ← before.others other not_inside]
      exact Function.update_of_ne here _ _

theorem Represents.enqueue {queue : List Nat} (before : Represents num prepared s groups) (nodup : queue.Nodup)
    (fresh : ∀ io ∈ queue, io ∉ groups.flatMap Group.iocbs ∧ (prepared io).Valid) :
    Represents num prepared s (queue.map Group.single ++ groups) := by
  have singles : (queue.map Group.single).flatMap Group.iocbs = queue := by
    simp [List.flatMap_map, Group.iocbs]
  have no_ops : (queue.map Group.single).flatMap Group.ops = [] := by
    simp [List.flatMap_map, Group.ops, Group.members]
  have same : ∀ io ∈ queue, s.iocbs io = prepared io := fun io member => before.others io (fresh io member).1
  apply Represents.mk
  · intro g member
    cases List.mem_append.1 member with
    | inl member =>
        obtain ⟨io, inside, rfl⟩ := List.mem_map.1 member
        exact same io inside
    | inr member => exact before.holds g member
  · intro g member
    cases List.mem_append.1 member with
    | inl member =>
        obtain ⟨io, inside, rfl⟩ := List.mem_map.1 member
        constructor
        · simp [Group.iocbs, same io inside]
        · rw [Group.head_single, same io inside]
          exact (fresh io inside).2.1
    | inr member => exact before.covers g member
  · rw [List.flatMap_append, singles, List.nodup_append']
    exact ⟨nodup, before.nodup, fun io member inside => (fresh io member).1 inside⟩
  · intro io member
    rw [List.flatMap_append, singles, List.mem_append] at member
    exact member.elim (fun member => (fresh io member).2) (before.valid io)
  · intro io outside
    rw [List.flatMap_append, List.mem_append, not_or] at outside
    exact before.others io outside.2
  · exact before.size
  · rw [List.flatMap_append, no_ops]
    exact before.pool
  · intro op outside
    rw [List.flatMap_append, List.mem_append, not_or] at outside
    exact before.zero op outside.2

theorem ioMerge_spec {queue : List Nat} (before : Represents num prepared s (queue.map Group.single ++ groups)) :
    ∃ s' new, s.ioMerge queue = some (s', new.map Group.head) ∧ Represents num prepared s' (new ++ groups) ∧
      new.flatMap Group.iocbs = queue := by
  cases queue with
  | nil => exact ⟨s, [], rfl, before, rfl⟩
  | cons first rest =>
      obtain ⟨s', queue, new, loop, after, rfl, all⟩ := mergeLoop_spec before
      exact ⟨s', new, loop, after, all⟩

theorem perm_diff {taken left all : List Nat} (parts : (taken ++ left).Perm all) : left.Perm (all.diff taken) := by
  have whole : (taken ++ all.diff taken).Perm all :=
    List.subperm_append_diff_self_of_count_le fun io _ => by
      rw [← parts.count_eq, List.count_append]
      exact Nat.le_add_right _ _
  exact (List.perm_append_left_iff taken).1 (parts.trans whole.symm)

theorem choose_groups {heads : List Nat} {inFlight : List Nat} (some_heads : heads.Subperm inFlight)
    (all : (groups.map Group.head).Perm inFlight) :
    ∃ done left : List Group, (done ++ left).Perm groups ∧ done.map Group.head = heads := by
  have whole : (heads ++ inFlight.diff heads).Perm inFlight :=
    List.subperm_append_diff_self_of_count_le fun io _ => some_heads.count_le io
  have related : List.Forall₂ (fun head g => head = Group.head g) (groups.map Group.head) groups := by
    rw [List.forall₂_map_left_iff]
    exact List.forall₂_same.2 fun _ _ => rfl
  obtain ⟨ordered, same, perm⟩ := List.perm_comp_forall₂ (whole.trans all.symm) related
  have names : ordered.map Group.head = heads ++ inFlight.diff heads := by
    rw [← List.forall₂_eq_eq_eq, List.forall₂_map_left_iff]
    exact same.flip.imp fun _ _ equal => equal.symm
  obtain ⟨done, left, rfl, first, -⟩ := List.map_eq_append_iff.1 names
  exact ⟨done, left, perm, first⟩

structure Completed (f : Flow) (events : List Event) (f' : Flow) (parts : List (List Event)) : Prop where
  done : f.complete events = some (f', parts.flatten)
  once : (parts.flatten.map Event.obj ++ f'.held).Perm f.held
  answers : List.Forall₂ (fun event part =>
    (f.mem.iocbs event.obj).bytes = part.flatMap (fun r => (f.prepared r.obj).bytes) ∧
    ∀ r ∈ part, r.res = (f.prepared r.obj).nbytes ↔ event.res = (f.mem.iocbs event.obj).nbytes) events parts

def pages (io : Nat) : Iocb where
  data := .user io
  opcode := 0
  fildes := 3
  buf := 4096 * BitVec.ofNat 64 io
  nbytes := 4096
  offset := 4096 * BitVec.ofNat 64 io

end Blktap.Tapdisk.Optimize
