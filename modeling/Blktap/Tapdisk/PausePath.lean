import Blktap.Tapdisk.Pause
import Blktap.Lib.Run
import Mathlib.Algebra.BigOperators.Group.List.Basic

/-! # Requests on their way through a VBD -/

namespace Blktap.Tapdisk.Pause
open Lib Vbd

def total (s : Vbd) (id : Nat) : Nat :=
  (s.queue .new).count id + (s.queue .pending).count id + (s.queue .failed).count id + (s.queue .completed).count id

structure Tracks (s : Vbd) (id r : Nat) : Prop where
  sum : (s.vreq id).secsPending = (s.flights id).sum + r
  positive : ∀ n ∈ s.flights id, 0 < n
  pending : s.flights id ≠ [] ∨ 0 < r → id ∈ s.queue .pending
  once : total s id ≤ 1

structure Working (s : Vbd) (id r : Nat) : Prop where
  here : Tracks s id r
  others : ∀ j, j ≠ id → Tracks s j 0

structure Frame (s t : Vbd) : Prop where
  paused : t.paused = s.paused
  snap : t.snap = s.snap
  resumes : t.resumes = s.resumes
  freed : t.freed = s.freed
  requested : t.pauseRequested = s.pauseRequested ∧ t.shutdownRequested = s.shutdownRequested

def Sane (s : Vbd) : Prop := ∀ id, Tracks s id 0

section Path
variable {s t u : Vbd} {id r secs : Nat} {now : Int} {dest : Queue} {parts : List Part}

theorem Frame.refl (s : Vbd) : Frame s s := ⟨rfl, rfl, rfl, rfl, rfl, rfl⟩

theorem Frame.trans (first : Frame s t) (second : Frame t u) : Frame s u where
  paused := second.paused.trans first.paused
  snap := second.snap.trans first.snap
  resumes := second.resumes.trans first.resumes
  freed := second.freed.trans first.freed
  requested := ⟨second.requested.1.trans first.requested.1, second.requested.2.trans first.requested.2⟩

theorem Sane.working (sane : Sane s) (id : Nat) : Working s id 0 := ⟨sane id, fun j _ => sane j⟩

theorem Working.sane (working : Working s id 0) : Sane s := by
  intro j
  by_cases same : j = id
  · rw [same]
    exact working.here
  · exact working.others j same

theorem Tracks.like (tracks : Tracks s id r) (vreq : (t.vreq id).secsPending = (s.vreq id).secsPending)
    (flights : t.flights id = s.flights id) (queue : t.queue = s.queue) : Tracks t id r where
  sum := by rw [vreq, flights, tracks.sum]
  positive := by rw [flights]; exact tracks.positive
  pending := by rw [flights, queue]; exact tracks.pending
  once := by
    have once := tracks.once
    unfold total at once ⊢
    rwa [queue]

theorem Working.like (working : Working s id r) (vreq : ∀ j, (t.vreq j).secsPending = (s.vreq j).secsPending)
    (flights : t.flights = s.flights) (queue : t.queue = s.queue) : Working t id r :=
  ⟨working.here.like (vreq id) (congrFun flights id) queue,
    fun j other => (working.others j other).like (vreq j) (congrFun flights j) queue⟩

theorem Working.setVreq {v : Vreq} (working : Working s id r) (same : v.secsPending = (s.vreq id).secsPending) :
    Working (s.setVreq id v) id r := by
  refine working.like (fun j => ?_) rfl rfl
  by_cases here : j = id
  · simp [Vbd.setVreq, here, same]
  · simp [Vbd.setVreq, here]

theorem holder_mem {q : Queue} (held : s.holder id = some q) : id ∈ s.queue q := by
  simpa using List.find?_some held

theorem move_queue (moved : s.moveRequest id dest = some t) :
    (∃ q, id ∈ s.queue q ∧ t.queue = Function.update (Function.update s.queue q ((s.queue q).erase id)) dest
      (Function.update s.queue q ((s.queue q).erase id) dest ++ [id])) ∧
      t.vreq = Function.update s.vreq id { s.vreq id with listHead := some dest } ∧ t.flights = s.flights ∧
      Frame s t := by
  obtain ⟨q, held, rest⟩ := Option.bind_eq_some_iff.mp moved
  split at rest
  · cases rest
  · cases rest
    exact ⟨⟨q, holder_mem held, rfl⟩, rfl, rfl, ⟨rfl, rfl, rfl, rfl, rfl, rfl⟩⟩

theorem move_count {j : Nat} (moved : s.moveRequest id dest = some t) : total t j = total s j := by
  obtain ⟨⟨q, member, queue⟩, -⟩ := move_queue moved
  have some := List.count_pos_iff.mpr member
  by_cases same : j = id
  · subst same
    unfold total
    rw [queue]
    cases q <;> cases dest <;> simp [Function.update, List.count_append] <;> omega
  · unfold total
    rw [queue]
    cases q <;> cases dest <;>
      simp [Function.update, List.count_append, List.count_erase_of_ne same, Ne.symm same]

theorem move_mem {j : Nat} {q : Queue} (moved : s.moveRequest id dest = some t) (other : j ≠ id) :
    j ∈ t.queue q ↔ j ∈ s.queue q := by
  obtain ⟨⟨p, -, queue⟩, -⟩ := move_queue moved
  rw [queue]
  by_cases last : q = dest
  · subst last
    by_cases first : q = p
    · subst first
      simp [other, List.mem_erase_of_ne other]
    · simp [first, other]
  · by_cases first : q = p
    · subst first
      simp [last, List.mem_erase_of_ne other]
    · simp [last, first]

theorem move_dest (moved : s.moveRequest id dest = some t) : id ∈ t.queue dest := by
  obtain ⟨⟨p, -, queue⟩, -⟩ := move_queue moved
  simp [queue]

theorem Working.move (working : Working s id r) (moved : s.moveRequest id dest = some t)
    (free : dest = .pending ∨ (s.vreq id).secsPending = 0) : Working t id r := by
  obtain ⟨-, vreq, flights, -⟩ := move_queue moved
  constructor
  · have here := working.here
    refine ⟨?_, ?_, ?_, ?_⟩
    · rw [vreq, Function.update_self, flights]
      exact here.sum
    · rw [flights]
      exact here.positive
    · intro waits
      rcases free with rfl | none
      · exact move_dest moved
      · rw [flights] at waits
        have sum := here.sum
        have zero : (s.flights id).sum = 0 ∧ r = 0 := by omega
        have empty : s.flights id = [] := by
          apply List.eq_nil_iff_forall_not_mem.mpr
          intro n member
          exact absurd (List.sum_eq_zero_iff_forall_eq_nat.mp zero.1 n member) (Nat.ne_of_gt (here.positive n member))
        exact absurd waits (by simp [empty, zero.2])
    · rw [move_count moved]
      exact here.once
  · intro j other
    have there := working.others j other
    refine ⟨?_, ?_, ?_, ?_⟩
    · rw [vreq, Function.update_of_ne other, flights]
      exact there.sum
    · rw [flights]
      exact there.positive
    · rw [flights, move_mem moved other]
      exact there.pending
    · rw [move_count moved]
      exact there.once

theorem Working.complete (working : Working s id r) (ran : s.completeVbdRequest id now = some t) :
    Working t id r ∧ Frame s t := by
  unfold completeVbdRequest at ran
  simp only at ran
  split at ran
  · next done => exact ⟨working.move ran (.inr done.2), (move_queue ran).2.2.2⟩
  · cases ran
    exact ⟨working, .refl s⟩

theorem Working.completeTreq {res : Int} (working : Working s id (secs + r))
    (ran : s.completeTreq id secs res now = some t) : Working t id r ∧ Frame s t := by
  unfold Vbd.completeTreq at ran
  have sum := working.here.sum
  have next : Working (s.setVreq id { s.vreq id with
      secsPending := (s.vreq id).secsPending - secs
      error := if (s.vreq id).error ≠ 0 then (s.vreq id).error else if res ≤ 0 then res else -res }) id r := by
    constructor
    · refine ⟨?_, working.here.positive, ?_, working.here.once⟩
      · simp only [Vbd.setVreq, Function.update_self]
        omega
      · intro waits
        exact working.here.pending (waits.imp_right fun positive => by omega)
    · intro j other
      refine (working.others j other).like ?_ rfl rfl
      simp [Vbd.setVreq, other]
  obtain ⟨done, frame⟩ := next.complete ran
  exact ⟨done, frame.paused, frame.snap, frame.resumes, frame.freed, frame.requested⟩

theorem failover_same (ran : s.failover = some t) :
    t.vreq = s.vreq ∧ t.flights = s.flights ∧ t.queue = s.queue ∧ Frame s t := by
  unfold failover at ran
  split at ran <;> cases ran <;> exact ⟨rfl, rfl, rfl, rfl, rfl, rfl, rfl, rfl, rfl⟩

theorem Working.completeTdRequest {result : Int × Bool} (working : Working s id (secs + r))
    (ran : s.completeTdRequest id secs result now = some t) : Working t id r ∧ Frame s t := by
  unfold Vbd.completeTdRequest at ran
  split at ran
  · obtain ⟨m, failed, rest⟩ := Option.bind_eq_some_iff.mp ran
    obtain ⟨vreq, flights, queue, frame⟩ := failover_same failed
    have next : Working m id (secs + r) := working.like (fun j => by rw [vreq]) flights queue
    obtain ⟨done, last⟩ := next.completeTreq rest
    exact ⟨done, frame.trans last⟩
  · exact working.completeTreq ran

theorem Working.land (working : Working s id ((parts.map Part.secs).sum + r))
    (positive : ∀ part ∈ parts, part.result = none → 0 < part.secs) (ran : Vbd.land id now s parts = some t) :
    Working t id r ∧ Frame s t := by
  induction parts generalizing s with
  | nil =>
      cases ran
      exact ⟨by simpa using working, .refl _⟩
  | cons part parts ih =>
      have rest := fun p member => positive p (List.mem_cons_of_mem part member)
      rw [List.map_cons, List.sum_cons, Nat.add_assoc] at working
      rw [Vbd.land] at ran
      cases answer : part.result with
      | none =>
          simp only [answer] at ran
          let m := { s with flights := Function.update s.flights id (s.flights id ++ [part.secs]) }
          suffices next : Working m id ((parts.map Part.secs).sum + r) by
            obtain ⟨done, frame⟩ := ih next rest ran
            exact ⟨done, frame.paused, frame.snap, frame.resumes, frame.freed, frame.requested⟩
          constructor
          · refine ⟨?_, ?_, ?_, working.here.once⟩
            · have sum := working.here.sum
              simp only [m, Function.update_self, List.sum_append, List.sum_singleton]
              omega
            · intro n member
              simp only [m, Function.update_self, List.mem_append, List.mem_singleton] at member
              rcases member with old | rfl
              · exact working.here.positive n old
              · exact positive part List.mem_cons_self answer
            · intro _
              exact working.here.pending (.inr (Nat.add_pos_left (positive part List.mem_cons_self answer) _))
          · intro j other
            exact (working.others j other).like rfl (Function.update_of_ne other _ _) rfl
      | some result =>
          simp only [answer] at ran
          obtain ⟨m, first, later⟩ := Option.bind_eq_some_iff.mp ran
          obtain ⟨next, frame⟩ := working.completeTdRequest first
          obtain ⟨done, last⟩ := ih next rest later
          exact ⟨done, frame.trans last⟩

structure Submitting (s t : Vbd) (id : Nat) : Prop where
  submitting : (t.vreq id).submitting = (s.vreq id).submitting
  queue : t.queue = s.queue

theorem Submitting.trans (first : Submitting s t id) (second : Submitting t u id) : Submitting s u id :=
  ⟨second.submitting.trans first.submitting, second.queue.trans first.queue⟩

theorem submitting_completeTreq {res : Int} (submitting : (s.vreq id).submitting ≠ 0)
    (ran : s.completeTreq id secs res now = some t) : Submitting s t id := by
  simp only [Vbd.completeTreq, completeVbdRequest, Vbd.setVreq, Function.update_self] at ran
  rw [if_neg fun idle => submitting idle.1] at ran
  cases ran
  exact ⟨by simp, rfl⟩

theorem submitting_completeTdRequest {result : Int × Bool} (submitting : (s.vreq id).submitting ≠ 0)
    (ran : s.completeTdRequest id secs result now = some t) : Submitting s t id := by
  unfold Vbd.completeTdRequest at ran
  split at ran
  · obtain ⟨m, failed, rest⟩ := Option.bind_eq_some_iff.mp ran
    obtain ⟨vreq, -, queue, -⟩ := failover_same failed
    have done := submitting_completeTreq (by rw [vreq]; exact submitting) rest
    exact ⟨by rw [done.submitting, vreq], done.queue.trans queue⟩
  · exact submitting_completeTreq submitting ran

theorem submitting_land (submitting : (s.vreq id).submitting ≠ 0) (ran : Vbd.land id now s parts = some t) :
    Submitting s t id := by
  induction parts generalizing s with
  | nil =>
      cases ran
      exact ⟨rfl, rfl⟩
  | cons part parts ih =>
      rw [Vbd.land] at ran
      cases answer : part.result with
      | none =>
          simp only [answer] at ran
          let m := { s with flights := Function.update s.flights id (s.flights id ++ [part.secs]) }
          have done : Submitting m t id := ih (s := m) submitting ran
          exact ⟨done.submitting, done.queue⟩
      | some result =>
          simp only [answer] at ran
          obtain ⟨m, first, later⟩ := Option.bind_eq_some_iff.mp ran
          have next := submitting_completeTdRequest submitting first
          exact next.trans (ih (by rw [next.submitting]; exact submitting) later)

structure Issuing (s : Vbd) (id r : Nat) : Prop where
  working : Working s id r
  submitting : (s.vreq id).submitting ≠ 0
  pending : id ∈ s.queue .pending

theorem Issuing.queueTreq (issuing : Issuing s id (secs + r)) (ran : s.queueTreq id secs parts now = some t) :
    Issuing t id r ∧ Frame s t := by
  unfold Vbd.queueTreq at ran
  split at ran
  · next covers =>
      let m := { s with issues := s.issues ++ [id] }
      have start : Working m id ((parts.map Part.secs).sum + r) := by
        rw [covers.1]
        exact issuing.working.like (fun _ => rfl) rfl rfl
      obtain ⟨done, frame⟩ := start.land covers.2 ran
      have still : Submitting m t id := submitting_land issuing.submitting ran
      refine ⟨⟨done, ?_, ?_⟩, frame.paused, frame.snap, frame.resumes, frame.freed, frame.requested⟩
      · rw [still.submitting]
        exact issuing.submitting
      · rw [still.queue]
        exact issuing.pending
  · cases ran

theorem Issuing.add (issuing : Issuing s id r) (secs : Nat) :
    Issuing (s.setVreq id { s.vreq id with secsPending := (s.vreq id).secsPending + secs }) id (secs + r) := by
  refine ⟨⟨⟨?_, issuing.working.here.positive, fun _ => issuing.pending, issuing.working.here.once⟩, ?_⟩, ?_,
    issuing.pending⟩
  · have sum := issuing.working.here.sum
    simp only [Vbd.setVreq, Function.update_self]
    omega
  · intro j other
    refine (issuing.working.others j other).like ?_ rfl rfl
    simp [Vbd.setVreq, other]
  · simpa [Vbd.setVreq] using issuing.submitting

theorem Issuing.segments {iov : List Nat} {segments : List (List Part × List Part)} (issuing : Issuing s id 0)
    (ran : issueSegments id now s iov segments = some t) : Issuing t id 0 ∧ Frame s t := by
  induction iov generalizing s segments with
  | nil =>
      cases ran
      exact ⟨issuing, .refl _⟩
  | cons secs iov ih =>
      simp only [issueSegments] at ran
      obtain ⟨m, first, later⟩ := Option.bind_eq_some_iff.mp ran
      suffices one : Issuing m id 0 ∧ Frame s m by
        obtain ⟨done, last⟩ := ih one.1 later
        exact ⟨done, one.2.trans last⟩
      split at first
      · obtain ⟨n, mirror, leaf⟩ := Option.bind_eq_some_iff.mp first
        have both := issuing.add (secs + secs)
        simp only [← Nat.add_assoc] at both
        have two : Issuing _ id (secs + secs) := both
        obtain ⟨half, frame⟩ := two.queueTreq mirror
        obtain ⟨done, last⟩ := (show Issuing n id (secs + 0) from half).queueTreq leaf
        exact ⟨done, (Frame.mk frame.paused frame.snap frame.resumes frame.freed frame.requested : Frame s n).trans last⟩
      · obtain ⟨done, frame⟩ := (issuing.add secs).queueTreq first
        exact ⟨done, frame.paused, frame.snap, frame.resumes, frame.freed, frame.requested⟩

theorem Working.issued {err err' : Int} (working : Working s id 0) (ran : s.issued id err now = some (err', t)) :
    Sane t ∧ Frame s t := by
  simp only [Vbd.issued] at ran
  have next : Working (s.setVreq id { s.vreq id with submitting := (s.vreq id).submitting - 1 }) id 0 :=
    working.setVreq rfl
  split at ran
  · obtain ⟨m, completed, same⟩ := Option.map_eq_some_iff.mp ran
    cases same
    obtain ⟨done, frame⟩ := next.complete completed
    exact ⟨done.sane, frame.paused, frame.snap, frame.resumes, frame.freed, frame.requested⟩
  · cases ran
    exact ⟨next.sane, rfl, rfl, rfl, rfl, rfl, rfl⟩

theorem Sane.issueRequest {io : Io} {err : Int} (sane : Sane s) (ran : s.issueRequest id io now = some (err, t)) :
    Sane t ∧ Frame s t := by
  obtain ⟨m, moved, rest⟩ := Option.bind_eq_some_iff.mp ran
  have start : Working (s.setVreq id { s.vreq id with submitting := 1, lastTry := now }) id 0 :=
    (sane.working id).setVreq rfl
  have working := start.move moved (.inl rfl)
  obtain ⟨-, vreq, -, frame⟩ := move_queue moved
  have first : Frame s m := ⟨frame.paused, frame.snap, frame.resumes, frame.freed, frame.requested⟩
  simp only at rest
  split at rest
  · have failed : Working (m.setVreq id { m.vreq id with error := m.checkIssue io }) id 0 := working.setVreq rfl
    obtain ⟨done, last⟩ := failed.issued rest
    exact ⟨done, first.trans ⟨last.paused, last.snap, last.resumes, last.freed, last.requested⟩⟩
  · obtain ⟨n, segments, last⟩ := Option.bind_eq_some_iff.mp rest
    have issuing : Issuing m id 0 := ⟨working, by simp [vreq, Vbd.setVreq], move_dest moved⟩
    obtain ⟨busy, middle⟩ := issuing.segments segments
    obtain ⟨done, final⟩ := busy.working.issued last
    exact ⟨done, (first.trans middle).trans final⟩

theorem Sane.completeVbdRequest (sane : Sane s) (ran : s.completeVbdRequest id now = some t) : Sane t ∧ Frame s t := by
  obtain ⟨done, frame⟩ := (sane.working id).complete ran
  exact ⟨done.sane, frame⟩

theorem Sane.reissueFailed {io : Nat → Io} {l : List Nat} (sane : Sane s) (ran : reissueFailed io now s l = some t) :
    Sane t ∧ Frame s t := by
  induction l generalizing s with
  | nil =>
      cases ran
      exact ⟨sane, .refl _⟩
  | cons id rest ih =>
      simp only [Vbd.reissueFailed] at ran
      split at ran
      · exact ih sane ran
      · split at ran
        · obtain ⟨m, first, later⟩ := Option.bind_eq_some_iff.mp ran
          obtain ⟨next, frame⟩ := sane.completeVbdRequest first
          obtain ⟨done, last⟩ := ih next later
          exact ⟨done, frame.trans last⟩
        · split at ran
          · exact ih sane ran
          · obtain ⟨⟨err, m⟩, first, later⟩ := Option.bind_eq_some_iff.mp ran
            have cleared : Working (s.setVreq id { s.vreq id with error := 0 }) id 0 := (sane.working id).setVreq rfl
            obtain ⟨next, frame⟩ := cleared.sane.issueRequest first
            have frame : Frame s m := ⟨frame.paused, frame.snap, frame.resumes, frame.freed, frame.requested⟩
            simp only at later
            split at later
            · cases later
              exact ⟨next, frame⟩
            · obtain ⟨done, last⟩ := ih next later
              exact ⟨done, frame.trans last⟩

theorem Sane.issueNew {io : Nat → Io} {l : List Nat} (sane : Sane s) (ran : issueNew io now s l = some t) :
    Sane t ∧ Frame s t := by
  induction l generalizing s with
  | nil =>
      cases ran
      exact ⟨sane, .refl _⟩
  | cons id rest ih =>
      simp only [Vbd.issueNew] at ran
      obtain ⟨⟨err, m⟩, first, later⟩ := Option.bind_eq_some_iff.mp ran
      obtain ⟨next, frame⟩ := sane.issueRequest first
      simp only at later
      split at later
      · cases later
        exact ⟨next, frame⟩
      · obtain ⟨done, last⟩ := ih next later
        exact ⟨done, frame.trans last⟩

theorem Sane.idle (sane : Sane s) (elsewhere : id ∈ s.queue .new ∨ id ∈ s.queue .failed) : s.flights id = [] := by
  by_contra busy
  have pending := List.count_pos_iff.mpr ((sane id).pending (.inl busy))
  have once := (sane id).once
  unfold total at once
  rcases elsewhere with new | failed
  · have some := List.count_pos_iff.mpr new
    omega
  · have some := List.count_pos_iff.mpr failed
    omega

theorem Sane.killAll {l : List Nat} (sane : Sane s) (idle : ∀ id ∈ l, s.flights id = []) (ran : s.killAll l = some t) :
    Sane t ∧ Frame s t := by
  induction l generalizing s with
  | nil =>
      cases ran
      exact ⟨sane, .refl _⟩
  | cons id rest ih =>
      rw [Vbd.killAll, List.foldlM_cons] at ran
      obtain ⟨m, first, later⟩ := Option.bind_eq_some_iff.mp ran
      have failed : Working (s.setVreq id { s.vreq id with error := -eshutdown }) id 0 := (sane.working id).setVreq rfl
      have empty := idle id List.mem_cons_self
      have zero : ((s.setVreq id { s.vreq id with error := -eshutdown }).vreq id).secsPending = 0 := by
        have sum := (sane id).sum
        simpa [Vbd.setVreq, empty] using sum
      obtain ⟨-, -, flights, frame⟩ := move_queue first
      have next := (failed.move first (.inr zero)).sane
      obtain ⟨done, last⟩ := ih next (fun j member => by
        rw [flights]
        exact idle j (List.mem_cons_of_mem id member)) later
      exact ⟨done, (Frame.mk frame.paused frame.snap frame.resumes frame.freed frame.requested : Frame s m).trans last⟩

theorem Sane.issueRequests {io : Nat → Io} (sane : Sane s) (ran : s.issueRequests io now = some t) :
    Sane t ∧ Frame s t := by
  unfold Vbd.issueRequests at ran
  split at ran
  · obtain ⟨m, first, later⟩ := Option.bind_eq_some_iff.mp ran
    obtain ⟨next, frame⟩ := sane.killAll (fun id member => sane.idle (.inl member)) first
    obtain ⟨done, last⟩ := next.killAll (fun id member => next.idle (.inr member)) later
    exact ⟨done, frame.trans last⟩
  · split at ran
    · cases ran
      exact ⟨sane, .refl _⟩
    · obtain ⟨m, first, later⟩ := Option.bind_eq_some_iff.mp ran
      obtain ⟨next, frame⟩ := sane.reissueFailed first
      obtain ⟨done, last⟩ := next.issueNew later
      exact ⟨done, frame.trans last⟩

theorem Sane.expire {l : List Nat} (sane : Sane s)
    (ran : l.foldlM (fun s id => if timedOut (s.vreq id) now then s.completeVbdRequest id now else some s) s = some t) :
    Sane t ∧ Frame s t := by
  induction l generalizing s with
  | nil =>
      cases ran
      exact ⟨sane, .refl _⟩
  | cons id rest ih =>
      rw [List.foldlM_cons] at ran
      obtain ⟨m, first, later⟩ := Option.bind_eq_some_iff.mp ran
      suffices one : Sane m ∧ Frame s m by
        obtain ⟨done, last⟩ := ih one.1 later
        exact ⟨done, one.2.trans last⟩
      split at first
      · exact sane.completeVbdRequest first
      · cases first
        exact ⟨sane, .refl _⟩

theorem Sane.checkQueueState {io : Nat → Io} (sane : Sane s) (ran : s.checkQueueState io now = some t) :
    Sane t ∧ Frame s t := by
  obtain ⟨m, first, later⟩ := Option.bind_eq_some_iff.mp ran
  obtain ⟨next, frame⟩ := sane.expire first
  split at later
  · obtain ⟨done, last⟩ := next.issueRequests later
    exact ⟨done, frame.trans last⟩
  · cases later
    exact ⟨next, frame⟩

theorem Sane.recheckState {io : Nat → Io} (sane : Sane s) (ran : s.recheckState io now = some t) :
    Sane t ∧ Frame s t := by
  unfold Vbd.recheckState at ran
  split at ran
  · cases ran
    exact ⟨sane, .refl _⟩
  · exact sane.issueNew ran

theorem Sane.take (sane : Sane s) (member : secs ∈ s.flights id) :
    Working { s with flights := Function.update s.flights id ((s.flights id).erase secs) } id (secs + 0) := by
  constructor
  · refine ⟨?_, ?_, ?_, (sane id).once⟩
    · have sum := (sane id).sum
      have split := List.sum_erase member
      simp only [Function.update_self]
      omega
    · simp only [Function.update_self]
      exact fun n there => (sane id).positive n (List.mem_of_mem_erase there)
    · intro _
      exact (sane id).pending (.inl (List.ne_nil_of_mem member))
  · intro j other
    exact (sane j).like rfl (Function.update_of_ne other _ _) rfl

theorem Working.reissue (working : Working s id (secs + 0)) (covers : Vbd.Covers parts secs)
    (ran : s.reissue id parts now = some t) : Sane t ∧ Frame s t := by
  simp only [Vbd.reissue] at ran
  obtain ⟨m, landed, rest⟩ := Option.bind_eq_some_iff.mp ran
  obtain ⟨⟨err, n⟩, last, rfl⟩ := Option.map_eq_some_iff.mp rest
  have submitted : Working (s.setVreq id { s.vreq id with submitting := (s.vreq id).submitting + 1, lastTry := now }) id
      (secs + 0) := working.setVreq rfl
  have start : Working { s.setVreq id { s.vreq id with submitting := (s.vreq id).submitting + 1, lastTry := now } with
      issues := s.issues ++ [id] } id ((parts.map Part.secs).sum + 0) := by
    rw [covers.1]
    exact submitted.like (fun _ => rfl) rfl rfl
  obtain ⟨busy, frame⟩ := start.land covers.2 landed
  obtain ⟨done, final⟩ := busy.issued last
  exact ⟨done, (Frame.mk frame.paused frame.snap frame.resumes frame.freed frame.requested : Frame s m).trans final⟩

end Path
end Blktap.Tapdisk.Pause
