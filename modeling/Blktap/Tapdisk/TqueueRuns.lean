import Blktap.Tapdisk.Tqueue
import Mathlib.Algebra.Order.Ring.Int

/-! # Runs of the queue -/

namespace Blktap.Tapdisk.Tqueue
namespace Queue

def taken (q : Queue) : Int := q.tiocbsPending + q.queued.length

structure Took (q after : Queue) (n : Nat) : Prop where
  size : after.size = q.size
  inFlight : after.inFlight = q.inFlight
  iocbs : after.iocbsPending = q.iocbsPending
  pending : after.tiocbsPending = q.tiocbsPending
  taken : after.taken = max q.taken (min (q.taken + n) q.size)
  deferred : after.deferred = none ↔ q.deferred = none ∧ q.taken + n ≤ max q.taken q.size

variable {q q' q'' : Queue} {n m : Nat}

theorem full_iff : q.full = true ↔ (q.size : Int) ≤ q.taken := by
  simp [full, taken]

theorem Took.refl : Took q q 0 where
  size := rfl
  inFlight := rfl
  iocbs := rfl
  pending := rfl
  taken := by omega
  deferred := by
    have fits : q.taken + (0 : Nat) ≤ max q.taken q.size := by omega
    simp only [fits, and_true]

theorem Took.trans (first : Took q q' n) (second : Took q' q'' m) : Took q q'' (n + m) := by
  have size := first.size
  have taken := first.taken
  apply Took.mk
  · rw [second.size, size]
  · rw [second.inFlight, first.inFlight]
  · rw [second.iocbs, first.iocbs]
  · rw [second.pending, first.pending]
  · rw [second.taken, size, taken]
    omega
  · rw [second.deferred, first.deferred, size, taken, and_assoc]
    apply and_congr_right'
    omega

theorem tapdiskQueueTiocb_took (q : Queue) (tiocb : Nat) : Took q (q.tapdiskQueueTiocb tiocb) 1 := by
  unfold tapdiskQueueTiocb
  simp only
  cases full : q.full with
  | false =>
      have room : q.taken < q.size := by
        rw [← Int.not_le, ← full_iff]
        simp [full]
      have same : { q with next := Function.update q.next tiocb none }.full = false := full
      simp only [same, Bool.not_false, if_true]
      apply Took.mk <;> try rfl
      · simp only [queueTiocb, taken, List.length_append, List.length_singleton] at *
        omega
      · have fits : q.taken + (1 : Nat) ≤ max q.taken q.size := by omega
        simp only [queueTiocb, fits, and_true]
  | true =>
      have room := full_iff.1 full
      have same : { q with next := Function.update q.next tiocb none }.full = true := full
      simp only [same, Bool.not_true, if_false, Bool.false_eq_true]
      have tight : ¬ q.taken + (1 : Nat) ≤ max q.taken q.size := by omega
      unfold deferTiocb
      cases deferred : q.deferred with
      | none =>
          apply Took.mk <;> try rfl
          · simp only [taken] at *
            omega
          · simp only [tight, and_false, iff_false]
            simp
      | some list =>
          apply Took.mk <;> try rfl
          · simp only [taken] at *
            omega
          · simp only [tight, and_false, iff_false]
            simp

theorem callbacks_took (q : Queue) (tiocbs : List Nat) : Took q (q.callbacks tiocbs) tiocbs.length := by
  unfold callbacks
  induction tiocbs generalizing q with
  | nil => exact Took.refl
  | cons tiocb rest ih =>
      have all := (tapdiskQueueTiocb_took q tiocb).trans (ih _)
      rwa [Nat.add_comm] at all

theorem cancelLoop_took (cursor : Option Nat) (queues : List (List Nat))
    (cancelled : cancelLoop q cursor queues = some q') : Took q q' queues.flatten.length := by
  induction queues generalizing q cursor with
  | nil =>
      cases cursor with
      | none =>
          simp only [cancelLoop, Option.some.injEq] at cancelled
          rw [← cancelled]
          exact Took.refl
      | some tiocb => simp [cancelLoop] at cancelled
  | cons first rest ih =>
      cases cursor with
      | none => simp [cancelLoop] at cancelled
      | some tiocb =>
          simp only [cancelLoop] at cancelled
          have all := (callbacks_took q first).trans (ih _ cancelled)
          simpa using all

theorem queueDeferredTiocbs_fills (places : Nat) (q : Queue) :
    (q.queueDeferredTiocbs places).size = q.size ∧ (q.queueDeferredTiocbs places).inFlight = q.inFlight ∧
    (q.queueDeferredTiocbs places).iocbsPending = q.iocbsPending ∧
    (q.queueDeferredTiocbs places).tiocbsPending = q.tiocbsPending ∧
    (q.taken ≤ q.size → (q.queueDeferredTiocbs places).taken ≤ q.size) ∧
    (q.size ≤ q.taken + places → (q.queueDeferredTiocbs places).deferred = none ∨
      q.size ≤ (q.queueDeferredTiocbs places).taken) := by
  induction places generalizing q with
  | zero =>
      simp only [queueDeferredTiocbs, Nat.cast_zero, add_zero, true_and]
      exact ⟨id, .inr⟩
  | succ places ih =>
      unfold queueDeferredTiocbs
      split
      · next more =>
          rw [Bool.and_eq_true, Bool.not_eq_true', ← Bool.not_eq_true, full_iff, Option.isSome_iff_exists] at more
          obtain ⟨room, ⟨head, tail⟩, deferred⟩ := more
          have one : q.queueDeferredTiocb.taken = q.taken + 1 := by
            simp [queueDeferredTiocb, deferred, queueTiocb, taken]
            omega
          have same : q.queueDeferredTiocb.size = q.size ∧ q.queueDeferredTiocb.inFlight = q.inFlight ∧
              q.queueDeferredTiocb.iocbsPending = q.iocbsPending ∧
              q.queueDeferredTiocb.tiocbsPending = q.tiocbsPending := by
            simp [queueDeferredTiocb, deferred, queueTiocb]
          have rest := ih q.queueDeferredTiocb
          rw [same.1, same.2.1, same.2.2.1, same.2.2.2, one] at rest
          refine ⟨rest.1, rest.2.1, rest.2.2.1, rest.2.2.2.1, fun _ => rest.2.2.2.2.1 (by omega), fun enough => ?_⟩
          apply rest.2.2.2.2.2
          push_cast at enough
          omega
      · next done =>
          rw [Bool.and_eq_true, Bool.not_eq_true', ← Bool.not_eq_true, full_iff] at done
          refine ⟨rfl, rfl, rfl, rfl, id, fun _ => ?_⟩
          cases deferred : q.deferred with
          | none => exact .inl rfl
          | some list =>
              right
              by_contra room
              exact done ⟨room, by simp [deferred]⟩

structure Counted (size : Nat) (q : Queue) : Prop where
  size_eq : q.size = size
  iocbs : q.iocbsPending = q.inFlight.length
  pending : q.tiocbsPending = q.inFlight.flatten.length
  taken : q.taken ≤ size

structure Moves (q : Queue) : Prop where
  taken : q.taken ≤ q.size
  waits : q.deferred ≠ none → 0 < q.taken

def unsubmitted (groups : List (List Nat)) (result : Int) : List Nat := (groups.drop result.toNat).flatten

/-- After a failure something is queued or pending, or nothing is deferred. -/
def Goes (q : Queue) : Step → Prop
  | .submit (.lio groups result queues) =>
      q.queued = [] ∨ (groups.length : Int) ≤ result ∨ ((unsubmitted groups result).length : Int) < q.taken ∨
        if queues.flatten = [] then q.deferred = none else q.taken < q.size
  | _ => True

variable {size : Nat} {step : Step}

theorem Took.counted (took : Took q q' n) (counted : Counted size q) : Counted size q' := by
  apply Counted.mk
  · rw [took.size, counted.size_eq]
  · rw [took.iocbs, took.inFlight, counted.iocbs]
  · rw [took.pending, took.inFlight, counted.pending]
  · have same := counted.size_eq
    have taken := counted.taken
    rw [took.taken]
    omega

theorem fills_counted (places : Nat) (counted : Counted size q) : Counted size (q.queueDeferredTiocbs places) := by
  obtain ⟨same, inFlight, iocbs, pending, fits, -⟩ := queueDeferredTiocbs_fills places q
  apply Counted.mk
  · rw [same, counted.size_eq]
  · rw [iocbs, inFlight, counted.iocbs]
  · rw [pending, inFlight, counted.pending]
  · rw [counted.size_eq] at fits
    exact fits counted.taken

theorem fills_moves {places : Nat} (positive : 0 < size) (counted : Counted size q) (free : 0 ≤ q.taken)
    (enough : places = size) : (q.queueDeferredTiocbs places).Moves := by
  have after := fills_counted places counted
  obtain ⟨-, -, -, -, -, full⟩ := queueDeferredTiocbs_fills places q
  apply Moves.mk
  · rw [after.size_eq]
    exact after.taken
  · intro deferred
    rw [counted.size_eq] at full
    have := (full (by omega)).resolve_left deferred
    omega

theorem lioEvent_keeps {done queues : List (List Nat)} (positive : 0 < size) (counted : Counted size q)
    (completed : q.lioEvent done queues = some q') : Counted size q' ∧ q'.Moves := by
  unfold lioEvent at completed
  split at completed
  · simp at completed
  next sane =>
  rw [not_or, not_not] at sane
  have whole : (done ++ q.inFlight.diff done).Perm q.inFlight :=
    List.subperm_append_diff_self_of_count_le fun x _ => sane.1.count_le x
  have operations := whole.length_eq
  have requests := whole.flatten.length_eq
  rw [List.length_append] at operations
  rw [List.flatten_append, List.length_append] at requests
  let after := { q with
    inFlight := q.inFlight.diff done
    iocbsPending := q.iocbsPending - done.length
    tiocbsPending := q.tiocbsPending - done.flatten.length : Queue }
  have iocbs := counted.iocbs
  have pending := counted.pending
  have fits := counted.taken
  have reduced : Counted size after := by
    apply Counted.mk
    · exact counted.size_eq
    · simp only [after]
      omega
    · simp only [after]
      omega
    · simp only [after, taken] at *
      omega
  have called := callbacks_took after queues.flatten
  have kept := called.counted reduced
  have free : 0 ≤ (after.callbacks queues.flatten).taken := by
    have pending := kept.pending
    simp only [taken]
    omega
  rw [← Option.some.inj completed]
  exact ⟨fills_counted q.size kept, fills_moves positive kept free counted.size_eq⟩

theorem rwioSubmit_keeps {queues : List (List Nat)} (positive : 0 < size) (counted : Counted size q) (moves : q.Moves)
    (submitted : q.rwioSubmit queues = some q') : Counted size q' ∧ q'.Moves := by
  unfold rwioSubmit at submitted
  split at submitted
  · rw [← Option.some.inj submitted]
    exact ⟨counted, moves⟩
  split at submitted
  · simp at submitted
  have pending := counted.pending
  have fits := counted.taken
  have emptied : Counted size { q with queued := [] } := by
    apply Counted.mk
    · exact counted.size_eq
    · exact counted.iocbs
    · exact counted.pending
    · simp only [taken, List.length_nil] at *
      omega
  have kept := (callbacks_took { q with queued := [] } queues.flatten).counted emptied
  have free : 0 ≤ (callbacks { q with queued := [] } queues.flatten).taken := by
    have pending := kept.pending
    simp only [taken]
    omega
  rw [← Option.some.inj submitted]
  exact ⟨fills_counted q.size kept, fills_moves positive kept free counted.size_eq⟩

theorem unsubmitted_ne_nil {groups : List (List Nat)} {result : Int} (nonempty : [] ∉ groups)
    (some_left : result.toNat < groups.length) : unsubmitted groups result ≠ [] := by
  intro empty
  unfold unsubmitted at empty
  rw [List.flatten_eq_nil_iff] at empty
  have first := empty groups[result.toNat] (by
    rw [List.mem_drop_iff_getElem]
    exact ⟨0, by omega, by simp⟩)
  exact nonempty (first ▸ List.getElem_mem some_left)

def sent (q : Queue) (groups : List (List Nat)) (result : Int) : Queue :=
  { q with
    iocbsPending := q.iocbsPending + result.toNat
    tiocbsPending := q.tiocbsPending + q.queued.length
    inFlight := q.inFlight ++ groups.take result.toNat
    queued := [] }

variable {groups queues : List (List Nat)} {result : Int}

theorem lioSubmit_cases (submitted : q.lioSubmit groups result queues = some q') :
    q.queued = [] ∧ q' = q ∨
    q.queued ≠ [] ∧ (groups.take result.toNat).length = result.toNat ∧
      (groups.take result.toNat).flatten.length + (unsubmitted groups result).length = q.queued.length ∧
      ∃ after n, Took (q.sent groups result) after n ∧
        q' = { after with tiocbsPending := after.tiocbsPending - (unsubmitted groups result).length } ∧
        ((groups.length : Int) ≤ result ∧ unsubmitted groups result = [] ∨
          ¬ (groups.length : Int) ≤ result ∧ n = queues.flatten.length) := by
  unfold lioSubmit at submitted
  split at submitted
  · next empty => exact .inl ⟨empty, (Option.some.inj submitted).symm⟩
  next queued =>
  split at submitted
  · simp at submitted
  next sane =>
  rw [not_or, not_or, not_not] at sane
  obtain ⟨whole, nonempty, most⟩ := sane
  right
  refine ⟨queued, ?_, ?_, ?_⟩
  · rw [List.length_take]
    omega
  · rw [unsubmitted, ← List.length_append, ← List.flatten_append, List.take_append_drop, whole]
  simp only at submitted
  rw [show (groups.drop result.toNat).flatten = unsubmitted groups result from rfl] at submitted
  split at submitted
  · next failed =>
      obtain ⟨⟨after, cancelled⟩, cancel, rfl⟩ := Option.map_eq_some_iff.1 submitted
      simp only [failTiocbs, cancelTiocbs] at cancel
      rw [if_neg (unsubmitted_ne_nil nonempty failed)] at cancel
      obtain ⟨last, loop, same⟩ := Option.map_eq_some_iff.1 cancel
      obtain ⟨rfl, rfl⟩ := Prod.mk.inj same
      refine ⟨last, _, cancelLoop_took _ _ loop, rfl, .inr ⟨?_, rfl⟩⟩
      omega
  · next all =>
      have operations : groups ≠ [] := by
        rintro rfl
        exact queued whole.symm
      have operations := List.length_pos_iff.2 operations
      have nothing : unsubmitted groups result = [] := by
        rw [unsubmitted, List.drop_eq_nil_of_le (by omega), List.flatten_nil]
      refine ⟨_, 0, Took.refl, ?_, .inl ⟨by omega, nothing⟩⟩
      rw [← Option.some.inj submitted, nothing]
      simp [sent]

theorem lioSubmit_spec (counted : Counted size q) (moves : q.Moves)
    (submitted : q.lioSubmit groups result queues = some q') :
    Counted size q' ∧ (q'.Moves ↔ q.Goes (.submit (.lio groups result queues))) := by
  obtain ⟨empty, rfl⟩ | ⟨queued, count, parts, after, n, took, rfl, failed⟩ := lioSubmit_cases submitted
  · exact ⟨counted, by simp [Goes, empty, moves]⟩
  have some_queued := List.length_pos_iff.2 queued
  have iocbs := counted.iocbs
  have pending := counted.pending
  have fits := counted.taken
  have same := counted.size_eq
  obtain ⟨after_size, after_inFlight, after_iocbs, after_pending, after_taken, after_deferred⟩ := took
  simp only [sent, taken, List.length_nil, Nat.cast_zero, add_zero] at *
  apply And.intro
  · apply Counted.mk
    · simp only [after_size, same]
    · simp only [after_iocbs, after_inFlight, List.length_append, count]
      omega
    · simp only [after_pending, after_inFlight, List.flatten_append, List.length_append]
      omega
    · simp only [taken]
      omega
  · have goes : q.Goes (.submit (.lio groups result queues)) ↔ (after.deferred = none ∨
        0 < after.tiocbsPending - (unsubmitted groups result).length + after.queued.length) := by
      rw [same] at after_taken after_deferred
      rw [max_eq_right fits] at after_deferred
      rw [max_eq_right (le_min (by omega) fits)] at after_taken
      rw [after_deferred]
      simp only [Goes, queued, false_or, taken, same]
      obtain ⟨whole, nothing⟩ | ⟨part, rfl⟩ := failed
      · simp only [whole, nothing, true_or, true_iff, List.length_nil, Nat.cast_zero, sub_zero]
        omega
      · have short : (unsubmitted groups result).length ≤ q.queued.length := by omega
        by_cases called : queues.flatten = []
        · have none_called := List.length_eq_zero_iff.2 called
          by_cases deferred : q.deferred = none
          · simp only [if_pos called, deferred, true_and, or_true, true_iff]
            omega
          · simp only [if_pos called, deferred, false_and, or_false, false_or]
            omega
        · have some_called := List.length_pos_iff.2 called
          rw [if_neg called]
          by_cases deferred : q.deferred = none
          · simp only [deferred, true_and]
            omega
          · simp only [deferred, false_and, false_or]
            omega
    rw [goes, or_iff_not_imp_left]
    exact ⟨fun moves => moves.waits, fun waits => ⟨by simp only [taken]; omega, waits⟩⟩

theorem queue_keeps (positive : 0 < size) (counted : Counted size q) (tiocb : Nat) :
    Counted size (q.tapdiskQueueTiocb tiocb) ∧ (q.tapdiskQueueTiocb tiocb).Moves := by
  have took := tapdiskQueueTiocb_took q tiocb
  have after := took.counted counted
  have free : 0 ≤ q.taken := by
    have pending := counted.pending
    simp only [taken]
    omega
  refine ⟨after, ⟨?_, fun _ => ?_⟩⟩
  · rw [after.size_eq]
    exact after.taken
  · rw [took.taken, counted.size_eq]
    omega

theorem perform_spec (positive : 0 < size) (counted : Counted size q) (moves : q.Moves)
    (performed : q.perform step = some q') : Counted size q' ∧ (q'.Moves ↔ q.Goes step) := by
  cases step with
  | queue tiocb =>
      obtain ⟨after, moves⟩ := queue_keeps positive counted tiocb
      rw [← Option.some.inj performed]
      exact ⟨after, by simp [Goes, moves]⟩
  | event done queues =>
      obtain ⟨after, moves⟩ := lioEvent_keeps positive counted performed
      exact ⟨after, by simp [Goes, moves]⟩
  | submit submit =>
      cases submit with
      | lio groups result queues => exact lioSubmit_spec counted moves performed
      | rwio queues =>
          obtain ⟨after, moves⟩ := rwioSubmit_keeps positive counted moves performed
          exact ⟨after, by simp [Goes, moves]⟩

theorem submitAll_empty {submits : List Submit} (all : q.tapdiskSubmitAllTiocbs submits = some q') :
    q'.queued = [] := by
  induction submits generalizing q with
  | nil => simp [tapdiskSubmitAllTiocbs] at all
  | cons submit rest ih =>
      simp only [tapdiskSubmitAllTiocbs] at all
      obtain ⟨next, -, all⟩ := Option.bind_eq_some_iff.1 all
      split at all
      · next empty =>
          rw [← Option.some.inj all]
          exact empty
      · exact ih all

end Queue

inductive Reached (allowed : Queue → Step → Prop) (size : Nat) : Queue → Prop
  | start : Reached allowed size (Queue.init size)
  | next {q q' : Queue} {step : Step} : Reached allowed size q → allowed q step → q.perform step = some q' →
      Reached allowed size q'

theorem init_counted (size : Nat) : (Queue.init size).Counted size := by
  constructor <;> simp [Queue.init, Queue.taken]

theorem reached_keeps {size : Nat} {q : Queue} (positive : 0 < size) (reached : Reached Queue.Goes size q) :
    q.Counted size ∧ q.Moves := by
  induction reached with
  | start => exact ⟨init_counted size, by constructor <;> simp [Queue.init, Queue.taken]⟩
  | next _ goes performed ih =>
      obtain ⟨counted, moves⟩ := Queue.perform_spec positive ih.1 ih.2 performed
      exact ⟨counted, moves.2 goes⟩

/-- A run goes on as long as no failed submission leaves the deferred requests behind. The first one that does is
where it stops. -/
theorem queue_goes (size : Nat) (positive : 0 < size) (q : Queue) (reached : Reached Queue.Goes size q) :
    q.Moves ∧ (∀ step q', q.perform step = some q' → (q'.Moves ↔ q.Goes step)) ∧
      ∀ submits q', q.tapdiskSubmitAllTiocbs submits = some q' → q'.queued = [] := by
  obtain ⟨counted, moves⟩ := reached_keeps positive reached
  refine ⟨moves, fun step q' performed => ?_, fun submits q' all => Queue.submitAll_empty all⟩
  exact (Queue.perform_spec positive counted moves performed).2

theorem queue_goes_one : 0 < 1 ∧ Reached Queue.Goes 1 ((Queue.init 1).tapdiskQueueTiocb 0) ∧
    ((Queue.init 1).tapdiskQueueTiocb 0).Moves := by
  have reached : Reached Queue.Goes 1 ((Queue.init 1).tapdiskQueueTiocb 0) :=
    @Reached.next _ 1 _ _ (.queue 0) .start trivial rfl
  exact ⟨by decide, reached, (queue_goes 1 (by decide) _ reached).1⟩

theorem reached_callbacks {size : Nat} {q : Queue} (reached : Reached (fun _ _ => True) size q) (tiocbs : List Nat) :
    Reached (fun _ _ => True) size (q.callbacks tiocbs) := by
  induction tiocbs generalizing q with
  | nil => exact reached
  | cons tiocb rest ih => exact ih (@Reached.next _ size q _ (.queue tiocb) reached trivial rfl)

def chain (n : Nat) (tiocb : Nat) : Option Nat := if tiocb + 1 < n then some (tiocb + 1) else none

theorem chain_last (n : Nat) : Function.update (chain n) n none = chain n := by
  apply Function.update_eq_self_iff.2
  simp [chain]

theorem chain_grows (n : Nat) : Function.update (chain (n + 1)) n (some (n + 1)) = chain (n + 2) := by
  funext tiocb
  by_cases last : tiocb = n
  · simp [last, chain]
  · rw [Function.update_of_ne last]
    simp only [chain]
    split <;> split <;> first | rfl | omega

theorem callbacks_range {size n : Nat} (room : n ≤ size) :
    (Queue.init size).callbacks (List.range n) = { Queue.init size with queued := List.range n, next := chain n } := by
  induction n with
  | zero =>
      have start : chain 0 = fun _ => none := by
        funext tiocb
        simp [chain]
      simp [Queue.callbacks, Queue.init, start]
  | succ n ih =>
      have filled := ih (by omega)
      unfold Queue.callbacks at *
      rw [List.range_succ, List.foldl_append, filled]
      simp only [List.foldl_cons, List.foldl_nil, Queue.tapdiskQueueTiocb, chain_last]
      have fits : Queue.full { Queue.init size with queued := List.range n, next := chain n } = false := by
        simp [Queue.full, Queue.init]
        omega
      rw [fits]
      cases n with
      | zero =>
          have one : chain 0 = chain 1 := by
            funext tiocb
            simp [chain]
          simp [Queue.queueTiocb, one]
      | succ n => simp [Queue.queueTiocb, List.range_succ, chain_grows]

theorem cancelLoop_chain {size : Nat} {q : Queue} (linked : q.next = chain size) (left : Nat) (fits : left < size) :
    q.cancelLoop (some (size - 1 - left)) (List.replicate (left + 1) []) = some q := by
  induction left with
  | zero =>
      have last : chain size (size - 1) = none := by
        unfold chain
        rw [if_neg (by omega)]
      simp [Queue.cancelLoop, Queue.callbacks, linked, last]
  | succ left ih =>
      have step : chain size (size - 1 - (left + 1)) = some (size - 1 - left) := by
        unfold chain
        rw [if_pos (by omega)]
        congr 1
        omega
      rw [List.replicate_succ]
      simp only [Queue.cancelLoop, Queue.callbacks, List.foldl_nil, linked, step]
      exact ih (by omega)

theorem failed_leaves {size : Nat} (positive : 0 < size) :
    ∃ q, Reached (fun _ _ => True) size q ∧ q.deferred = some (size, size) ∧ q.taken = 0 := by
  have filled := reached_callbacks (@Reached.start _ size) (List.range (size + 1))
  have deferred : (Queue.init size).callbacks (List.range (size + 1)) = { Queue.init size with
      queued := List.range size, next := chain size, deferred := some (size, size), tiocbsDeferred := 1,
      deferrals := 1 } := by
    have before := callbacks_range (Nat.le_refl size)
    unfold Queue.callbacks at *
    rw [List.range_succ, List.foldl_append, before]
    simp only [List.foldl_cons, List.foldl_nil, Queue.tapdiskQueueTiocb, chain_last]
    have full : Queue.full { Queue.init size with queued := List.range size, next := chain size } = true := by
      simp [Queue.full, Queue.init]
    rw [full]
    simp [Queue.deferTiocb, Queue.init]
  rw [deferred] at filled
  have some_queued : List.range size ≠ [] := by simp [Nat.ne_of_gt positive]
  have first : (List.range size).head? = some 0 := by
    rw [List.head?_range, if_neg (by omega)]
  have all : List.replicate size ([] : List Nat) = List.replicate (size - 1 + 1) [] := by
    rw [Nat.sub_add_cancel positive]
  let stuck : Queue := { Queue.init size with
    next := chain size, deferred := some (size, size), tiocbsDeferred := 1, deferrals := 1 }
  refine ⟨stuck, @Reached.next _ size _ stuck
    (.submit (.lio [List.range size] (-11) (List.replicate size []))) filled trivial ?_, rfl, rfl⟩
  simp only [Queue.perform, Queue.tapdiskSubmitTiocbs, Queue.lioSubmit, if_neg some_queued]
  simp [Queue.failTiocbs, Queue.cancelTiocbs, some_queued, first, all]
  have walk := @cancelLoop_chain size { stuck with tiocbsPending := 0 + size } rfl (size - 1) (by omega)
  rw [Nat.sub_self] at walk
  exact ⟨_, walk, by simp [stuck, Queue.init]⟩

theorem failed_stuck : ∃ q, Reached (fun _ _ => True) 402 q ∧ q.deferred ≠ none ∧ ¬ 0 < q.taken := by
  obtain ⟨q, reached, deferred, none_taken⟩ := @failed_leaves 402 (by decide)
  exact ⟨q, reached, by simp [deferred], by simp [none_taken]⟩

end Blktap.Tapdisk.Tqueue
