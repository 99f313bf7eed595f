import Blktap.Tapdisk.FilterSubmits

/-! # Runs of a queue with a filter -/

namespace Blktap.Tapdisk.Filter
open Optimize Tqueue Lib

variable {s : Filtered} {record : Nat → Nat} {groups : List Group} {deferred work : List Nat} {step : Step}

theorem Sound.perform (sound : Sound s record groups deferred work) (allowed : s.Allowed step) (meets : s.Meets step) :
    ∃ after record' groups' deferred' work', s.perform step = some after ∧ s.Records after ∧
      Sound after record' groups' deferred' work' := by
  have core : s.work = .idle → Core s record groups deferred [] := by
    intro idle
    have doing := sound.doing
    unfold Doing at doing
    rw [idle] at doing
    exact doing ▸ sound.core
  have unchanged : ∀ {after : Filtered}, after.filter = s.filter → s.Records after := by
    intro after same sec changed
    rw [same] at changed
    exact absurd rfl changed
  cases step with
  | queue p =>
      obtain ⟨deferred', after⟩ := sound.queue p allowed
      exact ⟨_, record, groups, deferred', work, rfl, unchanged rfl, after⟩
  | lioSubmit random words result =>
      obtain ⟨after, record', groups', work', run, records, later⟩ := (core allowed.1).lioSubmit allowed meets
      exact ⟨after, record', groups', deferred, work', run, records, later⟩
  | rwioSubmit random words results then' =>
      obtain ⟨after, record', groups', work', run, records, later⟩ := (core allowed.1).rwioSubmit allowed meets
      exact ⟨after, record', groups', deferred, work', run, records, later⟩
  | event words events =>
      obtain ⟨after, groups', work', run, records, later⟩ := (core allowed.1).event allowed meets
      exact ⟨after, record, groups', deferred, work', run, records, later⟩
  | cancel =>
      obtain ⟨after, work', run, ⟨filter, -, -⟩, later⟩ :=
        @Sound.cancel s record groups deferred (-eio) (core allowed) allowed meets (by decide) (by decide) 0
      exact ⟨after, record, groups, deferred, work', run, unchanged filter, later⟩
  | next =>
      obtain ⟨after, deferred', work', run, filter, later⟩ := sound.next allowed meets
      exact ⟨after, record, groups, deferred', work', run, unchanged filter, later⟩

def sector : Prep where
  tiocb := 4096
  fd := 3
  rw := false
  buf := 8192
  size := 512
  offset := 0

def tested : Filtered := Filtered.init 1 (.init true false 1 0 0) fun _ => ⟨.user 0, 0, 0, 0, 0, 0⟩

end Blktap.Tapdisk.Filter
