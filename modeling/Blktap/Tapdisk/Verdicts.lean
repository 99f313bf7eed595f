import Blktap.Tapdisk.ControlRuns

/-!
# Which control messages are handled

A request is dispatched or refused. The number of the request is compared with the last one of the enumeration,
which is not the end of the table, and a refusal looks into an `info` that only a dispatched request sets.
-/

namespace Blktap.Tapdisk
open Lib

def Verdict.Proper : Verdict → Prop
  | .dispatched type => type < messageInfosLength ∧ (messageInfos type).isSome
  | .answered count closed => count = messageSize ∧ closed
  | .dropped => False

namespace Control
variable {s t : Control} {k : Nat} {input : List UInt8} {answer : CtlAnswer} {sent : Nat}

def Total (s : Control) : Prop := s.fault = none ∧ ∀ v ∈ s.verdicts, v.Proper

def Refuses (s : Control) (k : Nat) (m : Message) : Prop :=
  (s.conns k).busy ∨ ¬ validateRequest m ∨ MessageId.exit.number < m.type ∨
    m.type < messageInfosLength ∧ ∀ info ∈ messageInfos m.type, info.excl && s.busy

def Defined (m : Message) (answer : CtlAnswer) : Prop :=
  m.type < messageInfosLength ∧ ∀ info ∈ messageInfos m.type, StaysInside info.handler answer.lookup m

instance (s : Control) (k : Nat) (m : Message) : Decidable (Refuses s k m) :=
  inferInstanceAs (Decidable (_ ∨ _ ∨ _ ∨ _ ∧ ∀ info ∈ messageInfos m.type, _))

instance (m : Message) (answer : CtlAnswer) : Decidable (Defined m answer) :=
  inferInstanceAs (Decidable (_ ∧ ∀ info ∈ messageInfos m.type, _))

def Handles (s : Control) (k : Nat) (input : List UInt8) (answer : CtlAnswer) : Prop :=
  messageSize ≤ input.length ∧
    if Refuses s k (decode (input.take messageSize)) then (s.conns k).info ≠ none
    else Defined (decode (input.take messageSize)) answer

instance (s : Control) (k : Nat) (input : List UInt8) (answer : CtlAnswer) : Decidable (Handles s k input answer) :=
  inferInstanceAs (Decidable (_ ∧ if Refuses s k _ then (s.conns k).info ≠ none else Defined _ answer))

def Meets (s : Control) : CtlStep → Prop
  | .request id input answer _ => ∀ e ∈ s.dispatchable id .request, s.Handles e.slot input answer
  | _ => True

instance (s : Control) (e : CtlStep) : Decidable (Meets s e) :=
  match e with
  | .request id input answer _ => inferInstanceAs (Decidable (∀ e ∈ s.dispatchable id .request, s.Handles e.slot input answer))
  | .accept .. | .send .. | .resume .. => .isTrue trivial

def Lost (s : Control) : Prop := s.fault ≠ none ∨ .dropped ∈ s.verdicts

theorem short_dropped (short : input.length < messageSize) :
    .dropped ∈ (s.handleRequest k input answer sent).verdicts := by
  unfold handleRequest
  rw [if_pos short]
  exact List.mem_cons_self

theorem handleRequest_refuse (long : messageSize ≤ input.length)
    (refuses : Refuses s k (decode (input.take messageSize))) :
    s.handleRequest k input answer sent = s.refuse k sent := by
  unfold handleRequest
  rw [if_neg (not_lt.mpr long)]
  simp only
  rcases refuses with busy | invalid | beyond | ⟨inside, blocked⟩
  · rw [if_pos busy]
  · rw [if_pos invalid, ite_self]
  · rw [if_pos beyond, ite_self, ite_self]
  · rw [if_neg (not_le.mpr inside)]
    split
    · rfl
    · split
      · rfl
      · split
        · rfl
        · split
          · rfl
          · rename_i info found
            rw [if_pos (blocked info found)]

theorem handleRequest_table (answer : CtlAnswer) (sent : Nat) (long : messageSize ≤ input.length)
    (passes : ¬ Refuses s k (decode (input.take messageSize))) :
    (messageInfosLength ≤ (decode (input.take messageSize)).type ∧
      s.handleRequest k input answer sent = s.fail .table) ∨
    (∃ info, (decode (input.take messageSize)).type < messageInfosLength ∧
      messageInfos (decode (input.take messageSize)).type = some info ∧
      s.handleRequest k input answer sent = s.dispatch k info (decode (input.take messageSize)) answer) := by
  obtain ⟨idle, valid, known, free⟩ : ¬ (s.conns k).busy ∧ ¬ ¬ validateRequest (decode (input.take messageSize)) ∧
      ¬ MessageId.exit.number < (decode (input.take messageSize)).type ∧ _ := by
    simpa only [Refuses, not_or] using passes
  unfold handleRequest
  rw [if_neg (not_lt.mpr long)]
  simp only [if_neg idle, if_neg valid, if_neg known]
  by_cases inside : (decode (input.take messageSize)).type < messageInfosLength
  · have open_info : ¬ ∀ info ∈ messageInfos (decode (input.take messageSize)).type, info.excl && s.busy :=
      fun blocked => free ⟨inside, blocked⟩
    simp only [if_neg (not_le.mpr inside)]
    cases found : messageInfos (decode (input.take messageSize)).type with
    | none => exact absurd (fun info member => by rw [found] at member; cases member) open_info
    | some info =>
        refine .inr ⟨info, inside, rfl, if_neg fun blocked => open_info fun other member => ?_⟩
        cases Option.some.inj (found.symm.trans member)
        exact blocked
  · exact .inl ⟨not_lt.mp inside, if_pos (not_lt.mp inside)⟩

theorem dispatch_judged (info : ControlInfo) (m : Message) (answer : CtlAnswer) (whole : Whole s) (alive : s.fault = none)
    (taken : s.owner k ≠ none) : (s.dispatch k info m answer).verdicts = .dispatched m.type :: s.verdicts ∧
    ((s.dispatch k info m answer).fault = none ↔ StaysInside info.handler answer.lookup m) := by
  have running : Whole (s.entered ⟨k, s.owner k, info, false⟩ m.type) := whole.entered taken
  have set : ((s.entered ⟨k, s.owner k, info, false⟩ m.type).conns k).info ≠ none := by
    have own := entered_info s ⟨k, s.owner k, info, false⟩ m.type
    rw [own]
    simp
  unfold dispatch
  simp only
  split
  · rename_i leaves
    exact ⟨rfl, iff_of_false (by simp [fail]) leaves⟩
  · rename_i stays
    have stays := not_not.mp stays
    split
    · exact ⟨rfl, iff_of_true alive stays⟩
    · have finished := finished (f := ⟨k, s.owner k, info, false⟩) answer running.1 alive set fun g member => List.mem_cons_of_mem _ member
      obtain ⟨-, fault, verdicts⟩ := finished.flags
      exact ⟨verdicts, iff_of_true (fault.trans alive) stays⟩

theorem handleRequest_judged (whole : Whole s) (alive : s.fault = none) (taken : s.owner k ≠ none)
    (empty : (s.conns k).prod = 0) :
    (Handles s k input answer → (s.handleRequest k input answer sent).fault = none ∧
      ∃ v : Verdict, v.Proper ∧ (s.handleRequest k input answer sent).verdicts = v :: s.verdicts) ∧
    (¬ Handles s k input answer → Lost (s.handleRequest k input answer sent)) := by
  by_cases long : messageSize ≤ input.length
  · by_cases refuses : Refuses s k (decode (input.take messageSize))
    · rw [handleRequest_refuse long refuses]
      have handles_iff : Handles s k input answer ↔ (s.conns k).info ≠ none := by
        unfold Handles
        rw [if_pos refuses]
        exact and_iff_right long
      rw [handles_iff]
      constructor
      · intro set
        have refused := refused sent whole.1 alive set
        obtain ⟨count, verdicts, size⟩ := refused.verdicts
        exact ⟨refused.same.2.2.2.trans alive, .answered count true, ⟨size empty, rfl⟩, verdicts⟩
      · intro unset
        rw [refuse_unset (not_not.mp unset)]
        exact .inl (by simp [fail])
    · have handles_iff : Handles s k input answer ↔ Defined (decode (input.take messageSize)) answer := by
        unfold Handles
        rw [if_neg refuses]
        exact and_iff_right long
      rw [handles_iff]
      rcases handleRequest_table answer sent long refuses with
        ⟨beyond, result⟩ | ⟨info, inside, found, result⟩
      · rw [result]
        exact ⟨fun defined => absurd defined.1 (not_lt.mpr beyond), fun _ => .inl (by simp [fail])⟩
      · rw [result]
        obtain ⟨verdicts, fault⟩ := dispatch_judged info (decode (input.take messageSize)) answer whole alive taken
        constructor
        · intro defined
          have entry : (messageInfos (decode (input.take messageSize)).type).isSome := by
            rw [found]
            rfl
          exact ⟨fault.mpr (defined.2 info found), .dispatched _, ⟨inside, entry⟩, verdicts⟩
        · intro undefined
          refine .inl fun none => undefined ⟨inside, fun other member => ?_⟩
          cases Option.some.inj (found.symm.trans member)
          exact fault.mp none
  · refine ⟨fun handles => absurd handles.1 long, fun _ => .inr ?_⟩
    exact short_dropped (not_le.mp long)

theorem kept_verdicts {e : CtlStep} (whole : Whole s) (action : step s e = some t)
    (other : ∀ id input answer sent, e ≠ .request id input answer sent) :
    t.fault = none ∧ t.verdicts = s.verdicts := by
  have alive := step_alive action
  unfold step at action
  split at action
  · cases action
  · cases e with
    | accept fd outOk inOk =>
        simp only at action
        split at action
        · cases action
        · cases Option.some.inj action
          unfold accept
          split
          · exact ⟨alive, rfl⟩
          · split
            · exact ⟨alive, rfl⟩
            · simp only
              split
              · unfold openIn
                split <;> exact ⟨alive, rfl⟩
              · exact ⟨alive, rfl⟩
    | request id input answer sent => exact absurd rfl (other id input answer sent)
    | send id sent ending timeout =>
        obtain ⟨e, found, rest⟩ := Option.bind_eq_some_iff.mp action
        obtain ⟨member, callback, unmasked⟩ := dispatchable_eq found
        simp only at rest
        split at rest
        · cases Option.some.inj rest
          have sent := sent_sendEvent sent ending timeout whole member callback unmasked
          exact ⟨sent.keeps.fault.trans alive, sent.keeps.verdicts⟩
        · cases rest
    | resume r answer =>
        obtain ⟨f, rest, frames, result⟩ := resume_cases action
        rcases result with rfl | rfl | rfl
        · exact ⟨alive, rfl⟩
        · have inside : ∀ g ∈ rest, g ∈ s.frames := fun g inside => frames ▸ List.mem_cons_of_mem _ inside
          have finished := finished answer whole.1 alive
            (whole.1.frames f (frames ▸ List.mem_cons_self)) inside
          exact ⟨finished.flags.2.1.trans alive, finished.flags.2.2⟩
        · exact ⟨alive, rfl⟩

theorem request_judged {id : Nat} (whole : Whole s) (action : step s (.request id input answer sent) = some t) :
    (Meets s (.request id input answer sent) → t.fault = none ∧ ∃ v : Verdict, v.Proper ∧ t.verdicts = v :: s.verdicts) ∧
      (¬ Meets s (.request id input answer sent) → Lost t) := by
  have alive := step_alive action
  unfold step at action
  split at action
  · cases action
  · obtain ⟨e, found, rfl⟩ := Option.map_eq_some_iff.mp action
    obtain ⟨member, callback, -⟩ := dispatchable_eq found
    have empty := (whole.2 e.slot e member callback rfl).1
    have meets_iff : Meets s (.request id input answer sent) ↔ s.Handles e.slot input answer := by
      change (∀ e ∈ s.dispatchable id .request, s.Handles e.slot input answer) ↔ _
      rw [found]
      simp
    rw [meets_iff]
    exact handleRequest_judged whole alive (whole.1.request e member callback).1 empty

theorem Total.step {e : CtlStep} (whole : Whole s) (total : s.Total) (meets : Meets s e) (action : step s e = some t) :
    t.Total := by
  cases e with
  | request id input answer sent =>
      obtain ⟨fault, v, proper, verdicts⟩ := (request_judged whole action).1 meets
      refine ⟨fault, fun w member => ?_⟩
      rw [verdicts] at member
      rcases List.mem_cons.mp member with rfl | old
      · exact proper
      · exact total.2 w old
  | accept | send | resume =>
      obtain ⟨fault, verdicts⟩ := kept_verdicts whole action nofun
      exact ⟨fault, verdicts ▸ total.2⟩

theorem Lost.step {e : CtlStep} (whole : Whole s) (lost : Lost s) (action : step s e = some t) : Lost t := by
  have dropped := lost.resolve_left fun fault => fault (step_alive action)
  cases e with
  | request id input answer sent =>
      by_cases meets : Meets s (.request id input answer sent)
      · obtain ⟨-, v, -, verdicts⟩ := (request_judged whole action).1 meets
        exact .inr (verdicts ▸ List.mem_cons_of_mem _ dropped)
      · exact (request_judged whole action).2 meets
  | accept | send | resume => exact .inr ((kept_verdicts whole action nofun).2 ▸ dropped)

end Control
end Blktap.Tapdisk
