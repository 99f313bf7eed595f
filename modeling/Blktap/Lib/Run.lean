import Mathlib.Logic.Relation

/-!
# Runs of a partial step function

`step s e` is the state after event `e`, or `none` when the program has no defined behaviour there
(it aborts, or reads memory it does not own). A `Run` is a finite sequence of defined steps, each
of which meets a condition on the state before it.
-/

namespace Blktap.Lib
universe u v
variable {σ : Type u} {ε : Type v} {step : σ → ε → Option σ} {ok ok' : σ → ε → Prop} {s t w : σ}

inductive Run (step : σ → ε → Option σ) (ok : σ → ε → Prop) : σ → σ → Prop
  | refl (s : σ) : Run step ok s s
  | snoc {s t w : σ} {e : ε} : Run step ok s t → ok t e → step t e = some w → Run step ok s w

theorem Run.single {e : ε} (good : ok s e) (action : step s e = some t) : Run step ok s t :=
  .snoc (.refl s) good action

theorem Run.trans (first : Run step ok s t) (second : Run step ok t w) : Run step ok s w := by
  induction second with
  | refl => exact first
  | snoc _ good action ih => exact .snoc ih good action

theorem Run.invariant {I : σ → Prop}
    (keep : ∀ s e t, I s → ok s e → step s e = some t → I t)
    (run : Run step ok s t) (init : I s) : I t := by
  induction run with
  | refl => exact init
  | snoc _ good action ih => exact keep _ _ _ ih good action

inductive Trace (step : σ → ε → Option σ) (ok : σ → ε → Prop) : σ → List ε → σ → Prop
  | nil (s : σ) : Trace step ok s [] s
  | cons {s t w : σ} {e : ε} {events : List ε} : ok s e → step s e = some t →
      Trace step ok t events w → Trace step ok s (e :: events) w

theorem Trace.invariant {I : σ → Prop} {events : List ε}
    (keep : ∀ s e t, I s → ok s e → step s e = some t → I t)
    (trace : Trace step ok s events t) (init : I s) : I t := by
  induction trace with
  | nil => exact init
  | cons good action _ ih => exact ih (keep _ _ _ init good action)

/-- Where a step that is not `ok` breaks something that stays broken, a trace ends right exactly when all
its steps are `ok`. -/
theorem Trace.right_iff {Good Broken Right : σ → Prop} {events : List ε}
    (keep : ∀ s e t, Good s → ok s e → step s e = some t → Good t)
    (breaks : ∀ s e t, Good s → ¬ ok s e → step s e = some t → Broken t)
    (stays : ∀ s e t, Broken s → step s e = some t → Broken t)
    (right : ∀ s, Good s → Right s) (wrong : ∀ s, Broken s → ¬ Right s)
    (trace : Trace step ok' s events t) (init : Good s) : Right t ↔ Trace step ok s events t := by
  induction trace with
  | nil s => exact iff_of_true (right s init) (.nil s)
  | @cons s mid w e events _ action rest ih =>
      by_cases good : ok s e
      · rw [ih (keep _ _ _ init good action)]
        refine ⟨.cons good action, fun trace => ?_⟩
        cases trace with
        | cons _ action' rest' =>
            cases action.symm.trans action'
            exact rest'
      · have broken : Broken w :=
          rest.invariant (fun _ _ _ broken _ action => stays _ _ _ broken action)
            (breaks _ _ _ init good action)
        refine iff_of_false (wrong w broken) fun trace => ?_
        cases trace with
        | cons good' _ _ => exact good good'

def runEvents (step : σ → ε → Option σ) : σ → List ε → Option σ
  | s, [] => some s
  | s, e :: es => (step s e).bind fun t => runEvents step t es

theorem run_of_runEvents (events : List ε) (free : ∀ s e, ok s e)
    (action : runEvents step s events = some t) : Run step ok s t := by
  induction events generalizing s with
  | nil =>
      cases Option.some.inj action
      exact .refl _
  | cons e es ih =>
      obtain ⟨mid, first, rest⟩ := Option.bind_eq_some_iff.mp action
      exact (Run.single (free _ _) first).trans (ih rest)

/-- The step where it is `ok`. -/
def guarded (step : σ → ε → Option σ) (ok : σ → ε → Prop) [∀ s e, Decidable (ok s e)] (s : σ) (e : ε) :
    Option σ := if ok s e then step s e else none

theorem trace_of_guarded [∀ s e, Decidable (ok s e)] (events : List ε)
    (action : runEvents (guarded step ok) s events = some t) : Trace step ok s events t := by
  induction events generalizing s with
  | nil =>
      cases Option.some.inj action
      exact .nil _
  | cons e es ih =>
      obtain ⟨mid, first, rest⟩ := Option.bind_eq_some_iff.mp action
      unfold guarded at first
      split at first
      · exact .cons ‹_› first (ih rest)
      · cases first

theorem Trace.run {events : List ε} (trace : Trace step ok s events t) : Run step ok s t := by
  induction trace with
  | nil => exact .refl _
  | cons good action _ ih => exact (Run.single good action).trans ih

theorem Trace.mono {events : List ε} (weaker : ∀ s e, ok s e → ok' s e)
    (trace : Trace step ok s events t) : Trace step ok' s events t := by
  induction trace with
  | nil => exact .nil _
  | cons good action _ ih => exact .cons (weaker _ _ good) action ih

end Blktap.Lib
