import Mathlib.Logic.Basic
import Mathlib.Tactic.Cases

/-! # Loops -/

namespace Blktap.Lib
universe u v
variable {σ : Type u} {β : Type v} {body : σ → σ ⊕ β} {s t : σ} {b : β} {fuel : Nat}

/-- The value with which the loop is left within `fuel` turns. -/
def loop (body : σ → σ ⊕ β) : Nat → σ → Option β
  | 0, _ => none
  | fuel + 1, s =>
      match body s with
      | .inl next => loop body fuel next
      | .inr value => some value

def Ends (body : σ → σ ⊕ β) (s : σ) : Prop := ∃ fuel b, loop body fuel s = some b

theorem loop_next (next : body s = .inl t) : loop body (fuel + 1) s = loop body fuel t := by
  rw [loop, next]

theorem loop_leave (leave : body s = .inr b) : loop body (fuel + 1) s = some b := by
  rw [loop, leave]

theorem loop_mono {more : Nat} (result : loop body fuel s = some b) (less : fuel ≤ more) : loop body more s = some b := by
  induction fuel generalizing s more with
  | zero => cases result
  | succ fuel ih =>
      obtain ⟨more, rfl⟩ := Nat.exists_eq_succ_of_ne_zero (Nat.ne_of_gt (Nat.lt_of_lt_of_le (Nat.succ_pos fuel) less))
      cases turn : body s with
      | inl t =>
          rw [loop_next turn] at result ⊢
          exact ih result (Nat.le_of_succ_le_succ less)
      | inr c =>
          rw [loop_leave turn] at result ⊢
          exact result

theorem loop_unique {c : β} {fuel' : Nat} (result : loop body fuel s = some b) (result' : loop body fuel' s = some c) :
    b = c :=
  Option.some.inj ((loop_mono result (Nat.le_add_right fuel fuel')).symm.trans
    (loop_mono result' (Nat.le_add_left fuel' fuel)))

theorem Ends.leave (leave : body s = .inr b) : Ends body s := ⟨1, b, loop_leave leave⟩

theorem Ends.next (next : body s = .inl t) (ends : Ends body t) : Ends body s := by
  obtain ⟨fuel, b, result⟩ := ends
  exact ⟨fuel + 1, b, (loop_next next).trans result⟩

theorem loop_meets {I : σ → Prop} {P : β → Prop} (keep : ∀ s t, I s → body s = .inl t → I t)
    (leave : ∀ s b, I s → body s = .inr b → P b) (init : I s) (result : loop body fuel s = some b) : P b := by
  induction fuel generalizing s with
  | zero => cases result
  | succ fuel ih =>
      cases turn : body s with
      | inl t => exact ih (keep s t init turn) ((loop_next turn).symm.trans result)
      | inr c =>
          cases (loop_leave turn).symm.trans result
          exact leave s _ init turn

theorem ends_of_measure {I : σ → Prop} (measure : σ → Nat)
    (keep : ∀ s t, I s → body s = .inl t → I t ∧ measure t < measure s) (init : I s) : Ends body s := by
  induction size : measure s using Nat.strongRecOn generalizing s with
  | ind size' ih =>
      subst size
      cases turn : body s with
      | inl t =>
          obtain ⟨next, less⟩ := keep s t init turn
          exact .next turn (ih _ less next rfl)
      | inr b => exact .leave turn

theorem not_ends {I : σ → Prop} (keep : ∀ s, I s → ∃ t, body s = .inl t ∧ I t) (init : I s) : ¬ Ends body s := by
  rintro ⟨fuel, b, result⟩
  induction fuel generalizing s with
  | zero => cases result
  | succ fuel ih =>
      obtain ⟨t, next, stays⟩ := keep s init
      exact ih stays ((loop_next next).symm.trans result)

end Blktap.Lib
