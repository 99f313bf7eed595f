/-! # Results of C functions -/

namespace Blktap.Lib

inductive Outcome (α : Type)
  | ok (value : α)
  | error (code : Int)
  | undefined
  deriving DecidableEq

namespace Outcome
variable {α β γ : Type}

def bind : Outcome α → (α → Outcome β) → Outcome β
  | ok value, f => f value
  | error code, _ => error code
  | undefined, _ => undefined

instance : Monad Outcome where
  pure := ok
  bind := bind

@[simp] theorem pure_eq (value : α) : (pure value : Outcome α) = ok value := rfl

@[simp] theorem ok_bind (value : α) (f : α → Outcome β) : (ok value >>= f) = f value := rfl

@[simp] theorem error_bind (code : Int) (f : α → Outcome β) : (error code >>= f) = error code := rfl

@[simp] theorem undefined_bind (f : α → Outcome β) : (undefined >>= f) = undefined := rfl

@[simp] theorem bind_ok (x : Outcome α) : (x >>= ok) = x := by cases x <;> rfl

theorem bind_eq_ok {x : Outcome α} {f : α → Outcome β} {b : β} :
    (x >>= f) = ok b ↔ ∃ a, x = ok a ∧ f a = ok b := by
  cases x <;> simp

theorem bind_defined {x : Outcome α} {f : α → Outcome β} (first : x ≠ undefined)
    (rest : ∀ a, x = ok a → f a ≠ undefined) : (x >>= f) ≠ undefined := by
  cases x with
  | ok a => exact rest a rfl
  | error code => simp
  | undefined => exact absurd rfl first

def isOk : Outcome α → Bool
  | ok _ => true
  | _ => false

theorem isOk_iff {x : Outcome α} : x.isOk = true ↔ ∃ a, x = ok a := by
  cases x <;> simp [isOk]

/-- The function returns a value that meets `p`. -/
def meets (p : α → Bool) : Outcome α → Bool
  | ok value => p value
  | _ => false

theorem meets_iff {p : α → Bool} {x : Outcome α} :
    x.meets p = true ↔ ∃ a, x = ok a ∧ p a = true := by
  cases x <;> simp [meets]

end Outcome

end Blktap.Lib
