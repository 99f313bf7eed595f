import Mathlib.Data.List.Forall2
import Mathlib.Order.Defs.Unbundled
import Blktap.Lib.Outcome

/-!
# Functions that work on a state and may fail

A failing function leaves the state as it is when it returns its error code. `wp m post fail s` says
that `m`, started in `s`, has defined behaviour, that `post` holds when it returns a value and `fail`
when it returns a code.
-/

namespace Blktap.Lib
variable {σ α β : Type}

def Action (σ α : Type) := σ → Outcome α × σ

namespace Action

instance : Monad (Action σ) where
  pure a := fun s => (.ok a, s)
  bind m f := fun s =>
    match m s with
    | (.ok a, t) => f a t
    | (.error code, t) => (.error code, t)
    | (.undefined, t) => (.undefined, t)

def get : Action σ σ := fun s => (.ok s, s)

def modify (g : σ → σ) : Action σ Unit := fun s => (.ok (), g s)

def fail (code : Int) : Action σ α := fun s => (.error code, s)

def undefined : Action σ α := fun s => (.undefined, s)

def lift (x : Outcome α) : Action σ α := fun s => (x, s)

def attempt (m : Action σ α) : Action σ (Except Int α) := fun s =>
  match m s with
  | (.ok a, t) => (.ok (.ok a), t)
  | (.error code, t) => (.ok (.error code), t)
  | (.undefined, t) => (.undefined, t)

/-- `if (c) m;` -/
def when (c : Prop) [Decidable c] (m : Action σ Unit) : Action σ Unit :=
  if c then m else pure ()

def wp (m : Action σ α) (post : α → σ → Prop) (fail : Int → σ → Prop) (s : σ) : Prop :=
  match m s with
  | (.ok a, t) => post a t
  | (.error code, t) => fail code t
  | (.undefined, _) => False

variable {m : Action σ α} {f : α → Action σ β} {post post' : α → σ → Prop} {next : β → σ → Prop}
  {stop stop' : Int → σ → Prop} {s : σ}

@[simp] theorem wp_pure (a : α) : wp (pure a : Action σ α) post stop s ↔ post a s := Iff.rfl

@[simp] theorem wp_bind :
    wp (m >>= f) next stop s ↔ wp m (fun a t => wp (f a) next stop t) stop s := by
  change (match (match m s with
    | (.ok a, t) => f a t
    | (.error code, t) => (.error code, t)
    | (.undefined, t) => (.undefined, t)) with
    | (.ok b, t) => next b t
    | (.error code, t) => stop code t
    | (.undefined, _) => False) ↔ _
  unfold wp
  rcases m s with ⟨_ | _ | _, t⟩ <;> rfl

@[simp] theorem wp_get {post : σ → σ → Prop} : wp get post stop s ↔ post s s := Iff.rfl

@[simp] theorem wp_modify {post : Unit → σ → Prop} (g : σ → σ) :
    wp (modify g) post stop s ↔ post () (g s) := Iff.rfl

@[simp] theorem wp_fail (code : Int) : wp (fail code : Action σ α) post stop s ↔ stop code s :=
  Iff.rfl

@[simp] theorem wp_lift_ok (a : α) : wp (lift (.ok a)) post stop s ↔ post a s := Iff.rfl

@[simp] theorem wp_lift_error (code : Int) :
    wp (lift (.error code) : Action σ α) post stop s ↔ stop code s := Iff.rfl

theorem wp_lift {x : Outcome α} (defined : x ≠ .undefined) (returns : ∀ a, x = .ok a → post a s)
    (fails : ∀ code, x = .error code → stop code s) : wp (lift x) post stop s := by
  cases x with
  | ok a => exact returns a rfl
  | error code => exact fails code rfl
  | undefined => exact absurd rfl defined

@[simp] theorem wp_attempt {post : Except Int α → σ → Prop} :
    wp (attempt m) post stop s ↔
      wp m (fun a t => post (.ok a) t) (fun code t => post (.error code) t) s := by
  unfold wp attempt
  rcases m s with ⟨_ | _ | _, t⟩ <;> rfl

@[simp] theorem wp_ite (c : Prop) [Decidable c] (m' : Action σ α) :
    wp (if c then m else m') post stop s ↔
      (c → wp m post stop s) ∧ (¬ c → wp m' post stop s) := by
  split <;> simp_all

@[simp] theorem wp_when (c : Prop) [Decidable c] {m : Action σ Unit} {post : Unit → σ → Prop} :
    wp (when c m) post stop s ↔ (c → wp m post stop s) ∧ (¬ c → post () s) :=
  wp_ite c (pure () : Action σ Unit)

theorem wp.mono (run : wp m post stop s) (weaker : ∀ a t, post a t → post' a t)
    (softer : ∀ code t, stop code t → stop' code t) : wp m post' stop' s := by
  unfold wp at *
  revert run
  rcases m s with ⟨_ | _ | _, t⟩
  · exact weaker _ _
  · exact softer _ _
  · exact id

theorem wp.imp (run : wp m post stop s) (weaker : ∀ a t, post a t → post' a t) :
    wp m post' stop s :=
  run.mono weaker fun _ _ h => h

theorem wp.and {other : α → σ → Prop} {other' : Int → σ → Prop} (first : wp m post stop s)
    (second : wp m other other' s) :
    wp m (fun a t => post a t ∧ other a t) (fun code t => stop code t ∧ other' code t) s := by
  unfold wp at *
  revert first second
  rcases m s with ⟨_ | _ | _, t⟩
  · exact And.intro
  · exact And.intro
  · exact fun first _ => first

theorem wp.ok {a : α} {t : σ} (run : wp m post stop s) (action : m s = (.ok a, t)) : post a t := by
  unfold wp at run
  rwa [action] at run

theorem wp.error {code : Int} {t : σ} (run : wp m post stop s)
    (action : m s = (.error code, t)) : stop code t := by
  unfold wp at run
  rwa [action] at run

theorem eq_pair {result : Outcome α} (returns : (m s).1 = result) : m s = (result, (m s).2) :=
  Prod.ext returns rfl

section Returns
variable {t u : σ} {b : β} {a : α}

theorem bind_ok : (m >>= f) s = (.ok b, u) ↔ ∃ a t, m s = (.ok a, t) ∧ f a t = (.ok b, u) := by
  change (match m s with
    | (.ok a, t) => f a t
    | (.error code, t) => (.error code, t)
    | (.undefined, t) => (.undefined, t)) = _ ↔ _
  rcases m s with ⟨_ | _ | _, t⟩
  · constructor
    · exact fun action => ⟨_, _, rfl, action⟩
    · rintro ⟨_, _, same, action⟩
      cases same
      exact action
  · simp
  · simp

theorem bind_error {code : Int} (fails : m s = (.error code, t)) : (m >>= f) s = (.error code, t) := by
  change (match m s with
    | (.ok a, t) => f a t
    | (.error code, t) => (.error code, t)
    | (.undefined, t) => (.undefined, t)) = _
  rw [fails]

theorem bind_snd {γ : Type} (view : σ → γ) (rest : ∀ a t, view (f a t).2 = view t) (s : σ) :
    view ((m >>= f) s).2 = view (m s).2 := by
  change view (match m s with
    | (.ok a, t) => f a t
    | (.error code, t) => (.error code, t)
    | (.undefined, t) => (.undefined, t)).2 = _
  rcases m s with ⟨a | code | _, t⟩
  · exact rest a t
  · rfl
  · rfl

theorem attempt_ok (returns : m s = (.ok a, t)) : attempt m s = (.ok (.ok a), t) := by
  unfold attempt
  rw [returns]

theorem attempt_error {code : Int} (fails : m s = (.error code, t)) : attempt m s = (.ok (.error code), t) := by
  unfold attempt
  rw [fails]

theorem attempt_undefined (stops : m s = (.undefined, t)) : attempt m s = (.undefined, t) := by
  unfold attempt
  rw [stops]

theorem ok_bind (returns : m s = (.ok a, t)) : (m >>= f) s = f a t := by
  change (match m s with
    | (.ok a, t) => f a t
    | (.error code, t) => (.error code, t)
    | (.undefined, t) => (.undefined, t)) = _
  rw [returns]

theorem bind_undefined (stops : m s = (.undefined, t)) : (m >>= f) s = (.undefined, t) := by
  change (match m s with
    | (.ok a, t) => f a t
    | (.error code, t) => (.error code, t)
    | (.undefined, t) => (.undefined, t)) = _
  rw [stops]

theorem bind_congr {m' : Action σ α} (same : m s = m' s) : (m >>= f) s = (m' >>= f) s := by
  change (match m s with
    | (.ok a, t) => f a t
    | (.error code, t) => (.error code, t)
    | (.undefined, t) => (.undefined, t)) = _
  rw [same]
  rfl

theorem get_bind (f : σ → Action σ β) : (get >>= f) s = f s s := rfl

theorem lift_ok_bind (a : α) (f : α → Action σ β) : (lift (.ok a) >>= f) s = f a s := rfl

theorem lift_error_bind (code : Int) (f : α → Action σ β) :
    (lift (.error code) >>= f) s = (.error code, s) := rfl

theorem modify_bind (g : σ → σ) (f : Unit → Action σ β) : (modify g >>= f) s = f () (g s) := rfl

@[simp] theorem pure_ok {c : α} : (pure a : Action σ α) s = (.ok c, t) ↔ a = c ∧ s = t := by
  change (Outcome.ok a, s) = (.ok c, t) ↔ _
  simp

@[simp] theorem modify_ok {g : σ → σ} : modify g s = (.ok (), t) ↔ g s = t := by
  change (Outcome.ok (), g s) = (.ok (), t) ↔ _
  simp

@[simp] theorem fail_ok {code : Int} : (fail code : Action σ α) s = (.ok a, t) ↔ False := by
  change (Outcome.error code, s) = (.ok a, t) ↔ _
  simp

@[simp] theorem undefined_ok : (undefined : Action σ α) s = (.ok a, t) ↔ False := by
  change (Outcome.undefined, s) = (.ok a, t) ↔ _
  simp

@[simp] theorem lift_ok {x : Outcome α} : lift x s = (.ok a, t) ↔ x = .ok a ∧ s = t := by
  change (x, s) = (.ok a, t) ↔ _
  simp

theorem when_ok {c : Prop} [Decidable c] {m : Action σ Unit} :
    when c m s = (.ok (), t) ↔ (c ∧ m s = (.ok (), t)) ∨ (¬ c ∧ s = t) := by
  unfold Action.when
  split
  · simp_all
  · rename_i absent
    simp [absent]

end Returns

/-- Whatever its result, the function goes to a state to which `R` relates the one it started in. -/
def Steps (R : σ → σ → Prop) (m : Action σ α) : Prop := ∀ s, R s (m s).2

section Steps
variable {R : σ → σ → Prop}

theorem Steps.wp (steps : Steps R m) (run : wp m post stop s) :
    Action.wp m (fun a t => post a t ∧ R s t) (fun code t => stop code t ∧ R s t) s := by
  have steps := steps s
  unfold Action.wp at *
  revert run steps
  rcases m s with ⟨_ | _ | _, t⟩
  · exact And.intro
  · exact And.intro
  · exact fun run _ => run

theorem Steps.attempt (steps : Steps R m) : Steps R (attempt m) := by
  intro s
  have steps := steps s
  unfold Action.attempt
  rcases action : m s with ⟨_ | _ | _, t⟩ <;> rw [action] at steps <;> exact steps

theorem Steps.modify {g : σ → σ} (steps : ∀ s, R s (g s)) : Steps R (modify g) := steps

theorem Steps.ite {c : Prop} [Decidable c] {m' : Action σ α} (first : Steps R m)
    (second : Steps R m') : Steps R (if c then m else m') := by
  split
  · exact first
  · exact second

theorem Steps.bind [IsTrans σ R] (first : Steps R m) (rest : ∀ a, Steps R (f a)) :
    Steps R (m >>= f) := by
  intro s
  have first := first s
  change R _ (match m s with
    | (.ok a, t) => f a t
    | (.error code, t) => (.error code, t)
    | (.undefined, t) => (.undefined, t)).2
  rcases action : m s with ⟨a | _ | _, t⟩ <;> rw [action] at first
  · exact IsTrans.trans _ _ _ first (rest a t)
  · exact first
  · exact first

variable [Std.Refl R]

theorem Steps.pure (a : α) : Steps R (Pure.pure a : Action σ α) := fun s => Std.Refl.refl s

theorem Steps.get : Steps R (get : Action σ σ) := fun s => Std.Refl.refl s

theorem Steps.fail (code : Int) : Steps R (fail code : Action σ α) := fun s => Std.Refl.refl s

theorem Steps.undefined : Steps R (undefined : Action σ α) := fun s => Std.Refl.refl s

theorem Steps.lift (x : Outcome α) : Steps R (lift x : Action σ α) := fun s => Std.Refl.refl s

theorem Steps.lift_bind {x : Outcome α} (rest : ∀ a, x = .ok a → Steps R (f a)) : Steps R (Action.lift x >>= f) := by
  intro s
  cases x with
  | ok a => exact rest a rfl s
  | error code => exact Std.Refl.refl s
  | undefined => exact Std.Refl.refl s

theorem Steps.when {c : Prop} [Decidable c] {m : Action σ Unit} (steps : Steps R m) :
    Steps R (when c m) :=
  .ite steps (.pure _)

end Steps

section Each
variable {τ ι : Type}

/-- The function is called for each element, up to the first error. -/
def each (m : Nat → Action τ Unit) : Nat → Action (List τ) Unit
  | _, [] => (.ok (), [])
  | i, t :: rest =>
      match m i t with
      | (.ok _, u) => ((each m (i + 1) rest).1, u :: (each m (i + 1) rest).2)
      | (failed, u) => (failed, u :: rest)

theorem wp_each {m : Nat → Action τ Unit} {before after stopped : ι → τ → Prop} {starts : List ι} {nows : List τ}
    {i : Nat} (step : ∀ i a t, before a t → wp (m i) (fun _ u => after a u) (fun _ u => stopped a u) t)
    (earlier : ∀ a t, after a t → stopped a t) (later : ∀ a t, before a t → stopped a t)
    (all : List.Forall₂ before starts nows) :
    wp (each m i) (fun _ nows => List.Forall₂ after starts nows) (fun _ nows => List.Forall₂ stopped starts nows)
      nows := by
  induction all generalizing i with
  | nil => exact List.Forall₂.nil
  | @cons a t starts nows here rest ih =>
      have first := step i a t here
      have others := @ih (i + 1)
      unfold wp at *
      unfold each
      revert first
      rcases m i t with ⟨_ | _ | _, u⟩
      · intro first
        dsimp only
        revert others
        rcases each m (i + 1) nows with ⟨_ | _ | _, us⟩
        · exact fun others => .cons first others
        · exact fun others => .cons (earlier a u first) others
        · exact id
      · exact fun first => .cons first (rest.imp later)
      · exact id

end Each

end Action

end Blktap.Lib
