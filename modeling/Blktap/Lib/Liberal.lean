import Blktap.Lib.Action

/-!
# What functions leave when their behaviour is defined

`wlp m post fail s` says that `post` holds when `m`, started in `s`, returns a value, and `fail` when it returns a
code. It promises less than `wp`: `m` may have undefined behaviour.
-/

namespace Blktap.Lib.Action
variable {σ α β : Type}

def wlp (m : Action σ α) (post : α → σ → Prop) (fail : Int → σ → Prop) (s : σ) : Prop :=
  match m s with
  | (.ok a, t) => post a t
  | (.error code, t) => fail code t
  | (.undefined, _) => True

variable {m : Action σ α} {f : α → Action σ β} {post post' : α → σ → Prop} {next : β → σ → Prop}
  {stop stop' : Int → σ → Prop} {s : σ}

@[simp] theorem wlp_pure (a : α) : wlp (pure a : Action σ α) post stop s ↔ post a s := Iff.rfl

@[simp] theorem wlp_bind :
    wlp (m >>= f) next stop s ↔ wlp m (fun a t => wlp (f a) next stop t) stop s := by
  change (match (match m s with
    | (.ok a, t) => f a t
    | (.error code, t) => (.error code, t)
    | (.undefined, t) => (.undefined, t)) with
    | (.ok b, t) => next b t
    | (.error code, t) => stop code t
    | (.undefined, _) => True) ↔ _
  unfold wlp
  rcases m s with ⟨_ | _ | _, t⟩ <;> rfl

@[simp] theorem wlp_get {post : σ → σ → Prop} : wlp get post stop s ↔ post s s := Iff.rfl

@[simp] theorem wlp_modify {post : Unit → σ → Prop} (g : σ → σ) :
    wlp (modify g) post stop s ↔ post () (g s) := Iff.rfl

@[simp] theorem wlp_fail (code : Int) : wlp (fail code : Action σ α) post stop s ↔ stop code s := Iff.rfl

@[simp] theorem wlp_undefined : wlp (undefined : Action σ α) post stop s := trivial

theorem wlp_lift {x : Outcome α} (returns : ∀ a, x = .ok a → post a s) (fails : ∀ code, x = .error code → stop code s) :
    wlp (lift x) post stop s := by
  cases x with
  | ok a => exact returns a rfl
  | error code => exact fails code rfl
  | undefined => trivial

@[simp] theorem wlp_attempt {post : Except Int α → σ → Prop} :
    wlp (attempt m) post stop s ↔
      wlp m (fun a t => post (.ok a) t) (fun code t => post (.error code) t) s := by
  unfold wlp attempt
  rcases m s with ⟨_ | _ | _, t⟩ <;> rfl

@[simp] theorem wlp_ite (c : Prop) [Decidable c] (m' : Action σ α) :
    wlp (if c then m else m') post stop s ↔ (c → wlp m post stop s) ∧ (¬ c → wlp m' post stop s) := by
  split <;> simp_all

@[simp] theorem wlp_when (c : Prop) [Decidable c] {m : Action σ Unit} {post : Unit → σ → Prop} :
    wlp (when c m) post stop s ↔ (c → wlp m post stop s) ∧ (¬ c → post () s) :=
  wlp_ite c (pure () : Action σ Unit)

theorem wlp.mono (run : wlp m post stop s) (weaker : ∀ a t, post a t → post' a t)
    (softer : ∀ code t, stop code t → stop' code t) : wlp m post' stop' s := by
  unfold wlp at *
  revert run
  rcases m s with ⟨_ | _ | _, t⟩
  · exact weaker _ _
  · exact softer _ _
  · exact id

theorem wlp.and {other : α → σ → Prop} {other' : Int → σ → Prop} (first : wlp m post stop s)
    (second : wlp m other other' s) :
    wlp m (fun a t => post a t ∧ other a t) (fun code t => stop code t ∧ other' code t) s := by
  unfold wlp at *
  revert first second
  rcases m s with ⟨_ | _ | _, t⟩
  · exact And.intro
  · exact And.intro
  · exact fun _ _ => trivial

theorem wlp.ok {a : α} {t : σ} (run : wlp m post stop s) (action : m s = (.ok a, t)) : post a t := by
  unfold wlp at run
  rwa [action] at run

theorem wp.wlp (run : wp m post stop s) : wlp m post stop s := by
  unfold Action.wp at run
  unfold Action.wlp
  revert run
  rcases m s with ⟨_ | _ | _, t⟩
  · exact id
  · exact id
  · exact False.elim

theorem wlp_state : wlp m (fun _ t => t = (m s).2) (fun _ t => t = (m s).2) s := by
  unfold wlp
  rcases m s with ⟨_ | _ | _, t⟩
  · rfl
  · rfl
  · trivial

theorem Steps.wlp {R : σ → σ → Prop} (steps : Steps R m) : wlp m (fun _ t => R s t) (fun _ t => R s t) s := by
  have steps := steps s
  unfold Action.wlp
  revert steps
  rcases m s with ⟨_ | _ | _, t⟩
  · exact id
  · exact id
  · exact fun _ => trivial

end Blktap.Lib.Action
