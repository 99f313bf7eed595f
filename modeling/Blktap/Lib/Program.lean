/-!
# Programs with a state that may fault

`wp m post stop s` says that `m`, started in `s`, ends in a value and a state that meet `post`, or
stops with a fault that meets `stop`. `Keeps inv stop m` is the case of an invariant.
-/

namespace Blktap.Lib
variable {ε σ α β : Type}

abbrev Program (ε σ : Type) := StateT σ (Except ε)

namespace Program

def when (c : Prop) [Decidable c] (m : Program ε σ PUnit) : Program ε σ PUnit :=
  if c then m else pure ⟨⟩

def wp (m : Program ε σ α) (post : α → σ → Prop) (stop : ε → Prop) (s : σ) : Prop :=
  match m s with
  | .ok (a, t) => post a t
  | .error e => stop e

variable {m : Program ε σ α} {f : α → Program ε σ β} {post post' : α → σ → Prop}
  {next : β → σ → Prop} {stop stop' : ε → Prop} {s : σ}

@[simp] theorem wp_pure (a : α) : wp (pure a : Program ε σ α) post stop s ↔ post a s := Iff.rfl

@[simp] theorem wp_bind :
    wp (m >>= f) next stop s ↔ wp m (fun a t => wp (f a) next stop t) stop s := by
  change (match (m s >>= fun p => f p.1 p.2) with
    | .ok (a, t) => next a t
    | .error e => stop e) ↔ _
  unfold wp
  cases m s <;> rfl

@[simp] theorem wp_map (g : α → β) :
    wp (g <$> m) next stop s ↔ wp m (fun a t => next (g a) t) stop s := by
  change (match (m s >>= fun p => pure (g p.1, p.2)) with
    | .ok (a, t) => next a t
    | .error e => stop e) ↔ _
  unfold wp
  cases m s <;> rfl

@[simp] theorem wp_get {post : σ → σ → Prop} :
    wp (get : Program ε σ σ) post stop s ↔ post s s := Iff.rfl

@[simp] theorem wp_set {post : PUnit → σ → Prop} (t : σ) :
    wp (set t : Program ε σ PUnit) post stop s ↔ post ⟨⟩ t := Iff.rfl

@[simp] theorem wp_modify {post : PUnit → σ → Prop} (g : σ → σ) :
    wp (modify g : Program ε σ PUnit) post stop s ↔ post ⟨⟩ (g s) := Iff.rfl

@[simp] theorem wp_throw (e : ε) :
    wp (throw e : Program ε σ α) post stop s ↔ stop e := Iff.rfl

@[simp] theorem wp_ite (c : Prop) [Decidable c] (m' : Program ε σ α) :
    wp (if c then m else m') post stop s ↔
      (c → wp m post stop s) ∧ (¬ c → wp m' post stop s) := by
  split <;> simp_all

@[simp] theorem wp_when (c : Prop) [Decidable c] {m : Program ε σ PUnit}
    {post : PUnit → σ → Prop} :
    wp (when c m) post stop s ↔ (c → wp m post stop s) ∧ (¬ c → post ⟨⟩ s) :=
  wp_ite c (pure PUnit.unit : Program ε σ PUnit)

theorem wp.mono (run : wp m post stop s) (weaker : ∀ a t, post a t → post' a t)
    (softer : ∀ e, stop e → stop' e) : wp m post' stop' s := by
  unfold wp at *
  cases action : m s with
  | ok result =>
      rw [action] at run
      exact weaker _ _ run
  | error e =>
      rw [action] at run
      exact softer _ run

theorem wp.imp (run : wp m post stop s) (weaker : ∀ a t, post a t → post' a t) :
    wp m post' stop s :=
  run.mono weaker fun _ h => h

theorem wp.ok {a : α} {t : σ} (run : wp m post stop s) (action : m s = .ok (a, t)) : post a t := by
  unfold wp at run
  rwa [action] at run

theorem wp.error {e : ε} (run : wp m post stop s) (action : m s = .error e) : stop e := by
  unfold wp at run
  rwa [action] at run

/-- `m` keeps the invariant, unless it stops. -/
def Keeps (inv : σ → Prop) (stop : ε → Prop) (m : Program ε σ α) : Prop :=
  ∀ s, inv s → wp m (fun _ => inv) stop s

variable {inv : σ → Prop}

theorem Keeps.pure (a : α) : Keeps inv stop (Pure.pure a : Program ε σ α) := fun _ h => h

theorem Keeps.throw {e : ε} (stops : stop e) : Keeps inv stop (MonadExcept.throw e : Program ε σ α) :=
  fun _ _ => stops

theorem Keeps.bind (first : Keeps inv stop m) (rest : ∀ a, Keeps inv stop (f a)) :
    Keeps inv stop (m >>= f) :=
  fun s h => wp_bind.mpr ((first s h).imp fun a t => rest a t)

theorem Keeps.ite (c : Prop) [Decidable c] {m' : Program ε σ α} (yes : c → Keeps inv stop m)
    (no : ¬ c → Keeps inv stop m') : Keeps inv stop (if c then m else m') := by
  split
  · exact yes ‹_›
  · exact no ‹_›

theorem Keeps.when (c : Prop) [Decidable c] {m : Program ε σ PUnit} (yes : c → Keeps inv stop m) :
    Keeps inv stop (Program.when c m) :=
  Keeps.ite c yes fun _ => Keeps.pure _

theorem Keeps.read {f : σ → Program ε σ β}
    (each : ∀ s, inv s → wp (f s) (fun _ => inv) stop s) :
    Keeps inv stop (MonadState.get >>= f) :=
  fun s h => wp_bind.mpr (each s h)

theorem Keeps.modify {g : σ → σ} (step : ∀ s, inv s → inv (g s)) :
    Keeps inv stop (modifyGet fun s => (⟨⟩, g s) : Program ε σ PUnit) :=
  fun s h => step s h

theorem Keeps.forM {γ : Type} {f : γ → Program ε σ PUnit} (list : List γ)
    (each : ∀ x ∈ list, Keeps inv stop (f x)) : Keeps inv stop (list.forM f) := by
  induction list with
  | nil => exact Keeps.pure _
  | cons x xs ih =>
      apply Keeps.bind (each x List.mem_cons_self)
      intro _
      exact ih fun y member => each y (List.mem_cons_of_mem _ member)

end Program

end Blktap.Lib
