import CoffWorks.Failure

namespace CoffWorks

/-- Changes of a state: what was done to it before a failure stays done. -/
abbrev InPlace (σ : Type) := ExceptT Failure (StateM σ)

namespace Attempt

variable {α β : Type}

theorem ok_bind (a : α) (f : α → Attempt β) : ((.ok a : Attempt α) >>= f) = f a := rfl

theorem error_bind (e : Failure) (f : α → Attempt β) : ((.error e : Attempt α) >>= f) = .error e := rfl

theorem pure_eq_ok (a : α) : (pure a : Attempt α) = .ok a := rfl

end Attempt

namespace InPlace

variable {σ α β : Type} (s : σ)

def perform (x : InPlace σ α) (s : σ) : Attempt α × σ := x.run.run s

/-- Go on with the result and the state, unless there was a failure. -/
def andThen : Attempt α × σ → (α → σ → Attempt β × σ) → Attempt β × σ
  | (.ok a, s), next => next a s
  | (.error e, s), _ => (.error e, s)

/-- The new state of an attempt, or the old one if it failed. -/
def keep : Attempt (α × σ) → Attempt α × σ
  | .ok (a, s') => (.ok a, s')
  | .error e => (.error e, s)

@[simp] theorem andThen_ok (a : α) (next : α → σ → Attempt β × σ) : andThen (.ok a, s) next = next a s := rfl

@[simp] theorem andThen_error (e : Failure) (next : α → σ → Attempt β × σ) :
    andThen (.error e, s) next = (.error e, s) := rfl

@[simp] theorem keep_ok (r : α × σ) : keep s (.ok r) = (.ok r.1, r.2) := rfl

@[simp] theorem keep_error (e : Failure) : keep s (.error e : Attempt (α × σ)) = (.error e, s) := rfl

/-- What is answered makes no difference to whether there is an answer. -/
theorem fst_keep_map_eq_error {x : Attempt (α × σ)} {f : α → β} :
    (∃ e, (keep s (x.map fun r => (f r.1, r.2))).1 = .error e) ↔ ¬ ∃ r, x = .ok r := by
  cases x <;> simp [Except.map]

/-- Whatever the first computation left of the state is what the second one finds. -/
@[simp] theorem perform_bind (x : InPlace σ α) (next : α → InPlace σ β) :
    (x >>= next).perform s = andThen (x.perform s) fun a s' => (next a).perform s' := by
  unfold perform
  rw [ExceptT.run_bind, StateT.run_bind]
  rcases x.run.run s with ⟨_ | a, s'⟩ <;> rfl

@[simp] theorem perform_map (f : α → β) (x : InPlace σ α) :
    (f <$> x).perform s = andThen (x.perform s) fun a s' => (.ok (f a), s') := by
  rw [map_eq_pure_bind, perform_bind]
  rfl

@[simp] theorem perform_pure (a : α) : (pure a : InPlace σ α).perform s = (.ok a, s) := rfl

@[simp] theorem perform_attempt (x : Attempt α) : (liftM x : InPlace σ α).perform s = (x, s) := rfl

@[simp] theorem perform_set (s' : σ) : (set s' : InPlace σ PUnit).perform s = (.ok ⟨⟩, s') := rfl

@[simp] theorem perform_get : (get : InPlace σ σ).perform s = (.ok s, s) := rfl

@[simp] theorem perform_modify (f : σ → σ) : (modify f : InPlace σ PUnit).perform s = (.ok ⟨⟩, f s) := rfl

@[simp] theorem perform_throw (e : Failure) : (throw e : InPlace σ α).perform s = (.error e, s) := rfl

end InPlace

end CoffWorks
