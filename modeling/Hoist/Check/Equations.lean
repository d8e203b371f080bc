import Hoist.Check.State

/-!
What the steps of a checker do, one equation for each way of making steps. With them nobody has to
look inside the monad.
-/
namespace Hoist.Check

variable {κ σ α β : Type} (state : Checker κ σ)

@[simp] theorem run_pure (value : α) : (pure value : Check κ σ α).run state = (.ok value, state) :=
  rfl

@[simp] theorem run_throw (halt : Halt) :
    (throw halt : Check κ σ α).run state = (.error halt, state) :=
  rfl

@[simp] theorem run_bind (first : Check κ σ α) (next : α → Check κ σ β) :
    (first >>= next).run state = match first.run state with
      | (.ok value, after) => (next value).run after
      | (.error halt, after) => (.error halt, after) := by
  rw [ExceptT.run_bind]
  change StateT.bind _ _ _ = _
  unfold StateT.bind
  rcases first.run state with ⟨_ | _, _⟩ <;> rfl

@[simp] theorem run_get : (get : Check κ σ (Checker κ σ)).run state = (.ok state, state) := rfl

@[simp] theorem run_set (after : Checker κ σ) :
    (set after : Check κ σ PUnit).run state = (.ok (), after) :=
  rfl

@[simp] theorem run_modify (change : Checker κ σ → Checker κ σ) :
    (modify change : Check κ σ PUnit).run state = (.ok (), change state) :=
  rfl

@[simp] theorem run_tryCatch (body : Check κ σ α) (handler : Halt → Check κ σ α) :
    (tryCatch body handler).run state = match body.run state with
      | (.ok value, after) => (.ok value, after)
      | (.error halt, after) => (handler halt).run after := by
  simp only [tryCatch, tryCatchThe, MonadExceptOf.tryCatch, ExceptT.tryCatch, ExceptT.run_mk]
  change StateT.bind body.run _ _ = _
  unfold StateT.bind
  rcases body.run state with ⟨_ | _, _⟩ <;> rfl

end Hoist.Check
