import Hoist.Proofs.Check.Ends

/-!
What comes of a step, whether it ends well or halts. `Yields step before good bad` says that `good`
holds of the value and the state that a step ends with, or `bad` of the halt and the state in which
it was left. Each way of making steps has one equation here.
-/
namespace Hoist.Check

variable {κ σ α β : Type} {s : Checker κ σ}

def Yields (step : Check κ σ α) (before : Checker κ σ) (good : α → Checker κ σ → Prop)
    (bad : Halt → Checker κ σ → Prop) : Prop :=
  match (step.run before : Except Halt α × Checker κ σ) with
  | (.ok value, after) => good value after
  | (.error halt, after) => bad halt after

theorem Yields.mono {step : Check κ σ α} {good good' : α → Checker κ σ → Prop}
    {bad bad' : Halt → Checker κ σ → Prop} (yields : Yields step s good bad)
    (better : ∀ value t, good value t → good' value t)
    (worse : ∀ halt t, bad halt t → bad' halt t) : Yields step s good' bad' := by
  unfold Yields at *
  split at yields
  · exact better _ _ yields
  · exact worse _ _ yields

theorem Yields.of_ends {step : Check κ σ α} {good : α → Checker κ σ → Prop}
    {bad : Halt → Checker κ σ → Prop} (yields : Yields step s good bad) {value : α}
    {t : Checker κ σ} (ends : Ends step s value t) : good value t := by
  unfold Yields at yields
  rw [show (step.run s : Except Halt α × Checker κ σ) = _ from ends] at yields
  exact yields

theorem Yields.of_good {step : Check κ σ α} {good : α → Checker κ σ → Prop}
    {bad : Halt → Checker κ σ → Prop} {value : α} {t : Checker κ σ} (ends : Ends step s value t)
    (holds : good value t) : Yields step s good bad := by
  unfold Yields
  rw [show (step.run s : Except Halt α × Checker κ σ) = _ from ends]
  exact holds

/-- A step that ends well may be looked at as one that has ended. -/
theorem Yields.and_ends {step : Check κ σ α} {good : α → Checker κ σ → Prop}
    {bad : Halt → Checker κ σ → Prop} (yields : Yields step s good bad) :
    Yields step s (fun value t => Ends step s value t ∧ good value t) bad := by
  unfold Yields Ends at *
  split at yields <;> simp_all

theorem Yields.cases {step : Check κ σ α} {good : α → Checker κ σ → Prop}
    {bad : Halt → Checker κ σ → Prop} (yields : Yields step s good bad) :
    (∃ halt t, @Eq (Except Halt α × Checker κ σ) (step.run s) (.error halt, t) ∧ bad halt t) ∨
      ∃ value t, Ends step s value t ∧ good value t := by
  rw [Yields] at yields
  split at yields
  case h_1 value t ran => exact .inr ⟨value, t, ran, yields⟩
  case h_2 halt t ran => exact .inl ⟨halt, t, ran, yields⟩

variable {good : α → Checker κ σ → Prop} {bad : Halt → Checker κ σ → Prop}

/-! The monad. -/

@[simp] theorem yields_pure {value : α} : Yields (pure value) s good bad ↔ good value s := by
  simp [Yields]

@[simp] theorem yields_throw {halt : Halt} : Yields (throw halt) s good bad ↔ bad halt s := by
  simp [Yields]

@[simp] theorem yields_bind {first : Check κ σ α} {next : α → Check κ σ β}
    {good : β → Checker κ σ → Prop} : Yields (first >>= next) s good bad ↔
      Yields first s (fun value t => Yields (next value) t good bad) bad := by
  unfold Yields
  rw [run_bind]
  rcases first.run s with ⟨_ | _, _⟩ <;> rfl

@[simp] theorem yields_map {step : Check κ σ α} {change : α → β}
    {good : β → Checker κ σ → Prop} : Yields (change <$> step) s good bad ↔
      Yields step s (fun value t => good (change value) t) bad := by
  rw [map_eq_pure_bind, yields_bind]
  simp only [yields_pure]

@[simp] theorem yields_get {good : Checker κ σ → Checker κ σ → Prop} :
    Yields get s good bad ↔ good s s := by
  simp [Yields]

@[simp] theorem yields_set {after : Checker κ σ} {good : PUnit → Checker κ σ → Prop} :
    Yields (set after) s good bad ↔ good () after := by
  simp [Yields]

@[simp] theorem yields_modify {change : Checker κ σ → Checker κ σ}
    {good : PUnit → Checker κ σ → Prop} :
    Yields (modify change) s good bad ↔ good () (change s) := by
  simp [Yields]

@[simp] theorem yields_tryCatch {body : Check κ σ α} {handler : Halt → Check κ σ α} :
    Yields (tryCatch body handler) s good bad ↔
      Yields body s good fun halt t => Yields (handler halt) t good bad := by
  unfold Yields
  rw [run_tryCatch]
  rcases body.run s with ⟨_ | _, _⟩ <;> rfl

/-! The small steps. -/

@[simp] theorem yields_reject {cause : Cause} {position : Position} :
    Yields (reject cause position) s good bad ↔ bad (.rejected ⟨cause, position⟩) s := by
  simp [reject]

theorem yields_ofFault {position : Position} {result : Except Fault α} :
    Yields (ofFault position result) s good bad ↔
      (∀ value, result = .ok value → good value s) ∧
        ∀ fault, result = .error fault → bad (fault.haltAt position) s := by
  cases result <;> simp [ofFault]

theorem yields_ofCause {position : Position} {result : Except Cause α} :
    Yields (ofCause position result) s good bad ↔
      (∀ value, result = .ok value → good value s) ∧
        ∀ cause, result = .error cause → bad (.rejected ⟨cause, position⟩) s := by
  cases result <;> simp [ofCause]

@[simp] theorem yields_note {message : Note} {good : Unit → Checker κ σ → Prop} :
    Yields (note message) s good bad ↔
      good () { s with journal := message :: s.journal } := by
  simp [note]

theorem yields_tick {good : Unit → Checker κ σ → Prop} : Yields tick s good bad ↔
    (s.budget = 0 → bad .exhausted s) ∧
      ∀ left, s.budget = left + 1 → good () { s with budget := left } := by
  simp only [tick, yields_bind, yields_get]
  cases s.budget <;> simp

@[simp] theorem yields_scopes {good : Scopes (Deferral κ) → Checker κ σ → Prop} :
    Yields scopes s good bad ↔ good s.scopes s := by
  simp [scopes]

@[simp] theorem yields_view {scope : ScopeId} {good : View → Checker κ σ → Prop} :
    Yields (view scope) s good bad ↔ good (s.scopes.view scope) s := by
  simp [view]

@[simp] theorem yields_createScope {parent : Option ScopeId} {kind : ScopeKind}
    {good : ScopeId → Checker κ σ → Prop} : Yields (createScope parent kind) s good bad ↔
      good s.scopes.size { s with
        scopes := s.scopes.create parent kind
        journal := .scopeCreated s.scopes.size parent :: s.journal } := by
  simp [createScope, setScopes]

theorem yields_define {scope : ScopeId} {binding : Binding} {position : Position}
    {good : List (Deferral κ) → Checker κ σ → Prop} :
    Yields (define scope binding position) s good bad ↔
      (∀ work changed, s.scopes.define scope binding = .ok (work, changed) →
        good work { s with
          scopes := changed
          journal := .defined binding.name binding.type scope :: s.journal }) ∧
      ∀ fault, s.scopes.define scope binding = .error fault → bad (fault.haltAt position) s := by
  simp [define, setScopes, yields_ofFault]

@[simp] theorem yields_addDraft {scope : ScopeId} {work : Work}
    {good : DraftId → Checker κ σ → Prop} : Yields (addDraft scope work) s good bad ↔
      good s.drafts.length { s with drafts := s.drafts ++ [⟨scope, work⟩] } := by
  simp [addDraft]

@[simp] theorem yields_setDraft {id : DraftId} {scope : ScopeId} {work : Work}
    {good : Unit → Checker κ σ → Prop} : Yields (setDraft id scope work) s good bad ↔
      good () { s with drafts := s.drafts.set id ⟨scope, work⟩ } := by
  simp [setDraft]

@[simp] theorem yields_addSignature {draft : SignatureDraft}
    {good : SignatureId → Checker κ σ → Prop} : Yields (addSignature draft) s good bad ↔
      good s.signatures.length { s with signatures := s.signatures ++ [draft] } := by
  simp [addSignature]

end Hoist.Check
