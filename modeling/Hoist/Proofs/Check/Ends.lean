import Hoist.Check.Program
import Hoist.Proofs.Typing.Conversion

/-!
Steps that end well. `Ends step before value after` says that a step, taken in the state `before`,
returns `value` and leaves `after`. Each way of making steps has one equation here, so a composed
step can be taken apart by rewriting.
-/
namespace Hoist.Check

variable {κ σ α β : Type} {before after : Checker κ σ}

def Ends (step : Check κ σ α) (before : Checker κ σ) (value : α) (after : Checker κ σ) : Prop :=
  @Eq (Except Halt α × Checker κ σ) (step.run before) (.ok value, after)

/-- A step that ends well does so in one way. -/
theorem Ends.unique {step : Check κ σ α} {value other : α} {later : Checker κ σ}
    (ends : Ends step before value after) (again : Ends step before other later) :
    value = other ∧ after = later := by
  have same := ends.symm.trans again
  simpa using same

/-! The monad. -/

@[simp] theorem ends_pure {result value : α} :
    Ends (pure result) before value after ↔ value = result ∧ after = before := by
  simp [Ends, eq_comm]

@[simp] theorem ends_throw {halt : Halt} {value : α} :
    Ends (throw halt) before value after ↔ False := by
  simp [Ends]

@[simp] theorem ends_bind {first : Check κ σ α} {next : α → Check κ σ β} {value : β} :
    Ends (first >>= next) before value after ↔
      ∃ found between, Ends first before found between ∧ Ends (next found) between value after := by
  simp only [Ends, run_bind]
  rcases first.run before with ⟨_ | found, between⟩ <;> simp [and_assoc]

@[simp] theorem ends_map {step : Check κ σ α} {change : α → β} {value : β} :
    Ends (change <$> step) before value after ↔
      ∃ found, Ends step before found after ∧ value = change found := by
  rw [map_eq_pure_bind, ends_bind]
  simp only [ends_pure]
  constructor
  · rintro ⟨found, between, ends, same, rfl⟩
    exact ⟨found, ends, same⟩
  · rintro ⟨found, ends, same⟩
    exact ⟨found, after, ends, same, rfl⟩

@[simp] theorem ends_get {value : Checker κ σ} :
    Ends get before value after ↔ value = before ∧ after = before := by
  simp [Ends, eq_comm]

@[simp] theorem ends_set {next : Checker κ σ} {value : PUnit} :
    Ends (set next) before value after ↔ after = next := by
  simp [Ends, eq_comm]

@[simp] theorem ends_modify {change : Checker κ σ → Checker κ σ} {value : PUnit} :
    Ends (modify change) before value after ↔ after = change before := by
  simp [Ends, eq_comm]

/-! The small steps. -/

@[simp] theorem ends_reject {cause : Cause} {position : Position} {value : α} :
    Ends (reject cause position) before value after ↔ False := by
  simp [reject]

@[simp] theorem ends_ofFault {position : Position} {result : Except Fault α} {value : α} :
    Ends (ofFault position result) before value after ↔ result = .ok value ∧ after = before := by
  cases result <;> simp [ofFault, eq_comm]

@[simp] theorem ends_ofCause {position : Position} {result : Except Cause α} {value : α} :
    Ends (ofCause position result) before value after ↔ result = .ok value ∧ after = before := by
  cases result <;> simp [ofCause, eq_comm]

@[simp] theorem ends_note {message : Note} {value : Unit} :
    Ends (note message) before value after ↔
      after = { before with journal := message :: before.journal } := by
  simp [note]

@[simp] theorem ends_tick {value : Unit} : Ends tick before value after ↔
    ∃ left, before.budget = left + 1 ∧ after = { before with budget := left } := by
  simp only [tick, ends_bind, ends_get, exists_eq_left, and_assoc, exists_and_left]
  cases before.budget <;> simp

@[simp] theorem ends_scopes {value : Scopes (Deferral κ)} :
    Ends scopes before value after ↔ value = before.scopes ∧ after = before := by
  simp [scopes, and_assoc, and_comm]

@[simp] theorem ends_setScopes {next : Scopes (Deferral κ)} {value : Unit} :
    Ends (setScopes next) before value after ↔ after = { before with scopes := next } := by
  simp [setScopes]

@[simp] theorem ends_view {scope : ScopeId} {value : View} :
    Ends (view scope) before value after ↔ value = before.scopes.view scope ∧ after = before := by
  simp [view, and_assoc, and_comm]

@[simp] theorem ends_createScope {parent : Option ScopeId} {kind : ScopeKind} {value : ScopeId} :
    Ends (createScope parent kind) before value after ↔
      after = { before with
        scopes := before.scopes.create parent kind
        journal := .scopeCreated before.scopes.size parent :: before.journal } ∧
      value = before.scopes.size := by
  simp [createScope, and_assoc]

theorem handed_back {P : α → β → Prop} {Q : β → Prop} {work : α} :
    (∃ found changed, P found changed ∧ Q changed ∧ work = found) ↔
      ∃ changed, P work changed ∧ Q changed := by
  constructor
  · rintro ⟨_, changed, done, rest, rfl⟩
    exact ⟨changed, done, rest⟩
  · rintro ⟨changed, done, rest⟩
    exact ⟨work, changed, done, rest, rfl⟩

@[simp] theorem ends_define {scope : ScopeId} {binding : Binding} {position : Position}
    {work : List (Deferral κ)} : Ends (define scope binding position) before work after ↔
      ∃ changed, before.scopes.define scope binding = .ok (work, changed) ∧
        after = { before with
          scopes := changed
          journal := .defined binding.name binding.type scope :: before.journal } := by
  simp [define, and_assoc, handed_back]

@[simp] theorem ends_update {scope : ScopeId} {binding : Binding} {position : Position}
    {work : List (Deferral κ)} : Ends (update scope binding position) before work after ↔
      ∃ changed, before.scopes.update scope binding = .ok (work, changed) ∧
        after = { before with
          scopes := changed
          journal := .updated binding.name binding.type scope :: before.journal } := by
  simp [update, and_assoc, handed_back]

@[simp] theorem ends_setResult {scope : ScopeId} {result : Ty} {position : Position}
    {work : List (Deferral κ)} : Ends (setResult scope result position) before work after ↔
      ∃ changed, before.scopes.setResult scope result = .ok (work, changed) ∧
        after = { before with
          scopes := changed
          journal := .resultSet scope result :: before.journal } := by
  simp [setResult, and_assoc, handed_back]

@[simp] theorem ends_await {scope : ScopeId} {name : String} {work : Deferral κ}
    {position : Position} {value : Unit} : Ends (await scope name work position) before value after ↔
      ∃ changed, before.scopes.await scope name ⟨work, position⟩ = .ok changed ∧
        after = { before with
          scopes := changed
          journal := .awaited name scope :: before.journal } := by
  simp [await, and_assoc]

@[simp] theorem ends_awaitResult {scope : ScopeId} {work : Deferral κ} {position : Position}
    {value : Unit} : Ends (awaitResult scope work position) before value after ↔
      ∃ changed, before.scopes.awaitResult scope work = .ok changed ∧
        after = { before with
          scopes := changed
          journal := .resultAwaited scope :: before.journal } := by
  simp [awaitResult, and_assoc]

@[simp] theorem ends_addDraft {scope : ScopeId} {work : Work} {id : DraftId} :
    Ends (addDraft scope work) before id after ↔
      after = { before with drafts := before.drafts ++ [⟨scope, work⟩] } ∧
      id = before.drafts.length := by
  simp [addDraft, and_assoc]

@[simp] theorem ends_getDraft {id : DraftId} {draft : Draft} :
    Ends (getDraft id) before draft after ↔
      before.drafts[id]? = some draft ∧ after = before := by
  simp only [getDraft, ends_bind, ends_get, and_assoc, exists_and_left, exists_eq_left]
  cases before.drafts[id]? <;> simp [eq_comm]

@[simp] theorem ends_setDraft {id : DraftId} {scope : ScopeId} {work : Work} {value : Unit} :
    Ends (setDraft id scope work) before value after ↔
      after = { before with drafts := before.drafts.set id ⟨scope, work⟩ } := by
  simp [setDraft]

@[simp] theorem ends_addSignature {draft : SignatureDraft} {id : SignatureId} :
    Ends (addSignature draft) before id after ↔
      after = { before with signatures := before.signatures ++ [draft] } ∧
      id = before.signatures.length := by
  simp [addSignature, and_assoc]

@[simp] theorem ends_getSignature {id : SignatureId} {draft : SignatureDraft} :
    Ends (getSignature id) before draft after ↔
      before.signatures[id]? = some draft ∧ after = before := by
  simp only [getSignature, ends_bind, ends_get, and_assoc, exists_and_left, exists_eq_left]
  cases before.signatures[id]? <;> simp [eq_comm]

@[simp] theorem ends_setSignature {id : SignatureId} {draft : SignatureDraft} {value : Unit} :
    Ends (setSignature id draft) before value after ↔
      after = { before with signatures := before.signatures.set id draft } := by
  simp [setSignature]

@[simp] theorem ends_enqueue {work : List (Deferral κ)} {value : Unit} :
    Ends (enqueue work) before value after ↔
      after = { before with
        queue := before.queue ++ work
        journal := if work.isEmpty then before.journal
          else .queued work.length :: before.journal } := by
  cases work <;> simp [enqueue]

end Hoist.Check
