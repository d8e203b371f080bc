import Hoist.Proofs.Check.Parts
import Hoist.Proofs.Recheck.Quiet

/-!
Steps that cost nothing. They read neither the budget nor the store nor the notes, they leave the
budget and the store as they are, they add no drafts and no scopes, and they do not stop for want of a
budget. What is done between two payments is made of such steps, apart from drafts and scopes that are
added.

Main statement: to perform a deferral is one of them (`small_perform`).
-/
namespace Hoist

namespace Scopes

variable {δ : Type} (scopes : Scopes δ)

/-- The parents and the kinds of the scopes. -/
def shape : List (Option ScopeId × BlockKind) :=
  scopes.all.map fun scope => (scope.parent, scope.role.kind)

variable {scopes} in
theorem shape_eq {after : Scopes δ} (parents : ∀ id, after.parent? id = scopes.parent? id)
    (kinds : ∀ id, after.kind? id = scopes.kind? id) : after.shape = scopes.shape := by
  refine List.ext_getElem? fun id => ?_
  have up := parents id
  have kind := kinds id
  simp only [parent?, kind?] at up kind
  simp only [shape, List.getElem?_map]
  cases here : scopes.all[id]? <;> cases there : after.all[id]? <;> simp_all

end Scopes

/-- What is there to be looked at: the number of drafts, and how the scopes lie in each other. -/
def Checker.extent {κ σ : Type} (s : Checker κ σ) : Nat × List (Option ScopeId × BlockKind) :=
  (s.drafts.length, s.scopes.shape)

/-- The checker with another budget and another store, and with notes that are older than its own. -/
def Checker.over {κ σ : Type} (s : Checker κ σ) (budget : Nat) (store : σ) (older : List Note) :
    Checker κ σ :=
  { s with budget, store, journal := s.journal ++ older }

@[simp] theorem Checker.over_same {κ σ : Type} (s : Checker κ σ) :
    s.over s.budget s.store [] = s := by
  simp [Checker.over]

namespace Check

variable {κ σ α β : Type}

/-- The step goes the same way whatever the budget, the store and the notes so far are. -/
structure Unmetered (step : Check κ σ α) : Prop where
  even : ∀ s budget store older, step.run (s.over budget store older) =
    ((step.run s).1, (step.run s).2.over budget store older)
  paid : ∀ s t, step.run s ≠ (.error .exhausted, t)

/-- The step adds neither drafts nor scopes. -/
def Still (step : Check κ σ α) : Prop :=
  ∀ s, (step.run s).2.extent = s.extent

structure Small (step : Check κ σ α) : Prop extends Unmetered step where
  still : Still step

theorem Still.sized {step : Check κ σ α} (still : Still step) {s t : Checker κ σ} {value : α}
    (ends : Ends step s value t) : t.drafts.length = s.drafts.length := by
  have same := still s
  rw [show (step.run s : Except Halt α × Checker κ σ) = _ from ends] at same
  exact congrArg Prod.fst same

theorem Small.sized {step : Check κ σ α} (small : Small step) {s t : Checker κ σ} {value : α}
    (ends : Ends step s value t) : t.drafts.length = s.drafts.length :=
  small.still.sized ends

theorem Still.bind {first : Check κ σ α} {next : α → Check κ σ β} (isFirst : Still first)
    (isNext : ∀ value, Still (next value)) : Still (first >>= next) := by
  intro s
  rw [run_bind, ← isFirst s]
  rcases first.run s with ⟨failed | value, between⟩
  · rfl
  · exact isNext value between

theorem Unmetered.bind {first : Check κ σ α} {next : α → Check κ σ β} (isFirst : Unmetered first)
    (isNext : ∀ value, Unmetered (next value)) : Unmetered (first >>= next) where
  even s budget store older := by
    rw [run_bind, isFirst.even, run_bind]
    rcases first.run s with ⟨_ | value, between⟩
    · rfl
    · exact (isNext value).even between budget store older
  paid s t halts := by
    rw [run_bind] at halts
    rcases ran : first.run s with ⟨failed | value, between⟩
    · rw [ran] at halts
      cases halts
      exact isFirst.paid s _ ran
    · rw [ran] at halts
      exact (isNext value).paid between t halts

theorem Still.tryCatch {body : Check κ σ α} {handler : Halt → Check κ σ α} (isBody : Still body)
    (handles : ∀ halt, Still (handler halt)) : Still (tryCatch body handler) := by
  intro s
  rw [run_tryCatch, ← isBody s]
  rcases body.run s with ⟨halt | value, t⟩
  · exact handles halt t
  · rfl

theorem Small.bind {first : Check κ σ α} {next : α → Check κ σ β} (isFirst : Small first)
    (isNext : ∀ value, Small (next value)) : Small (first >>= next) where
  toUnmetered := isFirst.toUnmetered.bind fun value => (isNext value).toUnmetered
  still := isFirst.still.bind fun value => (isNext value).still

theorem small_pure (value : α) : Small (pure value : Check κ σ α) where
  even _ _ _ _ := rfl
  paid _ _ halts := by cases halts
  still _ := rfl

theorem Small.map {step : Check κ σ α} (isStep : Small step) (change : α → β) :
    Small (change <$> step) := by
  rw [map_eq_pure_bind]
  exact isStep.bind fun _ => small_pure _

theorem unmetered_throw {halt : Halt} (paid : halt ≠ .exhausted) :
    Unmetered (throw halt : Check κ σ α) where
  even _ _ _ _ := rfl
  paid _ _ halts := by
    rw [run_throw] at halts
    cases halts
    exact paid rfl

theorem small_throw {halt : Halt} (paid : halt ≠ .exhausted) :
    Small (throw halt : Check κ σ α) where
  toUnmetered := unmetered_throw paid
  still _ := rfl

theorem unmetered_modify {change : Checker κ σ → Checker κ σ}
    (even : ∀ s budget store older,
      change (s.over budget store older) = (change s).over budget store older) :
    Unmetered (modify change : Check κ σ PUnit) where
  even s budget store older := by rw [run_modify, run_modify, even]
  paid _ _ halts := by cases halts

theorem small_modify {change : Checker κ σ → Checker κ σ}
    (even : ∀ s budget store older,
      change (s.over budget store older) = (change s).over budget store older)
    (still : ∀ s, (change s).extent = s.extent) :
    Small (modify change : Check κ σ PUnit) where
  toUnmetered := unmetered_modify even
  still := still

/-- A step that depends on the state, but not on the budget, the store and the notes. -/
theorem unmetered_get {next : Checker κ σ → Check κ σ α}
    (even : ∀ s budget store older, next (s.over budget store older) = next s)
    (isNext : ∀ s, Unmetered (next s)) : Unmetered (get >>= next) where
  even s budget store older := by
    simpa only [run_bind, run_get, even s budget store older] using
      (isNext s).even s budget store older
  paid s t halts := by
    rw [run_bind, run_get] at halts
    exact (isNext s).paid s t halts

theorem small_get {next : Checker κ σ → Check κ σ α}
    (even : ∀ s budget store older, next (s.over budget store older) = next s)
    (isNext : ∀ s, Small (next s)) : Small (get >>= next) where
  toUnmetered := unmetered_get even fun s => (isNext s).toUnmetered
  still s := (isNext s).still s

theorem small_ofFault {position : Position} {outcome : Except Fault α} :
    Small (ofFault position outcome : Check κ σ α) := by
  cases outcome with
  | ok value => exact small_pure value
  | error fault => exact small_throw (fault.haltAt_ne_exhausted position)

theorem small_reject {cause : Cause} {position : Position} :
    Small (reject cause position : Check κ σ α) :=
  small_throw (by simp)

theorem small_ofCause {position : Position} {outcome : Except Cause α} :
    Small (ofCause position outcome : Check κ σ α) := by
  cases outcome with
  | ok value => exact small_pure value
  | error cause => exact small_reject

/-! The small steps. -/

theorem small_note (message : Note) : Small (note message : Check κ σ Unit) :=
  small_modify (fun _ _ _ _ => rfl) fun _ => rfl

theorem small_scopes : Small (scopes : Check κ σ (Scopes (Deferral κ))) :=
  small_get (fun _ _ _ _ => rfl) fun _ => small_pure _

/-- A change of the scopes that leaves their parents and kinds as they are. -/
theorem small_change {position : Position} (change : Scopes (Deferral κ) → Except Fault α)
    (after : α → Scopes (Deferral κ)) {next : α → Check κ σ β}
    (still : ∀ {scopes answer}, change scopes = .ok answer → (after answer).shape = scopes.shape)
    (isNext : ∀ answer, Small (next answer)) :
    Small (do
      let answer ← ofFault position (change (← scopes))
      setScopes (after answer)
      next answer) := by
  have sets (answer : α) : Unmetered (setScopes (after answer) : Check κ σ Unit) :=
    unmetered_modify fun _ _ _ _ => rfl
  constructor
  case toUnmetered =>
    exact small_scopes.toUnmetered.bind fun scopes =>
      small_ofFault.toUnmetered.bind fun answer =>
      (sets answer).bind fun _ => (isNext answer).toUnmetered
  case still =>
    intro s
    simp only [run_bind, scopes, run_get, run_pure]
    cases done : change s.scopes with
    | error fault => rfl
    | ok answer =>
      refine ((isNext answer).still { s with scopes := after answer }).trans ?_
      exact congrArg (Prod.mk _) (still done)

theorem small_view (scope : ScopeId) : Small (view scope : Check κ σ View) :=
  small_scopes.bind fun _ => small_pure _

theorem unmetered_createScope (parent : Option ScopeId) (kind : ScopeKind) :
    Unmetered (createScope parent kind : Check κ σ ScopeId) where
  even _ _ _ _ := rfl
  paid _ _ halts := by cases halts

variable (scope : ScopeId) (position : Position)

theorem small_define (binding : Binding) :
    Small (define scope binding position : Check κ σ (List (Deferral κ))) := by
  refine small_change (·.define scope binding) (·.2) (fun done => ?_)
    fun _ => (small_note _).bind fun _ => small_pure _
  obtain ⟨-, bound⟩ := Scopes.define_eq_ok done
  exact Scopes.shape_eq bound.parent bound.kind

theorem small_update (binding : Binding) :
    Small (update scope binding position : Check κ σ (List (Deferral κ))) := by
  refine small_change (·.update scope binding) (·.2) (fun done => ?_)
    fun _ => (small_note _).bind fun _ => small_pure _
  obtain ⟨-, bound⟩ := Scopes.update_eq_ok done
  exact Scopes.shape_eq bound.parent bound.kind

theorem small_setResult (result : Ty) :
    Small (setResult scope result position : Check κ σ (List (Deferral κ))) := by
  refine small_change (·.setResult scope result) (·.2)
    (fun done => ?_) fun _ => (small_note _).bind fun _ => small_pure _
  obtain ⟨body, -, -, -, changed⟩ := Scopes.setResult_eq_ok done
  exact Scopes.shape_eq changed.parent changed.kind

theorem small_await (name : String) (work : Deferral κ) :
    Small (await scope name work position : Check κ σ Unit) := by
  refine (small_note _).bind fun _ => small_change (·.await scope name ⟨work, position⟩) id
    (fun done => ?_) fun _ => small_pure _
  exact Scopes.shape_eq (Scopes.await_eq_ok done).parent (Scopes.await_eq_ok done).kind

theorem small_awaitResult (work : Deferral κ) :
    Small (awaitResult scope work position : Check κ σ Unit) := by
  refine small_change (·.awaitResult scope work) id (fun done => ?_)
    fun _ => small_note _
  obtain ⟨body, result, -, -, changed⟩ := Scopes.awaitResult_eq_ok done
  exact Scopes.shape_eq changed.parent changed.kind

theorem small_defer (name : String) (declared : Option String) (work : Deferral κ) :
    Small (defer scope name declared work position : Check κ σ Unit) := by
  refine small_scopes.bind fun scopes =>
    small_ofFault.bind fun anchor => ?_
  cases anchor <;> exact small_await _ position name _

theorem unmetered_addDraft (work : Work) :
    Unmetered (addDraft scope work : Check κ σ DraftId) := by
  refine unmetered_get (fun _ _ _ _ => rfl) fun _ => Unmetered.bind ?_ fun _ =>
    (small_pure _).toUnmetered
  exact unmetered_modify fun _ _ _ _ => rfl

theorem small_setDraft (id : DraftId) (work : Work) :
    Small (setDraft id scope work : Check κ σ Unit) :=
  small_modify (fun _ _ _ _ => rfl) fun _ => congrArg (Prod.mk · _) List.length_set

theorem small_enqueue (work : List (Deferral κ)) : Small (enqueue work : Check κ σ Unit) := by
  have adds : Small (modify fun state => { state with queue := state.queue ++ work } :
      Check κ σ PUnit) := small_modify (fun _ _ _ _ => rfl) fun _ => rfl
  unfold enqueue
  split
  · exact (small_note _).bind fun _ => adds
  · exact adds

theorem small_demand {holds : Scopes (Deferral κ) → Except Fault Bool} {cause : Cause}
    {position : Position} : Small (demand holds cause position : Check κ σ Unit) := by
  refine small_scopes.bind fun scopes => small_ofFault.bind fun answer => ?_
  split
  · exact small_reject
  · exact small_pure _

theorem small_getDraft (id : DraftId) : Small (getDraft id : Check κ σ Draft) := by
  refine small_get (fun _ _ _ _ => rfl) fun state => ?_
  split
  · exact small_pure _
  · exact small_throw (by simp)

theorem small_getSignature (id : SignatureId) :
    Small (getSignature id : Check κ σ SignatureDraft) := by
  refine small_get (fun _ _ _ _ => rfl) fun state => ?_
  split
  · exact small_pure _
  · exact small_throw (by simp)

theorem small_addSignature (draft : SignatureDraft) :
    Small (addSignature draft : Check κ σ SignatureId) := by
  refine small_get (fun _ _ _ _ => rfl) fun _ => Small.bind ?_ fun _ => small_pure _
  exact small_modify (fun _ _ _ _ => rfl) fun _ => rfl

theorem small_setSignature (id : SignatureId) (draft : SignatureDraft) :
    Small (setSignature id draft : Check κ σ Unit) :=
  small_modify (fun _ _ _ _ => rfl) fun _ => rfl

/-! Simple statements. -/

section Statements

variable {settle : List (Deferral κ) → Check κ σ Unit}
  (settles : ∀ work, Small (settle work)) (id : DraftId)

theorem small_deferDeclaration (declaration : Declaration) (type : Ty) :
    Small (deferDeclaration id scope declaration type : Check κ σ Unit) := by
  unfold deferDeclaration
  split
  · exact small_pure _
  · exact small_defer _ _ _ _ _

include settles in
theorem small_resumeDeclaration (declaration : Declaration) :
    Small (resumeDeclaration settle id scope declaration) :=
  (small_view scope).bind fun _ => (small_setDraft _ _ _).bind fun _ =>
    small_ofFault.bind fun type =>
    small_ofCause.bind fun declaration =>
    (small_setDraft _ _ _).bind fun _ =>
    (small_deferDeclaration scope id declaration type).bind fun _ =>
    (small_update _ _ _).bind settles

theorem small_awaitEach (assignment : Assignment) (awaited names : List String) :
    Small (awaitEach id scope assignment awaited names : Check κ σ Unit) := by
  induction names generalizing awaited with
  | nil => exact small_pure _
  | cons name rest ih =>
    rw [awaitEach]
    split
    · exact ih awaited
    · exact (small_setDraft _ _ _).bind fun _ => (small_defer _ _ _ _ _).bind fun _ =>
        ih (name :: awaited)

theorem small_checkRoot (target : Target) :
    Small (checkRoot scope target position : Check κ σ Unit) := by
  refine small_scopes.bind fun scopes =>
    small_ofFault.bind fun found => ?_
  split
  · exact small_reject
  · split
    · exact small_reject
    · exact small_pure _

theorem small_checkAssignment (assignment : Assignment) (awaited : List String) :
    Small (checkAssignment id scope assignment awaited : Check κ σ Unit) :=
  (small_checkRoot _ _ _).bind fun _ => (small_view scope).bind fun _ =>
    (small_setDraft _ _ _).bind fun _ =>
    small_ofFault.bind fun _ =>
    (small_setDraft _ _ _).bind fun _ =>
    small_ofFault.bind fun _ =>
    small_ofCause.bind fun _ =>
    small_awaitEach _ _ _ _ _

theorem small_judgeReturn (statement : Return) :
    Small (judgeReturn id scope statement : Check κ σ (Option (List (Deferral κ)))) := by
  refine small_scopes.bind fun scopes =>
    small_ofFault.bind fun result => ?_
  split
  · exact small_reject
  · refine Small.bind ?_ fun type => ?_
    · unfold lookAtReturn
      split
      · exact small_pure _
      · exact (small_view scope).bind fun names => (small_setDraft _ _ _).bind fun _ =>
          small_ofFault
    · unfold judgeResult
      split
      · refine (small_defer _ _ _ _ _).bind fun _ => ?_
        split
        · exact (small_setResult _ _ _).map _
        · exact small_pure _
      · split
        · exact (small_setResult _ _ _).map _
        · split
          · exact small_reject
          · exact small_pure _

include settles in
theorem small_checkReturn (statement : Return) : Small (checkReturn settle id scope statement) := by
  rw [checkReturn_judge]
  refine (small_judgeReturn scope id statement).bind fun handed => ?_
  cases handed with
  | none => exact small_pure _
  | some work => exact settles work

theorem small_checkEvaluation (statement : Evaluation) :
    Small (checkEvaluation id scope statement : Check κ σ Unit) := by
  refine (small_view scope).bind fun names => (small_setDraft _ _ _).bind fun _ =>
    small_ofFault.bind fun type => ?_
  split
  · exact small_pure _
  · exact small_defer _ _ _ _ _

include settles in
theorem small_resume (name : String) : Small (resume settle id name) := by
  refine (small_getDraft id).bind fun draft => ?_
  split
  · exact small_resumeDeclaration _ settles _ _
  · exact (small_setDraft _ _ _).bind fun _ => small_checkAssignment _ _ _ _
  · exact small_checkReturn _ settles _ _
  · exact small_checkEvaluation _ _ _

include settles in
theorem small_conclude (k : SignatureId) : Small (conclude settle k) := by
  refine (small_getSignature k).bind fun draft => small_scopes.bind fun scopes =>
    small_ofFault.bind fun result =>
    (small_setSignature _ _).bind fun _ => ?_
  split
  · exact small_awaitResult _ _ _
  · exact (small_update _ _ _).bind settles

end Statements

/-! Statements of a block. -/

theorem small_checkExport (declaration : Declaration) :
    Small (checkExport scope declaration : Check κ σ Unit) := by
  unfold checkExport
  split
  · exact small_demand
  · exact small_pure _

theorem small_checkInLoop (keyword : String) (span : Span) :
    Small (checkInLoop scope keyword span : Check κ σ Unit) :=
  small_demand

theorem small_requireBoolean (type : Ty) :
    Small (requireBoolean type position : Check κ σ Unit) := by
  unfold requireBoolean
  split
  · exact small_pure _
  · exact small_reject

theorem small_checkCondition (condition : Expr) :
    Small (checkCondition scope condition position : Check κ σ Expr) :=
  (small_view scope).bind fun _ => small_ofFault.bind fun type =>
    (small_requireBoolean _ type).bind fun _ => small_pure _

theorem small_checkLoopCondition (env : Env κ σ) (condition : Expr) :
    Small (checkLoopCondition env scope condition position) := by
  refine (small_view scope).bind fun names => small_ofFault.bind fun type => ?_
  split
  · split
    · exact small_reject.bind fun _ => small_pure _
    · exact small_pure _
  · exact (small_requireBoolean _ type).bind fun _ => small_pure _

theorem small_addHead (inner : ScopeId) (signature : Signature) :
    Small (addHead scope inner signature : Check κ σ SignatureId) := by
  refine (small_addSignature _).bind fun id => ?_
  split
  · exact (small_awaitResult _ _ _).bind fun _ => small_pure _
  · exact small_pure _

theorem small_foldChain (chain : OpenChain) (last : OutlineChain) :
    Small (foldChain chain last : Check κ σ Outline) :=
  (small_note _).bind fun _ => small_pure _

theorem small_endChain (chain : Option OpenChain) :
    Small (endChain chain : Check κ σ (List Outline)) := by
  cases chain with
  | none => exact small_pure _
  | some chain => exact (small_foldChain chain .done).bind fun _ => small_pure _

theorem small_endChainBefore (stmt : Stmt) (chain : Option OpenChain) :
    Small (endChainBefore stmt chain : Check κ σ (List Outline × Option OpenChain)) := by
  unfold endChainBefore
  split
  · exact small_pure _
  · exact (small_endChain chain).bind fun _ => small_pure _

theorem unmetered_finishFile (env : Env κ σ) (outlines : List Outline) :
    Unmetered (finishFile env outlines) := by
  have rest : Unmetered (do
      note (.finished (← scopes).size)
      return outlines : Check κ σ (List Outline)) :=
    (small_scopes.bind fun _ => (small_note _).bind fun _ => small_pure _).toUnmetered
  unfold finishFile
  split
  · refine Unmetered.bind ?_ fun _ => rest
    refine small_scopes.toUnmetered.bind fun scopes => ?_
    split
    · exact (small_pure _).toUnmetered
    · exact unmetered_throw (by simp)
  · exact rest

/-! Deferrals. -/

theorem small_checkHoisted (root : ScopeId) (name : String) :
    Small (checkHoisted root name position : Check κ σ Unit) := by
  refine small_scopes.bind fun scopes =>
    small_ofFault.bind fun found => ?_
  split
  · split
    · exact small_reject
    · exact small_pure _
  · exact small_reject

variable {client : κ → Check κ σ Unit} (clients : ∀ task, Small (client task))

include clients in
theorem small_perform (deferral : Deferral κ) : Small (perform client deferral) := by
  induction deferral with
  | resume draft awaited => exact small_resume small_enqueue draft awaited
  | conclude signature => exact small_conclude small_enqueue signature
  | client task => exact clients task
  | hoisted root name position rest ih => exact (small_checkHoisted _ _ _).bind fun _ => ih

/-! Waves add nothing, and neither do names that are bound one after the other. -/

include clients in
theorem still_drain (fuel : Nat) : Still (drain client fuel) := by
  induction fuel with
  | zero =>
    refine Still.bind (fun _ => rfl) fun state => ?_
    split
    · exact fun _ => rfl
    · exact (small_pure _).still
  | succ fuel ih =>
    refine Still.bind (fun _ => rfl) fun state => ?_
    split
    · exact (small_pure _).still
    · refine Still.bind (Still.bind (fun _ => rfl) fun state => ?_) fun _ =>
        Still.bind (fun _ => rfl) fun _ => (small_perform clients _).still.bind fun _ => ih
      split <;> exact fun _ => rfl

include clients in
theorem still_runWave (work : List (Deferral κ)) : Still (runWave client work) := by
  refine (small_enqueue work).still.bind fun _ => Still.bind (fun _ => rfl) fun state => ?_
  split
  · exact (small_pure _).still
  · refine Still.bind (fun _ => rfl) fun _ => Still.bind (Still.tryCatch ?_ fun halt => ?_) fun _ _ => rfl
    · exact Still.bind (fun _ => rfl) fun state => still_drain clients state.budget
    · exact Still.bind (fun s => by cases halt <;> rfl) fun _ _ => rfl

section Names

variable {env : Env κ σ} (settles : ∀ work, Still (env.settle work))

include settles in
theorem still_importNames (source : String) (names : List String) :
    Still (importNames env scope source position names) := by
  induction names with
  | nil => exact (small_pure _).still
  | cons name rest ih =>
    refine Still.bind (fun s => ?_) fun type => Still.bind ?_ fun _ =>
      (small_define _ _ _).still.bind fun work => (settles work).bind fun _ => ih.bind fun _ _ => rfl
    · simp only [importType, run_bind, run_get, run_set]
      split <;> rfl
    · cases ConcreteTy.ofTy type <;> exact fun _ => rfl

include settles in
theorem still_defineParameters (parameters : List (String × Ty)) :
    Still (defineParameters env.settle scope position parameters) := by
  induction parameters with
  | nil => exact (small_pure _).still
  | cons parameter rest ih =>
    exact (small_define _ _ _).still.bind fun work => (settles work).bind fun _ => ih

end Names

end Check

end Hoist
