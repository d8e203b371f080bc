import Hoist.Check.Program
import Hoist.Proofs.Check.Yields
import Hoist.Proofs.Scope.Observe

/-!
Checks of statements, cut into parts that can be looked at one by one: what must hold where the
statement stands, and what is done then.
-/
namespace Hoist

/-- A declaration is given the type that was found, which is the one that was written. -/
theorem Declaration.withType_eq_ok {d after : Declaration} {type : Ty}
    (typed : d.withType type = .ok after) : after = { d with type } ∧
      (d.written.isConcrete = true → type.isPending = true ∨ d.written = type) := by
  unfold Declaration.withType at typed
  split at typed
  · simp at typed
  · rename_i agrees
    refine ⟨(Except.ok.inj typed).symm, fun concrete => ?_⟩
    simp only [concrete, Bool.true_and, Bool.and_eq_true, decide_eq_true_eq, not_and] at agrees
    cases pending : type.isPending with
    | true => exact .inl rfl
    | false => exact .inr (Decidable.of_not_not (agrees (by simp [pending])))

/-- A chain that is carried on by `last`. -/
theorem OpenChain.close_extend (chain : OpenChain) (arm : Arm) (last : OutlineChain) :
    (chain.extend arm).close last =
      chain.close (.elseIf arm.condition arm.body arm.span last) := by
  have links : ∀ arms : List Arm, Arm.link last (arms ++ [arm]) =
      Arm.link (.elseIf arm.condition arm.body arm.span last) arms := by
    intro arms
    induction arms with
    | nil => rfl
    | cons first rest ih => simp only [List.cons_append, Arm.link, ih]
  simp only [OpenChain.close, OpenChain.extend, links]

namespace Check

variable {κ σ : Type} {s t : Checker κ σ}

/-- What the check of a statement demands of its place. -/
def demand (holds : Scopes (Deferral κ) → Except Fault Bool) (cause : Cause)
    (position : Position) : Check κ σ Unit := do
  if !(← ofFault position (holds (← scopes))) then reject cause position

theorem yields_demand {holds : Scopes (Deferral κ) → Except Fault Bool} {cause : Cause}
    {position : Position} {answer : Bool} (known : holds s.scopes = .ok answer)
    {good : Unit → Checker κ σ → Prop} {bad : Halt → Checker κ σ → Prop} :
    Yields (demand holds cause position) s good bad ↔
      (answer = true → good () s) ∧ (answer = false → bad (.rejected ⟨cause, position⟩) s) := by
  simp only [demand, yields_bind, yields_scopes, known, yields_ofFault, Except.ok.injEq]
  cases answer <;> simp

theorem ends_demand_iff {holds : Scopes (Deferral κ) → Except Fault Bool} {cause : Cause}
    {position : Position} {done : Unit} : Ends (demand holds cause position) s done t ↔
      holds s.scopes = .ok true ∧ t = s := by
  simp only [demand, ends_bind, ends_scopes, ends_ofFault, and_assoc, exists_and_left,
    exists_eq_left]
  constructor
  · rintro ⟨answer, known, rest⟩
    cases answer <;> simp_all
  · rintro ⟨known, rfl⟩
    exact ⟨true, known, by simp⟩

theorem ends_demand {holds : Scopes (Deferral κ) → Except Fault Bool} {cause : Cause}
    {position : Position} {done : Unit} (ends : Ends (demand holds cause position) s done t) : t = s :=
  (ends_demand_iff.1 ends).2

theorem drafts_addDraft {scope : ScopeId} {work : Work} {id : DraftId}
    (adds : Ends (addDraft scope work) s id t) : t.drafts[id]? = some ⟨scope, work⟩ := by
  obtain ⟨rfl, rfl⟩ := ends_addDraft.1 adds
  exact List.getElem?_concat_length

/-- Only what stands at the top can be exported. -/
def checkExport (scope : ScopeId) (declaration : Declaration) : Check κ σ Unit :=
  if declaration.exported then
    demand (·.isTopLevel scope) (.exportNotTopLevel declaration.name) declaration.span.start
  else pure ()

theorem ends_checkExport {scope : ScopeId} {declaration : Declaration} {done : Unit}
    (ends : Ends (checkExport scope declaration) s done t) : t = s := by
  unfold checkExport at ends
  split at ends
  · exact ends_demand ends
  · exact (ends_pure.1 ends).2

/-- Finds the type of a declaration and binds its name. -/
def bindDeclaration (settle : List (Deferral κ) → Check κ σ Unit) (scope : ScopeId)
    (declaration : Declaration) : Check κ σ DraftId := do
  let position := declaration.span.start
  let (result, value) := declaration.value.resolve (← view scope)
  let type ← ofFault position result
  let declaration ← ofCause position ({ declaration with value }.withType type)
  settle (← define scope declaration.binding position)
  let id ← addDraft scope (.declaration declaration)
  deferDeclaration id scope declaration type
  return id

theorem checkDeclaration_eq (settle : List (Deferral κ) → Check κ σ Unit) (scope : ScopeId)
    (declaration : Declaration) : checkDeclaration settle scope declaration =
      checkExport scope declaration >>= fun _ => bindDeclaration settle scope declaration := by
  obtain ⟨name, constant, value, written, type, exported, span⟩ := declaration
  unfold checkDeclaration checkExport demand
  cases exported with
  | false => simp [bindDeclaration]
  | true =>
    simp only [↓reduceIte, bind_assoc]
    refine bind_congr fun scopes => bind_congr fun top => ?_
    cases top <;> simp [bindDeclaration, reject]

theorem ends_checkRoot {scope : ScopeId} {target : Target} {position : Position} {done : Unit} :
    Ends (checkRoot scope target position) s done t ↔
      t = s ∧ ∃ binding, s.scopes.lookup scope target.root = .ok (some binding) ∧
        (binding.constant && target.isSymbol) = false := by
  simp only [checkRoot, ends_bind, ends_scopes, ends_ofFault, and_assoc, exists_and_left,
    exists_eq_left]
  constructor
  · rintro ⟨found, look, rest⟩
    cases found with
    | none => simp at rest
    | some binding =>
      cases refused : binding.constant && target.isSymbol <;> simp_all
  · rintro ⟨rfl, binding, look, free⟩
    exact ⟨some binding, look, by simp [free]⟩

/-- Binds the names that a statement imports, which must stand at the top. -/
theorem checkLeaf_imports (env : Env κ σ) (scope : ScopeId) (names : List String)
    (source : String) (span : Span) : checkLeaf env scope (.imports names source span) =
      demand (·.isTopLevel scope) .importNotTopLevel span.start >>= fun _ =>
        (fun names => .plain (.imports names source span)) <$>
          importNames env scope source span.start names := by
  unfold checkLeaf demand
  simp only [bind_assoc]
  refine bind_congr fun scopes => bind_congr fun top => ?_
  cases top <;> simp [reject]

/-- Finds the type of what is returned. -/
def lookAtReturn (id : DraftId) (scope : ScopeId) (statement : Return) : Check κ σ Ty :=
  match statement.value with
  | none => pure .void
  | some value => do
    let (result, value) := value.resolve (← view scope)
    setDraft id scope (.returns { statement with value })
    ofFault statement.span.start result

/-- What is left of a return once its value has been looked at. -/
def finishReturn (settle : List (Deferral κ) → Check κ σ Unit) (id : DraftId)
    (scope : ScopeId) (position : Position) (result type : Ty) : Check κ σ Unit :=
  match type.pendingOn with
  | some name => do
    defer scope name none (.resume id name) position
    if !result.isConcrete then settle (← setResult scope type position)
  | none =>
    if !result.isConcrete then do settle (← setResult scope type position)
    else if result ≠ type then reject (.returnMismatch result.text type.text) position
    else pure ()

theorem checkReturn_eq (settle : List (Deferral κ) → Check κ σ Unit) (id : DraftId)
    (scope : ScopeId) (statement : Return) : checkReturn settle id scope statement = (do
      let found ← scopes
      match ← ofFault statement.span.start (found.resultType scope) with
      | none => reject .returnOutsideFunction statement.span.start
      | some result =>
        let type ← lookAtReturn id scope statement
        finishReturn settle id scope statement.span.start result type) := by
  unfold checkReturn
  refine bind_congr fun found => bind_congr fun result => ?_
  cases result with
  | none => rfl
  | some result =>
    unfold lookAtReturn
    cases statement.value with
    | none => rfl
    | some value => simp only [bind_assoc]; rfl

/-- What is left of a return once its value has been looked at, up to the work that it hands back. -/
def judgeResult (id : DraftId) (scope : ScopeId) (position : Position) (result type : Ty) :
    Check κ σ (Option (List (Deferral κ))) :=
  match type.pendingOn with
  | some name => do
    defer scope name none (.resume id name) position
    if !result.isConcrete then some <$> setResult scope type position else pure none
  | none =>
    if !result.isConcrete then some <$> setResult scope type position
    else if result ≠ type then reject (.returnMismatch result.text type.text) position
    else pure none

/-- What a return does by itself. The work that it hands back is still to be settled. -/
def judgeReturn (id : DraftId) (scope : ScopeId) (statement : Return) :
    Check κ σ (Option (List (Deferral κ))) := do
  let found ← scopes
  match ← ofFault statement.span.start (found.resultType scope) with
  | none => reject .returnOutsideFunction statement.span.start
  | some result =>
    let type ← lookAtReturn id scope statement
    judgeResult id scope statement.span.start result type

/-- Settles what has been handed back, if anything has. -/
def settleHanded (settle : List (Deferral κ) → Check κ σ Unit) :
    Option (List (Deferral κ)) → Check κ σ Unit
  | none => pure ()
  | some work => settle work

theorem finishReturn_eq (settle : List (Deferral κ) → Check κ σ Unit) (id : DraftId)
    (scope : ScopeId) (position : Position) (result type : Ty) :
    finishReturn settle id scope position result type =
      judgeResult id scope position result type >>= settleHanded settle := by
  unfold finishReturn judgeResult
  cases type.pendingOn with
  | some name =>
    simp only [bind_assoc]
    refine bind_congr fun _ => ?_
    split <;> simp [settleHanded]
  | none =>
    simp only
    split
    · simp [settleHanded]
    · split <;> simp [settleHanded, reject]

theorem checkReturn_judge (settle : List (Deferral κ) → Check κ σ Unit) (id : DraftId)
    (scope : ScopeId) (statement : Return) : checkReturn settle id scope statement =
      judgeReturn id scope statement >>= settleHanded settle := by
  rw [checkReturn_eq]
  simp only [judgeReturn, bind_assoc]
  refine bind_congr fun found => bind_congr fun result => ?_
  cases result with
  | none => simp [reject]
  | some result => simp only [bind_assoc, finishReturn_eq]

/-- Makes the scope of a function's body and binds the parameters in it. -/
def openBody (settle : List (Deferral κ) → Check κ σ Unit) (scope : ScopeId)
    (signature : Signature) : Check κ σ ScopeId := do
  ofCause signature.span.start (checkParameters [] signature.parameters)
  let body ← createScope (some scope) (.function signature.result)
  defineParameters settle body signature.span.start signature.parameters
  return body

theorem openFunction_eq (settle : List (Deferral κ) → Check κ σ Unit) (scope : ScopeId)
    (signature : Signature) : openFunction settle scope signature =
      demand (·.isTopLevel scope) (.functionNotTopLevel signature.name) signature.span.start >>=
        fun _ => openBody settle scope signature := by
  unfold openFunction demand
  simp only [bind_assoc]
  refine bind_congr fun scopes => bind_congr fun top => ?_
  cases top <;> simp [openBody, reject]

/-- The result type of a function whose body has been checked: none if nothing was returned. -/
def resultOf : Ty → Ty
  | .unannotated => .void
  | result => result

theorem resultOf_of_isConcrete {type : Ty} (concrete : type.isConcrete = true) :
    resultOf type = type := by
  cases type <;> simp_all [resultOf, Ty.isConcrete]

/-- What is left of a function once its result type has been settled. -/
def finishFunction (settle : List (Deferral κ) → Check κ σ Unit) (scope inner : ScopeId)
    (signature : Signature) : Check κ σ SignatureId := do
  let id ← addSignature ⟨scope, inner, signature⟩
  if signature.result.isPending then awaitResult inner (.conclude id) signature.span.start
  settle (← define scope signature.binding signature.span.start)
  return id

/-- Keeps the head of a function, which waits for its result type if it has to. -/
def addHead (scope inner : ScopeId) (signature : Signature) : Check κ σ SignatureId := do
  let id ← addSignature ⟨scope, inner, signature⟩
  if signature.result.isPending then awaitResult inner (.conclude id) signature.span.start
  return id

theorem finishFunction_eq (settle : List (Deferral κ) → Check κ σ Unit) (scope inner : ScopeId)
    (signature : Signature) : finishFunction settle scope inner signature = (do
      let id ← addHead scope inner signature
      settle (← define scope signature.binding signature.span.start)
      return id) := by
  unfold finishFunction addHead
  simp only [bind_assoc]
  refine bind_congr fun id => ?_
  split <;> simp

theorem closeFunction_eq (settle : List (Deferral κ) → Check κ σ Unit) (scope inner : ScopeId)
    (signature : Signature) : closeFunction settle scope inner signature = (do
      let found ← scopes
      let result ← ofFault signature.span.start (found.resultType inner)
      finishFunction settle scope inner
        { signature with result := (result.map resultOf).getD .void }) := by
  unfold closeFunction finishFunction
  refine bind_congr fun found => bind_congr fun result => ?_
  rcases result with _ | _ | _ <;> rfl

theorem checkInLoop_eq (scope : ScopeId) (keyword : String) (span : Span) :
    (checkInLoop scope keyword span : Check κ σ Unit) =
      demand (·.isInsideLoop scope) (.controlOutsideLoop keyword) span.start :=
  rfl

theorem ends_checkHoisted {root : ScopeId} {name : String} {position : Position} {done : Unit} :
    Ends (checkHoisted root name position) s done t ↔
      t = s ∧ ∃ binding, s.scopes.binding? root name = some binding ∧
        binding.type.isFunction = true := by
  simp only [checkHoisted, ends_bind, ends_scopes, ends_ofFault, and_assoc, exists_and_left,
    exists_eq_left]
  constructor
  · rintro ⟨found, look, rest⟩
    obtain ⟨scope, here, local_⟩ := bind_eq_ok.1 look
    cases found with
    | none => simp at rest
    | some binding =>
      cases function : binding.type.isFunction with
      | false => simp [function] at rest
      | true =>
        simp only [function, Bool.not_true, Bool.false_eq_true, ↓reduceIte, ends_pure] at rest
        refine ⟨rest.2, binding, ?_, function⟩
        simp only [Scopes.binding?, Scopes.get_eq_ok.1 here, Option.bind_some]
        simpa using local_
  · rintro ⟨rfl, binding, bound, function⟩
    obtain ⟨scope, here, local_⟩ := Option.bind_eq_some_iff.1 bound
    exact ⟨some binding, by simp [Scopes.lookupLocal, Scopes.get_eq_ok.2 here, local_],
      by simp [function]⟩

theorem ends_tryCatch_throw {α : Type} {body : Check κ σ α} {value : α}
    {handler : Halt → Check κ σ α}
    (fails : ∀ halt between, ¬Ends (handler halt) between value t) :
    Ends (tryCatch body handler) s value t ↔ Ends body s value t := by
  unfold Ends at *
  rw [run_tryCatch]
  rcases body.run s with ⟨_ | found, between⟩
  · simpa using fails _ between
  · simp

/-! Waves. -/

section Waves

variable {client : κ → Check κ σ Unit} {fuel : Nat} {done : Unit}

theorem ends_drain_nil (queue : s.queue = []) : Ends (drain client fuel) s done t ↔ t = s := by
  have stays : (drain client fuel).run s = (.ok (), s) := by
    cases fuel <;> simp [drain, queue]
  rw [Ends, stays]
  exact ⟨fun same => (Prod.mk.inj same).2.symm, fun same => same ▸ rfl⟩

/-- A wave that ends well has paid for its first deferral and performed it. -/
theorem ends_drain_cons {work : Deferral κ} {rest : List (Deferral κ)}
    (queue : s.queue = work :: rest) : Ends (drain client fuel) s done t ↔
      ∃ less left m, fuel = less + 1 ∧ s.budget = left + 1 ∧
        Ends (perform client work) { s with queue := rest, budget := left } () m ∧
        Ends (drain client less) m done t := by
  cases fuel with
  | zero => simp [Ends, drain, queue]
  | succ less =>
    simp only [drain, ends_bind, ends_get, and_assoc, exists_and_left, exists_eq_left, queue,
      ends_tick, ends_modify]
    constructor
    · rintro ⟨_, _, ⟨left, budget, rfl⟩, _, _, m, performs, drains⟩
      exact ⟨less, rfl, left, budget, m, performs, drains⟩
    · rintro ⟨_, same, left, budget, m, performs, drains⟩
      obtain rfl := Nat.succ.inj same
      exact ⟨(), _, ⟨left, budget, rfl⟩, (), (), m, performs, drains⟩

/-- The outermost wave performs all that is queued. -/
theorem ends_runWave {work : List (Deferral κ)} (idle : s.firing = false) :
    Ends (runWave client work) s done t ↔
      ∃ m, Ends (drain client s.budget) { s with
          queue := s.queue ++ work
          firing := true
          journal := if work.isEmpty then s.journal else .queued work.length :: s.journal } () m ∧
        t = { m with firing := false } := by
  simp only [runWave, ends_bind, ends_enqueue, ends_get, idle, and_assoc, exists_and_left,
    exists_eq_left, Bool.false_eq_true, ↓reduceIte, ends_modify]
  constructor
  · rintro ⟨_, _, _, m, drains, rfl⟩
    rw [ends_tryCatch_throw (by simp)] at drains
    simp only [ends_bind, ends_get, and_assoc, exists_and_left, exists_eq_left] at drains
    exact ⟨m, drains, rfl⟩
  · rintro ⟨m, drains, rfl⟩
    refine ⟨(), (), (), m, ?_, rfl⟩
    rw [ends_tryCatch_throw (by simp)]
    simpa only [ends_bind, ends_get, and_assoc, exists_and_left, exists_eq_left] using drains

end Waves

/-! Conditions. -/

theorem ends_requireBoolean {type : Ty} {position : Position} {done : Unit} :
    Ends (requireBoolean type position) s done t ↔ type = .boolean ∧ t = s := by
  unfold requireBoolean
  split <;> simp_all

theorem ends_checkCondition {scope : ScopeId} {condition after : Expr} {position : Position} :
    Ends (checkCondition scope condition position) s after t ↔
      condition.resolve (s.scopes.view scope) = (.ok .boolean, after) ∧ t = s := by
  simp only [checkCondition, ends_bind, ends_view, ends_ofFault, ends_requireBoolean, ends_pure,
    and_assoc, exists_and_left, exists_eq_left]
  rcases condition.resolve (s.scopes.view scope) with ⟨_ | type, looked⟩
  · simp
  · simp [Prod.ext_iff, and_assoc, eq_comm]

theorem ends_checkLoopCondition {env : Env κ σ} {scope : ScopeId} {condition after : Expr}
    {position : Position} :
    Ends (checkLoopCondition env scope condition position) s after t →
      t = s ∧ ∃ type, condition.resolve (s.scopes.view scope) = (.ok type, after) ∧
        (env.options.loopCondition = .literalTrue ∧ after = .boolean true ∨
          env.options.loopCondition = .boolean ∧ type = .boolean) := by
  intro ends
  simp only [checkLoopCondition, ends_bind, ends_view, ends_ofFault, and_assoc,
    exists_and_left, exists_eq_left] at ends
  obtain ⟨type, found, ends⟩ := ends
  generalize look : condition.resolve (s.scopes.view scope) = looked at found ends
  obtain ⟨result, looked⟩ := looked
  obtain rfl : result = .ok type := found
  cases mode : env.options.loopCondition with
  | literalTrue =>
    cases literal : isTrue looked with
    | false => simp [mode, literal] at ends
    | true =>
      simp only [mode, literal, Bool.not_true, Bool.false_eq_true, ↓reduceIte, ends_pure] at ends
      obtain ⟨rfl, rfl⟩ := ends
      refine ⟨rfl, type, rfl, .inl ⟨rfl, ?_⟩⟩
      unfold isTrue at literal
      split at literal
      · rfl
      · simp at literal
  | boolean =>
    simp only [mode, ends_bind, ends_requireBoolean, ends_pure] at ends
    obtain ⟨_, _, ⟨boolean, rfl⟩, rfl, rfl⟩ := ends
    exact ⟨rfl, type, rfl, .inr ⟨rfl, boolean⟩⟩

theorem foldChain_of_ends {chain : OpenChain} {last : OutlineChain} {outline : Outline}
    (ends : Ends (foldChain chain last) s outline t) :
    outline = chain.close last ∧ ∃ journal, t = { s with journal } := by
  simp only [foldChain, ends_bind, ends_note, ends_pure, exists_eq_left] at ends
  obtain ⟨_, rfl, rfl⟩ := ends
  exact ⟨rfl, _, rfl⟩

/-! Whole files. -/

/-- What is done when the statements of a file have been checked. -/
def finishFile (env : Env κ σ) (outlines : List Outline) : Check κ σ (List Outline) := do
  if env.options.reportUnresolved then reportUnresolved
  note (.finished (← scopes).size)
  return outlines

theorem analyze_eq (env : Env κ σ) (program : List Stmt) :
    analyze env program = checkBlock env Checker.root none program >>= finishFile env :=
  rfl

/-- A file whose names are to be reported is only finished if nobody waits for one. -/
theorem ends_finishFile {env : Env κ σ} {outlines found : List Outline}
    (ends : Ends (finishFile env outlines) s found t) :
    found = outlines ∧ t = { s with journal := .finished s.scopes.size :: s.journal } ∧
      (env.options.reportUnresolved = true → s.scopes.firstWaiting? = none) := by
  have reports (m : Checker κ σ) (ends : Ends (do
      let after ← scopes
      note (.finished after.size)
      return outlines) m found t) :
      found = outlines ∧ t = { m with journal := .finished m.scopes.size :: m.journal } := by
    simp only [ends_bind, ends_scopes, ends_note, ends_pure, and_assoc, exists_and_left,
      exists_eq_left] at ends
    obtain ⟨same, _, after⟩ := ends
    exact ⟨same, after⟩
  simp only [finishFile] at ends
  split at ends
  case isFalse quiet =>
    obtain ⟨same, after⟩ := reports s ends
    exact ⟨same, after, fun asked => absurd asked quiet⟩
  case isTrue =>
    obtain ⟨_, m, nobody, rest⟩ := ends_bind.1 ends
    obtain ⟨waiting, rfl⟩ : s.scopes.firstWaiting? = none ∧ m = s := by
      simp only [reportUnresolved, ends_bind, ends_scopes, and_assoc, exists_and_left,
        exists_eq_left] at nobody
      cases waiting : s.scopes.firstWaiting? with
      | none => simpa [waiting] using nobody
      | some first => simp [waiting] at nobody
    obtain ⟨same, after⟩ := reports m rest
    exact ⟨same, after, fun _ => waiting⟩

end Check

section Program

variable {σ : Type} {importer : Importer σ} {options : Options} {budget : Nat} {store : σ}
  {program : List Stmt} {t : Checker Empty σ}

theorem checkProgram_of_halts {halt : Halt}
    (halts : analyzeProgram importer options budget store program = (.error halt, t)) :
    checkProgram importer options budget store program =
      ⟨.error halt, t.store, t.journal ++ [.started program.length]⟩ := by
  rw [checkProgram, halts]
  rfl

theorem checkProgram_of_ends {outlines : List Outline}
    (ends : Check.Ends (Check.analyze (Env.plain options importer) program)
      (Checker.initial store budget) outlines t) :
    checkProgram importer options budget store program =
      ⟨(t.complete outlines).map Output.ofStmts, t.store,
        t.journal ++ [.started program.length]⟩ := by
  rw [checkProgram, analyzeProgram, show _ = (Except.ok outlines, t) from ends]
  cases completes : t.complete outlines <;> simp [completes, bind, Except.bind, pure, Except.pure]
    <;> rfl

/-- The parts of checking a file that is accepted. -/
theorem exists_of_accepted {output : Output}
    (accepted : (checkProgram importer options budget store program).result = .ok output) :
    ∃ outlines t, Check.Ends (Check.analyze (Env.plain options importer) program)
        (Checker.initial store budget) outlines t ∧
      t.complete outlines = .ok output.typed ∧ output = Output.ofStmts output.typed := by
  generalize run : analyzeProgram importer options budget store program = ran at *
  obtain ⟨result, t⟩ := ran
  simp only [checkProgram, run, bind_eq_ok, pure_eq_ok] at accepted
  obtain ⟨outlines, rfl, typed, completes, rfl⟩ := accepted
  exact ⟨outlines, t, run, completes, rfl⟩

end Program

end Hoist
