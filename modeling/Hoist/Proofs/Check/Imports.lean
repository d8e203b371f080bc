import Hoist.Proofs.Check.Bodies
import Hoist.Proofs.Check.Small

/-!
How checking depends on where imported types come from. Two runs of one file with different
importers are made of the same steps in the same order: steps that touch neither the budget nor the
store, payments, waves, and questions to the importer (`Paired`). Whatever holds of each of these
holds of the whole.

Main statements: all that happens to a store is what the importer does to it (`Paired.respects`), every
module that is named has been asked for when a run ends well (`Paired.answered`), and two runs whose
importers do not contradict each other do not contradict each other (`Paired.agrees`).
-/
namespace Hoist

/-- The modules that names are imported from, once for each name. -/
def Leaf.sources : Leaf → List String
  | .imports names source _ => names.map fun _ => source
  | _ => []

def Stmt.allSources (program : List Stmt) : List String :=
  (Stmt.allLeaves program).flatMap Leaf.sources

theorem Stmt.allSources_cons (stmt : Stmt) (rest : List Stmt) :
    Stmt.allSources (stmt :: rest) =
      (Stmt.leaves stmt).flatMap Leaf.sources ++ Stmt.allSources rest := by
  simp [Stmt.allSources, Stmt.allLeaves]

/-- What an importer does to a store that is good: it stays so if there is an answer. -/
def Importer.Respects {σ : Type} (importer : Importer σ) (good : σ → Prop)
    (bad : Halt → σ → Prop) : Prop :=
  ∀ name source position store, good store →
    (∀ type, (importer.typeOf name source position store).1 = .ok type →
      good (importer.typeOf name source position store).2.1) ∧
    ∀ halt, (importer.typeOf name source position store).1 = .error halt →
      bad halt (importer.typeOf name source position store).2.1

/-- Something is known of a module when it has been asked for with success, and stays known. -/
structure Importer.Learns {σ : Type} (importer : Importer σ) (known : String → σ → Prop) : Prop where
  learns : ∀ name source position store type,
    (importer.typeOf name source position store).1 = .ok type →
    known source (importer.typeOf name source position store).2.1
  stays : ∀ name source position store other, known other store →
    known other (importer.typeOf name source position store).2.1

/-- Two importers whose answers, if both answer, are the same. -/
def Importer.Agrees {σ : Type} (a b : Importer σ) (related : σ → σ → Prop) : Prop :=
  ∀ name source position store store' type type', related store store' →
    (a.typeOf name source position store).1 = .ok type →
    (b.typeOf name source position store').1 = .ok type' →
    type = type' ∧ related (a.typeOf name source position store).2.1
      (b.typeOf name source position store').2.1

/-- Two importers that answer alike as long as the store is good, which it stays. -/
def Importer.Alike {σ : Type} (a b : Importer σ) (good : σ → Prop) : Prop :=
  ∀ name source position store, good store →
    a.typeOf name source position store = b.typeOf name source position store ∧
      good (a.typeOf name source position store).2.1

/-- All of a checker that its steps read between two payments. -/
def Checker.bare {κ σ : Type} (s : Checker κ σ) : Checker κ Unit :=
  { s with budget := 0, store := (), journal := [] }

namespace Check

variable {κ σ α β : Type}

/-- Two steps that are made alike, one with each importer. The list holds the modules that both ask
for before they end well. -/
inductive Paired (a b : Importer σ) : ∀ {α : Type}, List String → Check κ σ α → Check κ σ α → Prop
  | same {α : Type} {step : Check κ σ α} (unmetered : Unmetered step) : Paired a b [] step step
  | halt {α : Type} (asked : List String) (halt : Halt) :
      Paired a b asked (throw halt : Check κ σ α) (throw halt)
  | pay : Paired a b [] tick tick
  | wave {client : κ → Check κ σ Unit} (clients : ∀ task, Small (client task))
      (work : List (Deferral κ)) : Paired a b [] (runWave client work) (runWave client work)
  | ask (options : Options) (settle : List (Deferral κ) → Check κ σ Unit)
      (name source : String) (position : Position) :
      Paired a b [source] (importType ⟨options, a, settle⟩ name source position)
        (importType ⟨options, b, settle⟩ name source position)
  | bind {α β : Type} {asked later : List String} {first first' : Check κ σ α}
      {next next' : α → Check κ σ β} (isFirst : Paired a b asked first first')
      (isNext : ∀ value, Paired a b later (next value) (next' value)) :
      Paired a b (asked ++ later) (first >>= next) (first' >>= next')

variable {a b : Importer σ}

/-! Statements are made alike. -/

theorem Small.paired {step : Check κ σ α} (small : Small step) : Paired a b [] step step :=
  .same small.toUnmetered

theorem Paired.then {asked : List String} {first first' : Check κ σ α}
    {next next' : α → Check κ σ β} (isFirst : Paired a b [] first first')
    (isNext : ∀ value, Paired a b asked (next value) (next' value)) :
    Paired a b asked (first >>= next) (first' >>= next') :=
  .bind isFirst isNext

/-- What follows asks for nothing. -/
theorem Paired.last {asked : List String} {first first' : Check κ σ α}
    {next next' : α → Check κ σ β} (isFirst : Paired a b asked first first')
    (isNext : ∀ value, Paired a b [] (next value) (next' value)) :
    Paired a b asked (first >>= next) (first' >>= next') := by
  have both := isFirst.bind isNext
  rwa [List.append_nil] at both

theorem Paired.map {asked : List String} {step step' : Check κ σ α}
    (isStep : Paired a b asked step step') (change : α → β) :
    Paired a b asked (change <$> step) (change <$> step') := by
  rw [map_eq_pure_bind, map_eq_pure_bind]
  exact isStep.last fun _ => (small_pure _).paired

section Statements

variable {settle : List (Deferral κ) → Check κ σ Unit} {options : Options}
  (settles : ∀ work, Paired a b [] (settle work) (settle work)) (scope : ScopeId)
  (position : Position)

include settles

theorem paired_declaration (declaration : Declaration) :
    Paired a b [] (checkDeclaration settle scope declaration)
      (checkDeclaration settle scope declaration) := by
  rw [checkDeclaration_eq]
  refine (small_checkExport scope declaration).paired.then fun _ =>
    (small_view scope).paired.then fun names => ?_
  exact small_ofFault.paired.then fun type =>
    small_ofCause.paired.then fun declaration =>
    (small_define _ _ _).paired.then fun work => (settles work).then fun _ =>
    (Paired.same (unmetered_addDraft _ _)).then fun id =>
    (small_deferDeclaration scope id declaration type).paired.then fun _ => (small_pure _).paired

theorem paired_return (id : DraftId) (statement : Return) :
    Paired a b [] (checkReturn settle id scope statement)
      (checkReturn settle id scope statement) := by
  rw [checkReturn_judge]
  refine (small_judgeReturn scope id statement).paired.then fun handed => ?_
  cases handed with
  | none => exact (small_pure _).paired
  | some work => exact settles work

theorem paired_importNames (source : String) (names : List String) :
    Paired a b (names.map fun _ => source)
      (importNames ⟨options, a, settle⟩ scope source position names)
      (importNames ⟨options, b, settle⟩ scope source position names) := by
  induction names with
  | nil => exact (small_pure _).paired
  | cons name rest ih =>
    rw [importNames, importNames, List.map_cons, ← List.singleton_append]
    refine (Paired.ask options settle name source position).bind fun type => ?_
    refine Paired.then ?_ fun _ => (small_define _ _ _).paired.then fun work =>
      (settles work).then fun _ => ih.last fun _ => (small_pure _).paired
    cases ConcreteTy.ofTy type with
    | ok imported => exact (small_pure _).paired
    | error cause => exact .halt _ _

theorem paired_leaf (leaf : Leaf) :
    Paired a b leaf.sources (checkLeaf ⟨options, a, settle⟩ scope leaf)
      (checkLeaf ⟨options, b, settle⟩ scope leaf) := by
  cases leaf with
  | declare declaration =>
    exact (paired_declaration settles _ _).then fun _ => (small_pure _).paired
  | assign assignment =>
    exact (Paired.same (unmetered_addDraft _ _)).then fun _ =>
      (small_checkAssignment _ _ _ _).paired.then fun _ => (small_pure _).paired
  | returns statement =>
    exact (Paired.same (unmetered_addDraft _ _)).then fun _ =>
      (paired_return settles _ _ _).then fun _ => (small_pure _).paired
  | evaluate statement =>
    exact (Paired.same (unmetered_addDraft _ _)).then fun _ =>
      (small_checkEvaluation _ _ _).paired.then fun _ => (small_pure _).paired
  | breakLoop span | continueLoop span =>
    exact (small_checkInLoop _ _ _).paired.then fun _ => (small_pure _).paired
  | imports names source span =>
    rw [checkLeaf_imports, checkLeaf_imports]
    exact small_demand.paired.then fun _ =>
      (paired_importNames settles _ _ source names).map _
  | endOfFile => exact (small_pure _).paired

theorem paired_defineParameters (parameters : List (String × Ty)) :
    Paired a b [] (defineParameters settle scope position parameters)
      (defineParameters settle scope position parameters) := by
  induction parameters with
  | nil => exact (small_pure _).paired
  | cons parameter rest ih =>
    obtain ⟨name, type⟩ := parameter
    exact (small_define _ _ _).paired.then fun work => (settles work).then fun _ => ih

theorem paired_openFunction (signature : Signature) :
    Paired a b [] (openFunction settle scope signature) (openFunction settle scope signature) := by
  rw [openFunction_eq]
  exact small_demand.paired.then fun _ =>
    small_ofCause.paired.then fun _ =>
    (Paired.same (unmetered_createScope _ _)).then fun inner =>
    (paired_defineParameters settles _ _ _).then fun _ => (small_pure _).paired

theorem paired_closeFunction (inner : ScopeId) (signature : Signature) :
    Paired a b [] (closeFunction settle scope inner signature)
      (closeFunction settle scope inner signature) := by
  rw [closeFunction_eq]
  refine small_scopes.paired.then fun scopes =>
    small_ofFault.paired.then fun result => ?_
  rw [finishFunction_eq]
  exact (small_addHead _ _ _).paired.then fun id =>
    (small_define _ _ _).paired.then fun work => (settles work).then fun _ => (small_pure _).paired

end Statements

section Bodies

variable {settle : List (Deferral κ) → Check κ σ Unit} {options : Options} {asked : List String}
  {body body' : ScopeId → Check κ σ (List Outline)}
  (inside : ∀ inner, Paired a b asked (body inner) (body' inner)) (scope : ScopeId)

include inside

/-- The body is left with its condition, which is read off at once. -/
theorem paired_inside {kind : ScopeKind} {condition : Expr} {position : Position}
    {finish : List Outline → Typed.Expr → Check κ σ α} (finishes : ∀ outlines typed,
      Paired a b [] (finish outlines typed) (finish outlines typed)) :
    Paired a b asked (do
      let inner ← createScope (some scope) kind
      let outlines ← body inner
      finish outlines (← ofCause position (Typed.Expr.ofExpr condition))) (do
      let inner ← createScope (some scope) kind
      let outlines ← body' inner
      finish outlines (← ofCause position (Typed.Expr.ofExpr condition))) := by
  refine (Paired.same (unmetered_createScope _ _)).then fun inner => (inside inner).last fun outlines => ?_
  refine Paired.then ?_ fun typed => finishes outlines typed
  cases Typed.Expr.ofExpr condition with
  | ok typed => exact (small_pure _).paired
  | error cause => exact .halt _ _

theorem paired_arm (condition : Expr) (span : Span) :
    Paired a b asked (checkArm scope condition span body)
      (checkArm scope condition span body') :=
  (small_checkCondition _ _ _).paired.then fun _ =>
    paired_inside inside scope fun _ _ => (small_pure _).paired

theorem paired_loop (condition : Expr) (span : Span) :
    Paired a b asked (checkLoop ⟨options, a, settle⟩ scope condition span body)
      (checkLoop ⟨options, b, settle⟩ scope condition span body') :=
  (small_checkLoopCondition _ _ ⟨options, a, settle⟩ _).paired.then fun _ =>
    paired_inside inside scope fun _ _ => (small_pure _).paired

theorem paired_function (settles : ∀ work, Paired a b [] (settle work) (settle work))
    (signature : Signature) :
    Paired a b asked (checkFunction ⟨options, a, settle⟩ scope signature body)
      (checkFunction ⟨options, b, settle⟩ scope signature body') :=
  (paired_openFunction settles _ _).then fun inner => (inside inner).last fun _ =>
    (paired_closeFunction settles _ _ _).then fun _ => (small_pure _).paired

end Bodies

mutual

theorem paired_checkStmt {settle : List (Deferral κ) → Check κ σ Unit} {options : Options}
    (settles : ∀ work, Paired a b [] (settle work) (settle work)) :
    ∀ (stmt : Stmt) (scope : ScopeId) (chain : Option OpenChain),
      Paired a b (stmt.leaves.flatMap Leaf.sources)
        (checkStmt ⟨options, a, settle⟩ scope chain stmt)
        (checkStmt ⟨options, b, settle⟩ scope chain stmt)
  | .leaf content, scope, chain => by
    simp only [checkStmt, Stmt.leaves, List.flatMap_cons, List.flatMap_nil, List.append_nil]
    exact (paired_leaf settles _ content).last fun _ => (small_pure _).paired
  | .branch condition body span, scope, chain => by
    simp only [checkStmt, Stmt.leaves]
    exact (paired_arm (fun inner => paired_checkBlock settles body inner none) _ _ _).last fun _ =>
      (small_pure _).paired
  | .elseIf condition body span, scope, none => by
    simp only [checkStmt]
    exact .halt _ _
  | .elseIf condition body span, scope, some chain => by
    simp only [checkStmt, Stmt.leaves]
    exact (paired_arm (fun inner => paired_checkBlock settles body inner none) _ _ _).last fun _ =>
      (small_pure _).paired
  | .otherwise body span, scope, none => by
    simp only [checkStmt]
    exact .halt _ _
  | .otherwise body span, scope, some chain => by
    simp only [checkStmt, Stmt.leaves]
    exact (Paired.same (unmetered_createScope _ _)).then fun inner =>
      (paired_checkBlock settles body inner none).last fun _ =>
      (small_foldChain _ _).paired.then fun _ => (small_pure _).paired
  | .loop condition body span, scope, chain => by
    simp only [checkStmt, Stmt.leaves]
    exact (paired_loop (fun inner => paired_checkBlock settles body inner none) _ _ _).last fun _ =>
      (small_pure _).paired
  | .function signature body, scope, chain => by
    simp only [checkStmt, Stmt.leaves]
    exact (paired_function (fun inner => paired_checkBlock settles body inner none) _ settles
      _).last fun _ => (small_pure _).paired

theorem paired_checkBlock {settle : List (Deferral κ) → Check κ σ Unit} {options : Options}
    (settles : ∀ work, Paired a b [] (settle work) (settle work)) :
    ∀ (program : List Stmt) (scope : ScopeId) (chain : Option OpenChain),
      Paired a b (Stmt.allSources program)
        (checkBlock ⟨options, a, settle⟩ scope chain program)
        (checkBlock ⟨options, b, settle⟩ scope chain program)
  | [], scope, chain => by
    simp only [checkBlock, Stmt.allSources, Stmt.allLeaves]
    exact (small_endChain chain).paired
  | stmt :: rest, scope, chain => by
    rw [checkBlock, checkBlock, Stmt.allSources_cons]
    exact (small_endChainBefore stmt chain).paired.then fun found => Paired.pay.then fun _ =>
      (paired_checkStmt settles stmt scope found.2).bind fun done =>
      (paired_checkBlock settles rest scope done.2).last fun _ => (small_pure _).paired

end

theorem paired_analyze (options : Options) (program : List Stmt) :
    Paired a b (Stmt.allSources program) (analyze (Env.plain options a) program)
      (analyze (Env.plain options b) program) := by
  rw [analyze_eq, analyze_eq]
  refine Paired.last ?_ fun outlines => .same (unmetered_finishFile (Env.plain options a) outlines)
  exact paired_checkBlock (fun work => .wave (fun task => task.elim) work) program _ none

/-! What the importer does to the store. -/

theorem Unmetered.stored {step : Check κ σ α} (unmetered : Unmetered step) (s : Checker κ σ) :
    (step.run s).2.store = s.store := by
  have even := unmetered.even s s.budget s.store []
  rw [Checker.over_same] at even
  exact congrArg (·.2.store) even

section Store

variable {good : σ → Prop} {bad : Halt → σ → Prop}

/-- From a good store the step ends with a good one, or halts with one that is bad. -/
def Respects (good : σ → Prop) (bad : Halt → σ → Prop) (step : Check κ σ α) : Prop :=
  ∀ s, good s.store → Yields step s (fun _ t => good t.store) fun halt t => bad halt t.store

theorem Respects.bind {first : Check κ σ α} {next : α → Check κ σ β}
    (isFirst : Respects good bad first) (isNext : ∀ value, Respects good bad (next value)) :
    Respects good bad (first >>= next) :=
  fun s holds => yields_bind.2 ((isFirst s holds).mono (fun value t => isNext value t)
    fun _ _ halted => halted)

variable (worse : ∀ halt store, good store → bad halt store)

include worse

theorem Unmetered.respects {step : Check κ σ α} (unmetered : Unmetered step) :
    Respects good bad step := by
  intro s holds
  have stored := unmetered.stored s
  unfold Yields
  split <;> simp_all

theorem respects_throw (halt : Halt) : Respects good bad (throw halt : Check κ σ α) :=
  fun _ holds => yields_throw.2 (worse _ _ holds)

omit worse in
theorem respects_get : Respects good bad (get : Check κ σ (Checker κ σ)) :=
  fun _ holds => yields_get.2 holds

omit worse in
theorem respects_modify {change : Checker κ σ → Checker κ σ}
    (same : ∀ s, (change s).store = s.store) :
    Respects good bad (modify change : Check κ σ PUnit) :=
  fun s holds => yields_modify.2 ((same s).symm ▸ holds)

theorem respects_tick : Respects good bad (tick : Check κ σ Unit) :=
  fun _ holds => yields_tick.2 ⟨fun _ => worse _ _ holds, fun _ _ => holds⟩

section Waves

variable {client : κ → Check κ σ Unit} (clients : ∀ task, Small (client task))

include clients

theorem respects_drain (fuel : Nat) : Respects good bad (drain client fuel) := by
  induction fuel with
  | zero =>
    refine respects_get.bind fun s => ?_
    split
    · exact respects_throw worse _
    · exact (small_pure _).toUnmetered.respects worse
  | succ fuel ih =>
    refine respects_get.bind fun s => ?_
    split
    · exact (small_pure _).toUnmetered.respects worse
    · exact (respects_tick worse).bind fun _ => Respects.bind (respects_modify fun _ => rfl) fun _ =>
        ((small_perform clients _).toUnmetered.respects worse).bind fun _ => ih

theorem respects_runWave (work : List (Deferral κ)) : Respects good bad (runWave client work) := by
  refine ((small_enqueue work).toUnmetered.respects worse).bind fun _ =>
    respects_get.bind fun s => ?_
  split
  · exact (small_pure _).toUnmetered.respects worse
  · refine Respects.bind (respects_modify fun _ => rfl) fun _ => Respects.bind ?_ fun _ =>
      respects_modify fun _ => rfl
    have drains : Respects good bad (do drain client (← get).budget) :=
      respects_get.bind fun m => respects_drain worse clients m.budget
    refine fun m holds => yields_tryCatch.2 ((drains m holds).mono (fun _ _ good => good) ?_)
    intro halt t stored
    cases halt <;> simpa [endWave] using stored

end Waves

/-- All that happens to a store is what the importer does to it. -/
theorem Paired.respects {asked : List String} {step step' : Check κ σ α}
    (paired : Paired a b asked step step')
    (answers : a.Respects good bad) : Respects good bad step := by
  induction paired with
  | same unmetered => exact unmetered.respects worse
  | halt asked halt => exact respects_throw worse halt
  | pay => exact respects_tick worse
  | wave clients work => exact respects_runWave worse clients work
  | bind _ _ isFirst isNext => exact isFirst.bind isNext
  | ask options settle name source position =>
    intro s holds
    obtain ⟨found, refused⟩ := answers name source position s.store holds
    simp only [importType, yields_bind, yields_get, yields_set]
    split
    · exact yields_pure.2 (found _ ‹_›)
    · exact yields_throw.2 (refused _ ‹_›)

omit worse

/-- Importers that answer alike make no difference. -/
theorem Paired.run_eq {asked : List String} {step step' : Check κ σ α}
    (paired : Paired a b asked step step') (alike : a.Alike b good) :
    ∀ s : Checker κ σ, good s.store → step.run s = step'.run s := by
  have answers : a.Respects good fun _ => good := fun name source position store holds =>
    ⟨fun _ _ => (alike name source position store holds).2,
      fun _ _ => (alike name source position store holds).2⟩
  induction paired with
  | same | halt | pay | wave => exact fun _ _ => rfl
  | @bind _ _ _ _ first first' next next' isFirst isNext ihFirst ihNext =>
    intro s holds
    have left := isFirst.respects (fun _ _ holds => holds) answers s holds
    rw [run_bind, run_bind, ← ihFirst s holds]
    unfold Yields at left
    rcases ran : first.run s with ⟨halt | value, m⟩
    · rfl
    · rw [ran] at left
      exact ihNext value m left
  | ask options settle name source position =>
    intro s holds
    have same := (alike name source position s.store holds).1
    simp only [importType, run_bind, run_get, same]

theorem ends_ask {env : Env κ σ} {name source : String} {position : Position} {type : Ty}
    {s t : Checker κ σ} : Ends (importType env name source position) s type t ↔
      (env.importer.typeOf name source position s.store).1 = .ok type ∧
      t = { s with
        store := (env.importer.typeOf name source position s.store).2.1
        journal := (env.importer.typeOf name source position s.store).2.2 ++ s.journal } := by
  obtain ⟨options, ⟨typeOf⟩, settle⟩ := env
  simp only [importType, ends_bind, ends_get, ends_set, and_assoc, exists_and_left,
    exists_eq_left]
  rcases typeOf name source position s.store with ⟨_ | found, store, notes⟩
  · simp
  · simp [eq_comm]

/-- What is known of a module once it has been asked for is known of every module that was asked
for when the step ends well. -/
theorem Paired.answered {known : String → σ → Prop} {asked : List String}
    {step step' : Check κ σ α} (paired : Paired a b asked step step')
    (learns : a.Learns known)
    {s t : Checker κ σ} {value : α} (ends : Ends step s value t) :
    ∀ source ∈ asked, known source t.store := by
  induction paired generalizing s t with
  | same | halt | pay | wave => simp_all
  | ask options settle name source position =>
    obtain ⟨answer, rfl⟩ := ends_ask.1 ends
    intro other mem
    obtain rfl := List.mem_singleton.1 mem
    exact learns.learns name other position s.store _ answer
  | bind first next isFirst isNext =>
    obtain ⟨found, m, ends, rest⟩ := ends_bind.1 ends
    intro source mem
    rcases List.mem_append.1 mem with before | after
    · have still : Respects (known source) (fun _ => known source) _ :=
        (next found).respects (fun _ _ => id) fun name other position store holds =>
          have kept := learns.stays name other position store source holds
          ⟨fun _ _ => kept, fun _ _ => kept⟩
      exact (still m (isFirst ends source before)).of_ends rest
    · exact isNext found rest source after

end Store

/-! Two runs. -/

theorem Checker.eq_over {s t : Checker κ σ} (same : s.bare = t.bare) :
    t = Checker.over { s with journal := [] } t.budget t.store t.journal := by
  obtain ⟨scopes, drafts, signatures, queue, firing, budget, store, journal⟩ := t
  simp only [Checker.bare, Checker.mk.injEq] at same
  simp [Checker.over, same]

/-- What one step ends with the other ends with too, and they are left in the same state but for the
budget, the notes, and stores that are related. -/
def Agrees (related : σ → σ → Prop) (step step' : Check κ σ α) : Prop :=
  ∀ {s s' t t' value value'}, s.bare = s'.bare → related s.store s'.store →
    Ends step s value t → Ends step' s' value' t' →
    value = value' ∧ t.bare = t'.bare ∧ related t.store t'.store

section Agreement

variable {related : σ → σ → Prop}

theorem Agrees.bind {first first' : Check κ σ α} {next next' : α → Check κ σ β}
    (isFirst : Agrees related first first')
    (isNext : ∀ value, Agrees related (next value) (next' value)) :
    Agrees related (first >>= next) (first' >>= next') := by
  intro s s' t t' value value' same stores ends ends'
  obtain ⟨found, m, ends, rest⟩ := ends_bind.1 ends
  obtain ⟨found', m', ends', rest'⟩ := ends_bind.1 ends'
  obtain ⟨rfl, same, stores⟩ := isFirst same stores ends ends'
  exact isNext found same stores rest rest'

theorem Unmetered.agrees {step : Check κ σ α} (unmetered : Unmetered step) :
    Agrees related step step := by
  intro s s' t t' value value' same stores ends ends'
  have ran := unmetered.even { s with journal := [] } s.budget s.store s.journal
  have ran' := unmetered.even { s with journal := [] } s'.budget s'.store s'.journal
  rw [← Checker.eq_over rfl] at ran
  rw [← Checker.eq_over same] at ran'
  obtain ⟨result, rfl⟩ := Prod.mk.inj (ran.symm.trans ends)
  obtain ⟨result', rfl⟩ := Prod.mk.inj (ran'.symm.trans ends')
  exact ⟨Except.ok.inj (result.symm.trans result'), rfl, stores⟩

theorem agrees_tick : Agrees related (tick : Check κ σ Unit) tick := by
  intro s s' t t' value value' same stores ends ends'
  obtain ⟨_, _, rfl⟩ := ends_tick.1 ends
  obtain ⟨_, _, rfl⟩ := ends_tick.1 ends'
  exact ⟨rfl, same, stores⟩

variable {client : κ → Check κ σ Unit} (clients : ∀ task, Small (client task))

include clients

/-- The queues are the same, and both budgets last to the end. -/
theorem agrees_drain (fuel fuel' : Nat) :
    Agrees related (drain client fuel) (drain client fuel') := by
  induction fuel generalizing fuel' with
  | zero =>
    intro s s' t t' value value' same stores ends ends'
    have queues : s.queue = s'.queue := by injection same
    cases queue : s.queue with
    | nil =>
      rw [(ends_drain_nil queue).1 ends, (ends_drain_nil (queues ▸ queue)).1 ends']
      exact ⟨rfl, same, stores⟩
    | cons work rest =>
      obtain ⟨_, _, _, spent, _⟩ := (ends_drain_cons queue).1 ends
      cases spent
  | succ fuel ih =>
    intro s s' t t' value value' same stores ends ends'
    have queues : s.queue = s'.queue := by injection same
    cases queue : s.queue with
    | nil =>
      rw [(ends_drain_nil queue).1 ends, (ends_drain_nil (queues ▸ queue)).1 ends']
      exact ⟨rfl, same, stores⟩
    | cons work rest =>
      obtain ⟨less, left, m, spent, _, performs, drains⟩ := (ends_drain_cons queue).1 ends
      obtain ⟨less', left', m', _, _, performs', drains'⟩ :=
        (ends_drain_cons (queues ▸ queue)).1 ends'
      obtain rfl := Nat.succ.inj spent
      have taken : Checker.bare { s with queue := rest, budget := left } =
          Checker.bare { s' with queue := rest, budget := left' } :=
        congrArg (fun m : Checker κ Unit => { m with queue := rest }) same
      obtain ⟨-, same, stores⟩ :=
        (small_perform clients work).toUnmetered.agrees taken stores performs performs'
      exact ih less' same stores drains drains'

theorem agrees_runWave (work : List (Deferral κ)) :
    Agrees related (runWave client work) (runWave client work) := by
  intro s s' t t' value value' same stores ends ends'
  have firing : s.firing = s'.firing := by injection same
  cases isFiring : s.firing with
  | true =>
    have ran := runWave_of_firing client work s isFiring
    have ran' := runWave_of_firing client work s' (firing ▸ isFiring)
    exact (small_enqueue work).toUnmetered.agrees same stores (ran.symm.trans ends)
      (ran'.symm.trans ends')
  | false =>
    obtain ⟨m, drains, rfl⟩ := (ends_runWave isFiring).1 ends
    obtain ⟨m', drains', rfl⟩ := (ends_runWave (firing ▸ isFiring)).1 ends'
    have begun (journal journal' : List Note) :
        Checker.bare { s with queue := s.queue ++ work, firing := true, journal := journal } =
          Checker.bare { s' with queue := s'.queue ++ work, firing := true, journal := journal' } :=
      congrArg (fun m : Checker κ Unit => { m with queue := m.queue ++ work, firing := true }) same
    obtain ⟨-, same, stores⟩ :=
      agrees_drain clients s.budget s'.budget (begun _ _) stores drains drains'
    exact ⟨rfl, congrArg (fun m : Checker κ Unit => { m with firing := false }) same, stores⟩

omit clients in
/-- Importers that do not contradict each other give runs that do not contradict each other. -/
theorem Paired.agrees {asked : List String} {step step' : Check κ σ α}
    (paired : Paired a b asked step step')
    (agree : a.Agrees b related) : Agrees related step step' := by
  induction paired with
  | same unmetered => exact unmetered.agrees
  | halt asked halt => exact fun _ _ ends => absurd ends (by simp)
  | pay => exact agrees_tick
  | wave clients work => exact agrees_runWave clients work
  | bind _ _ isFirst isNext => exact isFirst.bind isNext
  | ask options settle name source position =>
    intro s s' t t' value value' same stores ends ends'
    obtain ⟨answer, rfl⟩ := ends_ask.1 ends
    obtain ⟨answer', rfl⟩ := ends_ask.1 ends'
    obtain ⟨rfl, stores⟩ := agree _ _ _ _ _ _ _ stores answer answer'
    exact ⟨rfl, same, stores⟩

end Agreement

end Check

/-! Whole files. -/

section Program

variable {σ : Type} {a b : Importer σ} {options : Options} {budget : Nat} {store : σ}
  {program : List Stmt}

theorem checkProgram_respects {good : σ → Prop} {bad : Halt → σ → Prop}
    (worse : ∀ halt store, good store → bad halt store) (answers : a.Respects good bad)
    (starts : good store) :
    (∀ output, (checkProgram a options budget store program).result = .ok output →
      good (checkProgram a options budget store program).store) ∧
    ∀ halt, (checkProgram a options budget store program).result = .error halt →
      bad halt (checkProgram a options budget store program).store := by
  have respects : Check.Respects good bad (Check.analyze (Env.plain options a) program) :=
    (Check.paired_analyze (b := a) options program).respects worse answers
  obtain ⟨halt, t, halts, left⟩ | ⟨outlines, t, ends, left⟩ :=
    (respects (Checker.initial store budget) starts).cases
  · rw [checkProgram_of_halts halts]
    exact ⟨fun _ accepted => (nomatch accepted), fun _ failed => Except.error.inj failed ▸ left⟩
  · rw [checkProgram_of_ends ends]
    exact ⟨fun _ _ => left, fun halt _ => worse halt _ left⟩

theorem checkProgram_congr {good : σ → Prop} (alike : a.Alike b good) (starts : good store) :
    checkProgram a options budget store program = checkProgram b options budget store program := by
  have same := (Check.paired_analyze options program).run_eq alike
    (Checker.initial store budget) starts
  rw [checkProgram, checkProgram, analyzeProgram, analyzeProgram, same]

theorem checkProgram_answered {known : String → σ → Prop} {output : Output}
    (accepted : (checkProgram a options budget store program).result = .ok output)
    (learns : a.Learns known) :
    ∀ source ∈ Stmt.allSources program,
      known source (checkProgram a options budget store program).store := by
  obtain ⟨outlines, t, ends, -⟩ := exists_of_accepted accepted
  rw [checkProgram_of_ends ends]
  exact (Check.paired_analyze (b := a) options program).answered learns ends

theorem checkProgram_agrees {related : σ → σ → Prop} {budget' : Nat} {store' : σ}
    {output output' : Output}
    (accepted : (checkProgram a options budget store program).result = .ok output)
    (accepted' : (checkProgram b options budget' store' program).result = .ok output')
    (agree : a.Agrees b related) (starts : related store store') :
    output = output' := by
  obtain ⟨outlines, t, ends, completes, whole⟩ := exists_of_accepted accepted
  obtain ⟨outlines', t', ends', completes', whole'⟩ := exists_of_accepted accepted'
  obtain ⟨rfl, same, -⟩ :=
    (Check.paired_analyze options program).agrees agree (by rfl) starts ends ends'
  have drafts : t.drafts = t'.drafts := by injection same
  have signatures : t.signatures = t'.signatures := by injection same
  have leaves : t.completeLeaf = t'.completeLeaf := by
    funext leaf
    cases leaf <;> simp [Checker.completeLeaf, drafts]
  have heads : t.completeHead = t'.completeHead := by
    funext id
    simp [Checker.completeHead, signatures]
  have same : t.complete outlines = t'.complete outlines := by
    rw [Checker.complete, Checker.complete, leaves, heads]
  rw [whole, whole', Except.ok.inj (completes.symm.trans (same.trans completes'))]

end Program

end Hoist
