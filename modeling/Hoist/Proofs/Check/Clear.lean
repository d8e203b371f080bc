import Hoist.Proofs.Check.Intact
import Hoist.Proofs.Typed.Reading

/-!
Checking a file never looks for what is not there, and never stops because something was left open
before all its statements have been checked. The types that are read off at once, those of conditions
and of imported names, are known. Only at the end of the file are the names reported that somebody
still waits for.

Main statements: `stockGrows_checkBlock` for a block and `halts_analyze` for a file.
-/
namespace Hoist

/-- The run was stopped because a type was missing. -/
def Halt.lacksType : Halt → Bool
  | .rejected diagnostic => diagnostic.cause.isUnread
  | _ => false

theorem Halt.not_lacksType_of_closed {halt : Halt} (closed : halt.isOpen = false) :
    halt.lacksType = false := by
  cases halt with
  | rejected diagnostic =>
    obtain ⟨cause, position⟩ := diagnostic
    cases cause <;> simp_all [Halt.lacksType, Halt.isOpen, Cause.isUnread, Cause.isOpen]
  | _ => rfl

/-- Asked from a store that may be met, the importer leaves one. It fails for allowed reasons only, and
so does reading off the type that it gives. -/
def Policy.Serves {σ : Type} (p : Policy σ) (importer : Importer σ) : Prop :=
  ∀ name source position store, p.kept store →
    p.kept (importer.typeOf name source position store).2.1 ∧
    match (importer.typeOf name source position store).1 with
    | .ok type => ∀ cause, ConcreteTy.ofTy type = .error cause → p.allowed (.rejected ⟨cause, position⟩)
    | .error halt => p.allowed halt

/-- Nothing may be left open, and the store stays as it is. -/
def Policy.unchanged {σ : Type} (store : σ) : Policy σ :=
  ⟨(· = store), fun halt => halt.isOpen = false, fun closed _ => closed⟩

theorem Importer.Prepared.serves {σ : Type} {importer : Importer σ} {store : σ}
    (prepared : importer.Prepared store) : (Policy.unchanged store).Serves importer := by
  rintro name source position _ rfl
  rcases prepared name source position with ⟨type, known⟩ | refused
  · simp [known, Policy.unchanged, ConcreteTy.ofTy_toTy]
  · simp [refused, Policy.unchanged, Halt.isOpen, Cause.isOpen]

namespace Check

open Desk

variable {σ α β : Type} {p : Policy σ} {n : Stock} {scope : ScopeId} {position : Position}
  {good : α → Prop}

/-- If everything is there, the step is stopped for allowed reasons only, and leaves everything there,
and perhaps more. -/
def StockGrows (p : Policy σ) (n : Stock) (step : Check Empty σ α) : Prop :=
  ∀ s, Whole p n s → Yields step s (fun _ t => ∃ m : Stock, n.scopes ≤ m.scopes ∧ Whole p m t)
    fun halt _ => p.allowed halt

theorem StockGrows.bind {first : Check Empty σ α} {next : α → Check Empty σ β}
    (isFirst : StockGrows p n first)
    (isNext : ∀ (m : Stock) value, n.scopes ≤ m.scopes → StockGrows p m (next value)) :
    StockGrows p n (first >>= next) := by
  refine fun s whole => yields_bind.2 ((isFirst s whole).mono (fun value t grown => ?_) fun _ _ => id)
  obtain ⟨m, more, whole⟩ := grown
  refine (isNext m value more t whole).mono (fun _ _ grown => ?_) fun _ _ => id
  obtain ⟨k, still, whole⟩ := grown
  exact ⟨k, more.trans still, whole⟩

theorem Finds.before {first : Check Empty σ α} {next : α → Check Empty σ β}
    (isFirst : Finds p n first good) (isNext : ∀ value, good value → StockGrows p n (next value)) :
    StockGrows p n (first >>= next) :=
  fun s whole => yields_bind.2 ((isFirst s whole).mono
    (fun value t found => isNext value found.2 t found.1) fun _ _ => id)

theorem Finds.stockGrows {step : Check Empty σ α} (finds : Finds p n step good) :
    StockGrows p n step :=
  fun s whole => (finds s whole).mono (fun _ _ found => ⟨n, Nat.le_refl _, found.1⟩) fun _ _ => id

theorem stockGrows_pure {value : α} : StockGrows p n (pure value : Check Empty σ α) :=
  (finds_pure trivial : Safe p n _).stockGrows

/-- A new draft, and the step that looks at it. -/
theorem stockGrows_addDraft {work : Work} {look : DraftId → Check Empty σ Unit} {make : DraftId → β}
    (inside : scope < n.scopes)
    (looks : ∀ m : Stock, scope < m.scopes → n.drafts < m.drafts → Safe p m (look n.drafts)) :
    StockGrows p n (do
      let id ← addDraft scope work
      look id
      return make id) := by
  intro s whole
  have length : s.drafts.length = n.drafts := whole.2.drafts.1
  simp only [yields_bind, yields_addDraft, length]
  have looks := looks { n with drafts := n.drafts + 1 } inside (Nat.lt_succ_self _)
  refine yields_bind.1 (looks.before (fun _ _ => stockGrows_pure) _ ⟨whole.1, whole.2.scopes,
    whole.2.rooted, ⟨by simp [Checker.desk, length], fun d mem => ?_⟩, whole.2.heads,
    fun work live => ?_⟩)
  · rcases List.mem_append.1 mem with old | new
    · exact whole.2.drafts.2 d old
    · exact List.mem_singleton.1 new ▸ inside
  · exact (whole.2.live work live).mono (Nat.le_refl _) (Nat.le_succ _) (Nat.le_refl _)

theorem stockGrows_addSignature {h : SignatureDraft} {next : SignatureId → Check Empty σ β}
    (inside : h.scope < n.scopes ∧ h.body < n.scopes)
    (isNext : StockGrows p { n with heads := n.heads + 1 } (next n.heads)) :
    StockGrows p n (addSignature h >>= next) := by
  intro s whole
  have length : s.signatures.length = n.heads := whole.2.heads.1
  simp only [yields_bind, yields_addSignature, length]
  refine isNext _ ⟨whole.1, whole.2.scopes, whole.2.rooted, whole.2.drafts,
    ⟨by simp [Checker.desk, length], fun other mem => ?_⟩, fun work live => ?_⟩
  · rcases List.mem_append.1 mem with old | new
    · exact whole.2.heads.2 other old
    · exact List.mem_singleton.1 new ▸ inside
  · exact (whole.2.live work live).mono (Nat.le_refl _) (Nat.le_refl _) (Nat.le_succ _)

theorem stockGrows_createScope {kind : ScopeKind} {next : ScopeId → Check Empty σ β}
    (inside : scope < n.scopes)
    (isNext : StockGrows p { n with scopes := n.scopes + 1 } (next n.scopes)) :
    StockGrows p n (createScope (some scope) kind >>= next) := by
  intro s whole
  have size : s.scopes.size = n.scopes := whole.2.scopes
  have created := s.scopes.created_create scope kind
  simp only [yields_bind, yields_createScope, size]
  refine Yields.mono (isNext _ ⟨whole.1, ?_, ?_, ?_, ?_, fun work live => ?_⟩) (fun _ _ grown => ?_)
    fun _ _ => id
  · exact created.size.trans (congrArg (· + 1) size)
  · exact created.rooted whole.2.rooted (size ▸ inside)
  · exact whole.2.drafts.imp_right fun old d mem => Nat.lt_succ_of_lt (old d mem)
  · exact whole.2.heads.imp_right fun old h mem =>
      (old h mem).imp Nat.lt_succ_of_lt Nat.lt_succ_of_lt
  · have old : Live (s.desk []) work := by
      simpa only [Live, Checker.desk, created.waiters, created.resultWaiters] using live
    exact (whole.2.live work old).mono (Nat.le_succ _) (Nat.le_refl _) (Nat.le_refl _)
  · obtain ⟨m, more, whole⟩ := grown
    exact ⟨m, Nat.le_of_succ_le more, whole⟩

/-! Conditions. -/

/-- The types of a condition are known when it has been checked. -/
theorem exists_ofExpr_of_boolean {condition looked : Expr} {names : View}
    (fresh : condition.isFresh = true) (look : condition.resolve names = (.ok .boolean, looked)) :
    ∃ typed, Typed.Expr.ofExpr looked = .ok typed := by
  have seen : looked.Seen .boolean := ⟨condition, names, Expr.faithful_of_isFresh fresh, look⟩
  exact (seen.settles.resolve_left (by simp [Ty.isPending, Ty.pendingOn])).exists_ofExpr

theorem finds_requireBoolean {type : Ty} :
    Finds p n (requireBoolean type position) fun _ => type = .boolean := by
  unfold requireBoolean
  split
  · exact finds_pure ‹_›
  · exact finds_reject rfl

theorem finds_checkCondition {condition : Expr} (inside : scope < n.scopes)
    (fresh : condition.isFresh = true) : Finds p n (checkCondition scope condition position)
      fun looked => ∃ typed, Typed.Expr.ofExpr looked = .ok typed :=
  (finds_view inside).bind fun _ sure => (finds_look sure).bind fun _ look =>
    finds_requireBoolean.bind fun _ same => finds_pure
      (exists_ofExpr_of_boolean fresh (Prod.ext (same ▸ look) rfl))

theorem finds_checkLoopCondition {env : Env Empty σ} {condition : Expr} (inside : scope < n.scopes)
    (fresh : condition.isFresh = true) : Finds p n (checkLoopCondition env scope condition position)
      fun looked => ∃ typed, Typed.Expr.ofExpr looked = .ok typed := by
  refine (finds_view inside).bind fun names sure => (finds_look sure).bind fun type look => ?_
  split
  · split
    · exact (finds_reject rfl : Finds p n _ fun _ => False).bind fun _ => False.elim
    · rename_i literal
      have same : (condition.resolve names).2 = .boolean true := by
        unfold isTrue at literal
        split at literal <;> simp_all
      exact finds_pure ⟨.boolean true, same ▸ rfl⟩
  · exact finds_requireBoolean.bind fun _ same => finds_pure
      (exists_ofExpr_of_boolean fresh (Prod.ext (same ▸ look) rfl))

/-! Blocks. -/

section Blocks

variable {env : Env Empty σ} (serves : p.Serves env.importer)
  (settles : ∀ {m : Stock} {handed}, (∀ work ∈ handed, work.InStock m) → Safe p m (env.settle handed))

include settles in
theorem stockGrows_define {binding : Binding} {value : α} (inside : scope < n.scopes) :
    StockGrows p n (do
      env.settle (← define scope binding position)
      return value) :=
  (finds_define inside).before fun _ handed => (settles handed).before fun _ _ => stockGrows_pure

include settles in
theorem safe_defineParameters {parameters : List (String × Ty)} (inside : scope < n.scopes) :
    Safe p n (defineParameters env.settle scope position parameters) := by
  induction parameters with
  | nil => exact finds_pure trivial
  | cons parameter rest ih =>
    exact (finds_define inside).bind fun _ handed => (settles handed).then fun _ => ih

include serves settles in
theorem safe_importNames {source : String} {names : List String} (inside : scope < n.scopes) :
    Safe p n (importNames env scope source position names) := by
  induction names with
  | nil => exact finds_pure trivial
  | cons name rest ih =>
    have gives : Finds p n (importType env name source position) fun type =>
        ∀ cause, ConcreteTy.ofTy type = .error cause → p.allowed (.rejected ⟨cause, position⟩) := by
      intro s whole
      obtain ⟨kept, answer⟩ := serves name source position s.store whole.1
      simp only [importType, yields_bind, yields_get, yields_set]
      split at answer
      · rename_i known
        exact known ▸ yields_pure.2 ⟨⟨kept, whole.2⟩, answer⟩
      · rename_i refused
        exact refused ▸ yields_throw.2 answer
    refine gives.bind fun type known => ?_
    have reads : Safe p n (ofCause position (ConcreteTy.ofTy type)) :=
      fun _ whole => yields_ofCause.2 ⟨fun _ _ => ⟨whole, trivial⟩, known⟩
    exact reads.then fun _ => (finds_define inside).bind fun _ handed =>
      (settles handed).then fun _ => ih.then fun _ => finds_pure trivial

include settles in
theorem stockGrows_checkDeclaration {d : Declaration} (inside : scope < n.scopes) :
    StockGrows p n (checkDeclaration env.settle scope d) := by
  have exports : Safe p n (checkExport scope d) := by
    unfold checkExport
    split
    · exact safe_demand rfl inside fun path => ⟨_, path.isTopLevel_eq⟩
    · exact finds_pure trivial
  rw [checkDeclaration_eq]
  exact exports.before fun _ _ => (finds_view inside).before fun _ sure =>
    (finds_look sure).before fun _ _ => safe_withType.before fun _ _ =>
    (finds_define inside).before fun _ handed => (settles handed).before fun _ _ =>
    stockGrows_addDraft inside fun _ inside there => safe_deferDeclaration inside there

include serves settles in
theorem stockGrows_checkLeaf {leaf : Leaf} (inside : scope < n.scopes) :
    StockGrows p n (checkLeaf env scope leaf) := by
  cases leaf with
  | declare d => exact (stockGrows_checkDeclaration settles inside).bind fun _ _ _ => stockGrows_pure
  | assign a =>
    exact stockGrows_addDraft inside fun _ inside there => safe_checkAssignment inside there
  | returns r =>
    exact stockGrows_addDraft inside fun _ inside there => safe_checkReturn settles inside there
  | evaluate e =>
    exact stockGrows_addDraft inside fun _ inside there => safe_checkEvaluation inside there
  | breakLoop span | continueLoop span =>
    exact Finds.before (safe_demand rfl inside fun path => ⟨_, path.isInsideLoop_eq⟩) fun _ _ =>
      stockGrows_pure
  | imports names source span =>
    rw [checkLeaf_imports, map_eq_pure_bind]
    exact Finds.before (safe_demand rfl inside fun path => ⟨_, path.isTopLevel_eq⟩) fun _ _ =>
      (safe_importNames serves settles inside).before fun _ _ => stockGrows_pure
  | endOfFile => exact stockGrows_pure

theorem fails_checkParameters {seen : List String} {parameters : List (String × Ty)} :
    Fails (·.isOpen = false) (checkParameters seen parameters) := by
  induction parameters generalizing seen with
  | nil => exact fails_ok _
  | cons parameter rest ih =>
    obtain ⟨name, type⟩ := parameter
    rw [checkParameters]
    split_ifs
    · exact fails_error.2 rfl
    · exact fails_error.2 rfl
    · exact ih

include settles in
theorem stockGrows_closeFunction {signature : Signature} {inner : ScopeId} (inside : scope < n.scopes)
    (made : inner < n.scopes) : StockGrows p n (closeFunction env.settle scope inner signature) := by
  rw [closeFunction_eq]
  refine (finds_scopes made).before ?_
  rintro found ⟨-, outer, path⟩
  refine (finds_ofFault (by simp [path.resultType_eq])).before fun result _ => ?_
  refine stockGrows_addSignature ⟨inside, made⟩ ?_
  split
  · exact Finds.before (safe_awaitResult made (Nat.lt_succ_self n.heads)) fun _ _ =>
      stockGrows_define settles inside
  · exact stockGrows_define settles inside

theorem safe_foldChain {chain : OpenChain} {last : OutlineChain} : Safe p n (foldChain chain last) :=
  safe_note.then fun _ => finds_pure trivial

theorem safe_endChain {chain : Option OpenChain} : Safe p n (endChain chain) := by
  cases chain with
  | none => exact finds_pure trivial
  | some chain => exact safe_foldChain.then fun _ => finds_pure trivial

variable {body : ScopeId → Check Empty σ (List Outline)}
  (walks : ∀ {m : Stock} {inner : ScopeId}, inner < m.scopes → StockGrows p m (body inner))

include walks

/-- The body is checked in its scope, and then the condition is read. -/
theorem stockGrows_body {kind : ScopeKind} {looked : Expr} {make : Typed.Expr → List Outline → α}
    (inside : scope < n.scopes) (known : ∃ typed, Typed.Expr.ofExpr looked = .ok typed) :
    StockGrows p n (do
      let inner ← createScope (some scope) kind
      let body ← body inner
      let condition ← ofCause position (Typed.Expr.ofExpr looked)
      return make condition body) := by
  obtain ⟨typed, known⟩ := known
  exact stockGrows_createScope inside ((walks (Nat.lt_succ_self _)).bind fun _ _ _ =>
    Finds.before (finds_ofCause (by simp [known])) fun _ _ => stockGrows_pure)

include settles in
theorem stockGrows_checkFunction {signature : Signature} (inside : scope < n.scopes) :
    StockGrows p n (checkFunction env scope signature body) := by
  unfold checkFunction
  rw [openFunction_eq]
  simp only [openBody, bind_assoc, pure_bind]
  refine Finds.before (safe_demand rfl inside fun path => ⟨_, path.isTopLevel_eq⟩) fun _ _ =>
    (finds_ofCause fails_checkParameters).before fun _ _ => stockGrows_createScope inside ?_
  have made : n.scopes < n.scopes + 1 := Nat.lt_succ_self _
  exact (safe_defineParameters settles made).before fun _ _ => (walks made).bind fun _ _ more =>
    (stockGrows_closeFunction settles (Nat.lt_of_lt_of_le (Nat.lt_succ_of_lt inside) more)
      (Nat.lt_of_lt_of_le made more)).bind fun _ _ _ => stockGrows_pure

end Blocks

mutual

theorem stockGrows_checkStmt {env : Env Empty σ} (serves : p.Serves env.importer)
    (settles : ∀ {m : Stock} {handed}, (∀ work ∈ handed, work.InStock m) →
      Safe p m (env.settle handed)) :
    ∀ stmt : Stmt, stmt.isFresh = true → ∀ {n : Stock} {scope : ScopeId} (chain : Option OpenChain),
      scope < n.scopes → StockGrows p n (checkStmt env scope chain stmt)
  | .leaf content, _, _, _, chain, inside => by
    rw [checkStmt]
    exact (stockGrows_checkLeaf serves settles inside).bind fun _ _ _ => stockGrows_pure
  | .branch condition body span, fresh, _, _, chain, inside => by
    simp only [Stmt.isFresh, Bool.and_eq_true] at fresh
    rw [checkStmt]
    refine StockGrows.bind ((finds_checkCondition inside fresh.1).before fun _ known => ?_)
      fun _ _ _ => stockGrows_pure
    exact stockGrows_body (stockGrows_checkBlock serves settles body fresh.2 none) inside known
  | .elseIf condition body span, _, _, _, none, _ => by
    rw [checkStmt]
    exact (finds_reject rfl : Safe p _ _).stockGrows
  | .elseIf condition body span, fresh, _, _, some chain, inside => by
    simp only [Stmt.isFresh, Bool.and_eq_true] at fresh
    rw [checkStmt]
    refine StockGrows.bind ((finds_checkCondition inside fresh.1).before fun _ known => ?_)
      fun _ _ _ => stockGrows_pure
    exact stockGrows_body (stockGrows_checkBlock serves settles body fresh.2 none) inside known
  | .otherwise body span, _, _, _, none, _ => by
    rw [checkStmt]
    exact (finds_reject rfl : Safe p _ _).stockGrows
  | .otherwise body span, fresh, _, _, some chain, inside => by
    rw [checkStmt]
    exact stockGrows_createScope inside
      ((stockGrows_checkBlock serves settles body fresh none (Nat.lt_succ_self _)).bind fun _ _ _ =>
        safe_foldChain.before fun _ _ => stockGrows_pure)
  | .loop condition body span, fresh, _, _, chain, inside => by
    simp only [Stmt.isFresh, Bool.and_eq_true] at fresh
    rw [checkStmt]
    refine StockGrows.bind ((finds_checkLoopCondition inside fresh.1).before fun _ known => ?_)
      fun _ _ _ => stockGrows_pure
    exact stockGrows_body (stockGrows_checkBlock serves settles body fresh.2 none) inside known
  | .function signature body, fresh, _, _, chain, inside => by
    rw [checkStmt]
    exact (stockGrows_checkFunction settles (stockGrows_checkBlock serves settles body fresh none)
      inside).bind fun _ _ _ => stockGrows_pure

theorem stockGrows_checkBlock {env : Env Empty σ} (serves : p.Serves env.importer)
    (settles : ∀ {m : Stock} {handed}, (∀ work ∈ handed, work.InStock m) →
      Safe p m (env.settle handed)) :
    ∀ program : List Stmt, Stmt.areFresh program = true →
      ∀ (chain : Option OpenChain) {n : Stock} {scope : ScopeId},
      scope < n.scopes → StockGrows p n (checkBlock env scope chain program)
  | [], _, chain, _, _, _ => by
    rw [checkBlock]
    exact safe_endChain.stockGrows
  | stmt :: rest, fresh, chain, n, _, inside => by
    simp only [Stmt.areFresh, Bool.and_eq_true] at fresh
    rw [checkBlock]
    have before : Safe p n (endChainBefore stmt chain) := by
      unfold endChainBefore
      split
      · exact finds_pure trivial
      · exact safe_endChain.then fun _ => finds_pure trivial
    exact before.before fun _ _ => safe_tick.before fun _ _ =>
      (stockGrows_checkStmt serves settles stmt fresh.1 _ inside).bind fun _ _ more =>
      (stockGrows_checkBlock serves settles rest fresh.2 _ (Nat.lt_of_lt_of_le inside more)).bind
        fun _ _ _ => stockGrows_pure

end

/-- Checking a file stops for a reason that is not allowed only when all its statements have been
checked, and then for the first name that somebody still waits for. -/
theorem halts_analyze {importer : Importer σ} (serves : p.Serves importer) (options : Options)
    {program : List Stmt} (fresh : Stmt.areFresh program = true) {store : σ} (kept : p.kept store)
    (budget : Nat) :
    Yields (analyze (Env.plain options importer) program) (Checker.initial store budget)
      (fun _ _ => True) fun halt m => p.allowed halt ∨ ∃ outlines name position,
        Ends (checkBlock (Env.plain options importer) Checker.root none program)
          (Checker.initial store budget) outlines m ∧
        m.scopes.firstWaiting? = some (name, position) ∧
        halt = .rejected ⟨.unresolvedReference name, position⟩ := by
  rw [analyze_eq]
  have start : Whole p ⟨1, 0, 0⟩ (Checker.initial store budget) := by
    refine ⟨kept, rfl, Scopes.rooted_first, ⟨rfl, by simp [Checker.desk, Checker.initial]⟩,
      ⟨rfl, by simp [Checker.desk, Checker.initial]⟩, fun work live => (not_live_initial live).elim⟩
  have walks : StockGrows p ⟨1, 0, 0⟩
      (checkBlock (Env.plain options importer) Checker.root none program) :=
    stockGrows_checkBlock serves safe_runWave program fresh none Nat.zero_lt_one
  refine yields_bind.2 ((walks _ start).and_ends.mono (fun outlines m walked => ?_) fun _ _ => .inl)
  unfold finishFile
  split
  · simp only [yields_bind, reportUnresolved, yields_scopes]
    split
    · simp
    · rename_i name position waits
      exact yields_reject.2 (.inr ⟨outlines, name, position, walked.1, waits, rfl⟩)
  · simp

/-- No type is missing as long as statements are checked. -/
theorem not_lacksType_analyze {importer : Importer σ} {store : σ} (prepared : importer.Prepared store)
    (options : Options) {program : List Stmt} (fresh : Stmt.areFresh program = true) (budget : Nat) :
    Yields (analyze (Env.plain options importer) program) (Checker.initial store budget)
      (fun _ _ => True) fun halt _ => halt.lacksType = false := by
  refine (halts_analyze prepared.serves options fresh rfl budget).mono (fun _ _ => id)
    fun halt _ stopped => ?_
  obtain closed | ⟨_, _, _, _, _, rfl⟩ := stopped
  · exact Halt.not_lacksType_of_closed closed
  · rfl

end Check

end Hoist
