import Mathlib
import Hoist.Module.Registry
import Hoist.Proofs.Recheck.Filled
import Hoist.Proofs.Recheck.Replay
import Hoist.Proofs.Typed.Reading

/-!
Checking a file that has all its types in it, whatever they are. Nothing is ever put off, and what
is accepted is a fixed point: checking the output once more gives it again.

Main statements: a quiet checker stays quiet over a whole file (`quiet_replayAll`), and what that
means for the outcome of checking it (`check_forgetAll`).
-/
namespace Hoist

theorem Cause.isLate_of_isUnread {cause : Cause} (unread : cause.isUnread = true) :
    cause.isLate = false := by
  cases cause <;> simp_all [Cause.isUnread, Cause.isLate]

namespace Check

variable {σ : Type} {store : σ} {short : Prop} {ahead : Nat} {scope : ScopeId}
  {outer : List ScopeId} {s t : Checker Empty σ}

/-! Conditions. -/

theorem Quiet.reads {ids : List ScopeId} (quiet : Quiet store short ahead ids s) (value : Expr)
    (position : Position) {good : Typed.Expr → Checker Empty σ → Prop}
    (next : ∀ typed, Typed.Expr.ofExpr value = .ok typed → good typed s) :
    Yields (ofCause position (Typed.Expr.ofExpr value)) s good (Spares short) := by
  rw [yields_ofCause]
  refine ⟨next, fun cause fails => quiet.refuses (Cause.isLate_of_isUnread ?_)⟩
  exact Typed.Expr.unread_ofExpr value cause fails

theorem Quiet.requires {ids : List ScopeId} (quiet : Quiet store short ahead ids s) (type : Ty)
    (position : Position) {good : Unit → Checker Empty σ → Prop} (next : good () s) :
    Yields (requireBoolean type position) s good (Spares short) := by
  unfold requireBoolean
  split
  · exact yields_pure.2 next
  · exact yields_reject.2 (quiet.refuses rfl)

theorem quiet_checkCondition {ids : List ScopeId} (quiet : Quiet store short ahead ids s)
    (condition : Typed.Expr) (position : Position) {good : Expr → Checker Empty σ → Prop}
    (next : good condition.toExpr s) :
    Yields (checkCondition scope condition.toExpr position) s good (Spares short) := by
  have same := (condition.firm_toExpr (s.scopes.view scope)).same
  simp only [checkCondition, yields_bind, yields_view, same]
  refine quiet.looks condition _ _ fun type _ _ => quiet.requires type _ ?_
  exact yields_pure.2 next

theorem quiet_checkLoopCondition {ids : List ScopeId} (quiet : Quiet store short ahead ids s)
    (env : Env Empty σ) (condition : Typed.Expr) (position : Position)
    {good : Expr → Checker Empty σ → Prop} (next : good condition.toExpr s) :
    Yields (checkLoopCondition env scope condition.toExpr position) s good (Spares short) := by
  have same := (condition.firm_toExpr (s.scopes.view scope)).same
  simp only [checkLoopCondition, yields_bind, yields_view, same]
  refine quiet.looks condition _ _ fun type _ _ => ?_
  cases env.options.loopCondition with
  | literalTrue =>
    simp only
    split
    · exact yields_bind.2 (yields_reject.2 (quiet.refuses rfl))
    · exact yields_pure.2 next
  | boolean => exact yields_bind.2 (quiet.requires type _ (yields_pure.2 next))

/-! Bodies. A body that is checked again in the same place leads to the same outcome, and so does
the statement around it. -/

variable {ids : List ScopeId} {after : Nat} {good : List Outline → Checker Empty σ → Prop}

theorem ends_checkArm {condition : Expr} {span : Span} {arm : Arm}
    {body : ScopeId → Check Empty σ (List Outline)} :
    Ends (checkArm scope condition span body) s arm t ↔ ∃ found,
      condition.resolve (s.scopes.view scope) = (.ok .boolean, found) ∧
      Ends (body s.scopes.size) (entered s scope .block) arm.body t ∧
      Typed.Expr.ofExpr found = .ok arm.condition ∧ arm.span = span := by
  simp only [checkArm, ends_bind, ends_checkCondition, ends_createScope, ends_ofCause, ends_pure,
    and_assoc, exists_and_left, exists_eq_left]
  constructor
  · rintro ⟨found, look, outlines, _, ends, typed, read, rfl, rfl⟩
    exact ⟨found, look, ends, read, rfl⟩
  · rintro ⟨found, look, ends, read, rfl⟩
    exact ⟨found, look, arm.body, t, ends, arm.condition, read, rfl, rfl⟩

/-- The condition of an arm is kept, so only the body has to lead to the same outcome. -/
theorem checkArm_again {condition : Typed.Expr} {span : Span} {arm : Arm}
    {body other : ScopeId → Check Empty σ (List Outline)}
    (ends : Ends (checkArm scope condition.toExpr span body) s arm t)
    (again : Ends (other s.scopes.size) (entered s scope .block) arm.body t) :
    Ends (checkArm scope arm.condition.toExpr arm.span other) s arm t := by
  obtain ⟨found, look, _, read, rfl⟩ := ends_checkArm.1 ends
  have same := (condition.firm_toExpr (s.scopes.view scope)).same
  rw [look] at same
  obtain rfl : found = condition.toExpr := same
  rw [Typed.Expr.toExpr_ofExpr read]
  exact ends_checkArm.2 ⟨_, look, again, read, rfl⟩

theorem quiet_checkArm (quiet : Quiet store short ahead (scope :: outer) s) (condition : Typed.Expr)
    (span : Span) {body : ScopeId → Check Empty σ (List Outline)}
    (yields : Yields (body s.scopes.size) (entered s scope .block)
      (fun outlines t => Quiet store short after (s.scopes.size :: scope :: outer) t ∧
        good outlines t) (Spares short)) :
    Yields (checkArm scope condition.toExpr span body) s
      (fun arm t => Quiet store short after (scope :: outer) t ∧ good arm.body t)
      (Spares short) := by
  rw [checkArm, yields_bind]
  refine quiet_checkCondition quiet condition _ ?_
  simp only [yields_bind, yields_createScope]
  refine yields.mono (fun outlines t holds => ?_) fun _ _ bad => bad
  exact holds.1.reads _ _ fun typed _ => yields_pure.2 ⟨holds.1.leave, holds.2⟩

theorem checkLoop_again {options : Options} {importer : Importer σ} {condition typed : Typed.Expr}
    {span : Span} {outlines : List Outline}
    {body other : ScopeId → Check Empty σ (List Outline)}
    (ends : Ends (checkLoop (Env.plain options importer) scope condition.toExpr span body) s
      (.loop typed outlines span) t)
    (again : Ends (other s.scopes.size) (entered s scope .loop) outlines t) :
    Ends (checkLoop (Env.plain options importer) scope typed.toExpr span other) s
      (.loop typed outlines span) t := by
  simp only [checkLoop, ends_bind, ends_createScope, ends_ofCause, ends_pure, and_assoc,
    exists_and_left, exists_eq_left] at ends ⊢
  obtain ⟨found, m, looks, _, _, _, _, read, shape, rfl⟩ := ends
  obtain ⟨rfl, type, look, _⟩ := ends_checkLoopCondition looks
  have same := (condition.firm_toExpr (m.scopes.view scope)).same
  rw [look] at same
  obtain rfl : found = condition.toExpr := same
  injection shape with typed_eq outlines_eq
  subst typed_eq outlines_eq
  rw [Typed.Expr.toExpr_ofExpr read]
  exact ⟨_, m, looks, outlines, t, again, typed, read, rfl, rfl⟩

theorem quiet_checkLoop (quiet : Quiet store short ahead (scope :: outer) s) (env : Env Empty σ)
    (condition : Typed.Expr) (span : Span) {body : ScopeId → Check Empty σ (List Outline)}
    (yields : Yields (body s.scopes.size) (entered s scope .loop)
      (fun outlines t => Quiet store short after (s.scopes.size :: scope :: outer) t ∧
        good outlines t) (Spares short)) :
    Yields (checkLoop env scope condition.toExpr span body) s
      (fun outline t => Quiet store short after (scope :: outer) t ∧
        ∃ typed outlines, outline = .loop typed outlines span ∧ good outlines t)
      (Spares short) := by
  rw [checkLoop, yields_bind]
  refine quiet_checkLoopCondition quiet env condition _ ?_
  simp only [yields_bind, yields_createScope]
  refine yields.mono (fun outlines t holds => ?_) fun _ _ bad => bad
  refine holds.1.reads _ _ fun typed _ => yields_pure.2 ?_
  exact ⟨holds.1.leave, typed, outlines, rfl, holds.2⟩

/-! Functions. -/

variable (client : Empty → Check Empty σ Unit)

theorem quiet_defineParameters (quiet : Quiet store short ahead (scope :: outer) s)
    (position : Position) (parameters : List (String × ConcreteTy)) :
    Yields (defineParameters (runWave client) scope position (ConcreteTy.toFields parameters)) s
      (fun _ t => Quiet store short ahead (scope :: outer) t ∧ t.drafts = s.drafts ∧
        t.signatures = s.signatures ∧ ∀ id, t.scopes.result? id = s.scopes.result? id)
      (Spares short) := by
  induction parameters generalizing s with
  | nil => exact yields_pure.2 ⟨quiet, rfl, rfl, fun _ => rfl⟩
  | cons parameter rest ih =>
    obtain ⟨name, type⟩ := parameter
    simp only [ConcreteTy.toFields, defineParameters, yields_bind]
    refine quiet.binds client _ type.isConcrete_toTy fun scopes journal later kept => ?_
    refine (ih later).mono (fun _ t ends => ?_) fun _ _ bad => bad
    obtain ⟨quiet', drafts, signatures, results⟩ := ends
    exact ⟨quiet', drafts, signatures, fun id => (results id).trans (kept id)⟩

theorem prompt_of_checkParameters {seen : List String} {parameters : List (String × Ty)}
    {cause : Cause} (refused : checkParameters seen parameters = .error cause) :
    cause.isLate = false := by
  induction parameters generalizing seen with
  | nil => simp [checkParameters] at refused
  | cons parameter rest ih =>
    obtain ⟨name, type⟩ := parameter
    simp only [checkParameters] at refused
    split at refused
    · exact Except.error.inj refused ▸ rfl
    · split at refused
      · exact Except.error.inj refused ▸ rfl
      · exact ih refused

theorem quiet_openFunction (quiet : Quiet store short ahead (scope :: outer) s)
    (signature : Typed.Signature) :
    Yields (openFunction (runWave client) scope signature.forget) s
      (fun inner t => Quiet store short ahead (inner :: scope :: outer) t ∧ Appends s t ∧
        t.scopes.result? inner = some signature.result.toTy) (Spares short) := by
  rw [openFunction_eq, yields_bind]
  refine quiet.demands quiet.path.isTopLevel_eq rfl ?_
  simp only [openBody, yields_bind, yields_ofCause, yields_createScope, yields_pure]
  refine ⟨fun _ _ => ?_, fun cause refused => quiet.refuses (prompt_of_checkParameters refused)⟩
  have inside := quiet.enter (.function signature.result.toTy) fun result same => by
    cases same
    exact signature.result.isConcrete_toTy
  refine (quiet_defineParameters client inside _ _).mono (fun _ t ends => ?_) fun _ _ bad => bad
  obtain ⟨quiet', drafts, signatures, results⟩ := ends
  refine ⟨quiet', (appends_entered s scope (.function signature.result.toTy)).trans
    ⟨drafts ▸ List.prefix_refl _, signatures ▸ List.prefix_refl _,
      fun id _ kept => (results id).trans kept⟩, ?_⟩
  exact (results _).trans (s.scopes.created_create scope (.function signature.result.toTy)).own

theorem kind?_of_result? {scopes : Scopes (Deferral Empty)} {id : ScopeId} {type : Ty}
    (kept : scopes.result? id = some type) : scopes.kind? id = some .function := by
  obtain ⟨here, found, result⟩ := Option.bind_eq_some_iff.1 kept
  simp only [Scopes.kind?, found, Option.map_some, Option.some.injEq]
  cases role : here.role <;> simp_all [Role.result?, Role.kind]

theorem quiet_closeFunction {inner : ScopeId}
    (quiet : Quiet store short ahead (inner :: scope :: outer) s) (signature : Typed.Signature)
    (kept : s.scopes.result? inner = some signature.result.toTy) :
    Yields (closeFunction (runWave client) scope inner signature.forget) s
      (fun id t => Quiet store short ahead (scope :: outer) t ∧ Appends s t ∧
        t.signatures[id]? = some ⟨scope, inner, signature.forget⟩) (Spares short) := by
  have known : s.scopes.resultType inner = .ok (some signature.result.toTy) := by
    rw [quiet.path.resultType_eq, List.find?_cons_of_pos (by simpa using kind?_of_result? kept)]
    simp [kept]
  have same : { signature.forget with result := resultOf signature.result.toTy } =
      signature.forget := by
    rw [resultOf_of_isConcrete (ConcreteTy.isConcrete_toTy _)]
    rfl
  simp only [closeFunction_eq, yields_bind, yields_scopes, known, yields_ofFault, Except.ok.injEq]
  refine ⟨fun result found => ?_, by simp⟩
  subst found
  simp only [Option.map_some, Option.getD_some, same, finishFunction, yields_bind,
    yields_addSignature]
  have settled : (resultOf signature.result.toTy).isPending = false := by
    rw [resultOf_of_isConcrete (ConcreteTy.isConcrete_toTy _), ConcreteTy.isPending_toTy]
  have concrete : signature.forget.type.isConcrete = true := signature.type.isConcrete_toTy
  simp only [settled, Bool.false_eq_true, ↓reduceIte, yields_bind]
  have later := (quiet.redraft s.drafts (s.signatures ++ [⟨scope, inner, signature.forget⟩])).leave
  refine later.binds client _ concrete fun scopes journal done results => yields_pure.2 ?_
  exact ⟨done, ⟨List.prefix_refl _, List.prefix_append _ _, fun id _ kept =>
    (results id).trans kept⟩, by simp⟩

/-! Whole files. -/

variable {options : Options} {importer : Importer σ}

abbrev readTree (later : Checker Empty σ) : Outline → Except Halt Typed.Stmt :=
  Typed.Tree.complete later.completeLeaf later.completeHead

abbrev readChain (later : Checker Empty σ) :
    OutlineChain → Except Halt (Typed.Chain Typed.Leaf Typed.Signature) :=
  Typed.Chain.complete later.completeLeaf later.completeHead

theorem quiet_foldChain {ids : List ScopeId} (quiet : Quiet store short ahead ids s)
    (chain : OpenChain) (last : OutlineChain) : ∃ t, Ends (foldChain chain last) s (chain.close last) t ∧
      Quiet store short ahead ids t ∧ Appends s t := by
  refine ⟨_, ends_bind.2 ⟨(), _, ends_note.2 rfl, ends_pure.2 ⟨rfl, rfl⟩⟩, quiet.notes rfl, ?_⟩
  exact ⟨List.prefix_refl _, List.prefix_refl _, fun _ _ kept => kept⟩

mutual

theorem quiet_replay (prepared : importer.Prepared store) : ∀ (stmt : Typed.Stmt) {ahead : Nat}
    {scope : ScopeId} {outer : List ScopeId} {s : Checker Empty σ},
    Quiet store short (ahead + stmt.count) (scope :: outer) s →
    Yields (replay (Env.plain options importer) scope stmt) s
      (Repeats store short ahead (scope :: outer) (replay (Env.plain options importer) scope)
        readTree s) (Spares short)
  | .leaf content, ahead, scope, outer, s, quiet => by
    rw [replay, yields_bind]
    refine quiet.ticks fun m ticks paid quiet => ?_
    rw [yields_bind]
    refine (quiet_leaf quiet options prepared content).mono (fun leaf t repeats => ?_)
      fun _ _ bad => bad
    refine yields_pure.2 ⟨repeats.quiet, paid.trans repeats.appends,
      fun later typed appends completes => ?_⟩
    simp only [readTree, Typed.Tree.complete, bind_eq_ok, pure_eq_ok] at completes
    obtain ⟨typed, completes, rfl⟩ := completes
    rw [replay]
    refine ends_bind.2 ⟨(), m, ticks, ends_bind.2 ⟨leaf, t, ?_, ends_pure.2 ⟨rfl, rfl⟩⟩⟩
    exact repeats.again later typed appends completes
  | .branch condition body span rest, ahead, scope, outer, s, quiet => by
    have split : ahead + Typed.Tree.count (.branch condition body span rest) =
        ahead + rest.count + Typed.Tree.countAll body + 1 := by
      rw [Typed.Tree.count]
      omega
    rw [split] at quiet
    rw [replay, yields_bind]
    refine quiet.ticks fun m ticks paid quiet => ?_
    have inside := quiet_replayAll prepared body (quiet.enter .block (by simp))
    rw [yields_bind]
    refine (quiet_checkArm quiet condition span (inside.mono
      (fun _ _ repeats => ⟨repeats.quiet, repeats⟩) fun _ _ bad => bad)).and_ends.mono
      (fun arm m' holds => ?_) fun _ _ bad => bad
    obtain ⟨ends, quiet, inner⟩ := holds
    refine (quiet_replayChain prepared rest ⟨arm, []⟩ quiet).mono (fun outline t holds => ?_)
      fun _ _ bad => bad
    obtain ⟨last, rfl, repeats⟩ := holds
    refine ⟨repeats.quiet, ((paid.trans (appends_entered m scope .block)).trans inner.appends).trans
      repeats.appends, fun later typed appends completes => ?_⟩
    simp only [readTree, OpenChain.close, Arm.link, Typed.Tree.complete, bind_eq_ok, pure_eq_ok]
      at completes
    obtain ⟨typedBody, completesBody, typedRest, completesRest, rfl⟩ := completes
    rw [replay]
    refine ends_bind.2 ⟨(), m, ticks, ends_bind.2 ⟨arm, m', ?_, ?_⟩⟩
    · exact checkArm_again ends (inner.again later typedBody (repeats.appends.trans appends)
        completesBody)
    · exact repeats.again later typedRest appends completesRest
  | .loop condition body span, ahead, scope, outer, s, quiet => by
    have split : ahead + Typed.Tree.count (.loop condition body span : Typed.Stmt) =
        ahead + Typed.Tree.countAll body + 1 := by
      rw [Typed.Tree.count]
      omega
    rw [split] at quiet
    rw [replay, yields_bind]
    refine quiet.ticks fun m ticks paid quiet => ?_
    have inside := quiet_replayAll prepared body (quiet.enter .loop (by simp))
    refine (quiet_checkLoop quiet (Env.plain options importer) condition span (inside.mono
      (fun _ _ repeats => ⟨repeats.quiet, repeats⟩) fun _ _ bad => bad)).and_ends.mono
      (fun outline t holds => ?_) fun _ _ bad => bad
    obtain ⟨ends, quiet, condition', outlines, rfl, inner⟩ := holds
    refine ⟨quiet, (paid.trans (appends_entered m scope .loop)).trans inner.appends,
      fun later typed appends completes => ?_⟩
    simp only [readTree, Typed.Tree.complete, bind_eq_ok, pure_eq_ok] at completes
    obtain ⟨typedBody, completesBody, rfl⟩ := completes
    rw [replay]
    refine ends_bind.2 ⟨(), m, ticks, ?_⟩
    exact checkLoop_again ends (inner.again later typedBody appends completesBody)
  | .function signature body, ahead, scope, outer, s, quiet => by
    have split : ahead + Typed.Tree.count (.function signature body : Typed.Stmt) =
        ahead + Typed.Tree.countAll body + 1 := by
      rw [Typed.Tree.count]
      omega
    rw [split] at quiet
    rw [replay, yields_bind]
    refine quiet.ticks fun m ticks paid quiet => ?_
    rw [checkFunction, yields_bind]
    refine (quiet_openFunction _ quiet signature).and_ends.mono (fun inner opened holds => ?_)
      fun _ _ bad => bad
    obtain ⟨opens, quiet, appends, kept⟩ := holds
    rw [yields_bind]
    refine (quiet_replayAll prepared body quiet).mono (fun outlines left repeats => ?_)
      fun _ _ bad => bad
    rw [yields_bind]
    refine (quiet_closeFunction _ repeats.quiet signature
      (repeats.appends.results _ _ kept)).and_ends.mono (fun id t holds => ?_) fun _ _ bad => bad
    obtain ⟨closes, quiet, appends', drafted⟩ := holds
    refine yields_pure.2 ⟨quiet, ((paid.trans appends).trans repeats.appends).trans appends',
      fun later typed later' completes => ?_⟩
    simp only [readTree, Typed.Tree.complete, bind_eq_ok, pure_eq_ok] at completes
    obtain ⟨head, completesHead, typedBody, completesBody, rfl⟩ := completes
    rw [later'.completeHead drafted] at completesHead
    rw [replay, checkFunction, Signature.forget_complete completesHead]
    exact ends_bind.2 ⟨(), m, ticks, ends_bind.2 ⟨inner, opened, opens, ends_bind.2 ⟨outlines, left,
      repeats.again later typedBody (appends'.trans later') completesBody,
      ends_bind.2 ⟨id, t, closes, ends_pure.2 ⟨rfl, rfl⟩⟩⟩⟩⟩

theorem quiet_replayChain (prepared : importer.Prepared store) :
    ∀ (rest : Typed.Chain Typed.Leaf Typed.Signature) (chain : OpenChain) {ahead : Nat}
    {scope : ScopeId} {outer : List ScopeId} {s : Checker Empty σ},
    Quiet store short (ahead + rest.count) (scope :: outer) s →
    Yields (replayChain (Env.plain options importer) scope chain rest) s
      (fun outline t => ∃ last, outline = chain.close last ∧
        Repeats store short ahead (scope :: outer)
          (replayChain (Env.plain options importer) scope chain)
          (fun later _ => readChain later last) s outline t)
      (Spares short)
  | .done, chain, ahead, scope, outer, s, quiet => by
    obtain ⟨t, ends, quiet, appends⟩ := quiet_foldChain quiet chain .done
    rw [replayChain]
    refine Yields.of_good ends ⟨.done, rfl, quiet, appends, fun later typed _ completes => ?_⟩
    obtain rfl : .done = typed := Except.ok.inj completes
    rw [replayChain]
    exact ends
  | .otherwise body span, chain, ahead, scope, outer, s, quiet => by
    have split : ahead + Typed.Chain.count (.otherwise body span :
        Typed.Chain Typed.Leaf Typed.Signature) = ahead + Typed.Tree.countAll body + 1 := by
      rw [Typed.Chain.count]
      omega
    rw [split] at quiet
    rw [replayChain, yields_bind]
    refine quiet.ticks fun m ticks paid quiet => ?_
    rw [yields_bind, yields_createScope, yields_bind]
    refine (quiet_replayAll prepared body (quiet.enter .block (by simp))).mono
      (fun outlines m' inner => ?_) fun _ _ bad => bad
    obtain ⟨t, ends, quiet, appends⟩ := quiet_foldChain inner.quiet.leave chain
      (.otherwise outlines span)
    refine Yields.of_good ends ⟨.otherwise outlines span, rfl, quiet,
      ((paid.trans (appends_entered m scope .block)).trans inner.appends).trans appends,
      fun later typed later' completes => ?_⟩
    simp only [readChain, Typed.Chain.complete, bind_eq_ok, pure_eq_ok] at completes
    obtain ⟨typedBody, completesBody, rfl⟩ := completes
    rw [replayChain]
    exact ends_bind.2 ⟨(), m, ticks, ends_bind.2 ⟨_, _, ends_createScope.2 ⟨rfl, rfl⟩,
      ends_bind.2 ⟨outlines, m', inner.again later typedBody (appends.trans later') completesBody,
        ends⟩⟩⟩
  | .elseIf condition body span rest, chain, ahead, scope, outer, s, quiet => by
    have split : ahead + Typed.Chain.count (.elseIf condition body span rest) =
        ahead + rest.count + Typed.Tree.countAll body + 1 := by
      rw [Typed.Chain.count]
      omega
    rw [split] at quiet
    rw [replayChain, yields_bind]
    refine quiet.ticks fun m ticks paid quiet => ?_
    have inside := quiet_replayAll prepared body (quiet.enter .block (by simp))
    rw [yields_bind]
    refine (quiet_checkArm quiet condition span (inside.mono
      (fun _ _ repeats => ⟨repeats.quiet, repeats⟩) fun _ _ bad => bad)).and_ends.mono
      (fun arm m' holds => ?_) fun _ _ bad => bad
    obtain ⟨ends, quiet, inner⟩ := holds
    refine (quiet_replayChain prepared rest (chain.extend arm) quiet).mono
      (fun outline t holds => ?_) fun _ _ bad => bad
    obtain ⟨last, rfl, repeats⟩ := holds
    refine ⟨.elseIf arm.condition arm.body arm.span last, OpenChain.close_extend chain arm last,
      repeats.quiet, ((paid.trans (appends_entered m scope .block)).trans inner.appends).trans
        repeats.appends, fun later typed appends completes => ?_⟩
    simp only [readChain, Typed.Chain.complete, bind_eq_ok, pure_eq_ok] at completes
    obtain ⟨typedBody, completesBody, typedRest, completesRest, rfl⟩ := completes
    rw [replayChain]
    refine ends_bind.2 ⟨(), m, ticks, ends_bind.2 ⟨arm, m', ?_, ?_⟩⟩
    · exact checkArm_again ends (inner.again later typedBody (repeats.appends.trans appends)
        completesBody)
    · exact repeats.again later typedRest appends completesRest

theorem quiet_replayAll (prepared : importer.Prepared store) : ∀ (stmts : List Typed.Stmt)
    {ahead : Nat} {scope : ScopeId} {outer : List ScopeId} {s : Checker Empty σ},
    Quiet store short (ahead + Typed.Tree.countAll stmts) (scope :: outer) s →
    Yields (replayAll (Env.plain options importer) scope stmts) s
      (Repeats store short ahead (scope :: outer) (replayAll (Env.plain options importer) scope)
        Checker.complete s) (Spares short)
  | [], ahead, scope, outer, s, quiet => by
    rw [replayAll, yields_pure]
    refine ⟨quiet, .refl s, fun later typed _ completes => ?_⟩
    obtain rfl : [] = typed := Except.ok.inj completes
    exact ends_pure.2 ⟨rfl, rfl⟩
  | stmt :: rest, ahead, scope, outer, s, quiet => by
    have split : ahead + Typed.Tree.countAll (stmt :: rest) =
        ahead + Typed.Tree.countAll rest + stmt.count := by
      rw [Typed.Tree.countAll]
      omega
    rw [split] at quiet
    rw [replayAll, yields_bind]
    refine (quiet_replay prepared stmt quiet).mono (fun outline m first => ?_) fun _ _ bad => bad
    rw [yields_bind]
    refine (quiet_replayAll prepared rest first.quiet).mono (fun outlines t others => ?_)
      fun _ _ bad => bad
    refine yields_pure.2 ⟨others.quiet, first.appends.trans others.appends,
      fun later typed appends completes => ?_⟩
    simp only [Checker.complete, Typed.Tree.completeAll, bind_eq_ok, pure_eq_ok] at completes
    obtain ⟨typedStmt, completesStmt, typedRest, completesRest, rfl⟩ := completes
    rw [replayAll]
    exact ends_bind.2 ⟨outline, m, first.again later typedStmt (others.appends.trans appends)
      completesStmt, ends_bind.2 ⟨outlines, t, others.again later typedRest appends completesRest,
        ends_pure.2 ⟨rfl, rfl⟩⟩⟩

end

theorem quiet_initial (short : Prop) {budget : Nat} (enough : budget < ahead → short) :
    Quiet store short ahead [Checker.root] (Checker.initial store budget) := by
  refine ⟨⟨rfl, rfl⟩, fun id name binding found => ?_, fun id type kept => ?_, rfl, rfl, rfl, rfl, by
    simp [Checker.initial, Note.isQuiet], enough⟩
  · cases id <;> simp [Checker.initial, Scopes.binding?, Scopes.create, Scopes.empty,
      Table.find?_empty] at found
  · cases id <;> simp [Checker.initial, Scopes.result?, Scopes.create, Scopes.empty,
      ScopeKind.role, Role.result?] at kept

theorem quiet_finishFile {ids : List ScopeId} (quiet : Quiet store short ahead ids s)
    (env : Env Empty σ) (outlines : List Outline) : ∃ t, Ends (finishFile env outlines) s outlines t ∧
      Quiet store short ahead ids t ∧ Appends s t := by
  refine ⟨{ s with journal := .finished s.scopes.size :: s.journal }, ?_, quiet.notes rfl,
    List.prefix_refl _, List.prefix_refl _, fun _ _ kept => kept⟩
  cases asked : env.options.reportUnresolved <;>
    simp [finishFile, asked, reportUnresolved, quiet.nobody]

/-- Checking a whole file that has all its types in it. -/
theorem quiet_analyze (prepared : importer.Prepared store) (options : Options)
    (typed : List Typed.Stmt) (budget : Nat) :
    Yields (analyze (Env.plain options importer) (Typed.Stmt.forgetAll typed))
      (Checker.initial store budget)
      (fun outlines t => Quiet store (budget < Typed.Tree.countAll typed) 0 [Checker.root] t ∧
        ∀ again, t.complete outlines = .ok again →
          Ends (analyze (Env.plain options importer) (Typed.Stmt.forgetAll again))
            (Checker.initial store budget) outlines t)
      (Spares (budget < Typed.Tree.countAll typed)) := by
  have start : Quiet store (budget < Typed.Tree.countAll typed) (0 + Typed.Tree.countAll typed)
      [Checker.root] (Checker.initial store budget) :=
    quiet_initial _ fun few => by omega
  rw [analyze_eq, yields_bind, checkBlock_forgetAll]
  refine (quiet_replayAll prepared typed start).mono (fun outlines m repeats => ?_)
    fun _ _ bad => bad
  obtain ⟨t, finishes, quiet, appends⟩ :=
    quiet_finishFile repeats.quiet (Env.plain options importer) outlines
  refine Yields.of_good finishes ⟨quiet, fun again completes => ?_⟩
  rw [analyze_eq, checkBlock_forgetAll]
  exact ends_bind.2 ⟨outlines, m, repeats.again t again appends completes, finishes⟩

end Check

theorem Halt.isLate_of_isUnread {halt : Halt} (unread : halt.isUnread = true) :
    halt.isLate = false := by
  cases halt with
  | rejected diagnostic =>
    obtain ⟨cause, position⟩ := diagnostic
    cases cause <;> simp_all [Halt.isUnread, Cause.isUnread, Halt.isLate, Cause.isLate]
  | _ => rfl

/-- A file that has all its types in it, whatever they are, is checked without anybody waiting: no
work is put off, every name is bound to a known type, and a budget of one step for each statement is
enough. What is accepted is a fixed point. -/
theorem Registry.check_forgetAll_fixpoint (options : Options) (fuel : Nat)
    (typed : List Typed.Stmt) :
    (∀ note ∈ (Registry.builtin.check options fuel (Typed.Stmt.forgetAll typed)).journal,
        note.isQuiet = true) ∧
      (∀ halt, (Registry.builtin.check options fuel (Typed.Stmt.forgetAll typed)).result =
          .error halt →
        halt.isLate = false ∧ (halt = .exhausted → fuel < Typed.Tree.countAll typed)) ∧
      ∀ output, (Registry.builtin.check options fuel (Typed.Stmt.forgetAll typed)).result =
          .ok output →
        (Registry.builtin.recheck options fuel output).result = .ok output := by
  have started (count : Nat) : (Note.started count).isQuiet = true := rfl
  have yields := Check.quiet_analyze (Registry.prepared_builtin fuel) options typed fuel
  obtain ⟨halt, t, halts, spares⟩ | ⟨outlines, t, ends, quiet, again⟩ := yields.cases
  · rw [Registry.check, checkProgram_of_halts halts]
    refine ⟨?_, ?_, fun output accepted => by cases accepted⟩
    · simpa [or_imp, forall_and, started] using spares.journal
    · rintro halted ⟨⟩
      exact ⟨spares.prompt, spares.budget⟩
  · rw [Registry.check, checkProgram_of_ends ends]
    refine ⟨?_, fun halt halted => ?_, fun output accepted => ?_⟩
    · simpa [or_imp, forall_and, started] using quiet.journal
    · have unread := ((t.fails_complete outlines).map Output.ofStmts) halt halted
      exact ⟨Halt.isLate_of_isUnread unread, fun same => by simp [same, Halt.isUnread] at unread⟩
    · cases completes : t.complete outlines with
      | error halt => simp [completes, Except.map] at accepted
      | ok found =>
        obtain rfl : Output.ofStmts found = output := by simpa [completes, Except.map] using accepted
        have rechecked := checkProgram_of_ends (again found completes)
        exact (congrArg Run.result rechecked).trans (by simp [completes, Except.map])

/-- A tree that is not the output of any check: the value of `r` is a name that is not bound, the
target of the assignment has a stale type, and `g` is called with a type it does not have. -/
def staleTyped : List Typed.Stmt :=
  [.leaf (.declare ⟨"r", false, .symbol "q" (.record [("f", .number)]), .record [("f", .number)],
      true, .nowhere⟩),
    .branch (.boolean true)
      [.leaf (.assign ⟨.member (.symbol "r") "f" .boolean, .set, .number ⟨1⟩, .nowhere⟩)] .nowhere
      .done,
    .leaf (.evaluate (.call (.symbol "g" (.function [] .boolean)) [] (.string 3)) .nowhere),
    .function ⟨"g", [], .number, false, .nowhere⟩ []]

def staleChecked : List Typed.Stmt :=
  [.leaf (.declare ⟨"r", false, .symbol "q" (.record [("f", .number)]), .record [("f", .number)],
      true, .nowhere⟩),
    .branch (.boolean true)
      [.leaf (.assign ⟨.member (.symbol "r") "f" (.record [("f", .number)]), .set, .number ⟨1⟩,
        .nowhere⟩)] .nowhere .done,
    .leaf (.evaluate (.call (.symbol "g" (.function [] .boolean)) [] .boolean) .nowhere),
    .function ⟨"g", [], .number, false, .nowhere⟩ []]

theorem staleTyped_fixpoint :
    (Registry.builtin.check .standard 9 (Typed.Stmt.forgetAll staleTyped)).result =
        .ok (Output.ofStmts staleChecked) ∧
      (Registry.builtin.recheck .standard 9 (Output.ofStmts staleChecked)).result =
        .ok (Output.ofStmts staleChecked) := by
  have accepted : (Registry.builtin.check .standard 9 (Typed.Stmt.forgetAll staleTyped)).result =
      .ok (Output.ofStmts staleChecked) := by cbv
  exact ⟨accepted,
    (Registry.check_forgetAll_fixpoint .standard 9 staleTyped).2.2 _ accepted⟩

end Hoist
