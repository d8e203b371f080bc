import Mathlib
import Hoist.Module.Registry
import Hoist.Proofs.Check.DraftsKept
import Hoist.Proofs.Typed.Unfold

/-!
Checking preserves the program. What is left of a checked file when its types are forgotten is the
file that was checked, up to what was found out about it: no statement is lost, repeated, moved or
changed, and a type that was written is kept.

Main statement: `checkProgram_preserves`.
-/
namespace Hoist

/-- What was found agrees with what was written. An annotation that was not written, or not yet found,
may be anything. -/
structure Stmt.Agree (written found : List Stmt) : Prop where
  erased : Stmt.eraseAll found = Stmt.eraseAll written
  annotations : List.Forall₂
    (fun written found : Ty => written.isConcrete = true → found.isConcrete = true → found = written)
    (Stmt.allAnnotations written) (Stmt.allAnnotations found)

namespace Stmt

theorem agree_nil : Agree [] [] :=
  ⟨rfl, .nil⟩

theorem Agree.append {a b c d : List Stmt} (first : Agree a b) (second : Agree c d) :
    Agree (a ++ c) (b ++ d) where
  erased := by rw [eraseAll_append, eraseAll_append, first.erased, second.erased]
  annotations := by
    rw [allAnnotations_append, allAnnotations_append]
    exact List.rel_append first.annotations second.annotations

variable {condition looked : Expr} {body found : List Stmt} {span : Span}

theorem Agree.branch (same : looked.erase = condition.erase) (inside : Agree body found) :
    Agree [.branch condition body span] [.branch looked found span] where
  erased := by simp [eraseAll, erase, same, inside.erased]
  annotations := by simpa [allAnnotations, Stmt.annotations] using inside.annotations

theorem Agree.elseIf (same : looked.erase = condition.erase) (inside : Agree body found) :
    Agree [.elseIf condition body span] [.elseIf looked found span] where
  erased := by simp [eraseAll, erase, same, inside.erased]
  annotations := by simpa [allAnnotations, Stmt.annotations] using inside.annotations

theorem Agree.otherwise (inside : Agree body found) :
    Agree [.otherwise body span] [.otherwise found span] where
  erased := by simp [eraseAll, erase, inside.erased]
  annotations := by simpa [allAnnotations, Stmt.annotations] using inside.annotations

theorem Agree.loop (same : looked.erase = condition.erase) (inside : Agree body found) :
    Agree [.loop condition body span] [.loop looked found span] where
  erased := by simp [eraseAll, erase, same, inside.erased]
  annotations := by simpa [allAnnotations, Stmt.annotations] using inside.annotations

theorem Agree.function {signature head : Signature} (same : head.erase = signature.erase)
    (kept : signature.result.isConcrete = true → head.result = signature.result)
    (inside : Agree body found) :
    Agree [.function signature body] [.function head found] where
  erased := by simp [eraseAll, erase, same, inside.erased]
  annotations := by
    simp only [allAnnotations, Stmt.annotations, List.append_nil]
    exact .cons (fun concrete _ => kept concrete) inside.annotations

theorem agree_refl_leaf (leaf : Leaf) : Agree [.leaf leaf] [.leaf leaf] where
  erased := rfl
  annotations := List.forall₂_same.2 fun _ _ _ _ => rfl

end Stmt

theorem Work.StandsFor.agree {work : Work} {leaf : Leaf} (stands : work.StandsFor leaf) :
    Stmt.Agree [.leaf leaf] [.leaf work.leaf] := by
  cases work <;> cases leaf <;> simp only [Work.StandsFor] at stands
  case declaration.declare d e =>
    obtain ⟨same, -, kept⟩ := stands
    refine ⟨?_, .cons (fun concrete found => ?_) .nil⟩
    · simpa [Stmt.eraseAll, Stmt.erase, Work.leaf, Leaf.erase, Declaration.erase] using same
    · rcases kept concrete with pending | same
      · simp [Ty.isPending_of_isConcrete found] at pending
      · exact same
  case assignment.assign a awaited b =>
    exact ⟨by simp [Stmt.eraseAll, Stmt.erase, Work.leaf, Leaf.erase, stands], .nil⟩
  case returns.returns r q =>
    exact ⟨by simp [Stmt.eraseAll, Stmt.erase, Work.leaf, Leaf.erase, stands], .nil⟩
  case evaluation.evaluate e f =>
    exact ⟨by simp [Stmt.eraseAll, Stmt.erase, Work.leaf, Leaf.erase, stands], .nil⟩

namespace Check

variable {σ : Type} {s t m : Checker Empty σ} {written more : List Stmt}

/-- The outlines stand for the statements, now and later. -/
def Tells (state : Checker Empty σ) (outlines : List Outline) (written : List Stmt) : Prop :=
  ∀ later, DraftsKept state later → Stmt.Agree written (later.unfold outlines)

theorem Tells.later {outlines : List Outline} (tells : Tells s outlines written)
    (keeps : DraftsKept s t) : Tells t outlines written :=
  fun later after => tells later (keeps.trans after)

theorem Tells.append {first second : List Outline} (before : Tells s first written)
    (after : Tells s second more) : Tells s (first ++ second) (written ++ more) := by
  intro later keeps
  rw [Checker.unfold, Typed.Tree.unfoldAll_append]
  exact (before later keeps).append (after later keeps)

theorem tells_nil : Tells s [] written ↔ written = [] := by
  constructor
  · intro tells
    have erased := (tells s (.refl s)).erased
    cases written with
    | nil => rfl
    | cons stmt rest => simp [Checker.unfold, Typed.Tree.unfoldAll, Stmt.eraseAll] at erased
  · rintro rfl later _
    exact Stmt.agree_nil

theorem tells_draft {id : DraftId} {d : Draft} {leaf : Leaf} (found : s.drafts[id]? = some d)
    (stands : d.work.StandsFor leaf) : Tells s [.leaf (.draft id)] [.leaf leaf] := by
  intro later keeps
  obtain ⟨e, here, -, passes⟩ := keeps.drafts id d found
  simpa [Checker.unfold, Typed.Tree.unfold, Checker.leafOf, here] using
    (passes.stands leaf stands).agree

theorem tells_plain {typed : Typed.Leaf} {leaf : Leaf} (same : typed.forget = leaf) :
    Tells s [.leaf (.plain typed)] [.leaf leaf] := by
  intro later _
  simpa [Checker.unfold, Typed.Tree.unfold, Checker.leafOf, same] using Stmt.agree_refl_leaf leaf

theorem tells_function {id : SignatureId} {h : SignatureDraft} {signature : Signature}
    {outlines : List Outline} (found : s.signatures[id]? = some h)
    (stands : h.StandsFor s.scopes signature) (inside : Tells s outlines written) :
    Tells s [.function id outlines] [.function signature written] := by
  intro later keeps
  obtain ⟨g, here, stands'⟩ := keeps.heads id h found
  obtain ⟨same, kept⟩ := stands' signature stands
  have agree := Stmt.Agree.function same (fun concrete => (kept concrete).1) (inside later keeps)
  simpa [Checker.unfold, Typed.Tree.unfold, Checker.headOf, here] using agree

theorem tells_loop {condition : Expr} {typed : Typed.Expr} {outlines : List Outline} {span : Span}
    (same : typed.toExpr.erase = condition.erase) (inside : Tells s outlines written) :
    Tells s [.loop typed outlines span] [.loop condition written span] := by
  intro later keeps
  simpa [Checker.unfold, Typed.Tree.unfold] using Stmt.Agree.loop same (inside later keeps)

/-! Chains. -/

/-- An open chain as an outline: what it would be if nothing carried it on. -/
def openOutlines : Option OpenChain → List Outline
  | none => []
  | some chain => [chain.close .done]

theorem unfold_link (state : Checker Empty σ) (arms : List Arm) (last : OutlineChain) :
    (Arm.link last arms).unfold state.leafOf state.headOf =
      (Arm.link .done arms).unfold state.leafOf state.headOf ++
        last.unfold state.leafOf state.headOf := by
  induction arms with
  | nil => simp [Arm.link, Typed.Chain.unfold]
  | cons arm rest ih => simp [Arm.link, Typed.Chain.unfold, ih]

theorem unfold_close (state : Checker Empty σ) (chain : OpenChain) (last : OutlineChain) :
    state.unfold [chain.close last] =
      state.unfold [chain.close .done] ++ last.unfold state.leafOf state.headOf := by
  simp [Checker.unfold, OpenChain.close, Typed.Tree.unfold, unfold_link state chain.elseIfs last]

theorem tells_extend {chain : OpenChain} {arm : Arm} {condition : Expr} {body : List Stmt}
    (before : Tells s [chain.close .done] written)
    (same : arm.condition.toExpr.erase = condition.erase) (inside : Tells s arm.body body) :
    Tells s [(chain.extend arm).close .done] (written ++ [.elseIf condition body arm.span]) := by
  intro later keeps
  rw [OpenChain.close_extend, unfold_close]
  refine (before later keeps).append ?_
  simpa [Typed.Chain.unfold, Checker.unfold] using Stmt.Agree.elseIf same (inside later keeps)

theorem tells_otherwise {chain : OpenChain} {outlines : List Outline} {body : List Stmt} {span : Span}
    (before : Tells s [chain.close .done] written) (inside : Tells s outlines body) :
    Tells s [chain.close (.otherwise outlines span)] (written ++ [.otherwise body span]) := by
  intro later keeps
  rw [unfold_close]
  refine (before later keeps).append ?_
  simpa [Typed.Chain.unfold, Checker.unfold] using Stmt.Agree.otherwise (inside later keeps)

theorem tells_branch {arm : Arm} {condition : Expr} {body : List Stmt}
    (same : arm.condition.toExpr.erase = condition.erase) (inside : Tells s arm.body body) :
    Tells s [OpenChain.close ⟨arm, []⟩ .done] [.branch condition body arm.span] := by
  intro later keeps
  simpa [Checker.unfold, OpenChain.close, Arm.link, Typed.Tree.unfold, Typed.Chain.unfold] using
    Stmt.Agree.branch same (inside later keeps)

/-! Simple statements. -/

section Walk

variable {importer : Importer σ} {options : Options} {scope : ScopeId} {position : Position}

/-- A draft that has been looked at stands for what it was made of. -/
theorem tells_looked {view : View} {id : DraftId} {work last : Work} {types : List Ty} {leaf : Leaf}
    (looked : Looked view id scope work s types last m) (stands : last.StandsFor leaf)
    (keeps : DraftsKept m t) : Tells t [.leaf (.draft id)] [.leaf leaf] :=
  Tells.later (tells_draft looked.putAt.here stands) keeps

theorem erase_of_look {view : View} {value looked : Expr} {result : Except Fault Ty}
    (look : value.resolve view = (result, looked)) : looked.erase = value.erase := by
  rw [← value.erase_resolve view, look]

theorem tells_declaration {d : Declaration} {leaf : OutlineLeaf}
    (run : LeafRun (Env.plain options importer) scope (.declare d) s leaf t) :
    Tells t [.leaf leaf] [.leaf (.declare d)] := by
  cases run with | declare _ look typed _ _ adds defers
  obtain ⟨rfl, agrees⟩ := Declaration.withType_eq_ok typed
  obtain ⟨rfl, rfl⟩ := ends_addDraft.1 adds
  refine tells_looked (looked_declare look agrees defers) ⟨?_, rfl, fun concrete => ?_⟩
    (.refl _)
  · simp [Declaration.erase, erase_of_look look]
  · exact (agrees concrete).imp_right Eq.symm

theorem importNames_names {source : String} {names : List String}
    {found : List (String × ConcreteTy)} {env : Env Empty σ}
    (ends : Ends (importNames env scope source position names) s found t) :
    found.map (·.1) = names := by
  induction names generalizing s found t with
  | nil =>
    obtain ⟨rfl, -⟩ := ends_pure.1 ends
    rfl
  | cons name rest ih =>
    simp only [importNames, ends_bind, ends_pure] at ends
    obtain ⟨_, _, -, _, _, -, _, _, -, _, _, -, _, _, ends, rfl, -⟩ := ends
    simp [ih ends]

theorem tells_leaf {leaf : Leaf} {out : OutlineLeaf}
    (run : LeafRun (Env.plain options importer) scope leaf s out t) :
    Tells t [.leaf out] [.leaf leaf] := by
  cases leaf with
  | declare d => exact tells_declaration run
  | assign a =>
    cases run with | assign adds checks
    obtain ⟨_, _, _, looked⟩ :=
      looked_checkAssignment (List.getElem?_eq_some_iff.1 (drafts_addDraft adds)).1 checks
    exact tells_looked looked (looked.looks.passes.stands _ rfl) (.refl _)
  | returns r =>
    cases run with | returns adds checks
    simp only [checkReturn_judge, ends_bind] at checks
    obtain ⟨handed, n, judges, settled⟩ := checks
    obtain ⟨types, last, o, looked, answers⟩ := reviewed_judgeReturn (drafts_addDraft adds) judges
    refine tells_looked looked (looked.looks.passes.stands _ rfl)
      ((answers.draftsKept looked.calm).trans ?_)
    cases handed with
    | none =>
      obtain ⟨-, rfl⟩ := ends_pure.1 settled
      exact .refl _
    | some handed => exact draftsKept_runWave settled
  | evaluate e =>
    cases run with | evaluate adds checks
    obtain ⟨_, _, looked⟩ :=
      looked_checkEvaluation (List.getElem?_eq_some_iff.1 (drafts_addDraft adds)).1 checks
    exact tells_looked looked (looked.looks.passes.stands _ rfl) (.refl _)
  | breakLoop span | continueLoop span | endOfFile =>
    cases run
    exact tells_plain rfl
  | imports names source span =>
    cases run with | imports _ imports
    exact tells_plain (by simp [Typed.Leaf.forget, importNames_names imports])

/-! Statements with a body. -/

/-- The condition that is left is the one that was looked at. -/
theorem toExpr_of_look {view : View} {condition looked : Expr} {typed : Typed.Expr}
    {result : Except Fault Ty} (look : condition.resolve view = (result, looked))
    (read : Typed.Expr.ofExpr looked = .ok typed) : typed.toExpr.erase = condition.erase := by
  rw [Typed.Expr.toExpr_ofExpr read, erase_of_look look]

/-- The scope of the body keeps the result type that was written. -/
theorem result_defineParameters {signature : Signature} {inner : ScopeId}
    (concrete : signature.result.isConcrete = true)
    (creates : Ends (createScope (some scope) (.function signature.result)) s inner m)
    (parameters : Ends (defineParameters (Env.plain options importer).settle inner
      signature.span.start signature.parameters) m () t) :
    t.scopes.result? inner = some signature.result := by
  have madeOfSteps : MadeOfSteps (.loose σ) inner
      (defineParameters (Env.plain options importer).settle inner signature.span.start
        signature.parameters) := madeOfSteps_defineParameters inner _ _
  refine (madeOfSteps.draftsKept parameters).results _ _ ?_ concrete
  obtain ⟨rfl, rfl⟩ := ends_createScope.1 creates
  simp [Scopes.result?, Scopes.all_create, ScopeKind.role, Role.result?]

theorem tells_finishFunction {inner : ScopeId} {written head : Signature} {id : SignatureId}
    {outlines : List Outline} {program : List Stmt}
    (stands : SignatureDraft.StandsFor s.scopes ⟨scope, inner, head⟩ written)
    (tells : Tells s outlines program)
    (ends : Ends (finishFunction (Env.plain options importer).settle scope inner head) s id t) :
    Tells t [.function id outlines] [.function written program] := by
  simp only [finishFunction_eq, ends_bind, ends_pure] at ends
  obtain ⟨k, m, adds, work, n, defines, _, _, settled, rfl, rfl⟩ := ends
  obtain ⟨rfl, o, journal, headed, rfl⟩ := headed_addHead adds
  obtain ⟨scopes, changes, rfl⟩ := ends_define.1 defines
  have added : DraftsKept s o := headed.draftsKept fun g found => by simp at found
  have rest : DraftsKept o t :=
    DraftsKept.trans (m := { o with scopes })
      (.of_scopes rfl rfl (Scopes.define_eq_ok changes).2.result)
      ((draftsKept_runWave settled).since rfl rfl rfl)
  obtain ⟨_, _, put, rfl, -⟩ := headed
  exact (tells_function put.here (stands.mono added.results) (tells.later added)).later rest

theorem tells_closeFunction {signature : Signature} {inner : ScopeId} {id : SignatureId}
    {outlines : List Outline} {program : List Stmt}
    (keeps : signature.result.isConcrete = true → s.scopes.result? inner = some signature.result)
    (tells : Tells s outlines program)
    (ends : Ends (closeFunction (Env.plain options importer).settle scope inner signature) s id t) :
    Tells t [.function id outlines] [.function signature program] := by
  simp only [closeFunction_eq, ends_bind, ends_scopes, ends_ofFault, and_assoc, exists_and_left,
    exists_eq_left] at ends
  obtain ⟨result?, look, closes⟩ := ends
  have stands : SignatureDraft.StandsFor s.scopes
      ⟨scope, inner, { signature with result := (result?.map resultOf).getD .void }⟩ signature := by
    refine ⟨rfl, fun concrete => ?_⟩
    obtain rfl : result? = some signature.result := by
      simpa using look.symm.trans (Scopes.resultType_of_result? (keeps concrete))
    exact ⟨resultOf_of_isConcrete concrete, keeps concrete⟩
  exact tells_finishFunction stands tells closes

end Walk

/-! Blocks. -/

theorem ends_endChain {chain : Option OpenChain} {outlines : List Outline}
    (ends : Ends (endChain chain) s outlines t) : outlines = openOutlines chain := by
  cases chain with
  | none => exact (ends_pure.1 ends).1
  | some chain =>
    simp only [endChain, ends_bind, ends_pure] at ends
    obtain ⟨outline, _, folds, rfl, rfl⟩ := ends
    rw [(foldChain_of_ends folds).1, openOutlines]

/-- The statements up to here: those that are finished, and those of the chain that is open. -/
def Carries (state : Checker Empty σ) (outlines : List Outline) (chain : Option OpenChain)
    (written : List Stmt) : Prop :=
  ∃ finished left, written = finished ++ left ∧ Tells state outlines finished ∧
    Tells state (openOutlines chain) left

theorem Tells.closed {outlines : List Outline} (tells : Tells s outlines written) :
    Carries s outlines none written :=
  ⟨written, [], by simp, tells, tells_nil.2 rfl⟩

theorem Tells.opened {chain : Option OpenChain} (tells : Tells s (openOutlines chain) written) :
    Carries s [] chain written :=
  ⟨[], written, rfl, tells_nil.2 rfl, tells⟩

/-- A chain that a statement does not carry on is finished before it. -/
theorem carries_endChainBefore {stmt : Stmt} {chain after : Option OpenChain}
    {outlines : List Outline} (before : Tells s (openOutlines chain) written)
    (ends : Ends (endChainBefore stmt chain) s (outlines, after) t) :
    (stmt.continuesChain = false → after = none) ∧ Carries t outlines after written := by
  have madeOfSteps : MadeOfSteps (.loose σ) Checker.root (endChainBefore stmt chain) :=
    madeOfSteps_endChainBefore stmt chain
  have later := before.later (madeOfSteps.draftsKept ends)
  unfold endChainBefore at ends
  split at ends
  case isTrue continues =>
    obtain ⟨⟨rfl, rfl⟩, rfl⟩ : (outlines = [] ∧ after = chain) ∧ t = s := by simpa using ends
    exact ⟨by simp [continues], later.opened⟩
  case isFalse =>
    simp only [ends_bind, ends_pure, Prod.mk.injEq] at ends
    obtain ⟨_, _, closes, ⟨rfl, rfl⟩, rfl⟩ := ends
    rw [← ends_endChain closes] at later
    exact ⟨fun _ => rfl, later.closed⟩

section Blocks

variable {importer : Importer σ} {options : Options}

theorem draftsKept_checkBlock {program : List Stmt} {scope : ScopeId} {chain : Option OpenChain}
    {outlines : List Outline}
    (ends : Ends (checkBlock (Env.plain options importer) scope chain program) s outlines t) :
    DraftsKept s t :=
  (madeOfSteps_checkBlock program scope chain Setting.suits_loose).draftsKept ends

mutual

theorem carries_stmt : ∀ {scope chain stmt s outlines after t},
    StmtRun (Env.plain options importer) scope chain stmt s outlines after t → DraftsKept s t →
    (stmt.continuesChain = false → chain = none) →
    ∀ {written}, Tells s (openOutlines chain) written → Carries t outlines after (written ++ [stmt])
  | _, _, _, _, _, _, _, .leaf ends, _, fresh, _, before => by
    obtain rfl := fresh rfl
    obtain rfl := tells_nil.1 before
    exact (tells_leaf (.of_ends ends)).closed
  | _, _, _, _, _, _, _, .branch look _ walks read, _, fresh, _, before => by
    obtain rfl := fresh rfl
    obtain rfl := tells_nil.1 before
    exact Tells.opened (tells_branch (toExpr_of_look look read) (tells_block walks (tells_nil.2 rfl)))
  | _, _, _, _, _, _, _, .elseIf look _ walks read, keeps, _, _, before =>
    Tells.opened (tells_extend (before.later keeps) (toExpr_of_look look read)
      (tells_block walks (tells_nil.2 rfl)))
  | _, _, _, _, _, _, _, .otherwise _ walks, keeps, _, _, before =>
    (tells_otherwise (before.later keeps) ((tells_block walks (tells_nil.2 rfl)).later
      (.of_scopes rfl rfl fun _ => rfl))).closed
  | _, _, _, _, _, _, _, .loop looks _ walks read, _, fresh, _, before => by
    obtain rfl := fresh rfl
    obtain rfl := tells_nil.1 before
    obtain ⟨-, _, look, -⟩ := ends_checkLoopCondition looks
    exact (tells_loop (toExpr_of_look look read) (tells_block walks (tells_nil.2 rfl))).closed
  | _, _, _, _, _, _, _, .function _ _ creates parameters ends walks closes, _, fresh, _, before => by
    obtain rfl := fresh rfl
    obtain rfl := tells_nil.1 before
    have inside := tells_block walks (tells_nil.2 rfl)
    exact (tells_closeFunction (fun concrete => (draftsKept_checkBlock ends).results _ _
      (result_defineParameters concrete creates parameters) concrete) inside closes).closed

/-- What is finished when a block has been checked stands for its statements, after those of a chain
that was open. -/
theorem tells_block : ∀ {scope chain program s outlines t},
    BlockRun (Env.plain options importer) scope chain program s outlines t →
    ∀ {written}, Tells s (openOutlines chain) written → Tells t outlines (written ++ program)
  | scope, chain, _, s, _, _, .nil ends, _, before => by
    have madeOfSteps : MadeOfSteps (.loose σ) scope (endChain chain) := madeOfSteps_endChain chain
    rw [ends_endChain ends]
    simpa using before.later (madeOfSteps.draftsKept ends)
  | _, _, _, _, _, _, @BlockRun.cons _ _ _ _ _ still _ stmt rest _ _ _ spent _ m _ _ closes _ ends run
      later walks, _, before => by
    obtain ⟨fresh, finished, left, rfl, told, opened⟩ := carries_endChainBefore before closes
    have ticked : DraftsKept m { m with budget := spent } := .of_scopes rfl rfl fun _ => rfl
    have checked := (madeOfSteps_checkStmt stmt _ still Setting.suits_loose).draftsKept ends
    have walked := draftsKept_checkBlock later
    obtain ⟨finished', left', same, told', opened'⟩ :=
      carries_stmt run checked fresh (opened.later ticked)
    have told'' := tells_block walks opened'
    have all := (told.later (ticked.trans (checked.trans walked))).append
      ((told'.later walked).append told'')
    have split : finished ++ left ++ stmt :: rest = finished ++ (finished' ++ (left' ++ rest)) := by
      rw [← List.append_assoc finished', ← same]
      simp
    rwa [split]

end

theorem tells_checkBlock {program : List Stmt} {scope : ScopeId} {outlines : List Outline}
    (ends : Ends (checkBlock (Env.plain options importer) scope none program) s outlines t) :
    Tells t outlines program :=
  tells_block (.of_ends program ends) (tells_nil.2 rfl)

end Blocks

end Check

/-! The annotations of what is left of a checked file are the types that were found. -/

namespace Typed

mutual

theorem Stmt.annotations_forget : ∀ typed : Stmt,
    ∀ type ∈ Hoist.Stmt.allAnnotations (Stmt.forget typed), type.isConcrete = true
  | .leaf content => by
    cases content <;> simp [Stmt.forget, Leaf.forget, Hoist.Stmt.allAnnotations,
      Hoist.Stmt.annotations, Leaf.annotations, Declaration.forget]
  | .branch condition body span rest => by
    have onBody := Stmt.annotations_forgetAll body
    have onRest := Stmt.annotations_forgetChain rest
    simpa [Stmt.forget, Hoist.Stmt.allAnnotations, Hoist.Stmt.annotations, or_imp, forall_and] using
      ⟨onBody, onRest⟩
  | .loop condition body span => by
    simpa [Stmt.forget, Hoist.Stmt.allAnnotations, Hoist.Stmt.annotations] using
      Stmt.annotations_forgetAll body
  | .function signature body => by
    simpa [Stmt.forget, Hoist.Stmt.allAnnotations, Hoist.Stmt.annotations, Signature.forget] using
      Stmt.annotations_forgetAll body

theorem Stmt.annotations_forgetChain : ∀ typed : Chain Leaf Signature,
    ∀ type ∈ Hoist.Stmt.allAnnotations (Stmt.forgetChain typed), type.isConcrete = true
  | .done => by simp [Stmt.forgetChain, Hoist.Stmt.allAnnotations]
  | .otherwise body span => by
    simpa [Stmt.forgetChain, Hoist.Stmt.allAnnotations, Hoist.Stmt.annotations] using
      Stmt.annotations_forgetAll body
  | .elseIf condition body span rest => by
    have onBody := Stmt.annotations_forgetAll body
    have onRest := Stmt.annotations_forgetChain rest
    simpa [Stmt.forgetChain, Hoist.Stmt.allAnnotations, Hoist.Stmt.annotations, or_imp,
      forall_and] using ⟨onBody, onRest⟩

theorem Stmt.annotations_forgetAll : ∀ typed : List Stmt,
    ∀ type ∈ Hoist.Stmt.allAnnotations (Stmt.forgetAll typed), type.isConcrete = true
  | [] => by simp [Stmt.forgetAll, Hoist.Stmt.allAnnotations]
  | stmt :: rest => by
    have first := Stmt.annotations_forget stmt
    have others := Stmt.annotations_forgetAll rest
    simpa [Stmt.forgetAll, Hoist.Stmt.allAnnotations_append, or_imp, forall_and] using
      ⟨first, others⟩

end

end Typed

/-- What is left of an accepted file when its types are forgotten is the file itself: the two differ in
nothing but what is found out about types, and there every annotation that was known is kept. -/
theorem checkProgram_preserves {σ : Type} (importer : Importer σ) (options : Options) (budget : Nat)
    (store : σ) (program : List Stmt) (output : Output)
    (accepted : (checkProgram importer options budget store program).result = .ok output) :
    Stmt.eraseAll (Typed.Stmt.forgetAll output.typed) = Stmt.eraseAll program ∧
      List.Forall₂ (fun written found : Ty => written.isConcrete = true → found = written)
        (Stmt.allAnnotations program)
        (Stmt.allAnnotations (Typed.Stmt.forgetAll output.typed)) := by
  obtain ⟨outlines, t, ends, completes, -⟩ := exists_of_accepted accepted
  simp only [Check.analyze_eq, Check.ends_bind] at ends
  obtain ⟨_, m, walks, finishes⟩ := ends
  obtain ⟨rfl, after, -⟩ := Check.ends_finishFile finishes
  have kept : Check.DraftsKept m t := after ▸ .of_scopes rfl rfl fun _ => rfl
  have agree := Check.tells_checkBlock walks t kept
  rw [← Checker.forgetAll_complete _ completes] at agree
  have found := Typed.Stmt.annotations_forgetAll output.typed
  refine ⟨agree.erased, List.forall₂_iff_get.2 ⟨agree.annotations.length_eq, ?_⟩⟩
  intro i here there concrete
  exact agree.annotations.get here there concrete (found _ (List.get_mem _ _))

/-- A declaration that waits for a function, with a written type and leftovers in its slots, and a
chain of three parts. -/
def annotatedChain : List Stmt :=
  [.leaf (.declare ⟨"n", true, .call (.symbol "f" (.pending "g")) [.array [.number ⟨1⟩] .unannotated],
      .number, .void, true, .nowhere⟩),
    .branch (.boolean true) [.leaf (.evaluate ⟨.symbol "n" .unresolved, .nowhere⟩)] .nowhere,
    .elseIf (.boolean false) [] .nowhere,
    .otherwise [.leaf (.evaluate ⟨.symbol "f" .unresolved, .nowhere⟩)] .nowhere,
    .function ⟨"f", [("a", .array .number 1)], .unannotated, false, .nowhere⟩
      [.leaf (.returns ⟨some (.index (.symbol "a" .unannotated) (.number ⟨0⟩)), .nowhere⟩)]]

def annotatedChainTyped : List Typed.Stmt :=
  [.leaf (.declare ⟨"n", true, .call (.symbol "f" (.function [("a", .array .number 1)] .number))
      [.array [.number ⟨1⟩] (.array .number 1)] .number, .number, true, .nowhere⟩),
    .branch (.boolean true) [.leaf (.evaluate (.symbol "n" .number) .nowhere)] .nowhere
      (.elseIf (.boolean false) [] .nowhere
        (.otherwise [.leaf (.evaluate (.symbol "f" (.function [("a", .array .number 1)] .number))
          .nowhere)] .nowhere)),
    .function ⟨"f", [("a", .array .number 1)], .number, false, .nowhere⟩
      [.leaf (.returns (some (.index (.symbol "a" (.array .number 1)) (.number ⟨0⟩) .number))
        .nowhere)]]

theorem annotatedChain_preserved :
    (Registry.builtin.check .standard 20 annotatedChain).result =
        .ok (Output.ofStmts annotatedChainTyped) ∧
      Stmt.eraseAll (Typed.Stmt.forgetAll annotatedChainTyped) = Stmt.eraseAll annotatedChain ∧
      List.Forall₂ (fun written found : Ty => written.isConcrete = true → found = written)
        (Stmt.allAnnotations annotatedChain)
        (Stmt.allAnnotations (Typed.Stmt.forgetAll annotatedChainTyped)) := by
  have accepted : (Registry.builtin.check .standard 20 annotatedChain).result =
      .ok (Output.ofStmts annotatedChainTyped) := by cbv
  exact ⟨accepted, checkProgram_preserves (Registry.importer 20) .standard 20 .builtin annotatedChain
    (Output.ofStmts annotatedChainTyped) accepted⟩

end Hoist
