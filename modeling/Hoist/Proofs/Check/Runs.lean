import Hoist.Proofs.Check.Parts

/-!
How a check goes that ends well: what has been done, in the order in which it was done. What is true of
statements that have been checked is shown by induction on that.

Main statements: `StmtRun.of_ends`, `BlockRun.of_ends`.
-/
namespace Hoist.Check

variable {κ σ : Type}

inductive LeafRun (env : Env κ σ) (scope : ScopeId) :
    Leaf → Checker κ σ → OutlineLeaf → Checker κ σ → Prop
  | declare {d type value after work id s m n o t}
      (onTop : d.exported = true → s.scopes.isTopLevel scope = .ok true)
      (look : d.value.resolve (s.scopes.view scope) = (.ok type, value))
      (typed : { d with value }.withType type = .ok after)
      (defines : Ends (define scope after.binding d.span.start) s work m)
      (settles : Ends (env.settle work) m () n)
      (adds : Ends (addDraft scope (.declaration after)) n id o)
      (defers : Ends (deferDeclaration id scope after type) o () t) :
      LeafRun env scope (.declare d) s (.draft id) t
  | assign {a id s m t} (adds : Ends (addDraft scope (.assignment a [])) s id m)
      (checks : Ends (checkAssignment id scope a []) m () t) :
      LeafRun env scope (.assign a) s (.draft id) t
  | returns {r id s m t} (adds : Ends (addDraft scope (.returns r)) s id m)
      (checks : Ends (checkReturn env.settle id scope r) m () t) :
      LeafRun env scope (.returns r) s (.draft id) t
  | evaluate {e id s m t} (adds : Ends (addDraft scope (.evaluation e)) s id m)
      (checks : Ends (checkEvaluation id scope e) m () t) :
      LeafRun env scope (.evaluate e) s (.draft id) t
  | breakLoop {span s} (inLoop : s.scopes.isInsideLoop scope = .ok true) :
      LeafRun env scope (.breakLoop span) s (.plain (.breakLoop span)) s
  | continueLoop {span s} (inLoop : s.scopes.isInsideLoop scope = .ok true) :
      LeafRun env scope (.continueLoop span) s (.plain (.continueLoop span)) s
  | imports {names source span found s t} (onTop : s.scopes.isTopLevel scope = .ok true)
      (imports : Ends (importNames env scope source span.start names) s found t) :
      LeafRun env scope (.imports names source span) s (.plain (.imports found source span)) t
  | endOfFile {s} : LeafRun env scope .endOfFile s (.plain .endOfFile) s

theorem LeafRun.of_ends {env : Env κ σ} {scope : ScopeId} {content : Leaf} {leaf : OutlineLeaf}
    {s t : Checker κ σ} (ends : Ends (checkLeaf env scope content) s leaf t) :
    LeafRun env scope content s leaf t := by
  cases content with
  | declare d =>
    simp only [checkLeaf, checkDeclaration_eq, bindDeclaration, ends_bind, ends_view, ends_ofFault,
      ends_ofCause, ends_pure, and_assoc, exists_and_left, exists_eq_left] at ends
    obtain ⟨id, _, ⟨_, m, exports, type, look, after, typed, work, n, defines, _, o, settles, _, _,
      adds, _, _, defers, rfl, rfl⟩, rfl, rfl⟩ := ends
    obtain rfl := ends_checkExport exports
    refine .declare (fun exported => ?_) (Prod.ext look rfl) typed defines settles adds defers
    rw [checkExport, if_pos exported] at exports
    exact (ends_demand_iff.1 exports).1
  | assign | returns | evaluate =>
    simp only [checkLeaf, ends_bind, ends_pure] at ends
    obtain ⟨id, m, adds, _, _, checks, rfl, rfl⟩ := ends
    constructor <;> assumption
  | breakLoop | continueLoop =>
    simp only [checkLeaf, checkInLoop_eq, ends_bind, ends_pure] at ends
    obtain ⟨_, _, inLoop, rfl, rfl⟩ := ends
    obtain ⟨inLoop, rfl⟩ := ends_demand_iff.1 inLoop
    constructor
    exact inLoop
  | imports names source span =>
    simp only [checkLeaf_imports, ends_bind, ends_map] at ends
    obtain ⟨_, m, onTop, found, imports, rfl⟩ := ends
    obtain ⟨onTop, rfl⟩ := ends_demand_iff.1 onTop
    exact .imports onTop imports
  | endOfFile =>
    obtain ⟨rfl, rfl⟩ := ends_pure.1 ends
    exact .endOfFile

mutual

inductive StmtRun (env : Env κ σ) : ScopeId → Option OpenChain → Stmt → Checker κ σ →
    List Outline → Option OpenChain → Checker κ σ → Prop
  | leaf {scope chain content leaf s t} (ends : Ends (checkLeaf env scope content) s leaf t) :
      StmtRun env scope chain (.leaf content) s [.leaf leaf] none t
  | branch {scope inner chain condition looked typed body span outlines s m t}
      (look : condition.resolve (s.scopes.view scope) = (.ok .boolean, looked))
      (creates : Ends (createScope (some scope) .block) s inner m)
      (walks : BlockRun env inner none body m outlines t)
      (read : Typed.Expr.ofExpr looked = .ok typed) :
      StmtRun env scope chain (.branch condition body span) s []
        (some ⟨⟨typed, outlines, span⟩, []⟩) t
  | elseIf {scope inner chain condition looked typed body span outlines s m t}
      (look : condition.resolve (s.scopes.view scope) = (.ok .boolean, looked))
      (creates : Ends (createScope (some scope) .block) s inner m)
      (walks : BlockRun env inner none body m outlines t)
      (read : Typed.Expr.ofExpr looked = .ok typed) :
      StmtRun env scope (some chain) (.elseIf condition body span) s []
        (some (chain.extend ⟨typed, outlines, span⟩)) t
  | otherwise {scope inner chain body span outlines journal s m t}
      (creates : Ends (createScope (some scope) .block) s inner m)
      (walks : BlockRun env inner none body m outlines t) :
      StmtRun env scope (some chain) (.otherwise body span) s
        [chain.close (.otherwise outlines span)] none { t with journal }
  | loop {scope inner chain condition looked typed body span outlines s m t}
      (looks : Ends (checkLoopCondition env scope condition span.start) s looked s)
      (creates : Ends (createScope (some scope) .loop) s inner m)
      (walks : BlockRun env inner none body m outlines t)
      (read : Typed.Expr.ofExpr looked = .ok typed) :
      StmtRun env scope chain (.loop condition body span) s [.loop typed outlines span] none t
  | function {scope inner chain signature body outlines id s m n o t}
      (onTop : s.scopes.isTopLevel scope = .ok true)
      (checked : checkParameters [] signature.parameters = .ok ())
      (creates : Ends (createScope (some scope) (.function signature.result)) s inner m)
      (parameters : Ends (defineParameters env.settle inner signature.span.start
        signature.parameters) m () n)
      (ends : Ends (checkBlock env inner none body) n outlines o)
      (walks : BlockRun env inner none body n outlines o)
      (closes : Ends (closeFunction env.settle scope inner signature) o id t) :
      StmtRun env scope chain (.function signature body) s [.function id outlines] none t

inductive BlockRun (env : Env κ σ) : ScopeId → Option OpenChain → List Stmt → Checker κ σ →
    List Outline → Checker κ σ → Prop
  | nil {scope chain outlines s t} (ends : Ends (endChain chain) s outlines t) :
      BlockRun env scope chain [] s outlines t
  | cons {scope chain still after stmt rest closed done others left s m n t}
      (closes : Ends (endChainBefore stmt chain) s (closed, still) m)
      (budget : m.budget = left + 1)
      (ends : Ends (checkStmt env scope still stmt) { m with budget := left } (done, after) n)
      (run : StmtRun env scope still stmt { m with budget := left } done after n)
      (later : Ends (checkBlock env scope after rest) n others t)
      (walks : BlockRun env scope after rest n others t) :
      BlockRun env scope chain (stmt :: rest) s (closed ++ (done ++ others)) t

end

mutual

theorem StmtRun.of_ends {env : Env κ σ} : ∀ (stmt : Stmt) {scope : ScopeId}
    {chain after : Option OpenChain} {outlines : List Outline} {s t : Checker κ σ},
    Ends (checkStmt env scope chain stmt) s (outlines, after) t →
    StmtRun env scope chain stmt s outlines after t
  | .leaf content, _, _, _, _, _, _, ends => by
    simp only [checkStmt, ends_bind, ends_pure, Prod.mk.injEq] at ends
    obtain ⟨leaf, _, ends, ⟨rfl, rfl⟩, rfl⟩ := ends
    exact .leaf ends
  | .branch condition body span, _, _, _, _, _, _, ends => by
    simp only [checkStmt, checkArm, bind_assoc, pure_bind, ends_bind, ends_checkCondition,
      ends_ofCause, ends_pure, and_assoc, exists_and_left, exists_eq_left, Prod.mk.injEq] at ends
    obtain ⟨looked, look, inner, m, creates, found, _, walks, typed, read, rfl, rfl, rfl⟩ := ends
    exact .branch look creates (BlockRun.of_ends body walks) read
  | .elseIf condition body span, _, none, _, _, _, _, ends => by
    simp [checkStmt] at ends
  | .elseIf condition body span, _, some chain, _, _, _, _, ends => by
    simp only [checkStmt, checkArm, bind_assoc, pure_bind, ends_bind, ends_checkCondition,
      ends_ofCause, ends_pure, and_assoc, exists_and_left, exists_eq_left, Prod.mk.injEq] at ends
    obtain ⟨looked, look, inner, m, creates, found, _, walks, typed, read, rfl, rfl, rfl⟩ := ends
    exact .elseIf look creates (BlockRun.of_ends body walks) read
  | .otherwise body span, _, none, _, _, _, _, ends => by
    simp [checkStmt] at ends
  | .otherwise body span, _, some chain, _, _, _, _, ends => by
    simp only [checkStmt, ends_bind, ends_pure, Prod.mk.injEq] at ends
    obtain ⟨inner, m, creates, found, n, walks, outline, _, folds, ⟨rfl, rfl⟩, rfl⟩ := ends
    obtain ⟨rfl, _, rfl⟩ := foldChain_of_ends folds
    exact .otherwise creates (BlockRun.of_ends body walks)
  | .loop condition body span, _, _, _, _, _, _, ends => by
    simp only [checkStmt, checkLoop, bind_assoc, pure_bind, ends_bind, ends_ofCause, ends_pure,
      and_assoc, exists_and_left, exists_eq_left, Prod.mk.injEq] at ends
    obtain ⟨looked, _, looks, inner, m, creates, found, _, walks, typed, read, rfl, rfl, rfl⟩ := ends
    obtain ⟨rfl, -⟩ := ends_checkLoopCondition looks
    exact .loop looks creates (BlockRun.of_ends body walks) read
  | .function signature body, _, _, _, _, _, _, ends => by
    simp only [checkStmt, checkFunction, openFunction_eq, openBody, bind_assoc, pure_bind, ends_bind,
      ends_demand_iff, ends_ofCause, ends_pure, and_assoc, exists_and_left, exists_eq_left,
      Prod.mk.injEq] at ends
    obtain ⟨onTop, _, _, checked, inner, m, creates, _, n, parameters, found, o, walks, id, _, closes,
      rfl, rfl, rfl⟩ := ends
    exact .function onTop checked creates parameters walks (BlockRun.of_ends body walks) closes

theorem BlockRun.of_ends {env : Env κ σ} : ∀ (program : List Stmt) {scope : ScopeId}
    {chain : Option OpenChain} {outlines : List Outline} {s t : Checker κ σ},
    Ends (checkBlock env scope chain program) s outlines t →
    BlockRun env scope chain program s outlines t
  | [], _, _, _, _, _, ends => by
    rw [checkBlock] at ends
    exact .nil ends
  | stmt :: rest, _, _, _, _, _, ends => by
    simp only [checkBlock, ends_bind, ends_tick, ends_pure] at ends
    obtain ⟨⟨closed, still⟩, m, closes, _, _, ⟨left, budget, rfl⟩, ⟨done, after⟩, o, checks, others, _,
      walks, rfl, rfl⟩ := ends
    exact .cons closes budget checks (StmtRun.of_ends stmt checks) walks (BlockRun.of_ends rest walks)

end

end Hoist.Check
