import Mathlib
import Hoist.Proofs.Check.Clear
import Hoist.Proofs.Check.Drafted
import Hoist.Proofs.Check.Answered

/-!
No wake-up is lost. When the statements of a file have been checked and nobody waits for a name any
more, everybody has found their types.

Main statement: what is known if nobody waits (`complete_of_nobody`).
-/
namespace Hoist

namespace Check

variable {σ : Type} {s t : Checker Empty σ}

/-- A statement is complete when nothing of what was found last is pending. -/
theorem complete_of_looks {before work : Work} {view : View} {types : List Ty}
    (looks : before.LookGives view work types) (faithful : before.Faithful)
    (known : ∀ type ∈ types, type.isPending = false) : ∃ leaf, work.complete = .ok leaf := by
  have settled {value after : Expr} {type : Ty} (mem : value ∈ before.value?)
      (look : value.resolve view = (.ok type, after)) (isKnown : type.isPending = false) :
      after.Settled type :=
    (Expr.Seen.settles ⟨value, view, faithful.1 value mem, look⟩).resolve_left (by simp [isKnown])
  cases looks with
  | declaration look _ =>
    have known := settled rfl look (known _ (by simp))
    obtain ⟨type, same⟩ := Ty.isConcrete_iff.1 known.isConcrete
    obtain ⟨typed, read⟩ := known.exists_ofExpr
    exact ⟨_, by simp [Work.complete, Declaration.complete, ConcreteTy.ofTy_eq_ok.2 same, read]; rfl⟩
  | @assignment a _ _ _ _ target _ onTarget onValue _ =>
    obtain ⟨typedTarget, root, type, same, -, leads, -⟩ :=
      (Target.resolve_settles (faithful.2 a rfl) onTarget).resolve_left (by simp [known])
    have readTarget := leads.ofTarget_toTarget
    rw [same] at readTarget
    obtain ⟨typed, read⟩ := (settled rfl onValue (known _ (by simp))).exists_ofExpr
    exact ⟨_, by simp [Work.complete, Assignment.complete, readTarget, read]; rfl⟩
  | @bare r bare => exact ⟨.returns none r.span, by simp [Work.complete, Return.complete, bare]⟩
  | returns given look =>
    obtain ⟨typed, read⟩ := (settled given look (known _ (by simp))).exists_ofExpr
    exact ⟨_, by simp [Work.complete, Return.complete, read]; rfl⟩
  | evaluation look =>
    obtain ⟨typed, read⟩ := (settled rfl look (known _ (by simp))).exists_ofExpr
    exact ⟨_, by simp [Work.complete, Evaluation.complete, read]; rfl⟩

/-! Nobody waits any more. -/

section Nobody

variable (tallied : Tallied True none s) (answered : Answered s) (queue : s.queue = [])
  (nobody : ∀ place name, s.scopes.waiters place name = [])
include tallied answered queue nobody

theorem awaits_nothing {id : DraftId} {d : Draft} (here : s.drafts[id]? = some d) :
    d.work.awaits = [] := by
  refine List.eq_nil_iff_forall_not_mem.2 fun name waits => ?_
  obtain ⟨place, on, waiter, mem, -⟩ := tallied.waiter answered queue here waits
  simp [nobody] at mem

theorem complete_draft {id : DraftId} {d : Draft} (here : s.drafts[id]? = some d) :
    ∃ leaf, d.work.complete = .ok leaf := by
  obtain ⟨before, view, types, faithful, looks, waits⟩ := tallied.drafts id d (by simp) here
  refine complete_of_looks looks (faithful trivial) fun type mem => ?_
  cases waiting : type.pendingOn with
  | none => simp [Ty.isPending, waiting]
  | some name =>
    have awaits := waits name (List.mem_filterMap.2 ⟨type, mem, waiting⟩)
    simp [awaits_nothing tallied answered queue nobody here] at awaits

/-- Who waits for a result type waits for a return that waits for a name, and none does. -/
theorem complete_head {k : SignatureId} {h : SignatureDraft} (here : s.signatures[k]? = some h) :
    ∃ head, h.signature.complete = .ok head := by
  have known : h.signature.result.isConcrete = true := by
    refine (answered.heads k h here).resolve_right fun waits => ?_
    have due : s.due (.head k) = 1 := by simp [Checker.due, here, waits.1]
    rcases tallied.exists_of_due queue due with ⟨_, _, _, mem, -⟩ | ⟨body, work, mem, -⟩
    · simp [nobody] at mem
    · obtain ⟨-, type, kept, pending⟩ := answered.waits body work mem
      rcases answered.results body type kept with rfl | concrete | ⟨-, id, scope, r, there, -, waits⟩
      · simp [Ty.isPending, Ty.pendingOn] at pending
      · simp [Ty.isPending_of_isConcrete concrete] at pending
      · exact waits (awaits_nothing tallied answered queue nobody there)
  obtain ⟨result, sameResult⟩ := Ty.isConcrete_iff.1 known
  obtain ⟨parameters, same⟩ := ConcreteTy.exists_toFields (answered.parameters k h here)
  exact ⟨_, by simp [Signature.complete, ConcreteTy.ofFields_eq_ok.2 same,
    ConcreteTy.ofTy_eq_ok.2 sameResult]; rfl⟩

theorem complete_all {terms : Desk.Terms} {frames : List Frame} {outlines : List Outline}
    (located : (s.desk []).TreesAt terms frames outlines) :
    ∃ typed, s.complete outlines = .ok typed := by
  have lacks : Lacks (fun _ => False) s := by
    refine ⟨fun id d here => ?_, fun k h here => ?_⟩
    · obtain ⟨leaf, completes⟩ := complete_draft tallied answered queue nobody here
      rw [(completeLeaf_draft here).2 completes]
      exact fails_ok leaf
    · obtain ⟨head, completes⟩ := complete_head tallied answered queue nobody here
      have onHead : s.completeHead k = .ok head := by
        rw [Checker.completeHead, here]
        exact atPosition_eq_ok.2 completes
      exact onHead ▸ fails_ok head
  exact (fails_completeAllAt lacks frames outlines located).exists_ok

end Nobody

/-- If nobody waits for a name when the statements of a file have been checked, every type has been
found. -/
theorem complete_of_nobody {importer : Importer σ} {options : Options} {store : σ} {budget : Nat}
    {program : List Stmt} {outlines : List Outline} (fresh : Stmt.areFresh program = true)
    (plain : Plainly (Stmt.allAnnotations program))
    (ends : Ends (analyze (Env.plain options importer) program) (Checker.initial store budget)
      outlines t) (nobody : t.scopes.firstWaiting? = none) :
    (∀ d ∈ t.drafts, ∃ leaf, d.work.complete = .ok leaf ∧ leaf.forget = d.work.leaf) ∧
      (∀ h ∈ t.signatures, ∃ head, h.signature.complete = .ok head ∧ head.forget = h.signature) ∧
      ∃ typed, t.complete outlines = .ok typed := by
  have analyzed := walk_program (gives_anyImport importer options) rfl fresh trivial ends
  obtain ⟨tallied, answered⟩ : Tallied True none t ∧ Answered t := by
    simp only [analyze_eq, ends_bind] at ends
    obtain ⟨_, m, walks, finishes⟩ := ends
    obtain ⟨-, rfl, -⟩ := ends_finishFile finishes
    obtain ⟨⟨tidy, count, drafts⟩, parameters, heads, waits, results⟩ :=
      answered_checkBlock fresh plain walks
    exact ⟨⟨tidy, count, drafts⟩, parameters, heads, waits, results⟩
  have queue := analyzed.ready.queue
  have idle := Scopes.waiters_eq_nil nobody
  refine ⟨fun d mem => ?_, fun h mem => ?_, complete_all tallied answered queue idle analyzed.trees⟩
  · obtain ⟨id, here⟩ := List.getElem?_of_mem mem
    obtain ⟨leaf, completes⟩ := complete_draft tallied answered queue idle here
    exact ⟨leaf, completes, Work.forget_complete completes⟩
  · obtain ⟨k, here⟩ := List.getElem?_of_mem mem
    obtain ⟨head, completes⟩ := complete_head tallied answered queue idle here
    exact ⟨head, completes, Signature.forget_complete completes⟩

end Check

/-- No wake-up is lost. A file without leftovers in its slots, whose annotations are types or missing,
is never refused for a type that was not found, if names that are still waited for are reported. When
its statements have been checked and nobody waits for a name, every draft and every function head has
all its types, and the tree can be finished. -/
theorem Registry.check_finds_every_type (options : Options) (fuel : Nat) (program : List Stmt)
    (fresh : Stmt.areFresh program = true)
    (plain : ∀ type ∈ Stmt.allAnnotations program,
      type = .unannotated ∨ type.isConcrete = true) :
    (options.reportUnresolved = true → ∀ type position,
      (Registry.builtin.check options fuel program).result ≠
        .error (.rejected ⟨.unresolvedType type, position⟩)) ∧
    ∀ outlines t, analyzeProgram (Registry.importer fuel) options fuel .builtin program =
        (.ok outlines, t) → t.scopes.firstWaiting? = none →
      (∀ d ∈ t.drafts, ∃ leaf, d.work.complete = .ok leaf ∧ leaf.forget = d.work.leaf) ∧
      (∀ h ∈ t.signatures, ∃ head, h.signature.complete = .ok head ∧ head.forget = h.signature) ∧
      ∃ typed, t.complete outlines = .ok typed := by
  refine ⟨fun report type position missing => ?_, fun outlines t ends nobody =>
    Check.complete_of_nobody fresh plain ends nobody⟩
  have clearly := Check.not_lacksType_analyze (Registry.prepared_builtin fuel) options fresh fuel
  obtain ⟨halt, t, halts, clear⟩ | ⟨outlines, t, ends, -⟩ := clearly.cases
  · rw [Registry.check, checkProgram_of_halts halts] at missing
    obtain rfl := Except.error.inj missing
    simp [Halt.lacksType, Cause.isUnread] at clear
  · have nobody : t.scopes.firstWaiting? = none := by
      simp only [Check.analyze_eq, Check.ends_bind] at ends
      obtain ⟨_, m, -, finishes⟩ := ends
      obtain ⟨-, rfl, asked⟩ := Check.ends_finishFile finishes
      exact asked report
    obtain ⟨-, -, typed, completes⟩ := Check.complete_of_nobody fresh plain ends nobody
    rw [Registry.check, checkProgram_of_ends ends, completes] at missing
    cases missing

/-- Everybody here waits for `g`, some by way of `f`, which waits for its own result type. -/
def lateCalls : List Stmt :=
  [.leaf (.declare ⟨"n", false, .call (.symbol "f" .unresolved) [.number ⟨1⟩], .unannotated,
      .unannotated, false, .nowhere⟩),
    .leaf (.assign ⟨.symbol "n", .add, .call (.symbol "g" .unresolved) [.symbol "n" .unresolved],
      .nowhere⟩),
    .function ⟨"f", [("a", .number)], .unannotated, false, .nowhere⟩
      [.leaf (.returns ⟨some (.call (.symbol "g" .unresolved) [.symbol "a" .unresolved]),
        .nowhere⟩)],
    .leaf (.evaluate ⟨.array [.symbol "n" .unresolved] .unresolved, .nowhere⟩),
    .function ⟨"g", [("b", .number)], .unannotated, false, .nowhere⟩
      [.leaf (.returns ⟨some (.symbol "b" .unresolved), .nowhere⟩)]]

def lateCallsTyped : List Typed.Stmt :=
  [.leaf (.declare ⟨"n", false, .call (.symbol "f" (.function [("a", .number)] .number))
      [.number ⟨1⟩] .number, .number, false, .nowhere⟩),
    .leaf (.assign ⟨.symbol "n", .add, .call (.symbol "g" (.function [("b", .number)] .number))
      [.symbol "n" .number] .number, .nowhere⟩),
    .function ⟨"f", [("a", .number)], .number, false, .nowhere⟩
      [.leaf (.returns (some (.call (.symbol "g" (.function [("b", .number)] .number))
        [.symbol "a" .number] .number)) .nowhere)],
    .leaf (.evaluate (.array [.symbol "n" .number] (.array .number 1)) .nowhere),
    .function ⟨"g", [("b", .number)], .number, false, .nowhere⟩
      [.leaf (.returns (some (.symbol "b" .number)) .nowhere)]]

set_option maxRecDepth 2000 in
theorem lateCalls_find_every_type :
    Stmt.areFresh lateCalls = true ∧
      (Registry.builtin.check .standard 20 lateCalls).result =
        .ok (Output.ofStmts lateCallsTyped) ∧
      ∀ type position, (Registry.builtin.check .standard 20 lateCalls).result ≠
        .error (.rejected ⟨.unresolvedType type, position⟩) := by
  refine ⟨by cbv, by cbv, (Registry.check_finds_every_type .standard 20 lateCalls (by cbv) ?_).1 rfl⟩
  intro type mem
  refine .inl ?_
  simpa [lateCalls, Stmt.allAnnotations, Stmt.annotations, Leaf.annotations] using mem

end Hoist
