import Hoist.Proofs.Check.Finished
import Hoist.Proofs.Check.Small
import Hoist.Proofs.Check.Wave
import Hoist.Proofs.Typed.Reading

/-!
Drafts and outlines. While the statements of a file are checked each draft gets a leaf in an outline.

Main statements: no draft is left out (`gathers_block`), and why an outline whose parts are all
there cannot be finished (`fails_completeAllAt`).
-/
namespace Hoist

namespace Check

open Desk

/-! No draft is left out. -/

section Gathers

variable {σ : Type} {s m t : Checker Empty σ} {pending leaves more : List OutlineLeaf}
  {scope : ScopeId}

/-- From the leaves that were there come these leaves, and every draft that is new has one. -/
structure Gathers (pending leaves : List OutlineLeaf) (s t : Checker Empty σ) : Prop where
  kept : ∀ leaf ∈ pending, leaf ∈ leaves
  added : ∀ id < t.drafts.length, s.drafts.length ≤ id → OutlineLeaf.draft id ∈ leaves

theorem Gathers.trans (first : Gathers pending leaves s m) (second : Gathers leaves more m t) :
    Gathers pending more s t where
  kept leaf mem := second.kept leaf (first.kept leaf mem)
  added id inside new := by
    by_cases early : id < m.drafts.length
    · exact second.kept _ (first.added id early new)
    · exact second.added id inside (Nat.not_lt.1 early)

theorem Gathers.frame (gathers : Gathers pending leaves s t) (others : List OutlineLeaf) :
    Gathers (others ++ pending) (others ++ leaves) s t where
  kept leaf mem := by
    rcases List.mem_append.1 mem with old | new
    · exact List.mem_append_left _ old
    · exact List.mem_append_right _ (gathers.kept leaf new)
  added id inside new := List.mem_append_right _ (gathers.added id inside new)

/-- There are no new drafts. -/
theorem Gathers.of_sized (sized : t.drafts.length = s.drafts.length)
    (sub : ∀ leaf ∈ pending, leaf ∈ leaves) : Gathers pending leaves s t where
  kept := sub
  added _ inside new := absurd (sized ▸ inside) (Nat.not_lt.2 new)

theorem Gathers.refl (sized : t.drafts.length = s.drafts.length) : Gathers leaves leaves s t :=
  .of_sized sized fun _ => id

/-- There is one new draft, and this is its leaf. -/
theorem gathers_draft {work : Work} {id : DraftId} (adds : Ends (addDraft scope work) s id m)
    (sized : t.drafts.length = m.drafts.length) : Gathers [] [.draft id] s t := by
  obtain ⟨rfl, rfl⟩ := ends_addDraft.1 adds
  refine ⟨by simp, fun other inside new => ?_⟩
  obtain rfl : other = s.drafts.length := by
    simp only [sized, List.length_append, List.length_singleton] at inside
    omega
  exact List.mem_cons_self

/-! Statements. -/

theorem sized_createScope {parent : Option ScopeId} {kind : ScopeKind} {inner : ScopeId}
    (creates : Ends (createScope parent kind) s inner t) : t.drafts.length = s.drafts.length := by
  obtain ⟨rfl, rfl⟩ := ends_createScope.1 creates
  rfl

section Walk

variable {env : Env Empty σ} (settles : ∀ work, Still (env.settle work)) {position : Position}
  {done : Unit}

include settles in
theorem sized_settled {binding : Binding} {work : List (Deferral Empty)}
    (defines : Ends (define scope binding position) s work m)
    (settled : Ends (env.settle work) m done t) : t.drafts.length = s.drafts.length :=
  ((settles work).sized settled).trans ((small_define _ _ _).sized defines)

include settles in
theorem sized_closeFunction {inner : ScopeId} {signature : Signature} {k : SignatureId}
    (ends : Ends (closeFunction env.settle scope inner signature) s k t) :
    t.drafts.length = s.drafts.length := by
  simp only [closeFunction_eq, finishFunction_eq, ends_bind, ends_scopes, ends_ofFault, ends_pure,
    and_assoc, exists_and_left, exists_eq_left] at ends
  obtain ⟨result?, -, _, m, keeps, work, n, defines, _, _, settled, rfl, rfl⟩ := ends
  exact (sized_settled settles defines settled).trans ((small_addHead _ _ _).sized keeps)

include settles in
theorem gathers_leaf {content : Leaf} {leaf : OutlineLeaf}
    (run : LeafRun env scope content s leaf t) : Gathers [] [leaf] s t := by
  cases run with
  | declare onTop look typed defines settled adds defers =>
    exact Gathers.trans (.refl (sized_settled settles defines settled))
      (gathers_draft adds ((small_deferDeclaration _ _ _ _).sized defers))
  | assign adds checks => exact gathers_draft adds ((small_checkAssignment _ _ _ _).sized checks)
  | returns adds checks =>
    simp only [checkReturn_judge, ends_bind] at checks
    obtain ⟨handed, n, judges, settled⟩ := checks
    refine gathers_draft adds (Eq.trans ?_ ((small_judgeReturn _ _ _).sized judges))
    cases handed with
    | none => rw [(ends_pure.1 settled).2]
    | some work => exact (settles work).sized settled
  | evaluate adds checks => exact gathers_draft adds ((small_checkEvaluation _ _ _).sized checks)
  | breakLoop | continueLoop | endOfFile => exact .of_sized rfl (by simp)
  | imports onTop imports =>
    exact .of_sized ((still_importNames _ _ settles _ _).sized imports) (by simp)

/-! Blocks. -/

theorem gathers_endChain {chain : Option OpenChain} {outlines : List Outline}
    (ends : Ends (endChain chain) s outlines t) :
    Gathers (openLeaves chain) (Typed.Tree.allLeaves outlines ++ openLeaves none) s t := by
  refine .of_sized ((small_endChain chain).sized ends) fun leaf mem => ?_
  cases chain with
  | none => simp at mem
  | some chain =>
    simp only [endChain, ends_bind, ends_pure] at ends
    obtain ⟨outline, _, folds, rfl, rfl⟩ := ends
    obtain ⟨rfl, -⟩ := foldChain_of_ends folds
    simp only [Typed.Tree.allLeaves, OpenChain.leaves_close, openLeaves_none, List.append_nil]
    exact List.mem_append_left _ mem

theorem gathers_endChainBefore {stmt : Stmt} {chain still : Option OpenChain}
    {outlines : List Outline} (ends : Ends (endChainBefore stmt chain) s (outlines, still) t) :
    Gathers (openLeaves chain) (Typed.Tree.allLeaves outlines ++ openLeaves still) s t ∧
      (stmt.continuesChain = false → still = none) := by
  unfold endChainBefore at ends
  split at ends
  case isTrue continues =>
    obtain ⟨⟨rfl, rfl⟩, rfl⟩ : (outlines = [] ∧ still = chain) ∧ t = s := by simpa using ends
    exact ⟨.refl rfl, fun stops => by simp [stops] at continues⟩
  case isFalse =>
    simp only [ends_bind, ends_pure, Prod.mk.injEq] at ends
    obtain ⟨_, _, closes, ⟨rfl, rfl⟩, rfl⟩ := ends
    exact ⟨gathers_endChain closes, fun _ => rfl⟩

end Walk

/-- One outline is finished, and no chain is open. -/
theorem Gathers.single {outline : Outline} (gathers : Gathers pending outline.leaves s t) :
    Gathers pending (Typed.Tree.allLeaves [outline] ++ openLeaves none) s t := by
  rwa [Typed.Tree.allLeaves, Typed.Tree.allLeaves, openLeaves_none, List.append_nil, List.append_nil]

/-- Nothing is finished, but a chain is open. -/
theorem Gathers.open_ {chain : OpenChain} (gathers : Gathers pending chain.leaves s t) :
    Gathers pending (Typed.Tree.allLeaves ([] : List Outline) ++ openLeaves (some chain)) s t := by
  rwa [Typed.Tree.allLeaves, openLeaves_some, List.nil_append]

/-- First some outlines, then others. -/
theorem Gathers.append {before after : List Outline} {chain last : Option OpenChain}
    (first : Gathers pending (Typed.Tree.allLeaves before ++ openLeaves chain) s m)
    (second : Gathers (openLeaves chain) (Typed.Tree.allLeaves after ++ openLeaves last) m t) :
    Gathers pending (Typed.Tree.allLeaves (before ++ after) ++ openLeaves last) s t := by
  rw [Typed.Tree.allLeaves_append, List.append_assoc]
  exact first.trans (second.frame _)

/-- Before the body of a statement no chain is open. -/
theorem Gathers.inside {outlines : List Outline} {kind : ScopeKind} {parent : Option ScopeId}
    (gathers : Gathers (openLeaves none) (Typed.Tree.allLeaves outlines ++ openLeaves none) m t)
    (creates : Ends (createScope parent kind) s scope m) :
    Gathers [] (Typed.Tree.allLeaves outlines) s t := by
  rw [openLeaves_none, List.append_nil] at gathers
  exact Gathers.trans (.refl (sized_createScope creates)) gathers

mutual

theorem gathers_stmt {env : Env Empty σ} (settles : ∀ work, Still (env.settle work)) :
    ∀ {scope chain stmt s outlines after t}, StmtRun env scope chain stmt s outlines after t →
    (stmt.continuesChain = false → chain = none) →
    Gathers (openLeaves chain) (Typed.Tree.allLeaves outlines ++ openLeaves after) s t
  | _, _, _, _, _, _, _, .leaf ends, ended => by
    obtain rfl := ended rfl
    exact (gathers_leaf settles (.of_ends ends)).single
  | _, _, _, _, _, _, _, .branch _ creates walks _, ended => by
    obtain rfl := ended rfl
    refine Gathers.open_ ?_
    rw [OpenChain.leaves, List.flatMap_nil, List.append_nil]
    exact (gathers_block settles walks).inside creates
  | _, _, _, _, _, _, _, @StmtRun.elseIf _ _ _ _ _ chain _ _ _ _ _ _ _ _ _ _ creates walks _, _ => by
    have carried := ((gathers_block settles walks).inside creates).frame chain.leaves
    rw [List.append_nil] at carried
    exact Gathers.open_ (by rwa [OpenChain.leaves_extend])
  | _, _, _, _, _, _, _, @StmtRun.otherwise _ _ _ _ _ chain _ _ _ _ _ _ _ creates walks, _ => by
    have closed := ((gathers_block settles walks).inside creates).frame chain.leaves
    rw [List.append_nil] at closed
    refine Gathers.single ?_
    rw [OpenChain.leaves_close]
    exact closed.trans (.refl rfl)
  | _, _, _, _, _, _, _, .loop _ creates walks _, ended => by
    obtain rfl := ended rfl
    exact Gathers.single ((gathers_block settles walks).inside creates)
  | _, _, _, _, _, _, _, .function _ _ creates parameters _ walks closes, ended => by
    obtain rfl := ended rfl
    have opened := ((still_defineParameters _ _ settles _).sized parameters).trans
      (sized_createScope creates)
    have walked := gathers_block settles walks
    rw [openLeaves_none, List.append_nil] at walked
    exact Gathers.single
      (Gathers.trans (.refl opened) (walked.trans (.refl (sized_closeFunction settles closes))))

theorem gathers_block {env : Env Empty σ} (settles : ∀ work, Still (env.settle work)) :
    ∀ {scope chain program s outlines t}, BlockRun env scope chain program s outlines t →
    Gathers (openLeaves chain) (Typed.Tree.allLeaves outlines ++ openLeaves none) s t
  | _, _, _, _, _, _, .nil ends => gathers_endChain ends
  | _, _, _, _, _, _, @BlockRun.cons _ _ _ _ _ still _ _ _ closed _ _ left _ m _ _ closes _ _ run _
      walks => by
    obtain ⟨first, ended⟩ := gathers_endChainBefore closes
    have ticked : Gathers (Typed.Tree.allLeaves closed ++ openLeaves still)
        (Typed.Tree.allLeaves closed ++ openLeaves still) m { m with budget := left } := .refl rfl
    have second := gathers_stmt settles run ended
    have third := gathers_block settles walks
    exact (first.trans ticked).append (second.append third)

end

/-- Each draft of a file has a leaf. -/
theorem mem_leaves_of_draft {importer : Importer σ} {options : Options} {store : σ} {budget : Nat}
    {program : List Stmt} {outlines : List Outline} {id : DraftId}
    (walks : Ends (checkBlock (Env.plain options importer) scope none program)
      (Checker.initial store budget) outlines t) (inside : id < t.drafts.length) :
    OutlineLeaf.draft id ∈ Typed.Tree.allLeaves outlines := by
  have gathers := gathers_block (still_runWave fun task => task.elim) (.of_ends program walks)
  simpa using gathers.added id inside (Nat.zero_le id)

end Gathers

section Places

variable {σ : Type} {t : Checker Empty σ} {terms : Terms}

/-! Why an outline cannot be finished. -/

/-- What may go wrong with the drafts and the heads that are there. -/
structure Lacks (allowed : Halt → Prop) (t : Checker Empty σ) : Prop where
  drafts : ∀ (id : DraftId) d, t.drafts[id]? = some d → Fails allowed (t.completeLeaf (.draft id))
  heads : ∀ (k : SignatureId) h, t.signatures[k]? = some h → Fails allowed (t.completeHead k)

variable {allowed : Halt → Prop}

mutual

theorem fails_completeAt (lacks : Lacks allowed t) :
    ∀ (frames : List Frame) (tree : Outline), (t.desk []).TreeAt terms frames tree →
      Fails allowed (tree.complete t.completeLeaf t.completeHead)
  | frames, .leaf (.plain leaf), _ => (fails_ok leaf).bind fun _ => fails_pure _
  | frames, .leaf (.draft id), located => by
    rw [TreeAt] at located
    obtain ⟨d, here, -⟩ := located
    exact (lacks.drafts id d here).bind fun _ => fails_pure _
  | frames, .branch condition body span rest, located => by
    rw [TreeAt] at located
    obtain ⟨-, ⟨id, -, inner⟩, after⟩ := located
    exact (fails_completeAllAt lacks _ body inner).bind fun _ =>
      (fails_completeChainAt lacks _ rest after).bind fun _ => fails_pure _
  | frames, .loop condition body span, located => by
    rw [TreeAt] at located
    obtain ⟨-, id, -, inner⟩ := located
    exact (fails_completeAllAt lacks _ body inner).bind fun _ => fails_pure _
  | frames, .function k body, located => by
    rw [TreeAt] at located
    obtain ⟨h, here, -, -, inner⟩ := located
    exact (lacks.heads k h here).bind fun _ =>
      (fails_completeAllAt lacks _ body inner).bind fun _ => fails_pure _

theorem fails_completeChainAt (lacks : Lacks allowed t) :
    ∀ (frames : List Frame) (chain : OutlineChain), (t.desk []).ChainAt terms frames chain →
      Fails allowed (chain.complete t.completeLeaf t.completeHead)
  | frames, .done, _ => fails_ok _
  | frames, .otherwise body span, located => by
    rw [ChainAt] at located
    obtain ⟨id, -, inner⟩ := located
    exact (fails_completeAllAt lacks _ body inner).bind fun _ => fails_pure _
  | frames, .elseIf condition body span rest, located => by
    rw [ChainAt] at located
    obtain ⟨-, ⟨id, -, inner⟩, after⟩ := located
    exact (fails_completeAllAt lacks _ body inner).bind fun _ =>
      (fails_completeChainAt lacks _ rest after).bind fun _ => fails_pure _

theorem fails_completeAllAt (lacks : Lacks allowed t) :
    ∀ (frames : List Frame) (outlines : List Outline), (t.desk []).TreesAt terms frames outlines →
      Fails allowed (Typed.Tree.completeAll t.completeLeaf t.completeHead outlines)
  | frames, [], _ => fails_ok _
  | frames, tree :: rest, located => by
    rw [TreesAt] at located
    exact (fails_completeAt lacks _ tree located.1).bind fun _ =>
      (fails_completeAllAt lacks _ rest located.2).bind fun _ => fails_pure _

end

end Places

/-- What a file lacks that cannot be finished. -/
theorem lacks_type {s : Checker Empty σ} :
    Lacks (fun halt => ∃ type position, halt = .rejected ⟨.unresolvedType type, position⟩) s := by
  have missing {α : Type} {outcome : Except Cause α} (position : Position) (unread : Unread outcome) :
      Fails (fun halt => ∃ type position, halt = .rejected ⟨.unresolvedType type, position⟩)
        (atPosition position outcome) := by
    cases outcome with
    | ok value => exact fails_ok value
    | error cause =>
      have known : cause.isUnread = true := unread cause rfl
      cases cause <;> simp [Cause.isUnread] at known
      rename_i type
      exact fails_error.2 ⟨type, position, rfl⟩
  refine ⟨fun id d here => ?_, fun k h here => ?_⟩
  · rw [Checker.completeLeaf, here]
    exact missing _ (Work.unread_complete _)
  · rw [Checker.completeHead, here]
    exact missing _ (Signature.unread_complete _)

/-- A file whose statements have all been checked is only refused for want of a type. -/
theorem lacksType_complete {importer : Importer σ} {options : Options} {store : σ} {budget : Nat}
    {program : List Stmt} {outlines : List Outline} {t : Checker Empty σ}
    (fresh : Stmt.areFresh program = true)
    (ends : Ends (analyze (Env.plain options importer) program) (Checker.initial store budget)
      outlines t) :
    Fails (fun halt => ∃ type position, halt = .rejected ⟨.unresolvedType type, position⟩)
      (t.complete outlines) :=
  fails_completeAllAt lacks_type _ outlines
    (walk_program (gives_anyImport importer options) rfl fresh trivial ends).trees

end Check

end Hoist
