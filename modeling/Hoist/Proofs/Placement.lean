import Mathlib
import Hoist.Module.Registry
import Hoist.Proofs.Check.BindsNames
import Hoist.Proofs.Check.Functions

/-!
Where statements may stand. `Stmt.AllPlaced` says it of the text of a program alone: which blocks must
be around a statement, which statements may follow one another, and which names a block may declare.

The checker decides all of it by looking outwards from the scope of a block while it runs. Main
statement: a program that is accepted keeps to these rules (`checkProgram_placed`).
-/
namespace Hoist

/-- What stands around a statement. -/
structure Around where
  /-- A loop of the function that the statement stands in, or of the file outside all functions. -/
  loop : Bool
  function : Bool
  /-- The statement is one of the file's own, in no block at all. -/
  file : Bool

namespace Around

def top : Around := ⟨false, false, true⟩

def inBlock (around : Around) : Around := { around with file := false }

def inLoop (around : Around) : Around := { around with loop := true, file := false }

/-- A loop outside a function is none inside. -/
def inFunction : Around := ⟨false, true, false⟩

/-- There may be such a block around. -/
def Covers (around : Around) : BlockKind → Prop
  | .block => True
  | .loop => around.loop = true
  | .function => around.function = true

/-- What is around the body of a statement that is no function. -/
structure EntersAs (around within : Around) (kind : BlockKind) : Prop where
  file : within.file = false
  own : within.Covers kind
  others : ∀ kind, around.Covers kind → within.Covers kind

theorem entersAs_inBlock (around : Around) : around.EntersAs around.inBlock .block :=
  ⟨rfl, trivial, fun _ => id⟩

theorem entersAs_inLoop (around : Around) : around.EntersAs around.inLoop .loop :=
  ⟨rfl, rfl, fun kind covers => by cases kind <;> trivial⟩

end Around

/-! Names that are declared. -/

def Leaf.declares : Leaf → List String
  | .declare declaration => [declaration.name]
  | .imports names _ _ => names
  | _ => []

def Leaf.exports : Leaf → List String
  | .declare declaration => if declaration.exported then [declaration.name] else []
  | _ => []

namespace Stmt

/-- The names that a statement declares in the block it stands in. -/
def declares : Stmt → List String
  | .leaf content => content.declares
  | .function signature _ => [signature.name]
  | _ => []

def exports : Stmt → List String
  | .leaf content => content.exports
  | .function signature _ => if signature.exported then [signature.name] else []
  | _ => []

def allDeclares (stmts : List Stmt) : List String :=
  stmts.flatMap declares

def allExports (stmts : List Stmt) : List String :=
  stmts.flatMap exports

end Stmt

/-! The rules. -/

def Leaf.Allowed (around : Around) : Leaf → Prop
  | .breakLoop _ | .continueLoop _ => around.loop = true
  | .returns _ => around.function = true
  | .imports _ _ _ => around.file = true
  | .declare declaration => declaration.exported = true → around.file = true
  | .assign _ | .evaluate _ | .endOfFile => True

namespace Stmt

/-- Has a condition, so that an `else` may follow. -/
def isConditional : Stmt → Bool
  | .branch _ _ _ | .elseIf _ _ _ => true
  | _ => false

/-- Every `else` directly follows a statement with a condition. Before the first statement there is
one only if `opened` says so. -/
def Chained (opened : Bool) (stmts : List Stmt) : Prop :=
  (∀ first ∈ stmts.head?, first.continuesChain = true → opened = true) ∧
    stmts.IsChain fun stmt next => next.continuesChain = true → stmt.isConditional = true

/-- The statements of a block in which some names are bound beforehand. -/
structure Tidy (bound : List String) (stmts : List Stmt) : Prop where
  distinct : (bound ++ allDeclares stmts).Nodup
  chained : Chained false stmts

mutual

/-- The statement may stand there, and so may all statements in it. -/
def Placed (around : Around) : Stmt → Prop
  | .leaf content => content.Allowed around
  | .branch _ body _ => Tidy [] body ∧ AllPlaced around.inBlock body
  | .elseIf _ body _ => Tidy [] body ∧ AllPlaced around.inBlock body
  | .otherwise body _ => Tidy [] body ∧ AllPlaced around.inBlock body
  | .loop _ body _ => Tidy [] body ∧ AllPlaced around.inLoop body
  | .function signature body =>
    around.file = true ∧ (∀ parameter ∈ signature.parameters, parameter.2.isConcrete = true) ∧
      Tidy (signature.parameters.map (·.1)) body ∧ AllPlaced .inFunction body

def AllPlaced (around : Around) : List Stmt → Prop
  | [] => True
  | stmt :: rest => stmt.Placed around ∧ AllPlaced around rest

end

/-- Only the file itself exports. -/
theorem AllPlaced.allExports_eq_nil {around : Around} (inside : around.file = false) :
    ∀ {stmts : List Stmt}, AllPlaced around stmts → allExports stmts = []
  | [], _ => rfl
  | stmt :: rest, ⟨first, others⟩ => by
    have none_here : stmt.exports = [] := by
      cases stmt with
      | branch | elseIf | otherwise | loop => rfl
      | function => simp [Placed, inside] at first
      | leaf content =>
        cases content <;> simp_all [Placed, Leaf.Allowed, exports, Leaf.exports]
    simpa [allExports, none_here] using AllPlaced.allExports_eq_nil inside others

end Stmt

namespace Check

variable {σ : Type} {s m n o t : Checker Empty σ} {scope inner : ScopeId} {outer : List ScopeId}
  {around within : Around}

/-! The scope of a block and the text around it. -/

/-- The scopes from one outwards are those of the blocks around. -/
structure Stands (s : Checker Empty σ) (scope : ScopeId) (outer : List ScopeId) (around : Around) :
    Prop where
  path : s.scopes.Path (scope :: outer)
  file : outer = [] → around.file = true
  covered : ∀ id ∈ scope :: outer, ∃ kind, s.scopes.kind? id = some kind ∧ around.Covers kind
  root : s.scopes.kind? 0 = some .block

theorem Stands.later (stands : Stands s scope outer around) (stays : LayoutKept s t) :
    Stands t scope outer around where
  path := stands.path.mono stays.parent
  file := stands.file
  covered id mem :=
    (stands.covered id mem).imp fun kind known => ⟨stays.kind id kind known.1, known.2⟩
  root := stays.kind 0 _ stands.root

theorem Stands.top (stands : Stands s scope outer around)
    (isTop : s.scopes.isTopLevel scope = .ok true) :
    outer = [] ∧ scope = 0 ∧ around.file = true := by
  obtain rfl : outer = [] := by simpa [stands.path.isTopLevel_eq] using isTop
  exact ⟨rfl, stands.path.1, stands.file rfl⟩

theorem Stands.inLoop (stands : Stands s scope outer around)
    (inside : s.scopes.isInsideLoop scope = .ok true) : around.loop = true := by
  rw [stands.path.isInsideLoop_eq, Except.ok.injEq, List.any_eq_true] at inside
  obtain ⟨id, mem, isLoop⟩ := inside
  obtain ⟨kind, known, covers⟩ := stands.covered id mem
  obtain rfl : kind = .loop := by simpa [known] using isLoop
  exact covers

theorem Stands.inFunction (stands : Stands s scope outer around) {result : Ty}
    (found : s.scopes.resultType scope = .ok (some result)) : around.function = true := by
  rw [stands.path.resultType_eq, Except.ok.injEq] at found
  obtain ⟨body, isBody, -⟩ := Option.bind_eq_some_iff.1 found
  obtain ⟨kind, known, covers⟩ := stands.covered body (List.mem_of_find?_eq_some isBody)
  obtain rfl : kind = .function := by simpa [known] using List.find?_some isBody
  exact covers

/-- A new scope stands for a block inside. -/
theorem Stands.enter {kind : ScopeKind} (stands : Stands s scope outer around)
    (own : within.Covers kind.kind)
    (others : ∀ id ∈ scope :: outer, ∀ kind, s.scopes.kind? id = some kind → around.Covers kind →
      within.Covers kind)
    (creates : Ends (createScope (some scope) kind) s inner t) :
    Stands t inner (scope :: outer) within := by
  obtain ⟨rfl, rfl⟩ := ends_createScope.1 creates
  have created := s.scopes.created_create scope kind
  have old {id : ScopeId} {known : BlockKind} (before : s.scopes.kind? id = some known) :
      (s.scopes.create (some scope) kind).kind? id = some known := by
    obtain ⟨_, here, _⟩ := Option.map_eq_some_iff.1 before
    rwa [created.kind, if_neg (Nat.ne_of_lt (Scopes.lt_size_of_get here))]
  refine ⟨created.path stands.path, by simp, fun id mem => ?_, old stands.root⟩
  rcases List.mem_cons.1 mem with rfl | mem
  · exact ⟨kind.kind, by simp [created.kind], own⟩
  · obtain ⟨known, before, covers⟩ := stands.covered id mem
    exact ⟨known, old before, others id mem known before covers⟩

theorem Stands.enterBody {kind : ScopeKind} (stands : Stands s scope outer around)
    (inside : around.EntersAs within kind.kind)
    (creates : Ends (createScope (some scope) kind) s inner t) :
    Stands t inner (scope :: outer) within :=
  stands.enter inside.own (fun _ _ kind _ => inside.others kind) creates

/-- A function stands at the top, so there is only the file around its body. -/
theorem Stands.enterFunction {result : Ty} (stands : Stands s scope outer around)
    (onTop : s.scopes.isTopLevel scope = .ok true)
    (creates : Ends (createScope (some scope) (.function result)) s inner t) :
    outer = [] ∧ scope = 0 ∧ around.file = true ∧ Stands t inner [0] .inFunction := by
  obtain ⟨rfl, rfl, file⟩ := stands.top onTop
  refine ⟨rfl, rfl, file, stands.enter ?_ (fun id mem kind known _ => ?_) creates⟩
  · rfl
  · obtain rfl : id = 0 := by simpa using mem
    obtain rfl : kind = .block := by simpa [stands.root] using known.symm
    trivial

/-- The simple statement or function of an outline is one of a scope. Only drafts can export. -/
def StandsIn (t : Checker Empty σ) (scope : ScopeId) : Outline → Prop
  | .leaf (.draft id) => t.drafts[id]?.map (·.scope) = some scope
  | .leaf (.plain leaf) => Output.exportOf (.leaf leaf) = none
  | .function id _ => t.signatures[id]?.map (·.scope) = some scope
  | _ => True

theorem StandsIn.later {outline : Outline} (stands : StandsIn s scope outline)
    (stays : LayoutKept s t) :
    StandsIn t scope outline := by
  cases outline with
  | leaf content =>
    cases content with
    | draft id => exact stays.draftScope id scope stands
    | plain => exact stands
  | function id => exact stays.headScope id scope stands
  | branch | loop => exact stands

/-! Statements. -/

section Walk

variable {env : Env Empty σ}
  (settles : ∀ {work s done t}, Ends (env.settle work) s done t → OwnersKept s t)

include settles in
theorem placed_leaf {content : Leaf} {leaf : OutlineLeaf} (stands : Stands s scope outer around)
    (owned : (s.desk []).Owned) (run : LeafRun env scope content s leaf t) :
    BindsNames scope content.declares content.exports s t ∧ content.Allowed around ∧
      StandsIn t scope (.leaf leaf) := by
  -- A draft that declares nothing is put down, and then looked at.
  have drafted {work : Work} {id : DraftId} {m t : Checker Empty σ} (idle : work.declares = none)
      (adds : Ends (addDraft scope work) s id m) (ownersKept : OwnersKept m t) :
      BindsNames scope [] [] s t ∧ StandsIn t scope (.leaf (.draft id)) := by
    have added := bindsNames_addIdle idle owned adds
    have rest : BindsNames scope [] [] m t := .of_ownersKept added.owned ownersKept
    refine ⟨added.trans rest, rest.layoutKept.draftScope id scope ?_⟩
    simp [drafts_addDraft adds]
  cases content with
  | declare d =>
    obtain ⟨id, rfl, top⟩ : ∃ id, leaf = .draft id ∧
        (d.exported = true → scope = 0 ∧ around.file = true) := by
      cases run with | declare onTop
      exact ⟨_, rfl, fun exported => (stands.top (onTop exported)).2⟩
    obtain ⟨bindsNames, own⟩ :=
      bindsNames_declaration settles owned (fun exported => (top exported).1) run
    exact ⟨bindsNames, fun exported => (top exported).2, own⟩
  | assign a =>
    cases run with | assign adds checks
    obtain ⟨bindsNames, own⟩ := drafted rfl adds
      (ownersKept_checkAssignment (drafts_addDraft adds) checks)
    exact ⟨bindsNames, trivial, own⟩
  | evaluate e =>
    cases run with | evaluate adds checks
    obtain ⟨bindsNames, own⟩ := drafted rfl adds
      (ownersKept_checkEvaluation (drafts_addDraft adds) checks)
    exact ⟨bindsNames, trivial, own⟩
  | returns r =>
    cases run with | returns adds checks
    obtain ⟨bindsNames, own⟩ :=
      drafted rfl adds (ownersKept_checkReturn settles (drafts_addDraft adds) checks)
    refine ⟨bindsNames, ?_, own⟩
    have later := stands.later (bindsNames_addIdle rfl owned adds).layoutKept
    simp only [checkReturn_eq, ends_bind, ends_scopes, ends_ofFault, and_assoc, exists_and_left,
      exists_eq_left] at checks
    obtain ⟨result?, found, checks⟩ := checks
    cases result? with
    | none => simp at checks
    | some result => exact later.inFunction found
  | breakLoop | continueLoop =>
    cases run
    exact ⟨.refl owned, stands.inLoop ‹_›, rfl⟩
  | imports names source span =>
    cases run with | imports onTop imports
    exact ⟨bindsNames_importNames settles owned imports, (stands.top onTop).2.2, rfl⟩
  | endOfFile =>
    cases run
    exact ⟨.refl owned, trivial, rfl⟩

/-- What is known of a block that has been checked after a chain that may have been open. -/
structure Kept (scope : ScopeId) (around : Around) (opened : Bool) (program : List Stmt)
    (outlines : List Outline) (s t : Checker Empty σ) : Prop where
  bindsNames : BindsNames scope (Stmt.allDeclares program) (Stmt.allExports program) s t
  placed : Stmt.AllPlaced around program
  chained : Stmt.Chained opened program
  own : ∀ outline ∈ outlines, StandsIn t scope outline

/-- The body of a statement is a block inside, whose names do not count outside. -/
theorem placed_body {kind : ScopeKind} {body : List Stmt} {outlines : List Outline}
    (kept : ∀ {outer around}, Stands m inner outer around → (m.desk []).Owned →
      Kept inner around false body outlines m t)
    (inside : around.EntersAs within kind.kind) (stands : Stands s scope outer around)
    (owned : (s.desk []).Owned) (creates : Ends (createScope (some scope) kind) s inner m) :
    BindsNames scope [] [] s t ∧ Stmt.Tidy [] body ∧ Stmt.AllPlaced within body := by
  have made : BindsNames scope [] [] s m := bindsNames_createScope owned creates
  have walked := kept (stands.enterBody inside creates) made.owned
  have exports := walked.placed.allExports_eq_nil inside.file
  refine ⟨?_, ⟨by simpa using walked.bindsNames.distinct, walked.chained⟩, walked.placed⟩
  simpa [exports] using made.enclose (unmade_of_creates creates) walked.bindsNames

include settles in
theorem placed_function {signature : Signature} {body : List Stmt} {outlines : List Outline}
    {id : SignatureId}
    (kept : ∀ {outer around}, Stands n inner outer around → (n.desk []).Owned →
      Kept inner around false body outlines n o)
    (stands : Stands s scope outer around) (owned : (s.desk []).Owned)
    (onTop : s.scopes.isTopLevel scope = .ok true)
    (checked : checkParameters [] signature.parameters = .ok ())
    (creates : Ends (createScope (some scope) (.function signature.result)) s inner m)
    (parameters : Ends (defineParameters env.settle inner signature.span.start
      signature.parameters) m () n)
    (closes : Ends (closeFunction env.settle scope inner signature) o id t) :
    BindsNames scope [signature.name] (if signature.exported then [signature.name] else []) s t ∧
      (Stmt.function signature body).Placed around ∧ StandsIn t scope (.function id outlines) := by
  obtain ⟨rfl, rfl, file, entered⟩ := stands.enterFunction onTop creates
  have made : BindsNames 0 [] [] s m := bindsNames_createScope owned creates
  have named := bindsNames_defineParameters settles made.owned parameters
  have walked := kept (entered.later named.layoutKept) named.owned
  have inside := named.trans walked.bindsNames
  obtain ⟨closed, own⟩ := bindsNames_closeFunction settles walked.bindsNames.owned
    (fun _ => rfl) closes
  have exports := walked.placed.allExports_eq_nil rfl
  refine ⟨?_, ⟨file, concrete_of_checkParameters checked, ⟨inside.distinct, walked.chained⟩,
    walked.placed⟩, own⟩
  simpa [exports] using (made.enclose (unmade_of_creates creates) inside).trans closed

/-! Chains. -/

theorem ownersKept_endChain (scope : ScopeId) {chain : Option OpenChain} {outlines : List Outline}
    (ends : Ends (endChain chain) s outlines t) :
    OwnersKept s t ∧ ∀ outline ∈ outlines, StandsIn t scope outline := by
  cases chain with
  | none =>
    obtain ⟨rfl, rfl⟩ := ends_pure.1 ends
    exact ⟨.refl _, by simp⟩
  | some chain =>
    simp only [endChain, ends_bind, ends_pure] at ends
    obtain ⟨outline, _, folds, rfl, rfl⟩ := ends
    obtain ⟨rfl, _, rfl⟩ := foldChain_of_ends folds
    exact ⟨.of_same rfl rfl rfl, by simp [OpenChain.close, StandsIn]⟩

/-- Only a statement that carries on a chain finds one open. -/
theorem ownersKept_endChainBefore (scope : ScopeId) {stmt : Stmt} {chain after : Option OpenChain}
    {outlines : List Outline} (ends : Ends (endChainBefore stmt chain) s (outlines, after) t) :
    OwnersKept s t ∧ after = (if stmt.continuesChain then chain else none) ∧
      ∀ outline ∈ outlines, StandsIn t scope outline := by
  unfold endChainBefore at ends
  split at ends
  case isTrue continues =>
    obtain ⟨⟨rfl, rfl⟩, rfl⟩ : (outlines = [] ∧ after = chain) ∧ t = s := by simpa using ends
    exact ⟨.refl _, by simp [continues], by simp⟩
  case isFalse stops =>
    simp only [ends_bind, ends_pure, Prod.mk.injEq] at ends
    obtain ⟨_, _, closes, ⟨rfl, rfl⟩, rfl⟩ := ends
    obtain ⟨ownersKept, own⟩ := ownersKept_endChain scope closes
    exact ⟨ownersKept, by simp [stops], own⟩

/-! Blocks. -/

/-- What is known of a statement that has been checked, and of the chain that is open after it. -/
structure StmtKept (scope : ScopeId) (around : Around) (stmt : Stmt) (chain : Option OpenChain)
    (outlines : List Outline) (after : Option OpenChain) (s t : Checker Empty σ) : Prop where
  bindsNames : BindsNames scope stmt.declares stmt.exports s t
  placed : stmt.Placed around
  follows : stmt.continuesChain = true → chain.isSome = true
  opens : after.isSome = stmt.isConditional
  own : ∀ outline ∈ outlines, StandsIn t scope outline

mutual

theorem kept_stmt {env : Env Empty σ}
    (settles : ∀ {work s done t}, Ends (env.settle work) s done t → OwnersKept s t) :
    ∀ {scope chain stmt s outlines after t}, StmtRun env scope chain stmt s outlines after t →
    ∀ {outer around}, Stands s scope outer around → (s.desk []).Owned →
    StmtKept scope around stmt chain outlines after s t
  | _, _, _, _, _, _, _, .leaf ends, _, _, stands, owned => by
    obtain ⟨bindsNames, allowed, own⟩ := placed_leaf settles stands owned (.of_ends ends)
    exact ⟨bindsNames, allowed, by simp [Stmt.continuesChain], rfl, by simpa using own⟩
  | _, _, _, _, _, _, _, .branch _ creates walks _, _, around, stands, owned => by
    obtain ⟨bindsNames, placed⟩ :=
      placed_body (kept_block settles walks) around.entersAs_inBlock stands owned creates
    exact ⟨bindsNames, placed, by simp [Stmt.continuesChain], rfl, by simp⟩
  | _, _, _, _, _, _, _, .elseIf _ creates walks _, _, around, stands, owned => by
    obtain ⟨bindsNames, placed⟩ :=
      placed_body (kept_block settles walks) around.entersAs_inBlock stands owned creates
    exact ⟨bindsNames, placed, fun _ => rfl, rfl, by simp⟩
  | _, _, _, _, _, _, _, .otherwise creates walks, _, around, stands, owned => by
    obtain ⟨bindsNames, placed⟩ :=
      placed_body (kept_block settles walks) around.entersAs_inBlock stands owned creates
    exact ⟨bindsNames.trans (.of_ownersKept bindsNames.owned (.of_same rfl rfl rfl)), placed,
      fun _ => rfl, rfl,
      by simp [OpenChain.close, StandsIn]⟩
  | _, _, _, _, _, _, _, .loop _ creates walks _, _, around, stands, owned => by
    obtain ⟨bindsNames, placed⟩ :=
      placed_body (kept_block settles walks) around.entersAs_inLoop stands owned creates
    exact ⟨bindsNames, placed, by simp [Stmt.continuesChain], rfl, by simp [StandsIn]⟩
  | _, _, _, _, _, _, _, .function onTop checked creates parameters _ walks closes, _, _, stands,
      owned => by
    obtain ⟨bindsNames, placed, own⟩ := placed_function settles (kept_block settles walks) stands owned
      onTop checked creates parameters closes
    exact ⟨bindsNames, placed, by simp [Stmt.continuesChain], rfl, by simpa using own⟩

theorem kept_block {env : Env Empty σ}
    (settles : ∀ {work s done t}, Ends (env.settle work) s done t → OwnersKept s t) :
    ∀ {scope chain program s outlines t}, BlockRun env scope chain program s outlines t →
    ∀ {outer around}, Stands s scope outer around → (s.desk []).Owned →
    Kept scope around chain.isSome program outlines s t
  | _, _, _, _, _, _, .nil ends, _, _, stands, owned => by
    obtain ⟨ownersKept, own⟩ := ownersKept_endChain _ ends
    exact ⟨.of_ownersKept owned ownersKept, trivial, ⟨by simp, .nil⟩, own⟩
  | scope, _, _, s, _, _, @BlockRun.cons _ _ _ _ _ _ _ stmt _ _ _ _ left _ m _ _ closes _ _ run _
      walks, _, _, stands, owned => by
    obtain ⟨ownersKept, isChain, ownClosed⟩ := ownersKept_endChainBefore scope closes
    have first : BindsNames scope [] [] s { m with budget := left } :=
      .of_ownersKept owned (ownersKept.until rfl rfl rfl)
    have checked := kept_stmt settles run (stands.later first.layoutKept) first.owned
    have upTo := first.trans checked.bindsNames
    have walked := kept_block settles walks (stands.later upTo.layoutKept) upTo.owned
    refine ⟨?_, ⟨checked.placed, walked.placed⟩, ⟨?_, List.isChain_cons.2 ⟨?_, walked.chained.2⟩⟩, ?_⟩
    · simpa [Stmt.allDeclares, Stmt.allExports] using upTo.trans walked.bindsNames
    · intro stmt' isFirst continues
      obtain rfl : stmt = stmt' := by simpa using isFirst
      simpa [isChain, continues] using checked.follows continues
    · rw [← checked.opens]
      exact walked.chained.1
    · intro outline mem
      rcases List.mem_append.1 mem with mem | mem
      · exact StandsIn.later (s := { m with budget := left }) (ownClosed outline mem)
          (checked.bindsNames.trans walked.bindsNames).layoutKept
      rcases List.mem_append.1 mem with mem | mem
      · exact (checked.own outline mem).later walked.bindsNames.layoutKept
      · exact walked.own outline mem

end

end Walk

/-- In a new checker there is the scope of the file and nothing in it. -/
theorem stands_initial (store : σ) (budget : Nat) :
    Stands (Checker.initial store budget) Checker.root [] .top ∧
      ((Checker.initial store budget : Checker Empty σ).desk []).Owned := by
  refine ⟨⟨⟨rfl, rfl⟩, fun _ => rfl, fun id mem => ⟨.block, ?_, trivial⟩, rfl⟩,
    owned_initial store budget⟩
  obtain rfl : id = 0 := by simpa [Checker.root] using mem
  rfl

/-- What is known of the statements of a file that is accepted. -/
theorem kept_of_accepted {importer : Importer σ} {options : Options} {budget : Nat} {store : σ}
    {program : List Stmt} {output : Output}
    (accepted : (checkProgram importer options budget store program).result = .ok output) :
    ∃ outlines t, analyzeProgram importer options budget store program = (.ok outlines, t) ∧
      t.complete outlines = .ok output.typed ∧ output = Output.ofStmts output.typed ∧
      Kept Checker.root .top false program outlines (Checker.initial store budget) t := by
  obtain ⟨outlines, t, ends, completes, same⟩ := exists_of_accepted accepted
  refine ⟨outlines, t, ends, completes, same, ?_⟩
  simp only [analyze_eq, ends_bind] at ends
  obtain ⟨_, m, walks, finishes⟩ := ends
  obtain ⟨rfl, rfl, -⟩ := ends_finishFile finishes
  obtain ⟨stands, owned⟩ := stands_initial store budget
  have kept := kept_block ownersKept_runWave (.of_ends program walks) stands owned
  have last : BindsNames Checker.root [] [] m { m with
      journal := .finished m.scopes.size :: m.journal } :=
    .of_ownersKept kept.bindsNames.owned (.of_same rfl rfl rfl)
  exact ⟨by simpa using kept.bindsNames.trans last, kept.placed, kept.chained,
    fun outline mem => (kept.own outline mem).later last.layoutKept⟩

end Check

/-- The statements of a file that is accepted all stand where they may: loops, functions and the file
are around what needs them, chains are whole, names that are declared in one block are distinct, and
parameters have known types. -/
theorem checkProgram_placed {σ : Type} (importer : Importer σ) (options : Options) (budget : Nat)
    (store : σ) (program : List Stmt) (output : Output)
    (accepted : (checkProgram importer options budget store program).result = .ok output) :
    Stmt.Tidy [] program ∧ Stmt.AllPlaced .top program := by
  obtain ⟨outlines, t, -, -, -, kept⟩ := Check.kept_of_accepted accepted
  exact ⟨⟨by simpa using kept.bindsNames.distinct, kept.chained⟩, kept.placed⟩

/-- Statements of all kinds that need a place of their own. The loop at the end declares a name of the
file again. -/
def patrol : List Stmt :=
  [.leaf (.imports ["syscallExit"] "internal" .nowhere),
    .leaf (.declare ⟨"start", true, .number ⟨0⟩, .unannotated, .unannotated, true, .nowhere⟩),
    .function ⟨"run", [("limit", .number), ("eager", .boolean)], .unannotated, true, .nowhere⟩
      [.loop (.boolean true)
        [.branch (.symbol "eager" .unresolved)
            [.leaf (.returns ⟨some (.symbol "limit" .unresolved), .nowhere⟩)] .nowhere,
          .elseIf (.boolean false) [.leaf (.continueLoop .nowhere)] .nowhere,
          .otherwise [.leaf (.breakLoop .nowhere)] .nowhere] .nowhere,
        .leaf (.returns ⟨some (.number ⟨1⟩), .nowhere⟩)],
    .loop (.boolean true)
      [.leaf (.declare ⟨"start", false, .call (.symbol "run" .unresolved) [.number ⟨1⟩, .boolean true],
          .unannotated, .unannotated, false, .nowhere⟩),
        .leaf (.breakLoop .nowhere)] .nowhere]

theorem patrol_allPlaced :
    (∃ output, (Registry.builtin.check .standard 20 patrol).result = .ok output) ∧
      Stmt.Tidy [] patrol ∧ Stmt.AllPlaced .top patrol := by
  have isOk : (Registry.builtin.check .standard 20 patrol).result.isOk = true := by cbv
  cases run : (Registry.builtin.check .standard 20 patrol).result with
  | error halt => simp [run, Except.isOk, Except.toBool] at isOk
  | ok output =>
    exact ⟨⟨output, rfl⟩, checkProgram_placed (Registry.importer 20) .standard 20 .builtin patrol output
      run⟩

end Hoist
