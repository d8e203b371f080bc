import Mathlib
import Hoist.Proofs.Placement

/-!
What may be assigned to. `Stmt.AllAssign` says it of the text of a program alone: where an assignment
stands, its name has been declared before, in its own block or in one around it or as a parameter, and
the nearest of these declarations is that of something that may change.

The checker looks the name up in scopes that go on growing, and again when it resumes the assignment
later. Main statement: a program that is accepted keeps to this rule (`checkProgram_assigns`). It is
enough that the first look sees what the text says: the scopes on the way outwards hold the names that
have been declared so far and no others, and nothing that is performed later changes whether a name is
a constant.
-/
namespace Hoist

/-- How a name comes into a program. -/
inductive Origin
  | changing
  | constant
  | parameter
  | function
  | imported
  deriving DecidableEq, Repr

def Origin.mutable : Origin → Bool
  | .changing | .parameter => true
  | .constant | .function | .imported => false

def Leaf.introduces : Leaf → List (String × Origin)
  | .declare declaration =>
    [(declaration.name, if declaration.constant then .constant else .changing)]
  | .imports names _ _ => names.map (·, .imported)
  | _ => []

/-- The target has been declared, and if it is a bare name it may change. -/
def Assignment.Fits (visible : List (String × Origin)) (assignment : Assignment) : Prop :=
  ∃ origin, visible.lookup assignment.target.root = some origin ∧
    (assignment.target.isSymbol = true → origin.mutable = true)

def Leaf.Assigns (visible : List (String × Origin)) : Leaf → Prop
  | .assign assignment => assignment.Fits visible
  | _ => True

namespace Stmt

/-- The names that a statement declares for the statements after it in its block. -/
def introduces : Stmt → List (String × Origin)
  | .leaf content => content.introduces
  | .function signature _ => [(signature.name, .function)]
  | _ => []

mutual

/-- The assignments in a statement fit, where these names are visible. The nearest come first. -/
def Assigns (visible : List (String × Origin)) : Stmt → Prop
  | .leaf content => content.Assigns visible
  | .branch _ body _ => AllAssign visible body
  | .elseIf _ body _ => AllAssign visible body
  | .otherwise body _ => AllAssign visible body
  | .loop _ body _ => AllAssign visible body
  | .function signature body =>
    AllAssign (signature.parameters.map (fun parameter => (parameter.1, .parameter)) ++ visible) body

def AllAssign (visible : List (String × Origin)) : List Stmt → Prop
  | [] => True
  | stmt :: rest => stmt.Assigns visible ∧ AllAssign (stmt.introduces ++ visible) rest

end

end Stmt

/-! Constants among the bindings. -/

/-- Whether the name is a constant in the scope, if it is bound there. -/
def Scopes.constant? {δ : Type} (scopes : Scopes δ) (id : ScopeId) (name : String) : Option Bool :=
  (scopes.binding? id name).map (·.constant)

theorem lookup_map_same {names : List String} {origin : Origin} {name : String} :
    (names.map (·, origin)).lookup name = if name ∈ names then some origin else none := by
  induction names with
  | nil => rfl
  | cons first rest ih =>
    by_cases same : name = first
    · simp [same]
    · simp [List.lookup_cons, beq_false_of_ne same, ih, same]

/-- The order does not matter among names of one origin. -/
theorem lookup_append_same {names : List String} {origin : Origin} (first name : String) :
    ((first :: names).map (·, origin)).lookup name =
      (names.map (·, origin) ++ [(first, origin)]).lookup name := by
  have last : names.map (·, origin) ++ [(first, origin)] = (names ++ [first]).map (·, origin) := by
    simp
  rw [last, lookup_map_same, lookup_map_same]
  simp [or_comm]

namespace Check

open Desk

variable {σ : Type} {s m t : Checker Empty σ} {scope inner : ScopeId} {outer : List ScopeId}
  {new later : List (String × Origin)} {around : Around}

/-- The names are declared in the scope, over those that it has, and no others in scopes that were
there before. -/
structure Marks (scope : ScopeId) (new : List (String × Origin)) (s t : Checker Empty σ) : Prop where
  made : ∀ place, (s.scopes.parent? place).isSome = true → (t.scopes.parent? place).isSome = true
  marked : ∀ place name, (s.scopes.parent? place).isSome = true → t.scopes.constant? place name =
    if place = scope then ((new.lookup name).map (!·.mutable)).or (s.scopes.constant? place name)
    else s.scopes.constant? place name

theorem Marks.of_ownersKept (owned : (s.desk []).Owned) (ownersKept : OwnersKept s t) :
    Marks scope [] s t where
  made place there := (LayoutKept.of_layoutFixed (ownersKept.layoutFixed owned)).made there
  marked place name _ := by
    have same := (ownersKept.layoutFixed owned).constant place name
    simpa [Scopes.constant?, Checker.desk] using same

/-- Steps that leave the bindings alone. -/
theorem Marks.of_same (parents : ∀ id, t.scopes.parent? id = s.scopes.parent? id)
    (bindings : ∀ id name, t.scopes.binding? id name = s.scopes.binding? id name) :
    Marks scope [] s t where
  made place there := by rwa [parents]
  marked place name _ := by simp [Scopes.constant?, bindings]

theorem Marks.trans (first : Marks scope new s m) (second : Marks scope later m t) :
    Marks scope (later ++ new) s t where
  made place there := second.made place (first.made place there)
  marked place name there := by
    rw [second.marked place name (first.made place there), first.marked place name there]
    split
    · rw [List.lookup_append, Option.map_or, Option.or_assoc]
    · rfl

theorem Marks.congr (marks : Marks scope new s t)
    (same : ∀ name, later.lookup name = new.lookup name) : Marks scope later s t :=
  ⟨marks.made, fun place name there => by rw [marks.marked place name there, same]⟩

/-- Names of a scope that was made meanwhile do not count. -/
theorem Marks.enclose (made : Marks scope [] s m) (unmade : s.scopes.parent? inner = none)
    (inside : Marks inner new m t) : Marks scope [] s t where
  made place there := inside.made place (made.made place there)
  marked place name there := by
    have different : place ≠ inner := by
      rintro rfl
      simp [unmade] at there
    rw [inside.marked place name (made.made place there), if_neg different,
      made.marked place name there]

theorem marks_createScope {kind : ScopeKind} {parent : ScopeId}
    (ends : Ends (createScope (some parent) kind) s inner t) : Marks scope [] s t := by
  obtain ⟨rfl, rfl⟩ := ends_createScope.1 ends
  have created := s.scopes.created_create parent kind
  refine ⟨fun place there => ?_, fun place name _ => ?_⟩
  · obtain ⟨above, found⟩ := Option.isSome_iff_exists.1 there
    exact Option.isSome_iff_exists.2 ⟨above, created.parent_mono place above found⟩
  · simp [Scopes.constant?, created.bindings]

theorem marks_define {binding : Binding} {position : Position} {work : List (Deferral Empty)}
    (origin : Origin) (fixed : binding.constant = !origin.mutable)
    (ends : Ends (define scope binding position) s work t) :
    Marks scope [(binding.name, origin)] s t := by
  obtain ⟨changed, defines, rfl⟩ := ends_define.1 ends
  obtain ⟨-, bound⟩ := Scopes.define_eq_ok defines
  refine ⟨fun place there => by simpa [bound.parent] using there, fun place name _ => ?_⟩
  simp only [Scopes.constant?, bound.bindings]
  by_cases here : place = scope
  · by_cases same : name = binding.name
    · simp [here, same, fixed]
    · simp [here, same, List.lookup_cons, beq_false_of_ne same]
  · simp [here]

theorem scopes_addDraft {work : Work} {id : DraftId} (ends : Ends (addDraft scope work) s id t) :
    t.scopes = s.scopes := by
  rw [(ends_addDraft.1 ends).1]

theorem owned_define {binding : Binding} {position : Position} {work : List (Deferral Empty)}
    (owned : (s.desk []).Owned) (ends : Ends (define scope binding position) s work t) :
    (t.desk []).Owned := by
  obtain ⟨changed, defines, rfl⟩ := ends_define.1 ends
  obtain ⟨unbound, bound⟩ := Scopes.define_eq_ok defines
  exact owned.define (t := ⟨changed, s.drafts, s.signatures, s.queue⟩) unbound bound rfl rfl

section Settle

variable {env : Env Empty σ} {position : Position} {work : List (Deferral Empty)} {done : Unit}
  (settles : ∀ {work s done t}, Ends (env.settle work) s done t → OwnersKept s t)
include settles

theorem marks_settled {binding : Binding} (origin : Origin)
    (fixed : binding.constant = !origin.mutable) (owned : (s.desk []).Owned)
    (defines : Ends (define scope binding position) s work m)
    (settled : Ends (env.settle work) m done t) : Marks scope [(binding.name, origin)] s t :=
  (marks_define origin fixed defines).trans
    (.of_ownersKept (owned_define owned defines) (settles settled))

theorem marks_declaration {d : Declaration} {leaf : OutlineLeaf} (owned : (s.desk []).Owned)
    (run : LeafRun env scope (.declare d) s leaf t) :
    Marks scope [(d.name, if d.constant then .constant else .changing)] s t := by
  cases run with | @declare _ _ _ _ _ _ _ _ n _ _ _ _ typed defines settled adds defers
  obtain ⟨rfl, -⟩ := Declaration.withType_eq_ok typed
  have marked := marks_settled settles (if d.constant then .constant else .changing)
    (by cases d.constant <;> rfl) owned defines settled
  obtain ⟨rfl, rfl⟩ := ends_addDraft.1 adds
  have deferred : Marks scope [] n t := by
    unfold deferDeclaration at defers
    split at defers
    · obtain ⟨-, rfl⟩ := ends_pure.1 defers
      exact .of_same (fun _ => rfl) fun _ _ => rfl
    · have idle := idle_defer defers
      exact .of_same idle.parent idle.bindings
  exact marked.trans deferred

theorem marks_importNames {source : String} {names : List String}
    {found : List (String × ConcreteTy)} (owned : (s.desk []).Owned)
    (ends : Ends (importNames env scope source position names) s found t) :
    Marks scope (names.map (·, .imported)) s t := by
  induction names generalizing s found with
  | nil =>
    obtain ⟨-, rfl⟩ := ends_pure.1 ends
    exact .of_same (fun _ => rfl) fun _ _ => rfl
  | cons name rest ih =>
    simp only [importNames, ends_bind, ends_ofCause, ends_pure, and_assoc, exists_and_left,
      exists_eq_left] at ends
    obtain ⟨type, m, gives, known, -, work, n, defines, _, o, settled, others, _, ends, rfl, rfl⟩ :=
      ends
    have gave := ownersKept_importType gives
    have before := gave.owned owned
    have first : Marks scope [(name, .imported)] m o :=
      marks_settled settles .imported rfl before defines settled
    have after := (settles settled).owned (owned_define before defines)
    exact (((Marks.of_ownersKept owned gave).trans first).trans (ih after ends)).congr
      (lookup_append_same name)

theorem marks_defineParameters {parameters : List (String × Ty)} (owned : (s.desk []).Owned)
    (ends : Ends (defineParameters env.settle scope position parameters) s done t) :
    Marks scope ((parameters.map (·.1)).map (·, .parameter)) s t := by
  induction parameters generalizing s with
  | nil =>
    obtain ⟨-, rfl⟩ := ends_pure.1 ends
    exact .of_same (fun _ => rfl) fun _ _ => rfl
  | cons parameter rest ih =>
    simp only [defineParameters, ends_bind] at ends
    obtain ⟨work, m, defines, _, n, settled, ends⟩ := ends
    have first : Marks scope [(parameter.1, .parameter)] s n :=
      marks_settled settles .parameter rfl owned defines settled
    have after := (settles settled).owned (owned_define owned defines)
    exact (first.trans (ih after ends)).congr (lookup_append_same parameter.1)

theorem marks_closeFunction {signature : Signature} {id : SignatureId} (owned : (s.desk []).Owned)
    (root : signature.exported = true → scope = 0)
    (ends : Ends (closeFunction env.settle scope inner signature) s id t) :
    Marks scope [(signature.name, .function)] s t := by
  simp only [closeFunction_eq, finishFunction_eq, ends_bind, ends_scopes, ends_ofFault, ends_pure,
    and_assoc, exists_and_left, exists_eq_left] at ends
  obtain ⟨result?, -, id, m, keeps, work, n, defines, _, _, settled, rfl, rfl⟩ := ends
  obtain ⟨rfl, m, journal, headed, rfl⟩ := headed_addHead keeps
  have idle := headed.idle.1
  have kept : Marks scope [] s { m with journal } := .of_same idle.parent idle.bindings
  have bound : Marks scope [(signature.name, .function)] { m with journal } n :=
    marks_define .function rfl defines
  obtain ⟨changed, changes, rfl⟩ := ends_define.1 defines
  have defined := bindsNames_head headed owned changes root
  exact (kept.trans bound).trans (.of_ownersKept (defined _).owned (settles settled))

end Settle

/-! What a look outwards sees. -/

/-- From these scopes, the first of which is the innermost, one sees the names as the text has them. -/
def Sees (s : Checker Empty σ) (path : List ScopeId) (visible : List (String × Origin)) : Prop :=
  ∀ name, path.findSome? (s.scopes.constant? · name) = (visible.lookup name).map (!·.mutable)

variable {visible : List (String × Origin)}

theorem Sees.marked (sees : Sees s (scope :: outer) visible)
    (path : s.scopes.Path (scope :: outer)) (marks : Marks scope new s t) :
    Sees t (scope :: outer) (new ++ visible) := by
  intro name
  have around : outer.findSome? (t.scopes.constant? · name) =
      outer.findSome? (s.scopes.constant? · name) := by
    rw [← List.head?_filterMap, ← List.head?_filterMap]
    refine congrArg List.head? (List.filterMap_congr fun id mem => ?_)
    rw [marks.marked id name (path.isSome_parent? (List.mem_cons_of_mem _ mem)),
      if_neg (Nat.ne_of_lt (path.lt_of_mem mem))]
  have before := sees name
  have own := marks.marked scope name (path.isSome_parent? List.mem_cons_self)
  rw [if_pos rfl] at own
  rw [List.findSome?_cons] at before ⊢
  rw [own, around, List.lookup_append, Option.map_or, ← before]
  cases new.lookup name with
  | none => simp
  | some origin => simp

/-- In a new scope one sees what one sees around it. -/
theorem Sees.enter {kind : ScopeKind} (sees : Sees s (scope :: outer) visible)
    (path : s.scopes.Path (scope :: outer))
    (creates : Ends (createScope (some scope) kind) s inner t) :
    Sees t (inner :: scope :: outer) visible := by
  have kept := sees.marked path (marks_createScope creates)
  obtain ⟨rfl, rfl⟩ := ends_createScope.1 creates
  intro name
  have empty : (s.scopes.create (some scope) kind).constant? s.scopes.size name = none := by
    rw [Scopes.constant?, (s.scopes.created_create scope kind).bindings]
    simp [Scopes.binding?, Scopes.size]
  rw [List.findSome?_cons]
  simp only [empty]
  exact kept name

theorem Sees.fits (sees : Sees s (scope :: outer) visible) (path : s.scopes.Path (scope :: outer))
    {a : Assignment} {position : Position} {done : Unit}
    (ends : Ends (checkRoot scope a.target position) s done t) : a.Fits visible := by
  obtain ⟨-, binding, found, fits⟩ := ends_checkRoot.1 ends
  rw [path.lookup_eq, Except.ok.injEq] at found
  have seen : some binding.constant = (visible.lookup a.target.root).map (!·.mutable) := by
    rw [← sees, ← Option.map_some, ← found, List.map_findSome?]
    rfl
  obtain ⟨origin, named, fixed⟩ := Option.map_eq_some_iff.1 seen.symm
  refine ⟨origin, named, fun bare => ?_⟩
  simpa [← fixed, bare] using fits

/-! Statements. -/

section Walk

variable {env : Env Empty σ}
  (settles : ∀ {work s done t}, Ends (env.settle work) s done t → OwnersKept s t)

/-- The names of a scope are marked as the text has them, and what is assigned there may be. -/
structure AssignmentsFit (scope : ScopeId) (outer : List ScopeId) (new : List (String × Origin))
    (assigns : List (String × Origin) → Prop) (s t : Checker Empty σ) : Prop where
  marks : Marks scope new s t
  assigns : ∀ visible, Sees s (scope :: outer) visible → assigns visible

include settles in
theorem assignmentsFit_leaf {content : Leaf} {leaf : OutlineLeaf}
    (stands : Stands s scope outer around)
    (owned : (s.desk []).Owned) (run : LeafRun env scope content s leaf t) :
    AssignmentsFit scope outer content.introduces content.Assigns s t := by
  -- A draft that declares nothing is put down, and then looked at.
  have drafted {work : Work} {id : DraftId} {m t : Checker Empty σ} (idle : work.declares = none)
      (adds : Ends (addDraft scope work) s id m) (ownersKept : OwnersKept m t) :
      Marks scope [] s t := by
    have put : Marks scope [] s m := .of_same (by simp [scopes_addDraft adds])
      (by simp [scopes_addDraft adds])
    exact put.trans (.of_ownersKept (bindsNames_addIdle idle owned adds).owned ownersKept)
  cases content with
  | declare d => exact ⟨marks_declaration settles owned run, fun _ _ => trivial⟩
  | assign a =>
    cases run with | @assign _ _ _ m _ adds checks
    refine ⟨drafted rfl adds (ownersKept_checkAssignment (drafts_addDraft adds) checks),
      fun visible sees => ?_⟩
    simp only [checkAssignment, ends_bind] at checks
    obtain ⟨_, _, onRoot, -⟩ := checks
    have same := scopes_addDraft adds
    have seesHere : Sees m (scope :: outer) visible := by simpa only [Sees, same] using sees
    exact seesHere.fits (same ▸ stands.path) onRoot
  | evaluate e =>
    cases run with | evaluate adds checks
    exact ⟨drafted rfl adds (ownersKept_checkEvaluation (drafts_addDraft adds) checks),
      fun _ _ => trivial⟩
  | returns r =>
    cases run with | returns adds checks
    exact ⟨drafted rfl adds (ownersKept_checkReturn settles (drafts_addDraft adds) checks),
      fun _ _ => trivial⟩
  | breakLoop | continueLoop | endOfFile =>
    cases run
    exact ⟨.of_ownersKept owned (.refl _), fun _ _ => trivial⟩
  | imports names source span =>
    cases run with | imports onTop imports
    exact ⟨marks_importNames settles owned imports, fun _ _ => trivial⟩

/-- The body of a statement is a block inside, whose names do not count outside. -/
theorem assignmentsFit_body {kind : ScopeKind} {body : List Stmt}
    (walk : ∀ {outer around}, Stands m inner outer around → (m.desk []).Owned →
      ∃ new, AssignmentsFit inner outer new (Stmt.AllAssign · body) m t)
    (own : around.EntersAs within kind.kind) (stands : Stands s scope outer around)
    (owned : (s.desk []).Owned) (creates : Ends (createScope (some scope) kind) s inner m) :
    AssignmentsFit scope outer [] (Stmt.AllAssign · body) s t := by
  have made : BindsNames scope [] [] s m := bindsNames_createScope owned creates
  obtain ⟨new, inside⟩ := walk (stands.enterBody own creates) made.owned
  refine ⟨(marks_createScope creates).enclose (unmade_of_creates creates) inside.marks,
    fun visible sees => ?_⟩
  exact inside.assigns visible (sees.enter stands.path creates)

mutual

theorem assignmentsFit_stmt {env : Env Empty σ}
    (settles : ∀ {work s done t}, Ends (env.settle work) s done t → OwnersKept s t) :
    ∀ {scope chain stmt s outlines after t}, StmtRun env scope chain stmt s outlines after t →
    ∀ {outer around}, Stands s scope outer around → (s.desk []).Owned →
    AssignmentsFit scope outer stmt.introduces (Stmt.Assigns · stmt) s t
  | _, _, _, _, _, _, _, .leaf ends, _, _, stands, owned =>
    assignmentsFit_leaf settles stands owned (.of_ends ends)
  | _, _, _, _, _, _, _, .branch _ creates walks _, _, around, stands, owned =>
    assignmentsFit_body (assignmentsFit_block settles walks) around.entersAs_inBlock stands owned
      creates
  | _, _, _, _, _, _, _, .elseIf _ creates walks _, _, around, stands, owned =>
    assignmentsFit_body (assignmentsFit_block settles walks) around.entersAs_inBlock stands owned
      creates
  | _, _, _, _, _, _, _, .otherwise creates walks, _, around, stands, owned => by
    have inside :=
      assignmentsFit_body (assignmentsFit_block settles walks) around.entersAs_inBlock stands owned
        creates
    exact ⟨⟨inside.marks.made, inside.marks.marked⟩, inside.assigns⟩
  | _, _, _, _, _, _, _, .loop _ creates walks _, _, around, stands, owned =>
    assignmentsFit_body (assignmentsFit_block settles walks) around.entersAs_inLoop stands owned
      creates
  | _, _, _, _, _, _, _, .function onTop _ creates parameters _ walks closes, _, _, stands, owned => by
    obtain ⟨rfl, rfl, -, entered⟩ := stands.enterFunction onTop creates
    have made : BindsNames 0 [] [] _ _ := bindsNames_createScope owned creates
    have named := bindsNames_defineParameters settles made.owned parameters
    have inBody := entered.later named.layoutKept
    obtain ⟨new, inside⟩ := assignmentsFit_block settles walks inBody named.owned
    have given := marks_defineParameters settles made.owned parameters
    have walked := (kept_block settles walks inBody named.owned).bindsNames
    have closed := marks_closeFunction settles walked.owned (fun _ => rfl) closes
    refine ⟨((marks_createScope creates).enclose (unmade_of_creates creates)
      (given.trans inside.marks)).trans closed, fun visible sees => ?_⟩
    have seesInside := (sees.enter stands.path creates).marked entered.path given
    simpa [Stmt.Assigns, Function.comp_def] using inside.assigns _ seesInside

theorem assignmentsFit_block {env : Env Empty σ}
    (settles : ∀ {work s done t}, Ends (env.settle work) s done t → OwnersKept s t) :
    ∀ {scope chain program s outlines t}, BlockRun env scope chain program s outlines t →
    ∀ {outer around}, Stands s scope outer around → (s.desk []).Owned →
    ∃ new, AssignmentsFit scope outer new (Stmt.AllAssign · program) s t
  | _, _, _, _, _, _, .nil ends, _, _, _, owned =>
    ⟨[], .of_ownersKept owned (ownersKept_endChain 0 ends).1, fun _ _ => trivial⟩
  | scope, _, _, s, _, _, @BlockRun.cons _ _ _ _ _ _ _ _ _ _ _ _ left _ m _ _ closes _ _ run _
      walks, _, _, stands, owned => by
    obtain ⟨ownersKept, -, -⟩ := ownersKept_endChainBefore scope closes
    have started : OwnersKept s { m with budget := left } := ownersKept.until rfl rfl rfl
    have first : BindsNames scope [] [] s { m with budget := left } := .of_ownersKept owned started
    have standing := stands.later first.layoutKept
    have bindsNames := (kept_stmt settles run standing first.owned).bindsNames
    have here := assignmentsFit_stmt settles run standing first.owned
    obtain ⟨new, there⟩ := assignmentsFit_block settles walks (standing.later bindsNames.layoutKept)
      bindsNames.owned
    have begun : Marks scope [] s { m with budget := left } := .of_ownersKept owned started
    refine ⟨_, (begun.trans here.marks).trans there.marks, fun visible sees => ?_⟩
    have seesHere := sees.marked stands.path begun
    exact ⟨here.assigns visible seesHere,
      there.assigns _ (seesHere.marked standing.path here.marks)⟩

end

end Walk

end Check

/-- In a file that is accepted every assignment is to a name that has been declared before it, in its
block or around it. If the target is the bare name, then the nearest declaration is of a variable or a
parameter. -/
theorem checkProgram_assigns {σ : Type} (importer : Importer σ) (options : Options) (budget : Nat)
    (store : σ) (program : List Stmt) (output : Output)
    (accepted : (checkProgram importer options budget store program).result = .ok output) :
    Stmt.AllAssign [] program := by
  obtain ⟨outlines, t, ends, -, -⟩ := exists_of_accepted accepted
  simp only [Check.analyze_eq, Check.ends_bind] at ends
  obtain ⟨_, m, walks, -⟩ := ends
  obtain ⟨stands, owned⟩ := Check.stands_initial store budget
  obtain ⟨new, fit⟩ := Check.assignmentsFit_block Check.ownersKept_runWave
    (.of_ends program walks) stands owned
  refine fit.assigns [] fun name => ?_
  rfl

/-- A constant is hidden by a variable, a parameter and a variable of the file are changed in a
function, and one assignment has to wait for a function that comes later. -/
def accounts : List Stmt :=
  [.leaf (.declare ⟨"total", false, .number ⟨0⟩, .unannotated, .unannotated, false, .nowhere⟩),
    .leaf (.declare ⟨"limit", true, .number ⟨3⟩, .unannotated, .unannotated, false, .nowhere⟩),
    .branch (.boolean true)
      [.leaf (.declare ⟨"limit", false, .symbol "total" .unresolved, .unannotated, .unannotated,
          false, .nowhere⟩),
        .leaf (.assign ⟨.symbol "limit", .set, .number ⟨4⟩, .nowhere⟩)] .nowhere,
    .function ⟨"bump", [("step", .number)], .unannotated, false, .nowhere⟩
      [.leaf (.assign ⟨.symbol "step", .set, .number ⟨2⟩, .nowhere⟩),
        .leaf (.assign ⟨.symbol "total", .set, .symbol "step" .unresolved, .nowhere⟩)],
    .leaf (.declare ⟨"late", false, .call (.symbol "next" .unresolved) [], .unannotated,
      .unannotated, false, .nowhere⟩),
    .leaf (.assign ⟨.symbol "late", .set, .number ⟨5⟩, .nowhere⟩),
    .function ⟨"next", [], .unannotated, false, .nowhere⟩
      [.leaf (.returns ⟨some (.number ⟨1⟩), .nowhere⟩)]]

set_option maxRecDepth 2000 in
theorem accounts_assign :
    (∃ output, (Registry.builtin.check .standard 30 accounts).result = .ok output) ∧
      Stmt.AllAssign [] accounts := by
  have isOk : (Registry.builtin.check .standard 30 accounts).result.isOk = true := by cbv
  cases run : (Registry.builtin.check .standard 30 accounts).result with
  | error halt => simp [run, Except.isOk, Except.toBool] at isOk
  | ok output =>
    exact ⟨⟨output, rfl⟩, checkProgram_assigns (Registry.importer 30) .standard 30 .builtin accounts
      output run⟩

end Hoist
