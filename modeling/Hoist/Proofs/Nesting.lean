import Hoist.Proofs.Check.Small
import Hoist.Proofs.Scope.Path

/-!
How the scopes lie in each other while a file is checked. Only the statements of a block make scopes,
one for each body; looking at what has been waiting makes none. A body is checked in a scope that lies
in the scope of its statement, which is older, and functions stand only in the outermost scope.

Main statement: `checkBlock_forms_tree`, for every outcome, so for every state in which the budget may
run out as well.
-/
namespace Hoist

mutual

/-- How many bodies there are in a statement, its own one included. -/
def Stmt.bodyCount : Stmt → Nat
  | .leaf _ => 0
  | .branch _ body _ | .elseIf _ body _ | .otherwise body _ | .loop _ body _ | .function _ body =>
    1 + Stmt.allBodyCount body

def Stmt.allBodyCount : List Stmt → Nat
  | [] => 0
  | stmt :: rest => stmt.bodyCount + Stmt.allBodyCount rest

end

namespace Scopes

variable {δ : Type} {scopes : Scopes δ}

/-- Every scope but the outermost one lies in an older one, and bodies of functions lie in the
outermost one. -/
structure Nested (scopes : Scopes δ) : Prop where
  outermost : scopes.shape[0]? = some (none, .block)
  inner : ∀ id outer kind, 0 < id → scopes.shape[id]? = some (outer, kind) →
    ∃ parent, outer = some parent ∧ parent < id ∧ (kind = .function → parent = 0)

/-- The outermost scope is scope 0, all ways outwards end there, and on each of them there is at most
one function, around which there is no loop. -/
structure IsTree (scopes : Scopes δ) : Prop where
  root : ∀ id, scopes.parent id = .ok none ↔ id = 0
  older : ∀ id parent, scopes.parent id = .ok (some parent) → parent < id
  top : ∀ id, id < scopes.size → ∃ outer, scopes.chain id = .ok (id :: outer) ∧
    (id :: outer).getLast? = some 0 ∧ scopes.top id = .ok 0
  functions : ∀ id, scopes.kind? id = some .function → scopes.parent id = .ok (some 0)
  chains : ∀ id near body far, scopes.chain id = .ok (near ++ body :: far) →
    scopes.kind? body = some .function →
    (∀ around ∈ near ++ far, scopes.kind? around ≠ some .function) ∧
      ∀ around ∈ far, scopes.kind? around ≠ some .loop

theorem length_shape (scopes : Scopes δ) : scopes.shape.length = scopes.size := by
  simp [shape, size]

theorem parent?_eq (scopes : Scopes δ) (id : ScopeId) :
    scopes.parent? id = scopes.shape[id]?.map (·.1) := by
  simp [parent?, shape, Function.comp_def]

theorem kind?_eq (scopes : Scopes δ) (id : ScopeId) :
    scopes.kind? id = scopes.shape[id]?.map (·.2) := by
  simp [kind?, shape, Function.comp_def]

theorem shape_create (parent : Option ScopeId) (kind : ScopeKind) :
    (scopes.create parent kind).shape = scopes.shape ++ [(parent, kind.kind)] := by
  cases kind <;> simp [shape, create, ScopeKind.role, ScopeKind.kind, Role.kind]

theorem Nested.create (nested : scopes.Nested) {scope : ScopeId} {kind : ScopeKind}
    (inside : scope < scopes.size) (onTop : kind.kind = .function → scope = 0) :
    (scopes.create (some scope) kind).Nested := by
  have first : 0 < scopes.shape.length := by
    rw [length_shape]
    exact Nat.zero_lt_of_lt inside
  refine ⟨?_, fun id outer kind' positive here => ?_⟩
  · rw [shape_create, List.getElem?_append_left first]
    exact nested.outermost
  · rw [shape_create, List.getElem?_append, length_shape] at here
    split at here
    case isTrue => exact nested.inner id outer kind' positive here
    case isFalse beyond =>
      obtain ⟨-, rfl, rfl⟩ : id - scopes.size = 0 ∧ some scope = outer ∧ kind.kind = kind' := by
        simpa [List.getElem?_singleton] using here
      exact ⟨scope, rfl, Nat.lt_of_lt_of_le inside (Nat.not_lt.1 beyond), onTop⟩

theorem Nested.parent? (nested : scopes.Nested) {id : ScopeId} (positive : 0 < id)
    (inside : id < scopes.size) : ∃ parent < id, scopes.parent? id = some (some parent) := by
  obtain ⟨⟨outer, kind⟩, here⟩ : ∃ entry, scopes.shape[id]? = some entry :=
    ⟨_, List.getElem?_eq_getElem (by rwa [length_shape])⟩
  obtain ⟨parent, rfl, older, -⟩ := nested.inner id outer kind positive here
  exact ⟨parent, older, by simp [parent?_eq, here]⟩

theorem Nested.rooted (nested : scopes.Nested) : scopes.Rooted := by
  intro id inside
  induction id using Nat.strong_induction_on with
  | _ id ih =>
    rcases Nat.eq_zero_or_pos id with rfl | positive
    · exact ⟨[], rfl, by simp [parent?_eq, nested.outermost]⟩
    · obtain ⟨parent, older, up⟩ := nested.parent? positive inside
      obtain ⟨outer, path⟩ := ih parent older (Nat.lt_trans older inside)
      exact ⟨parent :: outer, up, older, path⟩

theorem Nested.function_on_top (nested : scopes.Nested) {id : ScopeId}
    (function : scopes.kind? id = some .function) : scopes.parent? id = some (some 0) := by
  rw [kind?_eq] at function
  obtain ⟨⟨outer, kind⟩, here, rfl⟩ := Option.map_eq_some_iff.1 function
  have positive : 0 < id := by
    refine Nat.pos_of_ne_zero fun zero => ?_
    subst zero
    simp [nested.outermost] at here
  obtain ⟨parent, rfl, -, onTop⟩ := nested.inner id outer _ positive here
  simp [parent?_eq, here, onTop rfl]

/-- Around a function there is only the outermost scope. -/
theorem Nested.around_function (nested : scopes.Nested) {near far : List ScopeId} {body : ScopeId}
    (path : scopes.Path (near ++ body :: far)) (function : scopes.kind? body = some .function) :
    far = [0] := by
  induction near with
  | nil =>
    have up := path.parent?_eq.symm.trans (nested.function_on_top function)
    cases far with
    | nil => simp at up
    | cons next rest =>
      obtain rfl : next = 0 := by simpa using up
      have root : scopes.Path [0] := ⟨rfl, by simp [Scopes.parent?_eq, nested.outermost]⟩
      rw [path.tail.unique root]
  | cons first rest ih =>
    refine ih ?_
    cases rest <;> exact path.tail

theorem Nested.isTree (nested : scopes.Nested) : scopes.IsTree := by
  have parents {id : ScopeId} {parent : Option ScopeId} :
      scopes.parent id = .ok parent ↔ scopes.parent? id = some parent := by
    simp [Scopes.parent, Scopes.parent?, get_eq_ok]
  have chains {id : ScopeId} {outer : List ScopeId} (path : scopes.Path (id :: outer)) :
      scopes.chain id = .ok (id :: outer) :=
    path.chainFrom_eq (Nat.lt_succ_of_lt (Nat.lt_of_le_of_lt path.length_le path.inside))
  have outermost : scopes.kind? 0 = some .block := by simp [kind?_eq, nested.outermost]
  constructor
  case root =>
    refine fun id => parents.trans ⟨fun up => ?_, fun zero => ?_⟩
    · by_contra apart
      obtain ⟨parent, -, other⟩ :=
        nested.parent? (Nat.pos_of_ne_zero apart) (lt_size_of_parent? up)
      simp [up] at other
    · simp [zero, parent?_eq, nested.outermost]
  case older =>
    intro id parent up
    obtain ⟨outer, path⟩ := nested.rooted id (lt_size_of_parent? (parents.1 up))
    have next := path.parent?_eq.symm.trans (parents.1 up)
    exact path.lt_of_mem (List.mem_of_mem_head? (Option.some.inj next))
  case top =>
    intro id inside
    obtain ⟨outer, path⟩ := nested.rooted id inside
    exact ⟨outer, chains path, path.getLast?, path.top_eq⟩
  case functions => exact fun id function => parents.2 (nested.function_on_top function)
  case chains =>
    intro id near body far found function
    have inside : id < scopes.size := by
      simp only [chain, chainFrom, bind_eq_ok, get_eq_ok] at found
      obtain ⟨scope, here, -⟩ := found
      exact lt_size_of_get here
    obtain ⟨outer, path⟩ := nested.rooted id inside
    obtain same : id :: outer = near ++ body :: far := Except.ok.inj ((chains path).symm.trans found)
    rw [same] at path
    obtain rfl := nested.around_function path function
    refine ⟨fun around mem another => ?_, by simp [outermost]⟩
    rcases List.mem_append.1 mem with nearer | farther
    · obtain ⟨before, after, rfl⟩ := List.append_of_mem nearer
      have beyond := nested.around_function (by simpa using path) another
      have last : body ∈ after ++ body :: [0] := by simp
      rw [beyond, List.mem_singleton] at last
      simp [last, outermost] at function
    · simp [List.mem_singleton.1 farther, outermost] at another

end Scopes

namespace Check

variable {κ σ α β : Type} {scope : ScopeId} {count more : Nat}

/-- The step goes well with scopes that are nested, and makes as many as are counted if it ends
well. -/
def Builds (scope : ScopeId) (count : Nat) (step : Check κ σ α) : Prop :=
  ∀ s : Checker κ σ, s.scopes.Nested → scope < s.scopes.size →
    Yields step s (fun _ t => t.scopes.Nested ∧ t.scopes.size = s.scopes.size + count)
      fun _ t => t.scopes.Nested

theorem builds_of_shape {step : Check κ σ α}
    (same : ∀ s, (step.run s).2.scopes.shape = s.scopes.shape) : Builds scope 0 step := by
  intro s nested _
  have kept := same s
  have stays {t : Checker κ σ} (same : t.scopes.shape = s.scopes.shape) : t.scopes.Nested :=
    ⟨same ▸ nested.outermost, same ▸ nested.inner⟩
  unfold Yields
  split
  case h_1 value t ran =>
    rw [ran] at kept
    exact ⟨stays kept, by rw [← Scopes.length_shape, kept, Scopes.length_shape, Nat.add_zero]⟩
  case h_2 halt t ran =>
    rw [ran] at kept
    exact stays kept

theorem Builds.bind {first : Check κ σ α} {next : α → Check κ σ β}
    (isFirst : Builds scope count first) (isNext : ∀ value, Builds scope more (next value)) :
    Builds scope (count + more) (first >>= next) := by
  intro s nested inside
  refine yields_bind.2 ((isFirst s nested inside).mono ?_ fun _ _ kept => kept)
  rintro value m ⟨nested, grown⟩
  have still : scope < m.scopes.size := Nat.lt_of_lt_of_le inside (grown ▸ Nat.le_add_right _ _)
  refine (isNext value m nested still).mono ?_ fun _ _ kept => kept
  rintro _ t ⟨nested, grown'⟩
  exact ⟨nested, by omega⟩

theorem Builds.then {first : Check κ σ α} {next : α → Check κ σ β} (isFirst : Builds scope 0 first)
    (isNext : ∀ value, Builds scope count (next value)) : Builds scope count (first >>= next) :=
  Nat.zero_add count ▸ isFirst.bind isNext

theorem Builds.last {first : Check κ σ α} {next : α → Check κ σ β}
    (isFirst : Builds scope count first) (isNext : ∀ value, Builds scope 0 (next value)) :
    Builds scope count (first >>= next) :=
  isFirst.bind isNext

theorem Still.builds {step : Check κ σ α} (still : Still step) : Builds scope 0 step :=
  builds_of_shape fun s => congrArg Prod.snd (still s)

theorem Small.builds {step : Check κ σ α} (small : Small step) : Builds scope 0 step :=
  small.still.builds

theorem builds_throw (halt : Halt) : Builds scope count (throw halt : Check κ σ α) :=
  fun _ nested _ => yields_throw.2 nested

theorem builds_pure (value : α) : Builds scope 0 (pure value : Check κ σ α) :=
  (small_pure value).builds

theorem builds_addDraft (work : Work) : Builds scope 0 (addDraft scope work : Check κ σ DraftId) :=
  builds_of_shape fun _ => rfl

theorem builds_tick : Builds scope 0 (tick : Check κ σ Unit) := by
  refine builds_of_shape fun s => ?_
  simp only [tick, run_bind, run_get]
  split <;> rfl

/-- A body is checked in a scope of its own. -/
theorem builds_create {kind : ScopeKind} {next : ScopeId → Check κ σ α}
    (onTop : kind.kind = .function → scope = 0) (inside : ∀ inner, Builds inner count (next inner)) :
    Builds scope (1 + count) (createScope (some scope) kind >>= next) := by
  intro s nested here
  have sized : (s.scopes.create (some scope) kind).size = s.scopes.size + 1 := by
    simp [Scopes.create, Scopes.size]
  refine yields_bind.2 (yields_createScope.2 ?_)
  refine (inside _ _ (nested.create here onTop) ?_).mono ?_ fun _ _ kept => kept
  · simp [sized]
  · rintro _ t ⟨nested, grown⟩
    exact ⟨nested, by simp only [sized] at grown; omega⟩

/-! Simple statements. -/

section Statements

variable {env : Env κ σ} (settles : ∀ work, Still (env.settle work))

include settles in
theorem builds_leaf (content : Leaf) : Builds scope 0 (checkLeaf env scope content) := by
  cases content with
  | declare declaration =>
    rw [checkLeaf, checkDeclaration_eq]
    refine Builds.then ?_ fun _ => builds_pure _
    refine (small_checkExport _ declaration).builds.then fun _ =>
      (small_view _).builds.then fun names =>
      small_ofFault.builds.then fun type =>
      small_ofCause.builds.then fun declaration =>
      (small_define _ _ _).builds.then fun work => (settles work).builds.then fun _ =>
      (builds_addDraft _).then fun id =>
      (small_deferDeclaration _ id declaration type).builds.then fun _ => builds_pure _
  | assign assignment =>
    exact (builds_addDraft _).then fun _ => (small_checkAssignment _ _ _ _).builds.then fun _ =>
      builds_pure _
  | returns statement =>
    rw [checkLeaf]
    simp only [checkReturn_judge, bind_assoc]
    refine (builds_addDraft _).then fun _ => (small_judgeReturn _ _ _).builds.then fun handed =>
      Builds.then ?_ fun _ => builds_pure _
    cases handed with
    | none => exact builds_pure _
    | some work => exact (settles work).builds
  | evaluate statement =>
    exact (builds_addDraft _).then fun _ => (small_checkEvaluation _ _ _).builds.then fun _ =>
      builds_pure _
  | breakLoop span | continueLoop span =>
    exact (small_checkInLoop _ _ _).builds.then fun _ => builds_pure _
  | imports names source span =>
    rw [checkLeaf_imports]
    refine small_demand.builds.then fun _ => ?_
    rw [map_eq_pure_bind]
    exact (still_importNames _ _ settles source names).builds.then fun _ => builds_pure _
  | endOfFile => exact builds_pure _

include settles in
theorem still_closeFunction (inner : ScopeId) (signature : Signature) :
    Still (closeFunction env.settle scope inner signature) := by
  rw [closeFunction_eq]
  refine small_scopes.still.bind fun scopes =>
    small_ofFault.still.bind fun result => ?_
  rw [finishFunction_eq]
  exact (small_addHead _ _ _).still.bind fun id => (small_define _ _ _).still.bind fun work =>
    (settles work).bind fun _ => (small_pure _).still

/-! Statements with a body. -/

variable {body : ScopeId → Check κ σ (List Outline)} (inside : ∀ inner, Builds inner count (body inner))

include inside

theorem builds_inside {kind : ScopeKind} {condition : Expr} {position : Position}
    {finish : List Outline → Typed.Expr → Check κ σ α} (apart : kind.kind ≠ .function)
    (finishes : ∀ outlines typed inner, Builds inner 0 (finish outlines typed)) :
    Builds scope (1 + count) (do
      let inner ← createScope (some scope) kind
      let outlines ← body inner
      finish outlines (← ofCause position (Typed.Expr.ofExpr condition))) := by
  refine builds_create (fun function => absurd function apart) fun inner =>
    (inside inner).last fun outlines => Builds.then ?_ fun typed => finishes outlines typed inner
  cases Typed.Expr.ofExpr condition with
  | ok typed => exact builds_pure _
  | error cause => exact builds_throw _

include settles in
theorem builds_function (signature : Signature) :
    Builds scope (1 + count) (checkFunction env scope signature body) := by
  intro s nested here
  obtain ⟨outer, path⟩ := nested.rooted scope here
  rw [checkFunction, openFunction_eq, bind_assoc]
  refine yields_bind.2 ((yields_demand path.isTopLevel_eq).2 ⟨fun onTop => ?_, fun _ => nested⟩)
  obtain rfl := List.isEmpty_iff.1 onTop
  obtain rfl := path.1
  simp only [openBody, bind_assoc, pure_bind]
  refine small_ofCause.builds.then (fun _ => ?_) s nested here
  refine builds_create (fun _ => rfl) fun inner =>
    (still_defineParameters _ _ settles _).builds.then fun _ => (inside inner).last fun _ =>
    (still_closeFunction settles inner signature).builds.then fun _ => builds_pure _

end Statements

/-! Blocks. -/

mutual

theorem builds_checkStmt {env : Env κ σ} (settles : ∀ work, Still (env.settle work)) :
    ∀ (stmt : Stmt) (scope : ScopeId) (chain : Option OpenChain),
      Builds scope stmt.bodyCount (checkStmt env scope chain stmt)
  | .leaf content, scope, chain => by
    rw [checkStmt, Stmt.bodyCount]
    exact (builds_leaf settles content).then fun _ => builds_pure _
  | .branch condition body span, scope, chain => by
    rw [checkStmt, Stmt.bodyCount]
    refine Builds.last ?_ fun _ => builds_pure _
    exact (small_checkCondition _ _ _).builds.then fun _ =>
      builds_inside (fun inner => builds_checkBlock settles body inner none) (by simp [ScopeKind.kind])
        fun _ _ _ => builds_pure _
  | .elseIf condition body span, scope, none => by
    rw [checkStmt]
    exact builds_throw _
  | .elseIf condition body span, scope, some chain => by
    rw [checkStmt, Stmt.bodyCount]
    refine Builds.last ?_ fun _ => builds_pure _
    exact (small_checkCondition _ _ _).builds.then fun _ =>
      builds_inside (fun inner => builds_checkBlock settles body inner none) (by simp [ScopeKind.kind])
        fun _ _ _ => builds_pure _
  | .otherwise body span, scope, none => by
    rw [checkStmt]
    exact builds_throw _
  | .otherwise body span, scope, some chain => by
    rw [checkStmt, Stmt.bodyCount]
    exact builds_create (by simp [ScopeKind.kind]) fun inner =>
      (builds_checkBlock settles body inner none).last fun _ =>
      (small_foldChain _ _).builds.then fun _ => builds_pure _
  | .loop condition body span, scope, chain => by
    rw [checkStmt, Stmt.bodyCount]
    refine Builds.last ?_ fun _ => builds_pure _
    exact (small_checkLoopCondition _ _ _ _).builds.then fun _ =>
      builds_inside (fun inner => builds_checkBlock settles body inner none) (by simp [ScopeKind.kind])
        fun _ _ _ => builds_pure _
  | .function signature body, scope, chain => by
    rw [checkStmt, Stmt.bodyCount]
    exact (builds_function settles (fun inner => builds_checkBlock settles body inner none)
      signature).last fun _ => builds_pure _

theorem builds_checkBlock {env : Env κ σ} (settles : ∀ work, Still (env.settle work)) :
    ∀ (program : List Stmt) (scope : ScopeId) (chain : Option OpenChain),
      Builds scope (Stmt.allBodyCount program) (checkBlock env scope chain program)
  | [], scope, chain => by
    rw [checkBlock, Stmt.allBodyCount]
    exact (small_endChain chain).builds
  | stmt :: rest, scope, chain => by
    rw [checkBlock, Stmt.allBodyCount]
    exact (small_endChainBefore stmt chain).builds.then fun found => builds_tick.then fun _ =>
      (builds_checkStmt settles stmt scope found.2).bind fun done =>
      (builds_checkBlock settles rest scope done.2).last fun _ => builds_pure _

end

/-- Wherever checking a file ends or stops, its scopes form a tree. If it ends well there is one scope
for the file and one for each body in it. -/
theorem checkBlock_forms_tree (importer : Importer σ) (options : Options) (budget : Nat) (store : σ)
    (program : List Stmt) :
    Yields (checkBlock (Env.plain options importer) Checker.root none program)
      (Checker.initial store budget)
      (fun _ t => t.scopes.IsTree ∧ t.scopes.size = 1 + Stmt.allBodyCount program)
      fun _ t => t.scopes.IsTree := by
  have nested : (Checker.initial store budget : Checker Empty σ).scopes.Nested :=
    ⟨rfl, fun id outer kind positive here => by
      have inside := (List.getElem?_eq_some_iff.1 here).1
      simp [Scopes.length_shape, Checker.initial, Scopes.size, Scopes.create, Scopes.empty] at inside
      omega⟩
  refine (builds_checkBlock (still_runWave fun task => task.elim) program _ none _ nested ?_).mono
    ?_ fun _ _ kept => kept.isTree
  · exact Nat.zero_lt_one
  · rintro _ t ⟨kept, grown⟩
    exact ⟨kept.isTree, grown⟩

end Check

end Hoist
