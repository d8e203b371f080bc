import Mathlib
import Hoist.Module.Registry
import Hoist.Proofs.Check.Clear
import Hoist.Proofs.Check.Drafted
import Hoist.Proofs.Check.Sites
import Hoist.Proofs.Scoping
import Hoist.Proofs.Soundness

/-!
What it means that a name is reported. At the end of a file somebody still waits for it, and if names
are not reported then types should be missing when the tree is finished. This is so for all statements
but assignments. An assignment may wait for several names at once, and find one of them in a block
around it that declares the name later, while its deferral for this name is left with the file.

Main statement: a file in which a name is reported lacks a type if names are not reported, or it has an
assignment to which this has happened (`Registry.check_unreported`).
-/
namespace Hoist

namespace Check

variable {κ σ : Type}

/-! Statements are checked in the same way whether or not names are reported at the end. -/

section Report

variable (loop : LoopCondition) (report other : Bool) (importer : Importer σ)
  (settle : List (Deferral κ) → Check κ σ Unit)

theorem importNames_report (scope : ScopeId) (source : String) (position : Position)
    (names : List String) :
    importNames ⟨⟨loop, report⟩, importer, settle⟩ scope source position names =
      importNames ⟨⟨loop, other⟩, importer, settle⟩ scope source position names := by
  induction names with
  | nil => rfl
  | cons name rest ih =>
    simp only [importNames, ih]
    rfl

theorem checkLeaf_report (scope : ScopeId) (leaf : Leaf) :
    checkLeaf ⟨⟨loop, report⟩, importer, settle⟩ scope leaf =
      checkLeaf ⟨⟨loop, other⟩, importer, settle⟩ scope leaf := by
  cases leaf with
  | imports names source span =>
    simp only [checkLeaf, importNames_report loop report other importer settle]
  | declare | assign | returns | evaluate | breakLoop | continueLoop | endOfFile => rfl

mutual

theorem checkStmt_report : ∀ (stmt : Stmt) (scope : ScopeId) (chain : Option OpenChain),
    checkStmt ⟨⟨loop, report⟩, importer, settle⟩ scope chain stmt =
      checkStmt ⟨⟨loop, other⟩, importer, settle⟩ scope chain stmt
  | .leaf content, scope, chain => by
    simp only [checkStmt, checkLeaf_report loop report other importer settle]
  | .branch condition body span, scope, chain => by
    simp only [checkStmt, checkBlock_report body]
  | .elseIf condition body span, scope, chain => by
    simp only [checkStmt, checkBlock_report body]
  | .otherwise body span, scope, chain => by
    simp only [checkStmt, checkBlock_report body]
  | .loop condition body span, scope, chain => by
    simp only [checkStmt, checkBlock_report body]
    rfl
  | .function signature body, scope, chain => by
    simp only [checkStmt, checkBlock_report body]
    rfl

theorem checkBlock_report : ∀ (program : List Stmt) (scope : ScopeId) (chain : Option OpenChain),
    checkBlock ⟨⟨loop, report⟩, importer, settle⟩ scope chain program =
      checkBlock ⟨⟨loop, other⟩, importer, settle⟩ scope chain program
  | [], _, _ => by simp only [checkBlock]
  | stmt :: rest, scope, chain => by
    simp only [checkBlock, checkStmt_report stmt, checkBlock_report rest]

end

end Report

/-- What ends a file whose names are not reported. -/
theorem ends_unreported {loop : LoopCondition} {importer : Importer σ} {program : List Stmt}
    {outlines : List Outline} {s m : Checker Empty σ}
    (walks : Ends (checkBlock (Env.plain ⟨loop, true⟩ importer) Checker.root none program) s outlines
      m) :
    Ends (analyze (Env.plain ⟨loop, false⟩ importer) program) s outlines
      { m with journal := .finished m.scopes.size :: m.journal } := by
  rw [Env.plain, checkBlock_report loop true false] at walks
  simp only [analyze_eq, ends_bind]
  refine ⟨outlines, m, walks, ?_⟩
  simp [finishFile, Env.plain]

/-! The end of a file. -/

variable {t : Checker Empty σ}

/-- All names of an assignment that has been finished are bound around it. -/
theorem bound_of_complete {frames : List Frame} {id : DraftId} {d : Draft} {a : Assignment}
    {typed : Typed.Leaf} {name : String} (own : d.work.assignment? = some a)
    (located : (t.desk []).DraftAt frames id d) (completes : d.work.complete = .ok typed)
    (named : name ∈ a.names) :
    ∃ around ∈ frames.map Frame.id, (t.scopes.binding? around name).isSome = true := by
  have found {frame : Frame} {binding : Binding}
      (found : (t.desk []).Found frames name frame binding) :
      ∃ around ∈ frames.map Frame.id, (t.scopes.binding? around name).isSome = true := by
    obtain ⟨near, far, rfl, -, bound⟩ := found
    exact ⟨frame.id, by simp, Option.isSome_iff_exists.2 ⟨binding, bound⟩⟩
  obtain ⟨scope, work⟩ := d
  cases work with
  | declaration | returns | evaluation => simp [Work.assignment?] at own
  | assignment b awaited =>
    obtain rfl : b = a := Option.some.inj own
    have mentioned : name = b.target.root ∨
        name ∈ (Work.assignment b awaited).symbols.map (·.1) := by
      simpa [Assignment.names, Target.names, Expr.names, Work.symbols, Work.targetSymbols,
        Work.valueSymbols, Work.value?, or_assoc] using named
    rcases mentioned with rfl | symbols
    · obtain ⟨frame, binding, isRoot, -⟩ := located.placed
      exact found isRoot
    · obtain ⟨symbol, mem, rfl⟩ := List.mem_map.1 symbols
      have concrete : symbol.2.isConcrete = true := by
        have known := mem
        rw [(Work.symbols_complete completes).1] at known
        obtain ⟨_, -, rfl⟩ := List.mem_map.1 known
        simp
      obtain ⟨frame, binding, isFound, -⟩ := located.symbols symbol mem concrete
      exact found isFound

/-- If a file is finished although somebody waits for a name, the name has been overtaken. -/
theorem overtaken_of_waiting {loop : LoopCondition} {importer : Importer σ} {store : σ}
    {budget : Nat} {program : List Stmt} {outlines : List Outline} {typed : List Typed.Stmt}
    {name : String} {position : Position} (fresh : Stmt.areFresh program = true)
    (ends : Ends (analyze (Env.plain ⟨loop, false⟩ importer) program) (Checker.initial store budget)
      outlines t) (waits : t.scopes.firstWaiting? = some (name, position))
    (completes : t.complete outlines = .ok typed) :
    name ∉ Stmt.allDeclares program ∧ Stmt.Overtaken program name := by
  have analyzed := walk_program (gives_anyImport importer ⟨loop, false⟩) rfl fresh trivial ends
  simp only [analyze_eq, ends_bind] at ends
  obtain ⟨_, m, walks, finishes⟩ := ends
  obtain ⟨rfl, rfl, -⟩ := ends_finishFile finishes
  obtain ⟨stands, owned⟩ := stands_initial store budget
  have kept := kept_block ownersKept_runWave (.of_ends program walks) stands owned
  have start : Surrounded (Checker.initial store budget) Checker.root [] .top [] := by
    refine ⟨firm_initial store budget, stands, by simp, fun place mem apart => ?_⟩
    exact absurd (List.mem_singleton.1 mem) apart
  obtain ⟨checkSteps, sound⟩ :=
    start.checkSteps (madeOfSteps_checkBlock program Checker.root none (suits_firm fresh)) walks
  have sited : Sited (Stmt.blockAssignments false [] [] program) [] (Checker.initial store budget) m :=
    sited_block (.of_ends program walks) fresh (fun _ => rfl) start
  have manned : Manned m.scopes :=
    checkSteps.keep (P := fun s => Manned s.scopes) CheckStep.manned (manned_initial store budget)
  obtain ⟨place, waiter, waiting⟩ := Scopes.exists_waiter sound.tallied.tidy waits
  obtain ⟨id, errand⟩ := manned.names place name waiter waiting
  obtain ⟨d, here, awaits⟩ := sound.tallied.awaits_of_live (mem_live_of_waiter waiting) errand
  -- The draft that waits has a leaf, and stands at a place where all is known.
  have inside := (List.getElem?_eq_some_iff.1 here).1
  obtain ⟨frames, around, leaf, mirrored, ⟨e, there, located⟩, read⟩ :=
    finishedAt_of_complete analyzed completes (mem_leaves_of_draft walks inside)
  obtain rfl : d = e := Option.some.inj (here.symm.trans there)
  have finished : d.work.complete = .ok leaf := (completeLeaf_draft here).1 read
  cases own : d.work.assignment? with
  | none =>
    obtain ⟨_, _, _, faithful, looks, -⟩ := sound.tallied.drafts id d (by simp) here
    exact absurd finished (looks.stuck (faithful trivial) own awaits).unread
  | some a =>
    have assigns : d.work.shape = .assigns a.names := by
      cases isWork : d.work <;> simp_all [Work.shape, Work.assignment?]
    obtain ⟨site, mem, outer, ⟨-, ⟨work, again, same⟩, held⟩, -, only⟩ :=
      sited id d a.names (Nat.zero_le id) here assigns
    have isWork : d.work = work := congrArg Draft.work (Option.some.inj (here.symm.trans again))
    have names : a.names = site.names := by simpa [← isWork, assigns] using same
    have path := mirrored.ids_of_path located.here held.way
    obtain ⟨named, ⟨on, binding, bound, unknown⟩ | ⟨rfl, unbound, undeclared⟩⟩ :=
      held.reason place name waiter waiting name errand
    · obtain ⟨_, _, _, _, known⟩ := mirrored.declares (path ▸ on) bound
      simp [← known] at unknown
    · obtain ⟨scope, on, known⟩ := bound_of_complete own located finished (names ▸ named)
      have apart : scope ≠ 0 := by
        rintro rfl
        simp [unbound] at known
      refine ⟨fun declared => ?_, site, mem, named, undeclared,
        (only scope (path ▸ on) apart name known).resolve_left undeclared⟩
      have top := kept.bindsNames.bound name declared
      simp [Checker.root, unbound] at top

end Check

/-- If a name of a file is reported, the file lacks a type when names are not reported; or else it is
accepted then, the file does not declare the name, and some assignment of it has been overtaken: it
mentions the name before a block around it declares it. -/
theorem Registry.check_unreported (loop : LoopCondition) (fuel : Nat) (program : List Stmt)
    (name : String) (position : Position) (fresh : Stmt.areFresh program = true)
    (reported : (Registry.builtin.check ⟨loop, true⟩ fuel program).result =
      .error (.rejected ⟨.unresolvedReference name, position⟩)) :
    (∃ type place, (Registry.builtin.check ⟨loop, false⟩ fuel program).result =
      .error (.rejected ⟨.unresolvedType type, place⟩)) ∨
    (∃ output, (Registry.builtin.check ⟨loop, false⟩ fuel program).result = .ok output) ∧
      name ∉ Stmt.allDeclares program ∧ Stmt.Overtaken program name := by
  have stops := Check.halts_analyze (Registry.prepared_builtin fuel).serves ⟨loop, true⟩ fresh rfl fuel
  obtain ⟨halt, m, halts, closed | ⟨outlines, name', position', walks, waits, rfl⟩⟩ |
    ⟨outlines, t, ends, -⟩ := stops.cases
  case inl.inl =>
    rw [Registry.check, checkProgram_of_halts halts] at reported
    obtain rfl := Except.error.inj reported
    simp [Policy.unchanged, Halt.isOpen, Cause.isOpen] at closed
  case inr =>
    rw [Registry.check, checkProgram_of_ends ends] at reported
    cases completes : t.complete outlines with
    | ok typed => simp [completes, Except.map] at reported
    | error halt =>
      obtain ⟨type, place, rfl⟩ := Check.lacksType_complete fresh ends halt completes
      simp [completes, Except.map] at reported
  case inl.inr =>
    rw [Registry.check, checkProgram_of_halts halts] at reported
    obtain ⟨rfl, rfl⟩ : name' = name ∧ position' = position := by simpa using reported
    have ends := Check.ends_unreported walks
    simp only [Registry.check, checkProgram_of_ends ends]
    cases completes : Checker.complete _ outlines with
    | error halt =>
      obtain ⟨type, place, rfl⟩ := Check.lacksType_complete fresh ends halt completes
      exact .inl ⟨type, place, rfl⟩
    | ok typed =>
      exact .inr ⟨⟨_, rfl⟩, Check.overtaken_of_waiting fresh ends waits completes⟩

/-- Each of two functions returns what the other one does. -/
def pingPong : List Stmt :=
  [.function ⟨"ping", [("n", .number)], .unannotated, false, .nowhere⟩
      [.leaf (.returns ⟨some (.call (.symbol "pong" .unresolved) [.symbol "n" .unresolved]),
        .nowhere⟩)],
    .function ⟨"pong", [("n", .number)], .unannotated, false, .nowhere⟩
      [.leaf (.returns ⟨some (.call (.symbol "ping" .unresolved) [.symbol "n" .unresolved]),
        .nowhere⟩)]]

theorem pingPong_lacks_type :
    Stmt.areFresh pingPong = true ∧
      (Registry.builtin.check ⟨.boolean, true⟩ 20 pingPong).result =
        .error (.rejected ⟨.unresolvedReference "ping", Span.nowhere.start⟩) ∧
      ∃ type place, (Registry.builtin.check ⟨.boolean, false⟩ 20 pingPong).result =
        .error (.rejected ⟨.unresolvedType type, place⟩) := by
  have reported : (Registry.builtin.check ⟨.boolean, true⟩ 20 pingPong).result =
      .error (.rejected ⟨.unresolvedReference "ping", Span.nowhere.start⟩) := by cbv
  refine ⟨by decide, reported, (Registry.check_unreported .boolean 20 pingPong "ping" _ (by decide)
    reported).resolve_right ?_⟩
  rintro ⟨-, -, overtaken⟩
  exact absurd overtaken (by decide)

/-- The element to be assigned is chosen by a name that the function declares afterwards. The assignment
waits for `i` and for `g`; when `g` comes it finds both, and its deferral for `i` is left with the file. -/
def lateIndex : List Stmt :=
  [.function ⟨"h", [], .unannotated, false, .nowhere⟩
      [.leaf (.declare ⟨"a", false, .array [.number ⟨1⟩] .unresolved, .unannotated, .unannotated, false,
          .nowhere⟩),
        .leaf (.assign ⟨.index (.symbol "a") (.symbol "i" .unresolved) .unresolved, .set,
          .call (.symbol "g" .unresolved) [], .nowhere⟩),
        .leaf (.declare ⟨"i", false, .number ⟨0⟩, .unannotated, .unannotated, false, .nowhere⟩)],
    .function ⟨"g", [], .unannotated, false, .nowhere⟩
      [.leaf (.returns ⟨some (.number ⟨1⟩), .nowhere⟩)]]

def lateIndexTyped : List Typed.Stmt :=
  [.function ⟨"h", [], .void, false, .nowhere⟩
      [.leaf (.declare ⟨"a", false, .array [.number ⟨1⟩] (.array .number 1), .array .number 1, false,
          .nowhere⟩),
        .leaf (.assign ⟨.index (.symbol "a") (.symbol "i" .number) .number, .set,
          .call (.symbol "g" (.function [] .number)) [] .number, .nowhere⟩),
        .leaf (.declare ⟨"i", false, .number ⟨0⟩, .number, false, .nowhere⟩)],
    .function ⟨"g", [], .number, false, .nowhere⟩
      [.leaf (.returns (some (.number ⟨1⟩)) .nowhere)]]

/-- A file in which a name is reported is accepted if names are not reported. -/
theorem lateIndex_accepted_unreported :
    Stmt.areFresh lateIndex = true ∧
      (∀ type ∈ Stmt.allAnnotations lateIndex, type = .unannotated ∨ type.isConcrete = true) ∧
      Stmt.Overtaken lateIndex "i" ∧
      (Registry.builtin.check ⟨.literalTrue, true⟩ 20 lateIndex).result =
        .error (.rejected ⟨.unresolvedReference "i", Span.nowhere.start⟩) ∧
      (Registry.builtin.check ⟨.literalTrue, false⟩ 20 lateIndex).result =
        .ok ⟨lateIndexTyped, .empty⟩ :=
  ⟨by decide, by decide, by decide, by cbv, by cbv⟩

end Hoist
