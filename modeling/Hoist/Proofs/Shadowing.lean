import Mathlib
import Hoist.Module.Registry
import Hoist.Proofs.Check.Arrivals
import Hoist.Proofs.Check.DraftsKept
import Hoist.Proofs.Wakeup

/-!
Declarations that mention the name they declare. When such a declaration is checked for the first
time the name means what it means around it; as soon as it is bound the name means the declaration
itself, whose type is what is looked for.

Main statement: such a declaration finds its type at once or never (`checkProgram_shadows`).
-/
namespace Hoist

/-- A slot is still empty, so the type is pending. -/
theorem Expr.Seen.isPending_of_empty {value : Expr} {type : Ty} (seen : value.Seen type)
    {symbol : String × Ty} (mem : symbol ∈ value.symbols) (empty : symbol.2.isConcrete = false) :
    type.isPending = true := by
  refine seen.settles.resolve_right ?_
  rintro ⟨typed, -, rfl, -⟩
  rw [Typed.Expr.symbols_toExpr] at mem
  obtain ⟨_, -, rfl⟩ := List.mem_map.1 mem
  simp at empty

/-- The value of a declaration mentions the declared name and has no type for it. -/
def Declaration.LacksItself (d : Declaration) : Prop :=
  ∃ symbol ∈ d.value.symbols, symbol.1 = d.name ∧ symbol.2.isConcrete = false

/-- The first look finds no type for the name. -/
theorem Declaration.lacksItself_of_look {d : Declaration} {view : View} {type : Ty} {value : Expr}
    (fresh : d.value.isFresh = true) (mentions : d.name ∈ d.value.names)
    (unknown : view.knows d.name = false)
    (look : d.value.resolve view = (.ok type, value)) :
    { d with value, type }.LacksItself := by
  have keeps := Expr.resolve_keeps view d.value
  rw [look] at keeps
  obtain ⟨⟨name, slot⟩, mem, rfl⟩ := List.mem_map.1 mentions
  obtain ⟨after, here, same, stays | ⟨-, known, found⟩⟩ := exists_of_forall₂ keeps.flip mem
  · refine ⟨after, here, same, ?_⟩
    rw [stays]
    exact Expr.empty_of_isFresh fresh _ mem
  · simp [View.knows, found, known] at unknown

namespace Desk

/-- Nobody ever fills the slot of a declaration's own name. -/
theorem Redrafts.lacksItself {s t : Desk} {scope : ScopeId} {d : Declaration} {after : Draft}
    (redrafts : s.Redrafts t ⟨scope, .declaration d⟩ after) (lacks : d.LacksItself) :
    ∃ e, after = ⟨scope, .declaration e⟩ ∧ e.name = d.name ∧ e.LacksItself := by
  obtain ⟨place, work⟩ := after
  obtain ⟨rfl, head, -, value⟩ := redrafts
  cases work with
  | declaration e =>
    simp only [Work.head, Work.Head.declaration.injEq] at head
    obtain ⟨symbol, mem, own, empty⟩ := lacks
    obtain ⟨later, here, same, stays | ⟨-, -, other, -⟩⟩ := exists_of_forall₂ value.flip mem
    · exact ⟨e, rfl, head.1, later, here, by rw [same, own, head.1], by rw [stays, empty]⟩
    · simp [Work.declares, own] at other
  | assignment | returns | evaluation => simp [Work.head] at head

end Desk

namespace Check

open Desk

variable {σ : Type} {kept : σ → Prop} {s t : Checker Empty σ} {frames : List Frame}
  {scope : ScopeId} {d : Declaration} {id : DraftId}

/-- What a declaration leaves behind when it is checked for the first time. -/
theorem drafted_declaration {importer : Importer σ} {options : Options} {leaf : OutlineLeaf}
    (ready : Ready kept s frames) (here : (frames.map Frame.id).head? = some scope)
    (fresh : d.value.isFresh = true)
    (run : LeafRun (Env.plain options importer) scope (.declare d) s leaf t) :
    ∃ (id : DraftId) (type : Ty) (value : Expr),
      d.value.resolve (s.scopes.view scope) = (.ok type, value) ∧
      t.drafts[id]? = some ⟨scope, .declaration { d with value, type }⟩ ∧
      t.scopes.binding? scope d.name = some (Declaration.binding { d with value, type }) := by
  cases run with | @declare _ type value after _ _ _ _ _ _ _ _ look typed defines settles adds waits
  obtain ⟨rfl, rfl⟩ := ends_addDraft.1 adds
  obtain ⟨same, agrees⟩ := Declaration.withType_eq_ok typed
  have checked : after.Checked := by
    rw [same]
    exact ⟨⟨d.value, _, Expr.faithful_of_isFresh fresh, look⟩, agrees⟩
  have binds := binds_define ready here defines settles
  obtain ⟨reaches, found, -⟩ :=
    reaches_addDeclaration binds.reaches.ready checked binds.free binds.bound waits
  have bound := (reaches.ready.sound.drafts _ _ found).2
  rw [same] at found bound
  exact ⟨_, type, value, look, found, bound⟩

/-- A declaration of the name in the scope waits for its type. -/
def Unsettled (t : Checker Empty σ) (scope : ScopeId) (name : String) : Prop :=
  ∃ (id : DraftId) (d : Declaration), t.drafts[id]? = some ⟨scope, .declaration d⟩ ∧
    d.name = name ∧ ∃ awaited place on, ∃ waiter ∈ t.scopes.waiters place on,
      waiter.work.core = .resume id awaited

section Run

variable {importer : Importer σ} {options : Options} {budget : Nat} {store : σ}
  {program : List Stmt} {outlines : List Outline} {a : Arrival Empty σ}
  (fresh : Stmt.areFresh program = true)
  (arrives : a ∈ arrivals (Env.plain options importer) Checker.root none program
    (Checker.initial store budget))
  (declares : a.leaf = .declare d)
  (walks : Ends (checkBlock (Env.plain options importer) Checker.root none program)
    (Checker.initial store budget) outlines t)

include fresh walks in
theorem walked_program :
    Walked (anyImport options) (fun _ => True) Checker.root [⟨0, []⟩]
      (Checker.initial store budget) 0 [] (Stmt.allLeaves program) outlines none t :=
  walk_block (gives_anyImport importer options) rfl (.of_ends program walks) fresh
    (ready_initial trivial budget) rfl (openAt_none _ _ _)

include fresh arrives declares walks

/-- The declaration as it was drafted at first, and what has been kept of that. -/
theorem drafted_of_arrives :
    ∃ (id : DraftId) (type : Ty) (value : Expr) (m : Checker Empty σ),
      d.value.isFresh = true ∧
      d.value.resolve a.view = (.ok type, value) ∧
      m.drafts[id]? = some ⟨a.scope, .declaration { d with value, type }⟩ ∧
      m.scopes.binding? a.scope d.name = some (Declaration.binding { d with value, type }) ∧
      Evolves (m.desk []) (t.desk []) := by
  obtain ⟨frames, leaf, m, ready, here, isFresh, run, evolves⟩ :=
    passed_block (gives_anyImport importer options) rfl (.of_ends program walks) fresh
      (ready_initial trivial budget) rfl (openAt_none _ _ _) a arrives
  rw [declares] at run isFresh
  obtain ⟨id, type, value, look, found, bound⟩ := drafted_declaration ready here isFresh run
  exact ⟨id, type, value, m, isFresh, look, found, bound, evolves⟩

/-- If the name has no type around the declaration, the declaration never gets one. -/
theorem pending_of_unknown (mentions : d.name ∈ d.value.names)
    (unknown : a.view.knows d.name = false) :
    ∃ (id : DraftId) (e : Declaration), t.drafts[id]? = some ⟨a.scope, .declaration e⟩ ∧
      e.name = d.name ∧ e.type.isPending = true ∧
      t.scopes.binding? a.scope d.name = some e.binding := by
  obtain ⟨id, type, value, m, isFresh, look, found, -, evolves⟩ :=
    drafted_of_arrives fresh arrives declares walks
  obtain ⟨_, found, redrafts⟩ := evolves.draft id _ found
  obtain ⟨e, rfl, name, lacks⟩ :=
    redrafts.lacksItself (Declaration.lacksItself_of_look isFresh mentions unknown look)
  obtain ⟨⟨seen, -⟩, bound⟩ := (walked_program fresh walks).reaches.ready.sound.drafts id _ found
  obtain ⟨symbol, mem, -, empty⟩ := lacks
  exact ⟨id, e, found, name, seen.isPending_of_empty mem empty, name ▸ bound⟩

/-- If all names have types around the declaration, it has its type at once and keeps it. -/
theorem settled_of_known
    (known : ∀ name ∈ d.value.names, a.view.knows name = true) :
    ∃ binding, t.scopes.binding? a.scope d.name = some binding ∧ binding.type.isConcrete = true ∧
      (d.value.resolve a.view).1 = .ok binding.type := by
  obtain ⟨id, type, value, m, isFresh, look, -, bound, evolves⟩ :=
    drafted_of_arrives fresh arrives declares walks
  have faithful := Expr.faithful_of_isFresh isFresh
  have unblocked : a.view.firstBlocked d.value.symbols = none := by
    simp only [View.firstBlocked, Option.map_eq_none_iff, List.find?_eq_none]
    intro symbol mem
    simp [View.blocks, known symbol.1 (List.mem_map_of_mem mem)]
  have settled : type.isPending = false := by
    rw [← Ty.pendingOn_eq_none, ← unblocked]
    exact Expr.resolve_pendingOn _ faithful (congrArg Prod.fst look)
  have concrete : type.isConcrete = true :=
    (known_of_look faithful look).resolve_left (by simp [settled])
  obtain ⟨after, found, settles⟩ := evolves.binding _ _ _ bound
  have same : after.type = type := settles.known concrete
  exact ⟨after, found, same ▸ concrete, by rw [look, same]⟩

/-- A declaration that never gets its type has somebody who would look at it again. -/
theorem unsettled_of_unknown (mentions : d.name ∈ d.value.names)
    (unknown : a.view.knows d.name = false)
    (plain : Plainly (Stmt.allAnnotations program)) : Unsettled t a.scope d.name := by
  obtain ⟨id, e, found, name, pending, -⟩ :=
    pending_of_unknown fresh arrives declares walks mentions unknown
  obtain ⟨tallied, answered⟩ := answered_checkBlock fresh plain walks
  obtain ⟨awaited, waits⟩ := Option.isSome_iff_exists.1 (show e.type.pendingOn.isSome = true from pending)
  obtain ⟨place, on, waiter, mem, same⟩ := tallied.waiter answered
    (walked_program fresh walks).reaches.ready.queue found
    (show awaited ∈ e.type.pendingOn.toList by simp [waits])
  exact ⟨id, e, found, name, awaited, place, on, waiter, mem, same⟩

end Run

/-- A file in which a declaration never gets its type is not accepted. -/
theorem rejected_of_unknown {importer : Importer σ} {options : Options} {budget : Nat} {store : σ}
    {program : List Stmt} {output : Output} {a : Arrival Empty σ}
    (fresh : Stmt.areFresh program = true)
    (arrives : a ∈ arrivals (Env.plain options importer) Checker.root none program
      (Checker.initial store budget))
    (declares : a.leaf = .declare d) (mentions : d.name ∈ d.value.names)
    (unknown : a.view.knows d.name = false) :
    (checkProgram importer options budget store program).result ≠ .ok output := by
  intro accepted
  obtain ⟨outlines, t, ends, completes, -⟩ := exists_of_accepted accepted
  have analyzed := walk_program (gives_anyImport importer options) rfl fresh trivial ends
  simp only [analyze_eq, ends_bind] at ends
  obtain ⟨_, m, walks, finishes⟩ := ends
  obtain ⟨rfl, rfl, -⟩ := ends_finishFile finishes
  obtain ⟨id, e, found, -, pending, -⟩ :=
    pending_of_unknown fresh arrives declares walks mentions unknown
  have inside : id < m.drafts.length := (List.getElem?_eq_some_iff.1 found).1
  obtain ⟨_, _, leaf, -, -, read⟩ := finishedAt_of_complete analyzed completes
    (mem_leaves_of_draft walks inside)
  have finished : e.complete = .ok leaf := (completeLeaf_draft found).1 read
  simp only [Declaration.complete, bind_eq_ok] at finished
  obtain ⟨type, isType, -⟩ := finished
  rw [ConcreteTy.ofTy_eq_ok.1 isType] at pending
  simp at pending

end Check

open Check in
/-- A declaration that mentions its own name finds its type at once or never. If the name has no type
around the declaration when the checker comes to it, then the file is not accepted, and when all
statements have been checked the declaration still has no type and still waits, whatever has become
of the name around it. If all names that it mentions have types there, it has the type that they give
its value. -/
theorem checkProgram_shadows {σ : Type} (importer : Importer σ) (options : Options) (budget : Nat)
    (store : σ) (program : List Stmt) (fresh : Stmt.areFresh program = true) (a : Arrival Empty σ)
    (arrives : a ∈ arrivals (Env.plain options importer) Checker.root none program
      (Checker.initial store budget))
    (d : Declaration) (declares : a.leaf = .declare d) (mentions : d.name ∈ d.value.names) :
    (a.view.knows d.name = false →
      (∀ output, (checkProgram importer options budget store program).result ≠ .ok output) ∧
      ∀ outlines t, Ends (checkBlock (Env.plain options importer) Checker.root none program)
          (Checker.initial store budget) outlines t →
        (∃ binding, t.scopes.binding? a.scope d.name = some binding ∧
          binding.type.isPending = true) ∧
        ((∀ type ∈ Stmt.allAnnotations program, type = .unannotated ∨ type.isConcrete = true) →
          Unsettled t a.scope d.name)) ∧
    ((∀ name ∈ d.value.names, a.view.knows name = true) →
      ∀ outlines t, Ends (checkBlock (Env.plain options importer) Checker.root none program)
          (Checker.initial store budget) outlines t →
        ∃ binding, t.scopes.binding? a.scope d.name = some binding ∧
          binding.type.isConcrete = true ∧
          (d.value.resolve a.view).1 = .ok binding.type) := by
  refine ⟨fun unknown => ⟨fun output => ?_, fun outlines t walks => ⟨?_, fun plain => ?_⟩⟩,
    fun known outlines t walks => settled_of_known fresh arrives declares walks known⟩
  · exact rejected_of_unknown fresh arrives declares mentions unknown
  · obtain ⟨id, e, -, -, pending, bound⟩ :=
      pending_of_unknown fresh arrives declares walks mentions unknown
    exact ⟨e.binding, bound, pending⟩
  · exact unsettled_of_unknown fresh arrives declares walks mentions unknown plain

/-- A declaration that is given the value of a name. -/
def Declaration.copying (name source : String) : Declaration :=
  ⟨name, false, .symbol source .unresolved, .unannotated, .unannotated, false, .nowhere⟩

/-- Two names are hidden by copies of themselves. One of them waits for a function that comes
later, the other has its type. -/
def copies : List Stmt :=
  [.leaf (.declare ⟨"x", false, .call (.symbol "f" .unresolved) [], .unannotated, .unannotated,
      false, .nowhere⟩),
    .leaf (.declare ⟨"y", false, .number ⟨1⟩, .unannotated, .unannotated, false, .nowhere⟩),
    .branch (.boolean true)
      [.leaf (.declare (.copying "x" "x")), .leaf (.declare (.copying "y" "y"))] .nowhere,
    .function ⟨"f", [], .unannotated, false, .nowhere⟩
      [.leaf (.returns ⟨some (.number ⟨1⟩), .nowhere⟩)]]

section Copies

open Check

def copiesArrivals : List (Arrival Empty Registry) :=
  arrivals (Env.plain .standard (Registry.importer 20)) Checker.root none copies
    (Checker.initial .builtin 20)

set_option maxRecDepth 4000 in
theorem copies_arrive :
    (∃ a ∈ copiesArrivals, a.leaf = .declare (.copying "x" "x") ∧ a.view.knows "x" = false) ∧
      ∃ a ∈ copiesArrivals, a.leaf = .declare (.copying "y" "y") ∧ a.view.knows "y" = true := by
  generalize here : (copiesArrivals.map fun a =>
    (a.leaf, a.view.knows "x", a.view.knows "y")) = found
  have both : (found[2]?, found[3]?) = (some (.declare (.copying "x" "x"), false, true),
      some (.declare (.copying "y" "y"), false, true)) := by
    rw [← here]
    cbv
  have onX := List.mem_of_getElem? (Prod.mk.inj both).1
  have onY := List.mem_of_getElem? (Prod.mk.inj both).2
  simp only [← here, List.mem_map, Prod.mk.injEq] at onX onY
  obtain ⟨a, onA, isA, unknown, -⟩ := onX
  obtain ⟨b, onB, isB, -, known⟩ := onY
  exact ⟨⟨a, onA, isA, unknown⟩, b, onB, isB, known⟩

set_option maxRecDepth 4000 in
theorem copies_ends : ∃ outlines t,
    Ends (checkBlock (Env.plain .standard (Registry.importer 20)) Checker.root none copies)
      (Checker.initial .builtin 20) outlines t := by
  generalize run : (checkBlock (Env.plain .standard (Registry.importer 20)) Checker.root none
    copies).run (Checker.initial .builtin 20) = ran
  have isOk : ran.1.isOk = true := by
    rw [← run]
    cbv
  obtain ⟨halt | outlines, t⟩ := ran
  · simp [Except.isOk, Except.toBool] at isOk
  · exact ⟨outlines, t, run⟩

theorem copies_shadow :
    (∀ output, (Registry.builtin.check .standard 20 copies).result ≠ .ok output) ∧
      ∃ outlines t place place',
        Ends (checkBlock (Env.plain .standard (Registry.importer 20)) Checker.root none copies)
          (Checker.initial .builtin 20) outlines t ∧
        (∃ binding, t.scopes.binding? place "x" = some binding ∧ binding.type.isPending = true) ∧
        Unsettled t place "x" ∧
        ∃ binding, t.scopes.binding? place' "y" = some binding ∧
          binding.type.isConcrete = true := by
  obtain ⟨⟨a, onA, isA, unknown⟩, b, onB, isB, known⟩ := copies_arrive
  obtain ⟨outlines, t, walks⟩ := copies_ends
  have fresh : Stmt.areFresh copies = true := by cbv
  have plain : ∀ type ∈ Stmt.allAnnotations copies, type = .unannotated ∨ type.isConcrete = true := by
    intro type mem
    refine .inl ?_
    simpa [copies, Declaration.copying, Stmt.allAnnotations, Stmt.annotations, Leaf.annotations]
      using mem
  obtain ⟨rejected, later⟩ := (checkProgram_shadows (Registry.importer 20) .standard 20 .builtin
    copies fresh a onA _ isA (by simp [Declaration.copying, Expr.names, Expr.symbols])).1 unknown
  obtain ⟨binding, bound, concrete, -⟩ := (checkProgram_shadows (Registry.importer 20) .standard 20
    .builtin copies fresh b onB _ isB (by simp [Declaration.copying, Expr.names, Expr.symbols])).2
    (by simpa [Declaration.copying, Expr.names, Expr.symbols] using known) outlines t walks
  exact ⟨rejected, outlines, t, a.scope, b.scope, walks, (later outlines t walks).1,
    (later outlines t walks).2 plain, binding, bound, concrete⟩

end Copies

/-- The first of the two, alone. -/
def lateCopy : List Stmt :=
  [.leaf (.declare ⟨"x", false, .call (.symbol "f" .unresolved) [], .unannotated, .unannotated,
      false, .nowhere⟩),
    .branch (.boolean true) [.leaf (.declare (.copying "x" "x"))] .nowhere,
    .function ⟨"f", [], .unannotated, false, .nowhere⟩
      [.leaf (.returns ⟨some (.number ⟨1⟩), .nowhere⟩)]]

def lateCopyChecked : Checker Empty Registry :=
  (analyzeProgram (Registry.importer 20) ⟨.literalTrue, false⟩ 20 .builtin lateCopy).2

set_option maxRecDepth 4000 in
/-- The copy has no type and waits for one, although in the end the name that it copies is a
number. -/
theorem lateCopy_untyped :
    lateCopyChecked.scopes.binding? Checker.root "x" = some ⟨"x", .number, false, false⟩ ∧
    lateCopyChecked.scopes.binding? 1 "x" = some ⟨"x", .pending "x", false, false⟩ ∧
    lateCopyChecked.scopes.firstWaiting? = some ("x", .nowhere) ∧
    (Registry.builtin.check ⟨.literalTrue, false⟩ 20 lateCopy).result =
      .error (.rejected ⟨.unresolvedType "<pending on x>", .nowhere⟩) ∧
    (Registry.builtin.check ⟨.literalTrue, true⟩ 20 lateCopy).result =
      .error (.rejected ⟨.unresolvedReference "x", .nowhere⟩) := by
  have state : (lateCopyChecked.scopes.binding? Checker.root "x",
      lateCopyChecked.scopes.binding? 1 "x", lateCopyChecked.scopes.firstWaiting?) =
      (some ⟨"x", .number, false, false⟩, some ⟨"x", .pending "x", false, false⟩,
        some ("x", .nowhere)) := by
    cbv
  simp only [Prod.mk.injEq] at state
  exact ⟨state.1, state.2.1, state.2.2, by cbv, by cbv⟩

end Hoist
