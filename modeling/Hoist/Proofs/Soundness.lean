import Mathlib
import Hoist.Module.Registry
import Hoist.Proofs.Check.Finished

/-!
Soundness of checking. Whatever the options, the importer and its store: if a file is accepted,
every statement of the checked file is well typed where it stands.

A symbol has the type that stands on it, and what is above it must follow. Types that were found in
different waves of checking agree: returns with the result type of the function around them, and
assignments with what their target leads to from the type of a binding of its name.

Main statement: `checkProgram_wellTyped`.
-/
namespace Hoist

namespace Typed

/-- A simple statement is well typed where it stands. -/
def Leaf.WellTyped (place : Place) : Leaf → Prop
  | .declare declaration =>
    declaration.value.WellTyped ∧ declaration.value.type = declaration.type
  | .assign assignment => assignment.value.WellTyped ∧
      (∃ level entry, place.Declares level entry ∧ entry.name = assignment.target.root ∧
        assignment.target.Leads entry.type assignment.value.type) ∧
      (assignment.op ≠ .set → assignment.value.type = .number)
  | .returns none _ => place.result? = some .void
  | .returns (some value) _ => value.WellTyped ∧ place.result? = some value.type
  | .evaluate value _ => value.WellTyped
  | .breakLoop _ | .continueLoop _ => place.inLoop = true
  | .imports _ _ _ | .endOfFile => True

def Expr.Decides (condition : Expr) : Prop :=
  condition.WellTyped ∧ condition.type = .boolean

/-- Statements are well typed. -/
def wellTyped : Rule where
  leaf := Leaf.WellTyped
  condition _ := Expr.Decides
  loop _ := Expr.Decides
  head _ _ := True

end Typed

/-- The checked statement has come of the written one. A declaration has the type that was written,
if it is one. -/
def Leaf.Becomes : Leaf → Typed.Leaf → Prop
  | .declare d, .declare typed => typed.name = d.name ∧ typed.constant = d.constant ∧
      typed.exported = d.exported ∧ (d.written.isConcrete = true → typed.type.toTy = d.written)
  | .assign a, .assign typed => typed.target.root = a.target.root ∧ typed.op = a.op
  | .returns r, .returns value _ => value.isNone = r.value.isNone
  | .evaluate _, .evaluate _ _ => True
  | leaf, typed => typed.forget = leaf

namespace Check

open Desk

variable {σ : Type} {t : Checker Empty σ} {terms : Terms} {frames : List Frame}
  {place : Typed.Place}

/-! At a place. -/

/-- In the end a name that is bound on the way outwards is declared around the place. -/
theorem Mirrored.declares (mirrored : Mirrored t frames place) {id : ScopeId} {name : String}
    {binding : Binding} (mem : id ∈ frames.map Frame.id)
    (bound : t.scopes.binding? id name = some binding) :
    ∃ level entry, place.Declares level entry ∧ entry.name = name ∧
      entry.type.toTy = binding.type := by
  obtain ⟨frame, known, rfl⟩ := List.mem_map.1 mem
  have blocks : List.Forall₂ (fun block frame => Mirrors t frame block) place frames :=
    mirrored.blocks.flip
  obtain ⟨block, inside, mirrors⟩ := exists_of_forall₂ blocks known
  obtain ⟨level, here⟩ := List.mem_iff_getElem?.1 inside
  obtain ⟨entry, declared, rfl⟩ := List.mem_map.1 (mirrors.only name (by simp [bound]))
  obtain ⟨other, found, type, _⟩ := mirrors.keeps entry declared
  obtain rfl : binding = other := Option.some.inj (bound.symm.trans found)
  exact ⟨level, entry, ⟨block, here, declared⟩, rfl, type.symm⟩

/-- Frames with that scope in front are the way outwards from it. -/
theorem Mirrored.ids_of_path (mirrored : Mirrored t frames place) {scope : ScopeId}
    {outer : List ScopeId} (here : (frames.map Frame.id).head? = some scope)
    (path : t.scopes.Path (scope :: outer)) : frames.map Frame.id = scope :: outer := by
  obtain ⟨others, ids⟩ := List.head?_eq_some_iff.1 here
  have way := mirrored.path
  rw [ids] at way ⊢
  rw [way.unique path]

/-- The function around a scope is the one around the place. -/
theorem Mirrored.result? (mirrored : Mirrored t frames place) {scope body : ScopeId}
    {result : Ty} (here : (frames.map Frame.id).head? = some scope)
    (around : t.scopes.functionBody scope = .ok (some body))
    (known : t.scopes.result? body = some result) (set : result ≠ .unannotated) :
    ∃ type : ConcreteTy, place.result? = some type ∧ type.toTy = result := by
  obtain ⟨outer, ids⟩ := List.head?_eq_some_iff.1 here
  have path := mirrored.path
  rw [ids] at path
  rw [path.functionBody_eq, ← ids] at around
  have first := Except.ok.inj around
  have blocks := mirrored.blocks
  clear path ids here mirrored around
  induction blocks with
  | nil => simp at first
  | @cons frame block frames place mirrors _ ih =>
    rw [List.map_cons, List.find?_cons] at first
    cases isBody : decide (t.scopes.kind? frame.id = some .function) with
    | false =>
      have none_here : block.result = none := by
        simpa [mirrors.function] using isBody
      rw [isBody] at first
      obtain ⟨type, same, rfl⟩ := ih first
      exact ⟨type, by simpa [Typed.Place.result?, none_here] using same, rfl⟩
    | true =>
      rw [isBody] at first
      obtain rfl : frame.id = body := by simpa using first
      obtain ⟨type, same⟩ := Option.isSome_iff_exists.1 (mirrors.function.1 (by simpa using isBody))
      rcases mirrors.result type same with kept | unset
      · exact ⟨type, by simp [Typed.Place.result?, same],
          Option.some.inj (kept.symm.trans known)⟩
      · exact absurd (Option.some.inj (known.symm.trans unset)) set

theorem Mirrored.inLoop (mirrored : Mirrored t frames place)
    (inside : ∃ frame ∈ frames, t.scopes.kind? frame.id = some .loop) : place.inLoop = true := by
  obtain ⟨frame, mem, loop⟩ := inside
  have blocks : List.Forall₂ (fun block frame => Mirrors t frame block) place frames :=
    mirrored.blocks.flip
  obtain ⟨block, known, mirrors⟩ := exists_of_forall₂ blocks mem
  exact List.any_eq_true.2 ⟨block, known, mirrors.loop.1 loop⟩

/-! Simple statements. -/

/-- Types that are known are assigned only if they are the same. -/
theorem assignable_eq_ok {op : AssignOp} {target value : Ty}
    (agree : assignable op target value = .ok ()) (known : target.isPending = false)
    (known' : value.isPending = false) : (op ≠ .set → target = .number) ∧ target = value := by
  unfold assignable at agree
  split at agree
  · simp at agree
  · split at agree
    · simp at agree
    · simp_all

theorem wellTyped_assignment {id : DraftId} {scope : ScopeId} {a : Assignment}
    {awaited : List String} {typed : Typed.Leaf} (mirrored : Mirrored t frames place)
    (here : (frames.map Frame.id).head? = some scope) (idle : t.queue = [])
    (checked : (t.desk []).DraftChecked id ⟨scope, .assignment a awaited⟩)
    (completes : a.complete = .ok typed) : typed.WellTyped place := by
  obtain ⟨⟨view, target, value, targetType, valueType, faithful, faithful', lookTarget, look, agree,
    waits, provides⟩, live⟩ := checked
  simp only [Assignment.complete, bind_eq_ok, pure_eq_ok] at completes
  obtain ⟨typedTarget, readTarget, typedValue, read, rfl⟩ := completes
  obtain ⟨well, type⟩ := Expr.resolve_ofExpr faithful' look read
  have known : valueType.isPending = false := by
    simp [← type, Ty.isPending, Ty.pendingOn_eq_none_of_isConcrete]
  -- A bare name that is still pending would have a waiter, and hence a type that is not known.
  have settled : targetType.isPending = false := by
    cases pending : targetType.isPending with
    | false => rfl
    | true =>
      have bare := Target.unread_of_pending faithful lookTarget pending readTarget
      have sameKind := Target.resolve_isSymbol view target
      rw [lookTarget] at sameKind
      rcases live (waits (sameKind.trans bare) pending) with queued | waiting
      · simp [Checker.desk, idle] at queued
      · obtain ⟨outer, owner, binding, path, mem, bound, unknown, _⟩ := waiting
        obtain ⟨_, _, _, _, type⟩ := mirrored.declares (mirrored.ids_of_path here path ▸ mem) bound
        simp [← type] at unknown
  obtain ⟨root, concrete, seen, leads, rfl⟩ | ⟨_, pending⟩ :=
    Target.resolve_ofTarget faithful lookTarget readTarget
  · have sameRoot : a.target.root = typedTarget.root := by
      rw [← Typed.Target.toTarget_ofTarget readTarget, Typed.Target.root_toTarget]
    obtain ⟨outer, owner, binding, path, mem, bound, same⟩ :=
      provides root.toTy (by rwa [sameRoot]) (by simp)
    obtain ⟨level, entry, declares, name, rootType⟩ :=
      mirrored.declares (mirrored.ids_of_path here path ▸ mem) bound
    obtain rfl : entry.type = root := ConcreteTy.toTy_injective (rootType.trans same)
    obtain ⟨number, same⟩ := assignable_eq_ok agree settled known
    obtain rfl : typedValue.type = concrete := ConcreteTy.toTy_injective (type.trans same.symm)
    exact ⟨well, ⟨level, entry, declares, name.trans sameRoot, leads⟩, fun computes =>
      ConcreteTy.toTy_injective (b := .number) (number computes)⟩
  · simp [settled] at pending

theorem wellTyped_return {scope : ScopeId} {r : Return} {typed : Typed.Leaf}
    (mirrored : Mirrored t frames place) (here : (frames.map Frame.id).head? = some scope)
    (checked : (t.desk []).Returned scope r) (completes : r.complete = .ok typed) :
    typed.WellTyped place := by
  obtain ⟨body, result, around, known, set, returns⟩ := checked
  obtain ⟨type, same, rfl⟩ := mirrored.result? here around known set
  cases given : r.value with
  | none =>
    obtain rfl : Typed.Leaf.returns none r.span = typed := by
      simpa [Return.complete, given] using completes
    rw [given] at returns
    obtain rfl : type = .void := ConcreteTy.toTy_injective (b := .void) returns
    exact same
  | some value =>
    simp only [Return.complete, given, bind_eq_ok, pure_eq_ok] at completes
    obtain ⟨typedValue, read, rfl⟩ := completes
    rw [given] at returns
    obtain ⟨found, seen, agrees⟩ := returns
    obtain ⟨well, rfl⟩ := seen.read read
    rcases agrees with pending | agrees
    · simp [Ty.isPending, Ty.pendingOn_eq_none_of_isConcrete] at pending
    · exact ⟨well, same.trans (congrArg some (ConcreteTy.toTy_injective agrees))⟩

theorem wellTyped_leaf (sound : (t.desk []).Sound) (idle : t.queue = []) {leaf : OutlineLeaf}
    {typed : Typed.Leaf} (mirrored : Mirrored t frames place)
    (located : (t.desk []).LeafAt terms frames leaf) (completes : t.completeLeaf leaf = .ok typed) :
    typed.WellTyped place := by
  cases leaf with
  | plain leaf =>
    obtain rfl : leaf = typed := by simpa [Checker.completeLeaf] using completes
    cases leaf with
    | breakLoop | continueLoop => exact mirrored.inLoop located
    | imports | endOfFile => trivial
    | declare | assign | returns | evaluate => exact located.elim
  | draft id =>
    obtain ⟨d, found, located⟩ := located
    have drafted : t.drafts[id]? = some d := found
    rw [completeLeaf_draft drafted] at completes
    have checked := sound.drafts id d found
    obtain ⟨scope, work⟩ := d
    cases work with
    | declaration d =>
      simp only [Work.complete, Declaration.complete, bind_eq_ok, pure_eq_ok] at completes
      obtain ⟨type, known, value, read, rfl⟩ := completes
      obtain ⟨well, same⟩ := checked.1.1.read read
      exact ⟨well, ConcreteTy.toTy_injective (same.trans (ConcreteTy.toTy_ofTy known).symm)⟩
    | assignment a awaited =>
      exact wellTyped_assignment mirrored located.here idle checked completes
    | returns r => exact wellTyped_return mirrored located.here checked completes
    | evaluation e =>
      simp only [Work.complete, Evaluation.complete, bind_eq_ok, pure_eq_ok] at completes
      obtain ⟨value, read, rfl⟩ := completes
      obtain ⟨type, seen⟩ := checked
      exact (seen.read read).1

theorem follows_wellTyped (sound : (t.desk []).Sound) (idle : t.queue = []) :
    Follows t terms Typed.wellTyped where
  leaf mirrored located completes := wellTyped_leaf sound idle mirrored located completes
  condition _ located := ⟨located.well, located.boolean⟩
  loop _ located _ := ⟨located.well, located.boolean⟩
  head _ _ _ _ := trivial

/-! What was written. -/

theorem leaf_becomes (sound : (t.desk []).Sound) {content : Leaf} {leaf : OutlineLeaf}
    {typed : Typed.Leaf} (outlined : (t.desk []).Outlined content leaf)
    (completes : t.completeLeaf leaf = .ok typed) : content.Becomes typed := by
  cases leaf with
  | plain leaf =>
    obtain rfl : leaf = typed := by simpa [Checker.completeLeaf] using completes
    obtain rfl : leaf.forget = content := by cases content <;> exact outlined
    cases leaf with
    | declare d => exact ⟨rfl, rfl, rfl, fun _ => rfl⟩
    | assign a => exact ⟨(Typed.Target.root_toTarget a.target).symm, rfl⟩
    | returns value => simp [Leaf.Becomes, Typed.Leaf.forget]
    | evaluate => trivial
    | breakLoop | continueLoop | imports | endOfFile => rfl
  | draft id =>
    cases content with
    | breakLoop | continueLoop | imports | endOfFile => exact outlined.elim
    | declare written =>
      obtain ⟨⟨scope, work⟩, found, head⟩ := outlined
      rw [completeLeaf_draft found] at completes
      cases work <;> simp only [Work.head, reduceCtorEq, Work.Head.declaration.injEq] at head
      case declaration d =>
        simp only [Work.complete, Declaration.complete, bind_eq_ok, pure_eq_ok] at completes
        obtain ⟨type, known, value, read, rfl⟩ := completes
        obtain ⟨name, constant, same, exported⟩ := head
        refine ⟨name, constant, exported, fun concrete => ?_⟩
        have type_eq := ConcreteTy.toTy_ofTy known
        rcases (sound.drafts id _ found).1.2 (same ▸ concrete) with pending | agrees
        · simp [← type_eq, Ty.isPending, Ty.pendingOn_eq_none_of_isConcrete] at pending
        · rw [type_eq, ← agrees, same]
    | assign written =>
      obtain ⟨⟨scope, work⟩, found, head⟩ := outlined
      rw [completeLeaf_draft found] at completes
      cases work <;> simp only [Work.head, reduceCtorEq, Work.Head.assignment.injEq] at head
      case assignment a awaited =>
        simp only [Work.complete, Assignment.complete, bind_eq_ok, pure_eq_ok] at completes
        obtain ⟨target, read, value, _, rfl⟩ := completes
        refine ⟨?_, head.2.2⟩
        rw [← head.1, ← Typed.Target.toTarget_ofTarget read, Typed.Target.root_toTarget]
    | returns written =>
      obtain ⟨⟨scope, work⟩, found, head⟩ := outlined
      rw [completeLeaf_draft found] at completes
      cases work <;> simp only [Work.head, reduceCtorEq, Work.Head.returns.injEq] at head
      case returns r =>
        simp only [Work.complete, Return.complete] at completes
        split at completes
        · obtain rfl : Typed.Leaf.returns none r.span = typed := by simpa using completes
          simpa [Leaf.Becomes, *] using head
        · simp only [bind_eq_ok, pure_eq_ok] at completes
          obtain ⟨_, _, rfl⟩ := completes
          simpa [Leaf.Becomes, *] using head
    | evaluate written =>
      obtain ⟨⟨scope, work⟩, found, head⟩ := outlined
      rw [completeLeaf_draft found] at completes
      cases work <;> simp only [Work.head, reduceCtorEq] at head
      case evaluation e =>
        simp only [Work.complete, Evaluation.complete, bind_eq_ok, pure_eq_ok] at completes
        obtain ⟨_, _, rfl⟩ := completes
        trivial

end Check

/-- Every statement of an accepted file is well typed where it stands, and the file is the one that
was written: each simple statement has come of one, in the same order, and each declaration has the
type that was written for it. -/
theorem checkProgram_wellTyped {σ : Type} (importer : Importer σ) (options : Options) (budget : Nat)
    (store : σ) (program : List Stmt) (output : Output) (fresh : Stmt.areFresh program = true)
    (accepted : (checkProgram importer options budget store program).result = .ok output) :
    Typed.Everywhere Typed.wellTyped output.typed ∧
      List.Forall₂ Leaf.Becomes (Stmt.allLeaves program) (Typed.Tree.allLeaves output.typed) := by
  obtain ⟨outlines, t, analyzed, completes⟩ := Check.analyzed_of_accepted fresh accepted
  have sound := analyzed.ready.sound
  refine ⟨Check.everywhere_of_follows analyzed completes
    (Check.follows_wellTyped sound analyzed.ready.queue), ?_⟩
  exact forall₂_trans analyzed.leaves (Typed.Tree.allLeaves_complete completes)
    fun _ _ _ outlined completes => Check.leaf_becomes sound outlined completes

/-- A declaration that calls a function below it, whose result type is found at its `return`. -/
def callBefore : List Stmt :=
  [.leaf (.declare ⟨"x", true, .call (.symbol "f" .unresolved) [.boolean true], .string 1,
      .unannotated, false, .nowhere⟩),
    .function ⟨"f", [("y", .boolean)], .unannotated, false, .nowhere⟩
      [.branch (.symbol "y" .unresolved)
        [.leaf (.assign ⟨.symbol "y", .set, .unary .not (.symbol "y" .unresolved), .nowhere⟩)]
        .nowhere,
        .leaf (.returns ⟨some (.string "s"), .nowhere⟩)]]

def callBeforeTyped : List Typed.Stmt :=
  [.leaf (.declare ⟨"x", true, .call (.symbol "f" (.function [("y", .boolean)] (.string 1)))
      [.boolean true] (.string 1), .string 1, false, .nowhere⟩),
    .function ⟨"f", [("y", .boolean)], .string 1, false, .nowhere⟩
      [.branch (.symbol "y" .boolean)
        [.leaf (.assign ⟨.symbol "y", .set, .unary .not (.symbol "y" .boolean) .boolean, .nowhere⟩)]
        .nowhere .done,
        .leaf (.returns (some (.string "s")) .nowhere)]]

theorem callBefore_wellTyped :
    (Registry.builtin.check .standard 9 callBefore).result = .ok ⟨callBeforeTyped, .empty⟩ ∧
      Typed.Everywhere Typed.wellTyped callBeforeTyped ∧
      List.Forall₂ Leaf.Becomes (Stmt.allLeaves callBefore)
        (Typed.Tree.allLeaves callBeforeTyped) := by
  have accepted : (Registry.builtin.check .standard 9 callBefore).result =
      .ok ⟨callBeforeTyped, .empty⟩ := by cbv
  exact ⟨accepted, checkProgram_wellTyped (Registry.importer 9) .standard 9 .builtin callBefore
    ⟨callBeforeTyped, .empty⟩ (by decide) accepted⟩

end Hoist
