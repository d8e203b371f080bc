import Hoist.Proofs.Placement
import Hoist.Proofs.Preservation

/-!
The exports of a file. Their table is read off the checked statements, while the file itself goes by
the bindings of its scope, and the two are changed one by one while it is checked.

Main statement: in the end the table and the scope of the file say the same
(`checkProgram_exports`).
-/
namespace Hoist

namespace Table

variable {α : Type}

theorem put_of_not_mem {name : String} {value : α} {entries : List (String × α)}
    (new : name ∉ entries.map (·.1)) : put name value entries = entries ++ [(name, value)] := by
  induction entries with
  | nil => rfl
  | cons entry rest ih =>
    obtain ⟨other, old⟩ := entry
    simp only [List.map_cons, List.mem_cons, not_or] at new
    rw [put, if_neg (Ne.symm new.1), ih new.2, List.cons_append]

/-- Entries with distinct names all keep their place. -/
theorem entries_ofList {entries : List (String × α)} (distinct : (entries.map (·.1)).Nodup) :
    (ofList entries).entries = entries := by
  have onto (entries : List (String × α)) (table : Table α)
      (distinct : ((table.entries ++ entries).map (·.1)).Nodup) :
      (entries.foldl (fun table entry => table.insert entry.1 entry.2) table).entries =
        table.entries ++ entries := by
    induction entries generalizing table with
    | nil => simp
    | cons entry rest ih =>
      have new : entry.1 ∉ table.entries.map (·.1) := by
        simp only [List.map_append, List.map_cons, List.nodup_append] at distinct
        exact fun mem => distinct.2.2 _ mem _ List.mem_cons_self rfl
      have after : (table.insert entry.1 entry.2).entries = table.entries ++ [entry] :=
        put_of_not_mem new
      rw [List.foldl_cons, ih _ (by simpa [after] using distinct), after]
      simp
  exact onto entries empty distinct

end Table

theorem Scopes.lookupLocal_eq_some {δ : Type} {scopes : Scopes δ} {id : ScopeId} {name : String}
    {binding : Binding} : scopes.lookupLocal id name = .ok (some binding) ↔
      scopes.binding? id name = some binding := by
  unfold lookupLocal get binding?
  cases scopes.all[id]? <;> simp [bind, Except.bind, pure, Except.pure]

/-! Names that are exported, in the text of a file and in what was checked. -/

theorem Stmt.allExports_sublist (stmts : List Stmt) :
    (allExports stmts).Sublist (allDeclares stmts) := by
  induction stmts with
  | nil => exact .slnil
  | cons stmt rest ih =>
    refine List.Sublist.append ?_ ih
    cases stmt with
    | branch | elseIf | otherwise | loop => exact .slnil
    | function signature => simp only [exports, declares]; split <;> simp
    | leaf content =>
      cases content with
      | declare d => simp only [exports, declares, Leaf.exports, Leaf.declares]; split <;> simp
      | imports | assign | breakLoop | continueLoop | returns | evaluate | endOfFile =>
        exact List.nil_sublist _

theorem Stmt.allExports_eraseAll (stmts : List Stmt) :
    allExports (eraseAll stmts) = allExports stmts := by
  induction stmts with
  | nil => rfl
  | cons stmt rest ih =>
    have same : stmt.erase.exports = stmt.exports := by
      cases stmt with
      | leaf content => cases content <;> rfl
      | branch | elseIf | otherwise | loop | function => rfl
    rw [eraseAll, allExports, List.flatMap_cons, same]
    exact congrArg (stmt.exports ++ ·) ih

namespace Typed

theorem Stmt.allExports_forgetChain (chain : Chain Leaf Signature) :
    Hoist.Stmt.allExports (Stmt.forgetChain chain) = [] := by
  cases chain with
  | done => rfl
  | otherwise => rfl
  | elseIf condition body span rest => exact Stmt.allExports_forgetChain rest

theorem Stmt.allExports_forgetAll (typed : List Stmt) :
    Hoist.Stmt.allExports (Stmt.forgetAll typed) = (typed.filterMap Output.exportOf).map (·.1) := by
  induction typed with
  | nil => rfl
  | cons stmt rest ih =>
    have here : Hoist.Stmt.allExports (Stmt.forget stmt) = (Output.exportOf stmt).toList.map (·.1) := by
      cases stmt with
      | leaf content =>
        cases content with
        | declare d =>
          obtain ⟨name, constant, value, type, exported, span⟩ := d
          cases exported <;> rfl
        | assign | breakLoop | continueLoop | returns | imports | evaluate | endOfFile => rfl
      | branch _ _ _ rest => exact Stmt.allExports_forgetChain rest
      | loop => rfl
      | function signature =>
        obtain ⟨name, parameters, result, exported, span⟩ := signature
        cases exported <;> rfl
    rw [Stmt.forgetAll, Hoist.Stmt.allExports, List.flatMap_append]
    rw [Hoist.Stmt.allExports] at here ih
    rw [here, ih, List.filterMap_cons]
    cases Output.exportOf stmt <;> rfl

end Typed

theorem Typed.Tree.mem_completeAll {α β φ ψ ε : Type} {onLeaf : α → Except ε β}
    {onHead : φ → Except ε ψ} {trees : List (Tree α φ)} {completed : List (Tree β ψ)}
    (completes : completeAll onLeaf onHead trees = .ok completed) {tree : Tree β ψ}
    (mem : tree ∈ completed) : ∃ before ∈ trees, before.complete onLeaf onHead = .ok tree := by
  induction trees generalizing completed with
  | nil =>
    obtain rfl : [] = completed := by simpa [completeAll] using completes
    simp at mem
  | cons first rest ih =>
    simp only [completeAll, bind_eq_ok, pure_eq_ok] at completes
    obtain ⟨here, readFirst, others, readOthers, rfl⟩ := completes
    rcases List.mem_cons.1 mem with rfl | mem
    · exact ⟨first, List.mem_cons_self, readFirst⟩
    · obtain ⟨before, mem, read⟩ := ih readOthers mem
      exact ⟨before, List.mem_cons_of_mem _ mem, read⟩

namespace Check

variable {σ : Type} {t : Checker Empty σ} {scope : ScopeId} {name : String} {type : ConcreteTy}

/-- What a scope binds to a name that is exported with a type. -/
def ExportedIn (t : Checker Empty σ) (scope : ScopeId) (name : String) (type : ConcreteTy) : Prop :=
  ∃ binding, t.scopes.binding? scope name = some binding ∧ binding.type = type.toTy ∧
    binding.exported = true

theorem exportedIn_declaration {id : DraftId} {d : Draft} {typed : Typed.Leaf}
    (owned : (t.desk []).Owned) (found : t.drafts[id]? = some d) (stands : d.scope = scope)
    (completes : d.work.complete = .ok typed)
    (exports : Output.exportOf (.leaf typed) = some (name, type)) : ExportedIn t scope name type := by
  have same := Work.forget_complete completes
  obtain ⟨place, work⟩ := d
  obtain rfl : place = scope := stands
  cases typed with
  | assign | breakLoop | continueLoop | returns | imports | evaluate | endOfFile =>
    simp [Output.exportOf] at exports
  | declare typed =>
    cases work with
    | assignment | returns | evaluation => simp [Typed.Leaf.forget, Work.leaf] at same
    | declaration e =>
      simp only [Typed.Leaf.forget, Typed.Declaration.forget, Work.leaf, Leaf.declare.injEq,
        Declaration.mk.injEq] at same
      obtain ⟨sameName, -, -, -, sameType, sameExported, -⟩ := same
      simp only [Output.exportOf, Option.ite_none_right_eq_some, Option.some.injEq,
        Prod.mk.injEq] at exports
      obtain ⟨exported, rfl, rfl⟩ := exports
      have bound := owned.declared id place e found
      exact ⟨e.binding, sameName ▸ bound, sameType.symm, sameExported.symm.trans exported⟩

theorem exportedIn_head {id : SignatureId} {h : SignatureDraft} {typed : Typed.Signature}
    {body : List Typed.Stmt} (owned : (t.desk []).Owned) (found : t.signatures[id]? = some h)
    (stands : h.scope = scope) (completes : h.signature.complete = .ok typed)
    (exports : Output.exportOf (.function typed body) = some (name, type)) :
    ExportedIn t scope name type := by
  have same := Signature.forget_complete completes
  obtain ⟨place, inner, signature⟩ := h
  obtain rfl : place = scope := stands
  obtain ⟨result, bound, known⟩ := owned.headed id _ found
  simp only [Output.exportOf, Option.ite_none_right_eq_some, Option.some.injEq,
    Prod.mk.injEq] at exports
  obtain ⟨exported, rfl, rfl⟩ := exports
  simp only at same
  subst same
  obtain rfl := known typed.result.isConcrete_toTy
  exact ⟨_, bound, rfl, exported⟩

/-- An outline of a scope that exports something has bound it there. -/
theorem exportedIn_of_complete {outline : Outline} {typed : Typed.Stmt} (owned : (t.desk []).Owned)
    (own : StandsIn t scope outline)
    (completes : outline.complete t.completeLeaf t.completeHead = .ok typed)
    (exports : Output.exportOf typed = some (name, type)) : ExportedIn t scope name type := by
  cases outline with
  | leaf content =>
    simp only [Typed.Tree.complete, bind_eq_ok, pure_eq_ok] at completes
    obtain ⟨leaf, read, rfl⟩ := completes
    cases content with
    | plain plain =>
      obtain rfl : plain = leaf := by simpa [Checker.completeLeaf] using read
      have none_here : Output.exportOf (.leaf plain) = none := own
      simp [none_here] at exports
    | draft id =>
      obtain ⟨d, found, stands⟩ := Option.map_eq_some_iff.1 own
      simp only [Checker.completeLeaf, found, atPosition_eq_ok] at read
      exact exportedIn_declaration owned found stands read exports
  | function id body =>
    simp only [Typed.Tree.complete, bind_eq_ok, pure_eq_ok] at completes
    obtain ⟨signature, read, inner, -, rfl⟩ := completes
    obtain ⟨h, found, stands⟩ := Option.map_eq_some_iff.1 own
    simp only [Checker.completeHead, found, atPosition_eq_ok] at read
    exact exportedIn_head owned found stands read exports
  | branch =>
    simp only [Typed.Tree.complete, bind_eq_ok, pure_eq_ok] at completes
    obtain ⟨_, -, _, -, rfl⟩ := completes
    simp [Output.exportOf] at exports
  | loop =>
    simp only [Typed.Tree.complete, bind_eq_ok, pure_eq_ok] at completes
    obtain ⟨_, -, rfl⟩ := completes
    simp [Output.exportOf] at exports

/-- The exports that are read off an accepted file are those of its text. -/
theorem exports_of_accepted {importer : Importer σ} {options : Options} {budget : Nat} {store : σ}
    {program : List Stmt} {output : Output}
    (accepted : (checkProgram importer options budget store program).result = .ok output) :
    (output.typed.filterMap Output.exportOf).map (·.1) = Stmt.allExports program := by
  obtain ⟨outlines, t, ends, completes, -⟩ := exists_of_accepted accepted
  simp only [analyze_eq, ends_bind] at ends
  obtain ⟨_, m, walks, finishes⟩ := ends
  obtain ⟨rfl, after, -⟩ := ends_finishFile finishes
  have agree := tells_checkBlock walks t (after ▸ .of_scopes rfl rfl fun _ => rfl)
  rw [← Checker.forgetAll_complete _ completes] at agree
  calc (output.typed.filterMap Output.exportOf).map (·.1)
    _ = Stmt.allExports (Typed.Stmt.forgetAll output.typed) :=
      (Typed.Stmt.allExports_forgetAll _).symm
    _ = Stmt.allExports (Stmt.eraseAll (Typed.Stmt.forgetAll output.typed)) :=
      (Stmt.allExports_eraseAll _).symm
    _ = Stmt.allExports (Stmt.eraseAll program) := by rw [agree.erased]
    _ = Stmt.allExports program := Stmt.allExports_eraseAll program

end Check

/-- A table of exports agrees with the text of a file, with what was checked, and with the scope that
the file's statements have left. -/
structure Output.ExportsAgree {σ : Type} (program : List Stmt) (output : Output)
    (state : Checker Empty σ) : Prop where
  /-- No entry of what was checked is lost to another one of the same name. -/
  entries : output.exports.entries = output.typed.filterMap Output.exportOf
  names : output.exports.names = Stmt.allExports program
  distinct : output.exports.names.Nodup
  bound : ∀ name type, (name, type) ∈ output.exports.entries →
    ∃ binding, state.scopes.lookupLocal Checker.root name = .ok (some binding) ∧
      binding.type = type.toTy ∧ binding.exported = true
  all : ∀ name binding, state.scopes.lookupLocal Checker.root name = .ok (some binding) →
    binding.exported = true → name ∈ output.exports.names

theorem checkProgram_exports {σ : Type} (importer : Importer σ) (options : Options) (budget : Nat)
    (store : σ) (program : List Stmt) (output : Output)
    (accepted : (checkProgram importer options budget store program).result = .ok output) :
    output.ExportsAgree program (analyzeProgram importer options budget store program).2 := by
  obtain ⟨outlines, t, run, completes, same, kept⟩ := Check.kept_of_accepted accepted
  have listed := Check.exports_of_accepted accepted
  have table : output.exports = Table.ofList (output.typed.filterMap Output.exportOf) :=
    congrArg Output.exports same
  have distinct : (Stmt.allExports program).Nodup :=
    kept.bindsNames.distinct.sublist (Stmt.allExports_sublist program)
  have entries : output.exports.entries = output.typed.filterMap Output.exportOf := by
    rw [table, Table.entries_ofList (listed ▸ distinct)]
  have names : output.exports.names = Stmt.allExports program := by
    rw [Table.names, entries, listed]
  rw [run]
  refine ⟨entries, names, names ▸ distinct, fun name type mem => ?_, fun name binding bound exported => ?_⟩
  · rw [entries] at mem
    obtain ⟨typed, mem, exports⟩ := List.mem_filterMap.1 mem
    obtain ⟨outline, mem, read⟩ := Typed.Tree.mem_completeAll completes mem
    obtain ⟨binding, bound, known⟩ :=
      Check.exportedIn_of_complete kept.bindsNames.owned (kept.own outline mem) read exports
    exact ⟨binding, Scopes.lookupLocal_eq_some.2 bound, known⟩
  · have new := kept.bindsNames.exported _ name binding (Scopes.lookupLocal_eq_some.1 bound) exported
    rcases new with ⟨before, old, -⟩ | ⟨-, mem⟩
    · simp [Checker.initial, Scopes.binding?, Scopes.create, Scopes.empty, Checker.root] at old
    · exact names ▸ mem

/-- The first export waits for the second one, which has no result type before the last function. -/
def exportsAhead : List Stmt :=
  [.leaf (.declare ⟨"total", true, .call (.symbol "sum" .unresolved) [], .unannotated, .unannotated,
      true, .nowhere⟩),
    .function ⟨"sum", [], .unannotated, true, .nowhere⟩
      [.leaf (.returns ⟨some (.call (.symbol "one" .unresolved) []), .nowhere⟩)],
    .function ⟨"one", [], .unannotated, false, .nowhere⟩
      [.leaf (.returns ⟨some (.number ⟨1⟩), .nowhere⟩)]]

theorem exportsAhead_agree :
    ∃ output, (Registry.builtin.check .standard 20 exportsAhead).result = .ok output ∧
      output.exports.entries = [("total", .number), ("sum", .function [] .number)] ∧
      output.ExportsAgree exportsAhead
        (analyzeProgram (Registry.importer 20) .standard 20 .builtin exportsAhead).2 := by
  have exports : (Registry.builtin.check .standard 20 exportsAhead).result.map (·.exports.entries) =
      .ok [("total", .number), ("sum", .function [] .number)] := by cbv
  cases run : (Registry.builtin.check .standard 20 exportsAhead).result with
  | error halt => simp [run, Except.map] at exports
  | ok output =>
    refine ⟨output, rfl, by simpa [run, Except.map] using exports, ?_⟩
    exact checkProgram_exports (Registry.importer 20) .standard 20 .builtin exportsAhead output run

end Hoist
