import Hoist.Proofs.Check.Burden
import Hoist.Proofs.Check.Clear
import Hoist.Proofs.Check.Drafted
import Hoist.Proofs.Check.Imports
import Hoist.Proofs.Module.Discipline

/-!
Checking comes to an end if no declaration mentions a variable that is declared at its place or
later. Functions may be mentioned anywhere.

Main statement: `check_terminates`. A name is the deeper the earlier it is declared for the last time.
-/
namespace Hoist

def Leaf.declaration? : Leaf → Option Declaration
  | .declare d => some d
  | _ => none

/-- The variables that are declared in a file, in their order. -/
def Stmt.declarations (program : List Stmt) : List Declaration :=
  (Stmt.allLeaves program).filterMap Leaf.declaration?

/-- No declaration mentions a variable that is declared at its place or later. -/
def Stmt.NeverAhead (program : List Stmt) : Prop :=
  (Stmt.declarations program).Pairwise (fun d later => later.name ∉ d.value.names) ∧
    ∀ d ∈ Stmt.declarations program, d.name ∉ d.value.names

/-- How many declarations there are behind the last one of a name, or in all. -/
def Stmt.depth (program : List Stmt) (name : String) : Nat :=
  (Stmt.declarations program).reverse.findIdx (·.name = name)

theorem Stmt.NeverAhead.depth_lt {program : List Stmt} (behind : Stmt.NeverAhead program)
    {d : Declaration} (declared : d ∈ Stmt.declarations program) {mention : String}
    (mentioned : mention ∈ d.value.names) :
    Stmt.depth program d.name < Stmt.depth program mention := by
  obtain ⟨place, inside, rfl⟩ := List.mem_iff_getElem.1 (List.mem_reverse.2 declared)
  have apart (other : Nat) (within : other ≤ place) :
      (Stmt.declarations program).reverse[other].name ≠ mention := by
    rintro rfl
    rcases Nat.lt_or_eq_of_le within with earlier | rfl
    · exact List.pairwise_iff_getElem.1 (List.pairwise_reverse.2 behind.1) other place _ inside
        earlier mentioned
    · exact behind.2 _ declared mentioned
  calc Stmt.depth program _ ≤ place :=
        Nat.le_of_not_lt fun later => by simpa using List.not_of_lt_findIdx later
    _ < Stmt.depth program mention := List.lt_findIdx_of_not inside (by simpa using apart)

/-- Nothing may be looked for in vain. -/
def Policy.found {σ : Type} : Policy σ :=
  ⟨fun _ => True, (· ≠ .dangling), fun _ found => found⟩

theorem Importer.Prompt.serves {σ : Type} {importer : Importer σ} (prompt : importer.Prompt) :
    Policy.found.Serves importer := by
  intro name source position store _
  refine ⟨trivial, ?_⟩
  split
  · exact fun _ _ => by simp [Policy.found]
  · rename_i halt refused
    obtain ⟨diagnostic, rfl⟩ := prompt name source position store halt refused
    simp [Policy.found]

/-- With a budget that is large enough a file is accepted or refused, always in the same way. -/
theorem Importer.Prompt.checkProgram_finishes {σ : Type} {importer : Importer σ}
    (prompt : importer.Prompt) (options : Options) (store : σ) {program : List Stmt}
    (fresh : Stmt.areFresh program = true) (behind : Stmt.NeverAhead program) :
    ∃ cost outcome, Fails Halt.IsRefusal outcome ∧ ∀ extra,
      (checkProgram importer options (cost + extra) store program).result = outcome := by
  have suits : (Check.graded σ (Stmt.depth program)).Suits importer program :=
    ⟨fun _ => fresh, False.elim, fun d mem _ => behind.depth_lt
      (List.mem_filterMap.2 ⟨_, mem, rfl⟩), fun _ => prompt⟩
  have continues : Check.Continues True _ (Check.analyze (Env.plain options importer) program)
      (Checker.initial store 0) (Checker.initial store 0) := Check.continues_analyze suits
    ⟨Check.tallied_initial store 0, Check.manned_initial store 0, by simp [Checker.initial]⟩
  obtain ⟨cost, enough⟩ := continues.finishes trivial
  have kept : (Policy.found : Policy σ).kept store := trivial
  have stops := Check.halts_analyze prompt.serves options fresh kept cost
  obtain ⟨halt, t, halts, sure⟩ | ⟨outlines, t, ends, -⟩ := stops.cases
  · have refusal : halt.IsRefusal := by
      cases halt with
      | rejected diagnostic => exact ⟨diagnostic, rfl⟩
      | exhausted => exact absurd halts (enough cost le_rfl t)
      | dangling =>
        obtain found | ⟨_, _, _, _, _, reported⟩ := sure
        · exact absurd rfl found
        · cases reported
    refine ⟨cost, .error halt, fails_error.2 refusal, fun extra => congrArg Run.result
      (checkProgram_of_halts (continues.paid cost extra ?_ halts))⟩
    obtain ⟨diagnostic, rfl⟩ := refusal
    simp
  · refine ⟨cost, (t.complete outlines).map Output.ofStmts, Fails.map (fun halt failed => ?_) _,
      fun extra => congrArg Run.result (checkProgram_of_ends (continues.paid cost extra (by simp) ends))⟩
    obtain ⟨type, position, rfl⟩ := Check.lacksType_complete fresh ends halt failed
    exact ⟨_, rfl⟩

/-! Registries without a loader. -/

namespace Registry

/-- The answers of a registry that never changes. -/
def fixed (registry : Registry) : Importer Registry :=
  ⟨fun name source position store =>
    ((registry.typeOf 0 name source position).1, store, (registry.typeOf 0 name source position).2.2)⟩

theorem load_of_no_loader {registry : Registry} (absent : registry.loader = none) (fuel : Nat)
    (source : String) (position : Position) :
    load fuel source position registry = load 0 source position registry ∧
      (load 0 source position registry).2.1 = registry ∧
      Fails Halt.IsRefusal (load 0 source position registry).1 := by
  obtain ⟨same, done⟩ : (registry.request source position).2 = registry ∧
      ∀ body, (registry.request source position).1 ≠ .check body :=
    request_of_no_loader absent position
  rw [load, load]
  revert same done
  rcases registry.request source position with ⟨_ | diagnostic | body, after⟩
  · rintro rfl -
    simp
  · rintro rfl -
    simp [Halt.IsRefusal]
  · exact fun _ done => absurd rfl (done body)

theorem prompt_fixed {registry : Registry} (absent : registry.loader = none) :
    registry.fixed.Prompt := by
  intro name source position _
  have loaded := (load_of_no_loader absent 0 source position).2.2
  show Fails Halt.IsRefusal (registry.typeOf 0 name source position).1
  rw [typeOf]
  revert loaded
  rcases load 0 source position registry with ⟨halt | done, after, notes⟩
  · exact fun refused => fails_error.2 (refused halt rfl)
  · intro _
    show Fails Halt.IsRefusal (after.exported name source position)
    rw [exported]
    split
    · exact fails_ok _
    · exact fails_error.2 ⟨_, rfl⟩

theorem alike_fixed {registry : Registry} (absent : registry.loader = none) (fuel : Nat) :
    (importer fuel).Alike registry.fixed (· = registry) := by
  rintro name source position store rfl
  obtain ⟨same, kept, -⟩ := load_of_no_loader absent fuel source position
  have answers : store.typeOf fuel name source position = store.typeOf 0 name source position := by
    rw [typeOf, typeOf, same]
  have stays : (store.typeOf 0 name source position).2.1 = store := by
    rw [typeOf, answer_store, kept]
  refine ⟨answers.trans ?_, ?_⟩
  · exact Prod.ext rfl (Prod.ext stays rfl)
  · exact (congrArg (·.2.1) answers).trans stays

/-- A file whose declarations mention no variable ahead of them is accepted or refused in the end,
whatever functions it mentions, and a larger budget changes nothing about that. -/
theorem check_terminates (registry : Registry) (absent : registry.loader = none) (options : Options)
    (program : List Stmt) (fresh : Stmt.areFresh program = true) (behind : Stmt.NeverAhead program) :
    ∃ budget outcome, ((∃ output, outcome = .ok output) ∨
        ∃ diagnostic, outcome = .error (.rejected diagnostic)) ∧
      ∀ more, budget ≤ more → (registry.check options more program).result = outcome := by
  obtain ⟨cost, outcome, refused, runs⟩ :=
    (prompt_fixed absent).checkProgram_finishes options registry fresh behind
  refine ⟨cost, outcome, ?_, fun more enough => ?_⟩
  · cases outcome with
    | ok output => exact .inl ⟨output, rfl⟩
    | error halt =>
      obtain ⟨diagnostic, rfl⟩ := refused halt rfl
      exact .inr ⟨diagnostic, rfl⟩
  · obtain ⟨extra, rfl⟩ := Nat.exists_eq_add_of_le enough
    rw [check, checkProgram_congr (alike_fixed absent _) rfl]
    exact runs extra

/-- Two functions that call each other, and a variable that calls one of them. -/
def mutualCalls : List Stmt :=
  let call name : Expr := .call (.symbol name .unresolved) []
  let calling name callee : Stmt := .function ⟨name, [], .unannotated, false, .nowhere⟩
    [.leaf (.returns ⟨some (call callee), .nowhere⟩)]
  [.leaf (.declare ⟨"x", false, call "f", .unannotated, .unresolved, false, .nowhere⟩),
    calling "f" "g", calling "g" "f"]

/-- The three wait for one another in vain, and the check of them ends all the same. -/
theorem check_terminates_mutualCalls :
    ∃ budget outcome, ((∃ output, outcome = .ok output) ∨
        ∃ diagnostic, outcome = .error (.rejected diagnostic)) ∧
      ∀ more, budget ≤ more → (builtin.check .standard more mutualCalls).result = outcome :=
  check_terminates builtin rfl .standard mutualCalls (by decide)
    ⟨List.pairwise_singleton _ _, by decide⟩

end Registry

end Hoist
