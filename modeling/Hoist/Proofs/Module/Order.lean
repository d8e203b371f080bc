import Mathlib
import Hoist.Proofs.Module.Discipline

/-!
The exports of a module do not depend on when it was loaded. `Derives` says without any order what
the exports of a module are: those it was registered with, or those that its body has when its
imports are answered from exports of that kind.

Main statements: a module has at most one table of exports (`Derives.unique`), and whatever was
called, every table that a registry holds is that of its module (`backed_afterAll`).
-/
namespace Hoist

/-- As long as all goes well, what is asked of the importer is answered from these tables. -/
def Importer.Draws {σ : Type} (importer : Importer σ) (tables : String → Exports → Prop)
    (inv : σ → Prop) : Prop :=
  ∀ name source position store type, inv store →
    (importer.typeOf name source position store).1 = .ok type →
    inv (importer.typeOf name source position store).2.1 ∧
      ∃ exports, tables source exports ∧ exports.find? name = some type

namespace Registry

/-- The exports of a module, of those that were registered and those that the loader has. -/
inductive Derives (base : Registry) : String → Exports → Prop
  | registered {source : String} {exports : Exports}
      (known : base.modules.find? source = some exports) : Derives base source exports
  | checked {source : String} {loader : Loader} {past : List String} {body : List Stmt}
      {importer : Importer Registry}
      {tables : String → Exports → Prop} {inv : Registry → Prop} {budget : Nat} {store : Registry}
      {output : Output} (unknown : base.modules.find? source = none)
      (isLoader : base.loader = some loader) (loads : loader past source = .ok body)
      (derived : ∀ source exports, tables source exports → Derives base source exports)
      (draws : importer.Draws tables inv) (starts : inv store)
      (accepted : (checkProgram importer base.options budget store body).result = .ok output) :
      Derives base source (output.exports.map ConcreteTy.toTy)

/-- What the loader answers does not depend on what it was asked for before. -/
def Steady (registry : Registry) : Prop :=
  ∀ loader past past' source, registry.loader = some loader →
    loader past source = loader past' source

variable {base registry : Registry} {source : String} {exports exports' : Exports}

/-- Importers that draw on tables of which there is one for each module do not contradict each
other. -/
theorem agrees_of_draws {σ : Type} {a b : Importer σ} {tables tables' : String → Exports → Prop}
    {inv inv' : σ → Prop}
    (one : ∀ source exports exports', tables source exports → tables' source exports' →
      exports = exports')
    (draws : a.Draws tables inv) (draws' : b.Draws tables' inv') :
    a.Agrees b fun store store' => inv store ∧ inv' store' := by
  rintro name source position store store' type type' ⟨before, before'⟩ answer answer'
  obtain ⟨after, exports, isTable, found⟩ := draws _ _ _ _ _ before answer
  obtain ⟨after', exports', isTable', found'⟩ := draws' _ _ _ _ _ before' answer'
  obtain rfl := one source exports exports' isTable isTable'
  exact ⟨Option.some.inj (found.symm.trans found'), after, after'⟩

theorem Derives.unique (steady : base.Steady) (derives : base.Derives source exports)
    (derives' : base.Derives source exports') : exports = exports' := by
  -- On the first derivation: where both check the body, the hypothesis is for its imports.
  induction derives generalizing exports' with
  | registered known =>
    cases derives' with
    | registered known' => exact Option.some.inj (known.symm.trans known')
    | checked unknown => exact absurd (unknown.symm.trans known) (by simp)
  | checked unknown isLoader loads derived draws starts accepted ih =>
    cases derives' with
    | registered known => exact absurd (unknown.symm.trans known) (by simp)
    | checked _ isLoader' loads' derived' draws' starts' accepted' =>
      obtain rfl := Option.some.inj (isLoader.symm.trans isLoader')
      obtain rfl := Except.ok.inj (loads.symm.trans ((steady _ _ _ _ isLoader).trans loads'))
      have agree := agrees_of_draws
        (fun source _ _ isTable isTable' => ih source _ isTable (derived' source _ isTable'))
        draws draws'
      rw [checkProgram_agrees accepted accepted' agree ⟨starts, starts'⟩]

/-- Every table of a registry is that of its module. -/
structure Backed (base registry : Registry) : Prop where
  loader : registry.loader = base.loader
  options : registry.options = base.options
  kept : ∀ source exports, base.modules.find? source = some exports →
    registry.modules.find? source = some exports
  derived : ∀ source exports, registry.modules.find? source = some exports →
    base.Derives source exports

theorem Backed.refl (base : Registry) : base.Backed base :=
  ⟨rfl, rfl, fun _ _ known => known, fun _ _ => .registered⟩

section Importer

variable {fuel : Nat} (loads : ∀ source position registry, base.Backed registry →
  base.Backed (load fuel source position registry).2.1)

include loads

theorem backed_typeOf (backed : base.Backed registry) (name source : String) (position : Position) :
    base.Backed (typeOf fuel name source position registry).2.1 := by
  rw [typeOf, answer_store]
  exact loads source position registry backed

theorem draws_importer : (importer fuel).Draws base.Derives base.Backed := by
  intro name source position store type backed answer
  have after : base.Backed (typeOf fuel name source position store).2.1 :=
    backed_typeOf loads backed name source position
  obtain ⟨exports, known, found⟩ := exported_ok (answer_ok answer).2
  exact ⟨after, exports, (loads source position store backed).derived source exports known, found⟩

theorem backed_check (backed : base.Backed registry) (options : Options) (program : List Stmt) :
    base.Backed (registry.check options fuel program).store := by
  have respects : (importer fuel).Respects base.Backed fun _ => base.Backed := by
    intro name source position store before
    have after : base.Backed (typeOf fuel name source position store).2.1 :=
      backed_typeOf loads before name source position
    exact ⟨fun _ _ => after, fun _ _ => after⟩
  obtain ⟨good, bad⟩ := checkProgram_respects (fun _ _ backed => backed) respects backed
  cases result : (registry.check options fuel program).result with
  | ok output => exact good output result
  | error halt => exact bad halt result

end Importer

/-- A module whose body was checked with tables of that kind gets one. -/
theorem Backed.conclude {loader : Loader} {body : List Stmt} {fuel : Nat}
    (backed : base.Backed registry) (unknown : registry.modules.find? source = none)
    (isLoader : registry.loader = some loader)
    (found : loader registry.requests source = .ok body)
    (loads : ∀ source position registry, base.Backed registry →
      base.Backed (load fuel source position registry).2.1) :
    base.Backed
      (conclude source ((registry.entering source).check registry.options fuel body)).2.1 := by
  have entered : base.Backed (registry.entering source) := { backed with }
  have inside := backed_check loads entered registry.options body
  rw [Registry.conclude]
  cases result : ((registry.entering source).check registry.options fuel body).result with
  | error halt => exact { inside with }
  | ok output =>
    have absent : base.modules.find? source = none := by
      cases known : base.modules.find? source with
      | none => rfl
      | some exports => exact absurd (backed.kept source exports known) (by simp [unknown])
    refine ⟨inside.loader, inside.options, fun other exports known => ?_,
      fun other exports known => ?_⟩
    · have different : source ≠ other := by
        rintro rfl
        simp [absent] at known
      simpa [register, Table.find?_insert, different] using inside.kept other exports known
    · by_cases same : source = other
      · subst same
        obtain rfl : output.exports.map ConcreteTy.toTy = exports := by
          simpa [register, Table.find?_insert] using known
        rw [check, backed.options] at result
        exact .checked absent (backed.loader ▸ isLoader) found (fun _ _ derives => derives)
          (draws_importer loads) entered result
      · refine inside.derived other exports ?_
        simpa [register, Table.find?_insert, same] using known

theorem backed_load (fuel : Nat) : ∀ source position registry, base.Backed registry →
    base.Backed (load fuel source position registry).2.1 := by
  induction fuel using Nat.strongRecOn with
  | _ fuel ih =>
    intro source position registry backed
    obtain same | ⟨isOpen, ⟨_, -, same, -⟩ | ⟨loader, body, less, isLoader, loads, rfl, same⟩⟩ :=
      load_cases fuel source position registry
    · rwa [same]
    · rw [same]
      exact { backed with }
    · rw [same]
      exact backed.conclude isOpen.unknown isLoader loads (ih less less.lt_succ_self)

theorem backed_after (backed : base.Backed registry) (fuel : Nat) (call : Call) :
    base.Backed (registry.after fuel call) := by
  cases call with
  | typeOf name source position => exact backed_typeOf (backed_load fuel) backed name source position
  | check options program => exact backed_check (backed_load fuel) backed options program

theorem backed_afterAll (backed : base.Backed registry) (calls : List (Nat × Call)) :
    base.Backed (registry.afterAll calls) := by
  induction calls generalizing registry with
  | nil => exact backed
  | cons first rest ih => exact ih (backed_after backed first.1 first.2)

/-- Whatever is called, and in whatever order, a module that becomes known gets the same exports in
the same order. -/
theorem exports_order_independent (registry : Registry) (steady : registry.Steady)
    (first second : List (Nat × Call)) (source : String) (exports exports' : Exports)
    (known : (registry.afterAll first).modules.find? source = some exports)
    (known' : (registry.afterAll second).modules.find? source = some exports') :
    exports = exports' := by
  have derives := (backed_afterAll (.refl registry) first).derived source exports known
  have derives' := (backed_afterAll (.refl registry) second).derived source exports' known'
  exact derives.unique steady derives'

/-- One module takes a name from the other, and a third is not there. -/
def twoModules : Registry :=
  { empty with
    loader := some fun _ source =>
      if source = "outer" then
        .ok [.leaf (.imports ["x"] "inner" .nowhere),
          .leaf (.declare
            ⟨"y", false, .symbol "x" .unresolved, .unannotated, .unresolved, true, .nowhere⟩)]
      else if source = "inner" then
        .ok [.leaf (.declare
          ⟨"x", false, .boolean true, .unannotated, .unresolved, true, .nowhere⟩)]
      else .error ⟨.unresolvedImport "x" source, .nowhere⟩ }

/-- The inner module is loaded first and directly, or after a failure and inside the other. -/
theorem exports_order_independent_twoModules : twoModules.Steady ∧ ∃ exports exports',
    (twoModules.afterAll [(9, .typeOf "x" "inner" .nowhere), (9, .typeOf "y" "outer" .nowhere)]
      ).modules.find? "inner" = some exports ∧
    (twoModules.afterAll [(9, .typeOf "x" "absent" .nowhere), (9, .typeOf "y" "outer" .nowhere)]
      ).modules.find? "inner" = some exports' ∧ exports = exports' := by
  have known : (twoModules.afterAll [(9, .typeOf "x" "inner" .nowhere),
      (9, .typeOf "y" "outer" .nowhere)]).modules.find? "inner" = some ⟨[("x", .boolean)]⟩ := by cbv
  have known' : (twoModules.afterAll [(9, .typeOf "x" "absent" .nowhere),
      (9, .typeOf "y" "outer" .nowhere)]).modules.find? "inner" = some ⟨[("x", .boolean)]⟩ := by cbv
  have steady : twoModules.Steady := by
    rintro _ _ _ _ ⟨⟩
    rfl
  exact ⟨steady, _, _, known, known',
    exports_order_independent twoModules steady _ _ "inner" _ _ known known'⟩

end Registry

end Hoist
