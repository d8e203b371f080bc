import Mathlib
import Hoist.Module.Registry
import Hoist.Proofs.Check.Imports

/-!
What calls do to a registry. A call may load modules, each by checking its body with the same
registry, and may fail at any depth; `Grown` says all that a call has done when it is over.

Main statements: a load inside which all goes as it should goes as it should (`Grown.failed`,
`Grown.learned`), so every call does (`grown_typeOf`, `grown_check`); and from these, for any history
of calls, `calls_disciplined`.
-/
namespace Hoist

namespace Registry

/-- What is asked of a registry from outside. -/
inductive Call
  | typeOf (name source : String) (position : Position)
  | check (options : Options) (program : List Stmt)

/-- What a call leaves of a registry, whether it succeeds or not. -/
def after (registry : Registry) (fuel : Nat) : Call → Registry
  | .typeOf name source position => (registry.typeOf fuel name source position).2.1
  | .check options program => (registry.check options fuel program).store

/-- Why something failed, if it did. -/
def haltOf {α : Type} : Except Halt α → Option Halt
  | .ok _ => none
  | .error halt => some halt

/-- Why a call fails, if it does. -/
def haltOfCall (registry : Registry) (fuel : Nat) : Call → Option Halt
  | .typeOf name source position => haltOf (registry.typeOf fuel name source position).1
  | .check options program => haltOf (registry.check options fuel program).result

/-- What calls leave of a registry, one after the other. -/
def afterAll (registry : Registry) (calls : List (Nat × Call)) : Registry :=
  calls.foldl (fun registry (fuel, call) => registry.after fuel call) registry

/-- A registry that has asked its loader for a module. -/
def asking (registry : Registry) (source : String) : Registry :=
  { registry with requests := registry.requests ++ [source] }

/-- A registry that is about to check the body of a module. -/
def entering (registry : Registry) (source : String) : Registry :=
  { registry.asking source with inProgress := source :: registry.inProgress }

def leaving (registry : Registry) (source : String) : Registry :=
  { registry with inProgress := registry.inProgress.erase source }

/-- The loader may be asked for the module: it is neither known nor being checked. -/
structure Open (registry : Registry) (source : String) : Prop where
  unknown : registry.modules.find? source = none
  idle : source ∉ registry.inProgress

/-- Between the two registries, and after these requests, the loader was asked for a module. -/
def Answered (before after : Registry) (past : List String) (source : String)
    (answer : Except Diagnostic (List Stmt)) : Prop :=
  before.requests <+: past ∧ past ++ [source] <+: after.requests ∧
    ∃ loader : Loader, before.loader = some loader ∧ loader past source = answer

/-- The loader was asked for a module, and the body that it gave is to be checked from `start` on. -/
def Entered (before after : Registry) (source : String) (body : List Stmt) (start : Registry) :
    Prop :=
  start.loader = before.loader ∧ ∃ past, before.Answered after past source (.ok body) ∧
    start.requests = past ++ [source]

/-- The body that the loader gave for a module was checked to the end, with these exports. -/
def Supplied (before after : Registry) (source : String) (body : List Stmt) (exports : Exports) :
    Prop :=
  ∃ (start : Registry) (fuel : Nat) (output : Output), before.Entered after source body start ∧
    (start.check before.options fuel body).result = .ok output ∧
    (start.check before.options fuel body).store.requests <+: after.requests ∧
    exports = output.exports.map ConcreteTy.toTy

/-- The module itself is why a call fails: the loader refused it, or its body was refused and that was
the end, or there was no fuel left to check it. -/
def Refused (before after : Registry) (source : String) (halt : Halt) : Prop :=
  (∃ past diagnostic, before.Answered after past source (.error diagnostic) ∧
    halt = .rejected diagnostic) ∨
  ∃ body start, before.Entered after source body start ∧ (halt = .exhausted ∨
    ∃ fuel, (start.check before.options fuel body).result = .error halt ∧
      (start.check before.options fuel body).store.requests = after.requests ∧
      (start.check before.options fuel body).store.modules = after.modules)

/-- Modules that became known in this order, each after all those that its body takes names from. -/
def Layered (before after : Registry) (known new : List String) : Prop :=
  ∀ earlier source later, new = earlier ++ source :: later → source ∉ known ++ earlier ∧
    ∃ body exports, after.modules.find? source = some exports ∧
      before.Supplied after source body exports ∧
      ∀ other ∈ Stmt.allSources body, other ∈ known ++ earlier

/-- A registry that is set up like the other, and was asked for no fewer modules. -/
structure SetUpLike (before after : Registry) : Prop where
  loader : after.loader = before.loader
  options : after.options = before.options
  requests : before.requests <+: after.requests

/-- What calls do not change, and which modules became known. -/
structure Since (before : Registry) (new : List String) (after : Registry) : Prop
    extends SetUpLike before after where
  inProgress : after.inProgress = before.inProgress
  kept : ∀ source exports, before.modules.find? source = some exports →
    after.modules.find? source = some exports
  names : after.modules.names = before.modules.names ++ new
  layered : before.Layered after before.modules.names new

/-- All that has been done when a call is over: which modules the loader was asked for, and which
became known. Those that did not are themselves why the call fails. -/
structure Grown (before : Registry) (halt? : Option Halt) (asked new : List String)
    (after : Registry) : Prop extends Since before new after where
  asks : after.requests = before.requests ++ asked
  once : asked.Nodup
  allowed : ∀ source ∈ asked, before.Open source
  settled : ∀ source ∈ asked, source ∈ after.modules.names ∨
    ∃ halt, halt? = some halt ∧ before.Refused after source halt
  learned : ∀ source ∈ new, source ∈ asked

variable {before between after registry start : Registry} {halt? : Option Halt} {halt : Halt}
  {asked new asked' new' known past : List String} {source : String} {body : List Stmt}
  {exports : Exports}

/-! One thing after the other. -/

section SetUpLike

variable (first : SetUpLike before between)

include first

theorem SetUpLike.answered {answer : Except Diagnostic (List Stmt)}
    (answered : between.Answered after past source answer) :
    before.Answered after past source answer := by
  obtain ⟨since, done, loads⟩ := answered
  exact ⟨first.requests.trans since, done, first.loader ▸ loads⟩

theorem SetUpLike.entered (entered : between.Entered after source body start) :
    before.Entered after source body start := by
  obtain ⟨loader, past, answered, requests⟩ := entered
  exact ⟨loader.trans first.loader, past, first.answered answered, requests⟩

theorem SetUpLike.supplied (supplied : between.Supplied after source body exports) :
    before.Supplied after source body exports := by
  obtain ⟨start, fuel, output, entered, checked⟩ := supplied
  exact ⟨start, fuel, output, first.entered entered, first.options ▸ checked⟩

theorem SetUpLike.refused (refused : between.Refused after source halt) :
    before.Refused after source halt := by
  rcases refused with ⟨past, diagnostic, answered, rest⟩ | ⟨body, start, entered, rest⟩
  · exact .inl ⟨past, diagnostic, first.answered answered, rest⟩
  · exact .inr ⟨body, start, first.entered entered, first.options ▸ rest⟩

theorem SetUpLike.layered (layered : between.Layered after known new) :
    before.Layered after known new := by
  intro earlier source later split
  obtain ⟨absent, body, exports, found, supplied, sources⟩ := layered earlier source later split
  exact ⟨absent, body, exports, found, first.supplied supplied, sources⟩

end SetUpLike

theorem Supplied.until (supplied : before.Supplied between source body exports)
    (requests : between.requests <+: after.requests) :
    before.Supplied after source body exports := by
  obtain ⟨start, fuel, output, ⟨loader, past, ⟨since, done, loads⟩, own⟩, checked, ended, same⟩ :=
    supplied
  exact ⟨start, fuel, output, ⟨loader, past, ⟨since, done.trans requests, loads⟩, own⟩, checked,
    ended.trans requests, same⟩

theorem layered_nil : before.Layered after known [] := by
  intro earlier source later split
  simp at split

theorem Layered.until (layered : before.Layered between known new)
    (kept : ∀ source exports, between.modules.find? source = some exports →
      after.modules.find? source = some exports)
    (requests : between.requests <+: after.requests) : before.Layered after known new := by
  intro earlier source later split
  obtain ⟨absent, body, exports, found, supplied, sources⟩ := layered earlier source later split
  exact ⟨absent, body, exports, kept source exports found, supplied.until requests, sources⟩

theorem Layered.append (first : before.Layered after known new)
    (second : before.Layered after (known ++ new) new') :
    before.Layered after known (new ++ new') := by
  intro earlier source later split
  -- The module is one of the later ones unless the first list goes on after those before it.
  obtain ⟨rest, rfl⟩ | ⟨rest, rfl, rfl⟩ : (∃ rest, new = earlier ++ source :: rest) ∨
      ∃ rest, earlier = new ++ rest ∧ new' = rest ++ source :: later := by
    obtain ⟨rest, rfl, same⟩ | ⟨rest, rfl, same⟩ := List.append_eq_append_iff.1 split
    · exact .inr ⟨rest, rfl, same⟩
    · cases rest with
      | nil => exact .inr ⟨[], by simp_all⟩
      | cons head rest =>
        obtain ⟨rfl, -⟩ := List.cons.inj same
        exact .inl ⟨rest, rfl⟩
  · exact first earlier source rest rfl
  · rw [← List.append_assoc]
    exact second rest source later rfl

theorem Since.trans (first : Since before new between) (second : Since between new' after) :
    Since before (new ++ new') after where
  inProgress := second.inProgress.trans first.inProgress
  loader := second.loader.trans first.loader
  options := second.options.trans first.options
  kept source exports known := second.kept source exports (first.kept source exports known)
  requests := first.requests.trans second.requests
  names := by rw [second.names, first.names, List.append_assoc]
  layered := (first.layered.until second.kept second.requests).append
    (first.names ▸ first.toSetUpLike.layered second.layered)

theorem Since.refl (registry : Registry) : Since registry [] registry :=
  ⟨⟨rfl, rfl, List.prefix_rfl⟩, rfl, fun _ _ found => found, by simp, layered_nil⟩

theorem Grown.refl (registry : Registry) (halt? : Option Halt) :
    Grown registry halt? [] [] registry :=
  { Since.refl registry with
    asks := by simp, once := by simp, allowed := by simp, settled := by simp, learned := by simp }

theorem Grown.found (grown : Grown before none asked new after) (mem : source ∈ asked) :
    source ∈ after.modules.names :=
  (grown.settled source mem).resolve_right (by simp)

theorem Grown.worse (grown : Grown before none asked new after) (halt : Halt) :
    Grown before (some halt) asked new after :=
  { grown with settled := fun _ mem => .inl (grown.found mem) }

/-- Only a success is followed by anything. -/
theorem Grown.trans (first : Grown before none asked new between)
    (second : Grown between halt? asked' new' after) :
    Grown before halt? (asked ++ asked') (new ++ new') after where
  toSince := first.toSince.trans second.toSince
  asks := by rw [second.asks, first.asks, List.append_assoc]
  once := by
    refine List.nodup_append.2 ⟨first.once, second.once, ?_⟩
    rintro source early _ late rfl
    exact Table.not_mem_names.2 (second.allowed source late).unknown (first.found early)
  allowed source mem := by
    rcases List.mem_append.1 mem with early | late
    · exact first.allowed source early
    · obtain ⟨unknown, idle⟩ := second.allowed source late
      refine ⟨?_, first.inProgress ▸ idle⟩
      rw [← Table.not_mem_names, first.names] at unknown
      exact Table.not_mem_names.1 fun known => unknown (List.mem_append_left _ known)
  settled source mem := by
    rcases List.mem_append.1 mem with early | late
    · rw [second.names]
      exact .inl (List.mem_append_left _ (first.found early))
    · refine (second.settled source late).imp_right ?_
      rintro ⟨halt, why, refused⟩
      exact ⟨halt, why, first.toSetUpLike.refused refused⟩
  learned source mem := by
    rcases List.mem_append.1 mem with early | late
    · exact List.mem_append_left _ (first.learned source early)
    · exact List.mem_append_right _ (second.learned source late)

/-! One module. -/

section Load

variable (isOpen : registry.Open source)

theorem Grown.fresh (inside : Grown (registry.entering source) halt? asked new after) :
    source ∉ asked := by
  intro mem
  exact (inside.allowed source mem).idle (by simp [entering])

theorem setUpLike_entering (registry : Registry) (source : String) :
    registry.SetUpLike (registry.entering source) :=
  ⟨rfl, rfl, List.prefix_append _ _⟩

theorem entered_entering {loader : Loader} (isLoader : registry.loader = some loader)
    (loads : loader registry.requests source = .ok body)
    (requests : registry.requests ++ [source] <+: after.requests) :
    registry.Entered after source body (registry.entering source) :=
  ⟨rfl, _, ⟨List.prefix_rfl, requests, loader, isLoader, loads⟩, rfl⟩

/-- What is asked for and learned inside, if the module itself is left aside. -/
theorem Grown.since_entering (inside : Grown (registry.entering source) halt? asked new after) :
    Since registry new (after.leaving source) where
  loader := inside.loader
  options := inside.options
  requests := (setUpLike_entering registry source).requests.trans inside.requests
  inProgress := by
    have same := inside.inProgress
    simp only [entering] at same
    simp [leaving, same]
  kept := inside.kept
  names := inside.names
  layered := (setUpLike_entering registry source).layered inside.layered

include isOpen

/-- The loader was asked in vain, or there was no fuel left. -/
theorem grown_asking (refused : registry.Refused (registry.asking source) source halt) :
    Grown registry (some halt) [source] [] (registry.asking source) where
  toSince := { Since.refl registry with requests := List.prefix_append _ _, layered := layered_nil }
  asks := rfl
  once := by simp
  allowed other mem := List.mem_singleton.1 mem ▸ isOpen
  settled other mem := .inr ⟨halt, rfl, List.mem_singleton.1 mem ▸ refused⟩
  learned := by simp

theorem Grown.asked_entering (inside : Grown (registry.entering source) halt? asked new after) :
    after.requests = registry.requests ++ source :: asked ∧ (source :: asked).Nodup ∧
      ∀ other ∈ source :: asked, registry.Open other := by
  refine ⟨?_, List.nodup_cons.2 ⟨inside.fresh, inside.once⟩, fun other mem => ?_⟩
  · have same := inside.asks
    simp only [entering, asking, List.append_assoc, List.singleton_append] at same
    exact same
  · rcases List.mem_cons.1 mem with rfl | later
    · exact isOpen
    · obtain ⟨unknown, idle⟩ := inside.allowed other later
      exact ⟨unknown, fun busy => idle (List.mem_cons_of_mem _ busy)⟩

/-- The body of a module was checked in vain. -/
theorem Grown.failed {loader : Loader} {fuel : Nat} (isLoader : registry.loader = some loader)
    (loads : loader registry.requests source = .ok body)
    (rejected : ((registry.entering source).check registry.options fuel body).result = .error halt)
    (isAfter : ((registry.entering source).check registry.options fuel body).store = after)
    (inside : Grown (registry.entering source) (some halt) asked new after) :
    Grown registry (some halt) (source :: asked) new (after.leaving source) := by
  have requests : registry.requests ++ [source] <+: after.requests := inside.requests
  obtain ⟨asks, once, allowed⟩ := inside.asked_entering isOpen
  refine ⟨inside.since_entering, asks, once, allowed, fun other mem => ?_,
    fun other mem => List.mem_cons_of_mem _ (inside.learned other mem)⟩
  rcases List.mem_cons.1 mem with rfl | later
  · exact .inr ⟨halt, rfl, .inr ⟨body, _, entered_entering isLoader loads requests, .inr
      ⟨fuel, rejected, by rw [isAfter]; rfl, by rw [isAfter]; rfl⟩⟩⟩
  · refine (inside.settled other later).imp_right ?_
    rintro ⟨halt, why, refused⟩
    exact ⟨halt, why, (setUpLike_entering registry source).refused refused⟩

/-- The body of a module was checked to the end, and the module became known. -/
theorem Grown.succeeded {loader : Loader} {fuel : Nat} {output : Output}
    (isLoader : registry.loader = some loader)
    (loads : loader registry.requests source = .ok body)
    (accepted : ((registry.entering source).check registry.options fuel body).result = .ok output)
    (isAfter : ((registry.entering source).check registry.options fuel body).store = after)
    (imported : ∀ other ∈ Stmt.allSources body, other ∈ after.modules.names)
    (inside : Grown (registry.entering source) none asked new after) :
    Grown registry none (source :: asked) (new ++ [source])
      ((after.leaving source).register source (output.exports.map ConcreteTy.toTy)) := by
  have since := inside.since_entering
  have requests : registry.requests ++ [source] <+: after.requests := inside.requests
  obtain ⟨asks, once, allowed⟩ := inside.asked_entering isOpen
  have absent : source ∉ after.modules.names := by
    rw [inside.names, List.mem_append]
    rintro (known | learned)
    · exact Table.not_mem_names.2 isOpen.unknown known
    · exact inside.fresh (inside.learned source learned)
  have names : ((after.leaving source).register source
      (output.exports.map ConcreteTy.toTy)).modules.names = after.modules.names ++ [source] := by
    have unknown := Table.not_mem_names.1 absent
    simp [register, leaving, Table.names_insert, Table.contains, unknown]
  have others (other : String) (exports : Exports)
      (known : after.modules.find? other = some exports) :
      ((after.leaving source).register source
        (output.exports.map ConcreteTy.toTy)).modules.find? other = some exports := by
    have different : source ≠ other := by
      rintro rfl
      exact absent (Table.mem_names.2 (by rw [known]; rfl))
    simpa [register, leaving, Table.find?_insert, different] using known
  refine ⟨⟨⟨since.loader, since.options, since.requests⟩, since.inProgress,
    fun other exports known => others other exports (since.kept other exports known), ?_, ?_⟩,
    asks, once, allowed, fun other mem => .inl ?_, fun other mem => ?_⟩
  · rw [names, inside.names, List.append_assoc]
    rfl
  · refine (since.layered.until others List.prefix_rfl).append fun earlier other later split => ?_
    obtain ⟨rfl, rfl, rfl⟩ : earlier = [] ∧ source = other ∧ later = [] := by
      cases earlier <;> simp_all
    rw [List.append_nil, ← since.names]
    exact ⟨absent, body, _, by simp [register, Table.find?_insert], ⟨_, fuel, output,
      entered_entering isLoader loads requests, accepted, by rw [isAfter]; exact List.prefix_rfl,
      rfl⟩, imported⟩
  · rw [names]
    rcases List.mem_cons.1 mem with rfl | later
    · simp
    · exact List.mem_append_left _ (inside.found later)
  · rcases List.mem_append.1 mem with early | last
    · exact List.mem_cons_of_mem _ (inside.learned other early)
    · exact List.mem_singleton.1 last ▸ List.mem_cons_self

end Load

/-! Requests. -/

theorem request_of_open {loader : Loader} (isOpen : registry.Open source)
    (isLoader : registry.loader = some loader) (position : Position) :
    registry.request source position =
      (match loader registry.requests source with
        | .error diagnostic => .refused diagnostic
        | .ok body => .check body,
      registry.asking source) := by
  obtain ⟨unknown, idle⟩ := isOpen
  rw [request, if_neg (by simp [Table.contains, unknown]), if_neg (by simpa using idle)]
  simp only [isLoader]
  cases loader registry.requests source <;> simp [asking, isLoader]

theorem request_of_not_open (closed : ¬registry.Open source) (position : Position) :
    (registry.request source position).2 = registry ∧
      ∀ body, (registry.request source position).1 ≠ .check body := by
  rw [request]
  by_cases known : registry.modules.contains source = true
  · simp [known]
  · by_cases busy : registry.inProgress.contains source = true
    · simp only [known, busy]
      simp
    · refine absurd ⟨?_, by simpa using busy⟩ closed
      simpa [Table.contains] using known

theorem request_of_no_loader (absent : registry.loader = none) (position : Position) :
    (registry.request source position).2 = registry ∧
      ∀ body, (registry.request source position).1 ≠ .check body := by
  rw [request]
  split
  · simp
  · split <;> simp [absent]

/-- A request either changes nothing, or it asks the loader, which it may. -/
theorem request_cases (registry : Registry) (source : String) (position : Position) :
    ((registry.request source position).2 = registry ∧
        ∀ body, (registry.request source position).1 ≠ .check body) ∨
      registry.Open source ∧ ∃ loader, registry.loader = some loader ∧
        ((∃ diagnostic, loader registry.requests source = .error diagnostic ∧
            registry.request source position = (.refused diagnostic, registry.asking source)) ∨
          ∃ body, loader registry.requests source = .ok body ∧
            registry.request source position = (.check body, registry.asking source)) := by
  by_cases isOpen : registry.Open source
  · cases isLoader : registry.loader with
    | none => exact .inl (request_of_no_loader isLoader position)
    | some loader =>
      refine .inr ⟨isOpen, loader, rfl, ?_⟩
      rw [request_of_open isOpen isLoader position]
      cases loader registry.requests source with
      | error diagnostic => exact .inl ⟨diagnostic, rfl, rfl⟩
      | ok body => exact .inr ⟨body, rfl, rfl⟩
  · exact .inl (request_of_not_open isOpen position)

/-! Loads and calls. -/

/-- A call that did what calls may do. -/
def Behaves (before : Registry) (halt? : Option Halt) (after : Registry) : Prop :=
  ∃ asked new, Grown before halt? asked new after

theorem Behaves.refl (registry : Registry) (halt? : Option Halt) :
    registry.Behaves halt? registry :=
  ⟨[], [], .refl registry halt?⟩

theorem Behaves.worse (halt : Halt) : before.Behaves none after → before.Behaves (some halt) after :=
  fun ⟨asked, new, grown⟩ => ⟨asked, new, grown.worse halt⟩

theorem Behaves.trans : before.Behaves none between → between.Behaves halt? after →
    before.Behaves halt? after :=
  fun ⟨_, _, first⟩ ⟨_, _, second⟩ => ⟨_, _, first.trans second⟩

theorem exported_ok {name : String} {position : Position} {type : Ty}
    (found : registry.exported name source position = .ok type) :
    ∃ exports, registry.modules.find? source = some exports ∧ exports.find? name = some type := by
  rw [exported] at found
  cases known : (registry.modules.find? source).bind (·.find? name) with
  | none => simp [known] at found
  | some other =>
    obtain ⟨exports, isModule, isType⟩ := Option.bind_eq_some_iff.1 known
    simp only [known, Except.ok.injEq] at found
    exact ⟨exports, isModule, found ▸ isType⟩

theorem answer_ok {tried : Except Halt Unit × Registry × List Note} {name : String}
    {position : Position} {type : Ty} (found : (answer name source position tried).1 = .ok type) :
    tried.1 = .ok () ∧ tried.2.1.exported name source position = .ok type := by
  obtain ⟨_ | _, after, notes⟩ := tried
  · cases found
  · exact ⟨rfl, found⟩

@[simp] theorem answer_store (tried : Except Halt Unit × Registry × List Note) (name : String)
    (position : Position) : (answer name source position tried).2.1 = tried.2.1 := by
  obtain ⟨_ | _, after, notes⟩ := tried <;> rfl

/-- A load changes nothing, or it asks the loader in vain, or it checks a body. -/
theorem load_cases (fuel : Nat) (source : String) (position : Position) (registry : Registry) :
    (load fuel source position registry).2.1 = registry ∨
      registry.Open source ∧
        ((∃ halt, (load fuel source position registry).1 = .error halt ∧
          (load fuel source position registry).2.1 = registry.asking source ∧
          registry.Refused (registry.asking source) source halt) ∨
        ∃ loader body less, registry.loader = some loader ∧
          loader registry.requests source = .ok body ∧ fuel = less + 1 ∧
          load fuel source position registry =
            conclude source ((registry.entering source).check registry.options less body)) := by
  rw [load]
  obtain ⟨same, done⟩ | ⟨isOpen, loader, isLoader, ⟨diagnostic, loads, request⟩ |
      ⟨body, loads, request⟩⟩ := request_cases registry source position
  · left
    revert same done
    obtain ⟨_ | _ | body, after⟩ := registry.request source position
    · exact fun same _ => same
    · exact fun same _ => same
    · exact fun _ done => absurd rfl (done body)
  · rw [request]
    exact .inr ⟨isOpen, .inl ⟨_, rfl, rfl, .inl ⟨_, diagnostic,
      ⟨List.prefix_rfl, List.prefix_rfl, loader, isLoader, loads⟩, rfl⟩⟩⟩
  · rw [request]
    cases fuel with
    | zero => exact .inr ⟨isOpen, .inl ⟨_, rfl, rfl, .inr ⟨body, _,
        entered_entering isLoader loads List.prefix_rfl, .inl rfl⟩⟩⟩
    | succ fuel => exact .inr ⟨isOpen, .inr ⟨loader, body, fuel, isLoader, loads, rfl, rfl⟩⟩

/-- Whatever a load does, so does looking up a name. -/
theorem behaves_typeOf_of_load {fuel : Nat} {position : Position}
    (loads : registry.Behaves (haltOf (load fuel source position registry).1)
      (load fuel source position registry).2.1) (name : String) :
    registry.Behaves (haltOf (typeOf fuel name source position registry).1)
      (typeOf fuel name source position registry).2.1 := by
  rw [typeOf, answer_store]
  revert loads
  obtain ⟨halt | done, after, notes⟩ := load fuel source position registry
  · exact id
  · intro loads
    show registry.Behaves (haltOf (after.exported name source position)) after
    cases after.exported name source position with
    | ok type => exact loads
    | error halt => exact loads.worse halt

section Importer

variable {fuel : Nat} (loads : ∀ source position registry,
  Behaves registry (haltOf (load fuel source position registry).1)
    (load fuel source position registry).2.1)

include loads

theorem respects_importer (start : Registry) :
    (importer fuel).Respects (start.Behaves none) fun halt => start.Behaves (some halt) := by
  intro name source position store before
  have step := behaves_typeOf_of_load (loads source position store) name
  refine ⟨fun type found => before.trans ?_, fun halt found => before.trans ?_⟩
  · rwa [show (typeOf fuel name source position store).1 = .ok type from found] at step
  · rwa [show (typeOf fuel name source position store).1 = .error halt from found] at step

theorem behaves_check_of_load (registry : Registry) (options : Options) (program : List Stmt) :
    registry.Behaves (haltOf (registry.check options fuel program).result)
      (registry.check options fuel program).store := by
  obtain ⟨good, bad⟩ : (∀ output, (registry.check options fuel program).result = .ok output →
      registry.Behaves none (registry.check options fuel program).store) ∧
      ∀ halt, (registry.check options fuel program).result = .error halt →
        registry.Behaves (some halt) (registry.check options fuel program).store :=
    checkProgram_respects (fun halt _ => Behaves.worse halt) (respects_importer loads registry)
      (.refl registry none)
  cases result : (registry.check options fuel program).result with
  | ok output => exact good output result
  | error halt => exact bad halt result

/-- Every module that a checked file takes names from is known. -/
theorem imported_of_check {options : Options} {program : List Stmt} {output : Output}
    (accepted : (registry.check options fuel program).result = .ok output) :
    ∀ source ∈ Stmt.allSources program,
      source ∈ (registry.check options fuel program).store.modules.names := by
  have learns : (importer fuel).Learns fun source store => source ∈ store.modules.names := by
    refine ⟨fun name source position store type found => ?_,
      fun name source position store other known => ?_⟩
    · obtain ⟨exports, known, -⟩ := exported_ok (answer_ok found).2
      refine Table.mem_names.2 ?_
      rw [show ((importer fuel).typeOf name source position store).2.1 = _ from answer_store _ _ _,
        known]
      rfl
    · obtain ⟨asked, new, grown⟩ := behaves_typeOf_of_load (loads source position store) name
      exact grown.names ▸ List.mem_append_left _ known
  exact checkProgram_answered accepted learns

end Importer

/-- The step from the loads inside a body to the load of the body. -/
theorem behaves_conclude {loader : Loader} {fuel : Nat} (isOpen : registry.Open source)
    (isLoader : registry.loader = some loader)
    (loads : loader registry.requests source = .ok body)
    (inner : ∀ source position registry,
      Behaves registry (haltOf (load fuel source position registry).1)
        (load fuel source position registry).2.1) :
    registry.Behaves
      (haltOf (conclude source ((registry.entering source).check registry.options fuel body)).1)
      (conclude source ((registry.entering source).check registry.options fuel body)).2.1 := by
  obtain ⟨asked, new, inside⟩ :=
    behaves_check_of_load inner (registry.entering source) registry.options body
  rw [conclude]
  cases result : ((registry.entering source).check registry.options fuel body).result with
  | error halt =>
    rw [result] at inside
    exact ⟨_, _, .failed isOpen isLoader loads result rfl inside⟩
  | ok output =>
    rw [result] at inside
    exact ⟨_, _, .succeeded isOpen isLoader loads result rfl (imported_of_check inner result) inside⟩

theorem behaves_load (fuel : Nat) : ∀ source position registry,
    Behaves registry (haltOf (load fuel source position registry).1)
      (load fuel source position registry).2.1 := by
  -- Loads inside the load have less fuel.
  induction fuel using Nat.strongRecOn with
  | _ fuel ih =>
    intro source position registry
    obtain same | ⟨isOpen, ⟨halt, failed, same, refused⟩ |
        ⟨loader, body, less, isLoader, loads, rfl, same⟩⟩ :=
      load_cases fuel source position registry
    · rw [same]
      exact .refl _ _
    · rw [failed, same]
      exact ⟨_, _, grown_asking isOpen refused⟩
    · rw [same]
      exact behaves_conclude isOpen isLoader loads (ih less less.lt_succ_self)

theorem behaves_after (registry : Registry) (fuel : Nat) (call : Call) :
    registry.Behaves (registry.haltOfCall fuel call) (registry.after fuel call) := by
  cases call with
  | typeOf name source position => exact behaves_typeOf_of_load (behaves_load fuel _ _ _) name
  | check options program => exact behaves_check_of_load (behaves_load fuel) registry options program

/-! Histories of calls. -/

theorem afterAll_concat (registry : Registry) (history : List (Nat × Call)) (fuel : Nat)
    (call : Call) : registry.afterAll (history ++ [(fuel, call)]) =
      (registry.afterAll history).after fuel call := by
  simp [afterAll]

theorem exists_since (registry : Registry) (history : List (Nat × Call)) :
    ∃ new, Since registry new (registry.afterAll history) := by
  induction history generalizing registry with
  | nil => exact ⟨[], .refl registry⟩
  | cons first rest ih =>
    obtain ⟨fuel, call⟩ := first
    obtain ⟨_, new, grown⟩ := behaves_after registry fuel call
    obtain ⟨new', since⟩ := ih (registry.after fuel call)
    exact ⟨new ++ new', grown.toSince.trans since⟩

/-- A module that only the loader knows takes a name from another, whenever it is asked for. -/
def Imports (registry : Registry) (source other : String) : Prop :=
  registry.modules.find? source = none ∧
    ∀ loader past body, registry.loader = some loader → loader past source = .ok body →
      other ∈ Stmt.allSources body

/-- What a module takes names from became known before it. -/
theorem Layered.earlier (layered : registry.Layered after registry.modules.names new)
    {other : String} (imports : registry.Imports source other) (mem : source ∈ new)
    (unknown : registry.modules.find? other = none) :
    other ∈ new ∧ new.idxOf other < new.idxOf source := by
  obtain ⟨earlier, later, rfl⟩ := List.append_of_mem mem
  obtain ⟨absent, body, _, -, ⟨_, _, _, ⟨-, past, ⟨-, -, loader, isLoader, loads⟩, -⟩, -⟩, known⟩ :=
    layered earlier source later rfl
  have named := imports.2 loader past body isLoader loads
  have before : other ∈ earlier :=
    (List.mem_append.1 (known other named)).resolve_left (Table.not_mem_names.2 unknown)
  have after : source ∉ earlier := fun mem => absent (List.mem_append_right _ mem)
  refine ⟨List.mem_append_left _ before, ?_⟩
  rw [List.idxOf_append_of_mem before, List.idxOf_append_of_notMem after]
  exact Nat.lt_of_lt_of_le (List.idxOf_lt_length_iff.2 before) (Nat.le_add_right _ _)

theorem Layered.earlier_of_transGen
    (layered : registry.Layered after registry.modules.names new) {other : String}
    (path : Relation.TransGen registry.Imports source other) (mem : source ∈ new)
    (unknown : registry.modules.find? other = none) :
    other ∈ new ∧ new.idxOf other < new.idxOf source := by
  induction path with
  | single imports => exact layered.earlier imports mem unknown
  | tail _ imports ih =>
    obtain ⟨between, first⟩ := ih imports.1
    obtain ⟨found, second⟩ := layered.earlier imports between unknown
    exact ⟨found, second.trans first⟩

theorem Since.unknown_of_cycle (since : Since registry new after)
    (cycle : Relation.TransGen registry.Imports source source) :
    after.modules.find? source = none := by
  obtain ⟨other, ⟨unknown, -⟩, -⟩ := Relation.TransGen.head'_iff.1 cycle
  rw [← Table.not_mem_names, since.names, List.mem_append]
  rintro (known | learned)
  · exact Table.not_mem_names.2 unknown known
  · exact Nat.lt_irrefl _ (since.layered.earlier_of_transGen cycle learned unknown).2

/-- One module takes a name from another, and is wrong until it is asked for again. -/
def mended : Registry :=
  { empty with
    loader := some fun past source =>
      if source = "inner" then
        .ok [.leaf (.declare
          ⟨"x", false, .boolean true, .unannotated, .unresolved, true, .nowhere⟩)]
      else .ok [.leaf (.imports ["x"] "inner" .nowhere), .leaf (.declare
        ⟨"y", false, .symbol "x" .unresolved, if source ∈ past then .boolean else .number,
          .unresolved, true, .nowhere⟩)] }

end Registry

end Hoist
