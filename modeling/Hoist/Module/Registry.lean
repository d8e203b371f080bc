import Hoist.Check.Program

/-!
Modules. A registry knows the exports of some modules, and may have a loader for others: a module
is loaded when a name is first imported from it, by checking its body with the same registry. A
module that is imported while its own body is being checked is refused.
-/
namespace Hoist

abbrev Exports := Table Ty

/-- The body of a module, or why there is none. The answer may depend on the names that were asked
for before, so a loader that fails once need not fail again. -/
abbrev Loader := List String → String → Except Diagnostic (List Stmt)

structure Registry where
  modules : Table Exports
  loader : Option Loader
  /-- The modules whose bodies are being checked, the innermost first. -/
  inProgress : List String
  /-- How the bodies of modules are checked. -/
  options : Options
  /-- The names that the loader was asked for, in order. -/
  requests : List String

/-- What is to be done before a module's exports can be looked at. -/
inductive Request
  | ready
  | refused (diagnostic : Diagnostic)
  | check (body : List Stmt)

namespace Registry

def empty : Registry := ⟨.empty, none, [], .standard, []⟩

def register (registry : Registry) (source : String) (exports : Exports) : Registry :=
  { registry with modules := registry.modules.insert source exports }

def registerAll (registry : Registry) (modules : List (String × Exports)) : Registry :=
  modules.foldl (fun registry (source, exports) => registry.register source exports) registry

/-- The notes on registering modules, latest first. -/
def registrations (modules : List (String × Exports)) : List Note :=
  (modules.map fun (source, exports) => Note.registered source exports.size).reverse

/-- The modules that come with the language. -/
def builtinModules : List (String × Exports) :=
  [("internal", .ofList [("syscallExit", .function [("status", .number)] .boolean)])]

def builtin : Registry := empty.registerAll builtinModules

/-- Asks the loader for a module that is neither known nor being checked. -/
def request (registry : Registry) (source : String) (position : Position) : Request × Registry :=
  if registry.modules.contains source then (.ready, registry)
  else if registry.inProgress.contains source then
    (.refused ⟨.cyclicImport source, position⟩, registry)
  else match registry.loader with
    | none => (.ready, registry)
    | some loader =>
      let answer := loader registry.requests source
      let registry := { registry with requests := registry.requests ++ [source] }
      match answer with
      | .error diagnostic => (.refused diagnostic, registry)
      | .ok body => (.check body, registry)

/-- The type of a name that a module exports. -/
def exported (registry : Registry) (name source : String) (position : Position) :
    Except Halt Ty :=
  match (registry.modules.find? source).bind (·.find? name) with
  | some type => .ok type
  | none => .error (.rejected ⟨.unresolvedImport name source, position⟩)

/-- Looks up a name after its module was tried. -/
def answer (name source : String) (position : Position) :
    Except Halt Unit × Registry × List Note → Except Halt Ty × Registry × List Note
  | (.ok (), registry, notes) => (registry.exported name source position, registry, notes)
  | (.error halt, registry, notes) => (.error halt, registry, notes)

/-- The state after a module's body was checked. -/
def conclude (source : String) (run : Run Registry) :
    Except Halt Unit × Registry × List Note :=
  let registry := { run.store with inProgress := run.store.inProgress.erase source }
  let notes := run.journal ++ [.loading source]
  match run.result with
  | .error halt => (.error halt, registry, notes)
  | .ok output =>
    let exports := output.exports.map ConcreteTy.toTy
    (.ok (), registry.register source exports, .registered source exports.size :: notes)

/-- Makes a module known, if it can be. Every load inside a load takes one of the fuel, which is
also the budget for checking the bodies. -/
def load : Nat → String → Position → Registry → Except Halt Unit × Registry × List Note
  | fuel, source, position, registry =>
    match registry.request source position with
    | (.ready, registry) => (.ok (), registry, [])
    | (.refused diagnostic, registry) => (.error (.rejected diagnostic), registry, [])
    | (.check body, registry) =>
      match fuel with
      | 0 => (.error .exhausted, registry, [.loading source])
      | fuel + 1 =>
        let importer : Importer Registry := ⟨fun name source position registry =>
          answer name source position (load fuel source position registry)⟩
        let registry := { registry with inProgress := source :: registry.inProgress }
        conclude source (checkProgram importer registry.options fuel registry body)

/-- The type of a name that a module exports, which is loaded if need be. -/
def typeOf (fuel : Nat) (name source : String) (position : Position) (registry : Registry) :
    Except Halt Ty × Registry × List Note :=
  answer name source position (load fuel source position registry)

def importer (fuel : Nat) : Importer Registry := ⟨typeOf fuel⟩

/-- Checks a file whose imports come from the registry. -/
def check (registry : Registry) (options : Options) (fuel : Nat) (program : List Stmt) :
    Run Registry :=
  checkProgram (importer fuel) options fuel registry program

/-- Checks again what is left of an output when the types that can be found are forgotten. -/
def recheck (registry : Registry) (options : Options) (fuel : Nat) (output : Output) :
    Run Registry :=
  registry.check options fuel (Typed.Stmt.forgetAll output.typed)

end Registry

end Hoist
