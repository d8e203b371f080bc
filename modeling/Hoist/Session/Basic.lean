import Hoist.Session.Command

/-!
Carrying out commands on a checker. A command that fails leaves the checker as it was at the
failure, and the session goes on.
-/
namespace Hoist

/-- What a session keeps beside its checker. -/
structure Session where
  registry : Registry
  held : List (Deferral Script)
  /-- What was checked and is not completed yet. -/
  outlines : List Outline
  /-- The events of the present command, in order. -/
  events : List Event

abbrev SessionCheck := Check Script Session

namespace Session

open Check

def initial : Session := ⟨.builtin, [], [], []⟩

/-- Imports come from the session's registry, which has no loader. -/
def importer : Importer Session := ⟨fun name source position session =>
  let (result, registry, notes) := Registry.typeOf 0 name source position session.registry
  (result, { session with registry }, notes)⟩

def record (event : Event) : SessionCheck Unit :=
  modify fun state =>
    { state with store := { state.store with events := state.store.events ++ [event] } }

/-- Keeps work for later and says how much it was. -/
def hold (work : List (Deferral Script)) : SessionCheck Reply := do
  modify fun state =>
    { state with store := { state.store with held := state.store.held ++ work } }
  return .count work.length

/-- The outcome of finding a type, when that was possible or refused. -/
def outcome (result : Except Fault Ty) (position : Position) :
    SessionCheck (Except Diagnostic Ty) :=
  match result with
  | .ok type => return .ok type
  | .error (.refused cause) => return .error ⟨cause, position⟩
  | .error .dangling => throw .dangling

/-- A question about the scopes, which only fails for want of a scope. -/
def ask {α : Type} (question : Scopes (Deferral Script) → Except Fault α) : SessionCheck α := do
  ofFault .nowhere (question (← scopes))

def execute (env : Env Script Session) : Command → SessionCheck Reply
  | .create parent kind => return .scope (some (← createScope parent kind))
  | .define scope binding position => do
    env.settle (← define scope binding position)
    return .done
  | .update scope binding position => do
    env.settle (← update scope binding position)
    return .done
  | .setResult scope result position => do
    env.settle (← setResult scope result position)
    return .done
  | .holdDefine scope binding position => do hold (← define scope binding position)
  | .holdUpdate scope binding position => do hold (← update scope binding position)
  | .holdResult scope result position => do hold (← setResult scope result position)
  | .runHeld => do
    let work := (← get).store.held
    modify fun state => { state with store := { state.store with held := [] } }
    env.settle work
    return .done
  | .await scope name position tag commands => do
    await scope name (.client ⟨tag, commands⟩) position
    return .done
  | .awaitResult scope position tag commands => do
    awaitResult scope (.client ⟨tag, commands⟩) position
    return .done
  | .install scope name declared position tag commands => do
    let anchor ← ask (·.anchor scope name declared)
    awaitAt anchor name (.client ⟨tag, commands⟩) position
    return .anchor anchor
  | .anchor scope name declared => return .anchor (← ask (·.anchor scope name declared))
  | .fail cause position => reject cause position
  | .lookup scope name => return .binding (← ask (·.lookup scope name))
  | .lookupLocal scope name => return .binding (← ask (·.lookupLocal scope name))
  | .owner scope name => return .scope (← ask (·.owner scope name))
  | .parent scope => return .scope (← ask (·.parent scope))
  | .top scope => return .scope (some (← ask (·.top scope)))
  | .chain scope => return .scopes (← ask (·.chain scope))
  | .isTopLevel scope => return .flag (← ask (·.isTopLevel scope))
  | .isInsideLoop scope => return .flag (← ask (·.isInsideLoop scope))
  | .isInsideFunction scope => return .flag (← ask (·.functionBody scope)).isSome
  | .resultType scope => return .type (← ask (·.resultType scope))
  | .waitingOn scope name => return .count (← ask (·.waitingOn scope name)).length
  | .firstWaiting => return .waiting (← scopes).firstWaiting?
  | .reportUnresolved => do
    reportUnresolved
    return .done
  | .size => return .count (← scopes).size
  | .isEmpty => return .flag (← scopes).all.isEmpty
  | .resolve scope expr position => do
    let (result, expr) := expr.resolve (← view scope)
    return .resolved (← outcome result position) expr
  | .resolveTarget scope target position => do
    let (result, target) := target.resolve (← view scope)
    return .resolvedTarget (← outcome result position) target
  | .check scope program => do
    modify fun state => { state with store := { state.store with registry := .builtin } }
    let outlines ← checkBlock env scope none program
    modify fun state =>
      { state with store := { state.store with outlines := state.store.outlines ++ outlines } }
    return .count outlines.length
  | .finish => do
    let state ← get
    set { state with store := { state.store with outlines := [] } }
    match state.complete state.store.outlines with
    | .ok program => return .typed program
    | .error halt => throw halt

/-- Carries out commands until one fails. -/
def executeAll (env : Env Script Session) : List Command → SessionCheck Unit
  | [] => return
  | command :: rest => do
    let reply ← try execute env command catch halt =>
      match halt with
      | .rejected diagnostic => record (.failed diagnostic.cause)
      | _ => pure ()
      throw halt
    record (.succeeded reply)
    executeAll env rest

/-- Runs a script while a wave is going on, so that what it hands back only joins the queue. -/
def runScript (options : Options) (script : Script) : SessionCheck Unit := do
  record (.started script.tag)
  executeAll ⟨options, importer, enqueue⟩ script.commands

def env (options : Options) : Env Script Session :=
  ⟨options, importer, runWave (runScript options)⟩

/-- Carries out one command. -/
def step (options : Options) (command : Command) (state : Checker Script Session) :
    Except Halt Reply × Checker Script Session :=
  let start := { state with store := { state.store with events := [] } }
  (execute (env options) command).run start

/-- Carries out commands up to one that cannot be answered, and returns for each its reply and
what scripts did meanwhile. -/
def run (options : Options) :
    Checker Script Session → List Command → List (Except Halt Reply × List Event)
  | _, [] => []
  | state, command :: rest =>
    let (result, state) := step options command state
    let answer := (result, state.store.events)
    match result with
    | .error .dangling => [answer]
    | .error .exhausted => [answer]
    | _ => answer :: run options state rest

/-- Carries out commands on a new checker. -/
def start (options : Options) (budget : Nat) (commands : List Command) :
    List (Except Halt Reply × List Event) :=
  run options (Checker.initial initial budget) commands

end Session

end Hoist
