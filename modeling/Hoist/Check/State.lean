import Hoist.Check.Note
import Hoist.Scope.Change
import Hoist.Syntax.Stmt
import Hoist.Typing.View

/-!
The state of a checker, and the small steps that everything else is made of.

A statement whose types are not all known is kept as a draft, and a `Deferral` that names the
draft waits in some scope. Deferrals that are handed back by a change of the scopes go into a
queue, and are performed one after the other.

A run has a budget of steps: one for each statement it comes to, and one for each deferral it
performs. A run that has used it up stops with the state it has reached, so the states between two
steps of a run are those in which runs with a smaller budget stop.
-/
namespace Hoist

abbrev DraftId := Nat

abbrev SignatureId := Nat

/-- The simple statements that may have to wait for a name. -/
inductive Work
  | declaration (declaration : Declaration)
  /-- An assignment, and the names it has a deferral waiting for. -/
  | assignment (assignment : Assignment) (awaited : List String)
  | returns (statement : Return)
  | evaluation (statement : Evaluation)

/-- A simple statement in the scope it stands in. -/
structure Draft where
  scope : ScopeId
  work : Work

/-- A function head in the scope that declares it, and the scope of its body. -/
structure SignatureDraft where
  scope : ScopeId
  body : ScopeId
  signature : Signature

/-- Work put off. The type `κ` stands for work that a client of the checker brings along. -/
inductive Deferral (κ : Type)
  /-- Check a draft again now that the name it waited for has changed. -/
  | resume (draft : DraftId) (awaited : String)
  /-- Look again at the result type of a function. -/
  | conclude (signature : SignatureId)
  /-- Go on only if the name turned out to be a function in the outermost scope. -/
  | hoisted (root : ScopeId) (name : String) (position : Position) (rest : Deferral κ)
  | client (task : κ)

/-- The state, with a store `σ` for the client's own data. -/
structure Checker (κ σ : Type) where
  scopes : Scopes (Deferral κ)
  drafts : List Draft
  signatures : List SignatureDraft
  queue : List (Deferral κ)
  /-- A wave of deferrals is being performed. -/
  firing : Bool
  budget : Nat
  store : σ
  /-- The notes so far, the latest first. -/
  journal : List Note

/-- Steps of a checker. A step that fails leaves the state as it was at the failure. -/
abbrev Check (κ σ : Type) := ExceptT Halt (StateM (Checker κ σ))

/-- A checker with one scope. -/
def Checker.initial {κ σ : Type} (store : σ) (budget : Nat) : Checker κ σ :=
  { scopes := Scopes.empty.create none .block
    drafts := []
    signatures := []
    queue := []
    firing := false
    budget
    store
    journal := [.scopeCreated 0 none] }

/-- The scope that a file's own statements stand in. -/
def Checker.root : ScopeId := 0

namespace Check

variable {κ σ : Type}

def note (message : Note) : Check κ σ Unit :=
  modify fun state => { state with journal := message :: state.journal }

def reject {α : Type} (cause : Cause) (position : Position) : Check κ σ α :=
  throw (.rejected ⟨cause, position⟩)

def ofFault {α : Type} (position : Position) : Except Fault α → Check κ σ α
  | .ok value => pure value
  | .error fault => throw (fault.haltAt position)

def ofCause {α : Type} (position : Position) : Except Cause α → Check κ σ α
  | .ok value => pure value
  | .error cause => reject cause position

/-- Pays for one step. -/
def tick : Check κ σ Unit := do
  match (← get).budget with
  | 0 => throw .exhausted
  | left + 1 => modify fun state => { state with budget := left }

/-! Scopes. -/

def scopes : Check κ σ (Scopes (Deferral κ)) := do
  return (← get).scopes

def setScopes (scopes : Scopes (Deferral κ)) : Check κ σ Unit :=
  modify fun state => { state with scopes }

def view (scope : ScopeId) : Check κ σ View := do
  return (← scopes).view scope

def createScope (parent : Option ScopeId) (kind : ScopeKind) : Check κ σ ScopeId := do
  let before ← scopes
  setScopes (before.create parent kind)
  note (.scopeCreated before.size parent)
  return before.size

/-- Binds a new name and returns what waited for it. -/
def define (scope : ScopeId) (binding : Binding) (position : Position) :
    Check κ σ (List (Deferral κ)) := do
  let (work, after) ← ofFault position ((← scopes).define scope binding)
  setScopes after
  note (.defined binding.name binding.type scope)
  return work

/-- Binds a name again and returns what waited for it. -/
def update (scope : ScopeId) (binding : Binding) (position : Position) :
    Check κ σ (List (Deferral κ)) := do
  let (work, after) ← ofFault position ((← scopes).update scope binding)
  setScopes after
  note (.updated binding.name binding.type scope)
  return work

/-- Sets the result type of the function around a scope and returns what waited for it. -/
def setResult (scope : ScopeId) (result : Ty) (position : Position) :
    Check κ σ (List (Deferral κ)) := do
  let (work, after) ← ofFault position ((← scopes).setResult scope result)
  setScopes after
  note (.resultSet scope result)
  return work

def await (scope : ScopeId) (name : String) (work : Deferral κ) (position : Position) :
    Check κ σ Unit := do
  note (.awaited name scope)
  setScopes (← ofFault position ((← scopes).await scope name ⟨work, position⟩))

def awaitResult (scope : ScopeId) (work : Deferral κ) (position : Position) :
    Check κ σ Unit := do
  setScopes (← ofFault position ((← scopes).awaitResult scope work))
  note (.resultAwaited scope)

/-- Lets work wait at an anchor. What waits for a name that nobody binds yet is only performed if
the name turns out to be a function. -/
def awaitAt (anchor : Anchor) (name : String) (work : Deferral κ) (position : Position) :
    Check κ σ Unit :=
  match anchor with
  | .bound owner => await owner name work position
  | .root root => await root name (.hoisted root name position work) position

/-- Puts off work in a scope until a name has changed. -/
def defer (scope : ScopeId) (name : String) (declared : Option String) (work : Deferral κ)
    (position : Position) : Check κ σ Unit := do
  let anchor ← ofFault position ((← scopes).anchor scope name declared)
  awaitAt anchor name work position

/-! Drafts. -/

def addDraft (scope : ScopeId) (work : Work) : Check κ σ DraftId := do
  let id := (← get).drafts.length
  modify fun state => { state with drafts := state.drafts ++ [⟨scope, work⟩] }
  return id

def getDraft (id : DraftId) : Check κ σ Draft := do
  match (← get).drafts[id]? with
  | some draft => return draft
  | none => throw .dangling

def setDraft (id : DraftId) (scope : ScopeId) (work : Work) : Check κ σ Unit :=
  modify fun state => { state with drafts := state.drafts.set id ⟨scope, work⟩ }

def addSignature (draft : SignatureDraft) : Check κ σ SignatureId := do
  let id := (← get).signatures.length
  modify fun state => { state with signatures := state.signatures ++ [draft] }
  return id

def getSignature (id : SignatureId) : Check κ σ SignatureDraft := do
  match (← get).signatures[id]? with
  | some draft => return draft
  | none => throw .dangling

def setSignature (id : SignatureId) (draft : SignatureDraft) : Check κ σ Unit :=
  modify fun state => { state with signatures := state.signatures.set id draft }

/-! The queue. -/

/-- Adds to the end of the queue. -/
def enqueue (work : List (Deferral κ)) : Check κ σ Unit := do
  if !work.isEmpty then note (.queued work.length)
  modify fun state => { state with queue := state.queue ++ work }

end Check

end Hoist
