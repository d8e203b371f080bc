import Hoist.Check.State
import Hoist.Typing.Resolve

/-!
Checking simple statements and function heads, for the first time and again after a name they
waited for has changed. A statement that is still pending waits for the next name.

What a change of the scopes hands back goes to `settle`, which decides when it is performed.
-/
namespace Hoist

def Declaration.binding (declaration : Declaration) : Binding :=
  ⟨declaration.name, declaration.type, declaration.constant, declaration.exported⟩

def Signature.binding (signature : Signature) : Binding :=
  ⟨signature.name, signature.type, true, signature.exported⟩

/-- Gives a declaration its type, which must be the written one if there is one. -/
def Declaration.withType (declaration : Declaration) (type : Ty) : Except Cause Declaration :=
  if declaration.written.isConcrete && !type.isPending && declaration.written ≠ type then
    .error (.typeMismatch declaration.written.text type.text)
  else .ok { declaration with type }

namespace Check

variable {κ σ : Type} (settle : List (Deferral κ) → Check κ σ Unit)

/-! Declarations. -/

def deferDeclaration (id : DraftId) (scope : ScopeId) (declaration : Declaration) (type : Ty) :
    Check κ σ Unit :=
  match type.pendingOn with
  | none => pure ()
  | some name =>
    defer scope name (some declaration.name) (.resume id name) declaration.span.start

def checkDeclaration (scope : ScopeId) (declaration : Declaration) : Check κ σ DraftId := do
  let position := declaration.span.start
  if declaration.exported then
    if !(← ofFault position ((← scopes).isTopLevel scope)) then
      reject (.exportNotTopLevel declaration.name) position
  let (result, value) := declaration.value.resolve (← view scope)
  let type ← ofFault position result
  let declaration ← ofCause position ({ declaration with value }.withType type)
  settle (← define scope declaration.binding position)
  let id ← addDraft scope (.declaration declaration)
  deferDeclaration id scope declaration type
  return id

def resumeDeclaration (id : DraftId) (scope : ScopeId) (declaration : Declaration) :
    Check κ σ Unit := do
  let position := declaration.span.start
  let (result, value) := declaration.value.resolve (← view scope)
  let declaration := { declaration with value }
  setDraft id scope (.declaration declaration)
  let type ← ofFault position result
  let declaration ← ofCause position (declaration.withType type)
  setDraft id scope (.declaration declaration)
  deferDeclaration id scope declaration type
  settle (← update scope declaration.binding position)

/-! Assignments. -/

/-- Waits for each of the names that the assignment does not wait for already. -/
def awaitEach (id : DraftId) (scope : ScopeId) (assignment : Assignment) :
    List String → List String → Check κ σ Unit
  | _, [] => pure ()
  | awaited, name :: rest => do
    if awaited.contains name then awaitEach id scope assignment awaited rest
    else
      setDraft id scope (.assignment assignment (name :: awaited))
      defer scope name none (.resume id name) assignment.span.start
      awaitEach id scope assignment (name :: awaited) rest

/-- The target must be bound, and must not be the name of a constant. -/
def checkRoot (scope : ScopeId) (target : Target) (position : Position) : Check κ σ Unit := do
  match ← ofFault position ((← scopes).lookup scope target.root) with
  | none => reject (.unknownSymbol target.root) position
  | some binding =>
    if binding.constant && target.isSymbol then
      reject (.constantAssigned target.root) position

/-- Types that are known must agree; an operator that computes needs numbers. -/
def assignable (op : AssignOp) (target value : Ty) : Except Cause Unit :=
  if op ≠ .set && !target.isPending && target ≠ .number then
    .error (.typeMismatch Ty.number.text target.text)
  else if !target.isPending && !value.isPending && target ≠ value then
    .error (.typeMismatch target.text value.text)
  else .ok ()

def checkAssignment (id : DraftId) (scope : ScopeId) (assignment : Assignment)
    (awaited : List String) : Check κ σ Unit := do
  let position := assignment.span.start
  checkRoot scope assignment.target position
  let names ← view scope
  let (result, target) := assignment.target.resolve names
  let assignment := { assignment with target }
  setDraft id scope (.assignment assignment awaited)
  let targetType ← ofFault position result
  let (result, value) := assignment.value.resolve names
  let assignment := { assignment with value }
  setDraft id scope (.assignment assignment awaited)
  let valueType ← ofFault position result
  ofCause position (assignable assignment.op targetType valueType)
  awaitEach id scope assignment awaited ([targetType, valueType].filterMap Ty.pendingOn)

/-! Returns. -/

/-- The first return whose type is known sets the function's result type. -/
def checkReturn (id : DraftId) (scope : ScopeId) (statement : Return) : Check κ σ Unit := do
  let position := statement.span.start
  match ← ofFault position ((← scopes).resultType scope) with
  | none => reject .returnOutsideFunction position
  | some current =>
    let type ← match statement.value with
      | none => pure .void
      | some value => do
        let (result, value) := value.resolve (← view scope)
        setDraft id scope (.returns { statement with value })
        ofFault position result
    match type.pendingOn with
    | some name =>
      defer scope name none (.resume id name) position
      if !current.isConcrete then settle (← setResult scope type position)
    | none =>
      if !current.isConcrete then settle (← setResult scope type position)
      else if current ≠ type then
        reject (.returnMismatch current.text type.text) position

/-! Expressions as statements. -/

def checkEvaluation (id : DraftId) (scope : ScopeId) (statement : Evaluation) :
    Check κ σ Unit := do
  let position := statement.span.start
  let (result, value) := statement.value.resolve (← view scope)
  setDraft id scope (.evaluation { statement with value })
  let type ← ofFault position result
  match type.pendingOn with
  | none => pure ()
  | some name => defer scope name none (.resume id name) position

/-- Checks a draft again; `awaited` is the name that has changed. -/
def resume (id : DraftId) (awaited : String) : Check κ σ Unit := do
  let draft ← getDraft id
  match draft.work with
  | .declaration declaration => resumeDeclaration settle id draft.scope declaration
  | .assignment assignment names => do
    let names := names.filter (· ≠ awaited)
    setDraft id draft.scope (.assignment assignment names)
    checkAssignment id draft.scope assignment names
  | .returns statement => checkReturn settle id draft.scope statement
  | .evaluation statement => checkEvaluation id draft.scope statement

/-! Function heads. -/

/-- Parameters have distinct names and written types. -/
def checkParameters : List String → List (String × Ty) → Except Cause Unit
  | _, [] => .ok ()
  | seen, (name, type) :: rest =>
    if seen.contains name then .error (.duplicateParameter name)
    else if !type.isConcrete then .error (.untypedParameter name)
    else checkParameters (name :: seen) rest

def defineParameters (body : ScopeId) (position : Position) :
    List (String × Ty) → Check κ σ Unit
  | [] => pure ()
  | (name, type) :: rest => do
    settle (← define body ⟨name, type, false, false⟩ position)
    defineParameters body position rest

/-- Makes the scope of a function's body. -/
def openFunction (scope : ScopeId) (signature : Signature) : Check κ σ ScopeId := do
  let position := signature.span.start
  if !(← ofFault position ((← scopes).isTopLevel scope)) then
    reject (.functionNotTopLevel signature.name) position
  ofCause position (checkParameters [] signature.parameters)
  let body ← createScope (some scope) (.function signature.result)
  defineParameters settle body position signature.parameters
  return body

/-- Binds a function whose body has been checked. One without a `return` has no result. -/
def closeFunction (scope body : ScopeId) (signature : Signature) : Check κ σ SignatureId := do
  let position := signature.span.start
  let result := match ← ofFault position ((← scopes).resultType body) with
    | none => .void
    | some .unannotated => .void
    | some result => result
  let signature := { signature with result }
  let id ← addSignature ⟨scope, body, signature⟩
  if result.isPending then awaitResult body (.conclude id) position
  settle (← define scope signature.binding position)
  return id

/-- Passes a changed result type on to the binding of the function. -/
def conclude (id : SignatureId) : Check κ σ Unit := do
  let draft ← getSignature id
  let position := draft.signature.span.start
  let result := (← ofFault position ((← scopes).resultType draft.body)).getD .void
  let signature := { draft.signature with result }
  setSignature id { draft with signature }
  if result.isPending then awaitResult draft.body (.conclude id) position
  else settle (← update draft.scope signature.binding position)

end Check

end Hoist
