import Hoist.Check.Work
import Hoist.Proofs.Scope.Path
import Hoist.Proofs.Typing.Targets

/-!
What a checker works on: the scopes, the drafts, the function heads and the queue. This module
says what is true of a desk between any two moves (`Desk.Sound`); the moves themselves are in
`Hoist.Proofs.Check.Move`.

A draft is sound if the types in its slots came from a look that succeeded, and if the binding it
declares has the type that was found. Returns agree with the result type that the body of their
function keeps, and the head of the function with that.
-/
namespace Hoist

/-! Drafts: what never changes of them, and the symbols in them. -/

inductive Work.Head
  | declaration (name : String) (constant : Bool) (written : Ty) (exported : Bool)
  | assignment (root : String) (bare : Bool) (op : AssignOp)
  | returns (bare : Bool)
  | evaluation

namespace Work

def head : Work → Head
  | .declaration d => .declaration d.name d.constant d.written d.exported
  | .assignment a _ => .assignment a.target.root a.target.isSymbol a.op
  | .returns r => .returns r.value.isNone
  | .evaluation _ => .evaluation

def declares : Work → Option String
  | .declaration d => some d.name
  | _ => none

/-- The expression whose type a simple statement is about. -/
def value? : Work → Option Expr
  | .declaration d => some d.value
  | .assignment a _ => some a.value
  | .returns r => r.value
  | .evaluation e => some e.value

def valueSymbols (work : Work) : List (String × Ty) :=
  (work.value?.map Expr.symbols).getD []

def targetSymbols : Work → List (String × Ty)
  | .assignment a _ => a.target.symbols
  | _ => []

def symbols (work : Work) : List (String × Ty) :=
  work.targetSymbols ++ work.valueSymbols

end Work

/-- All of a function's draft but the result type. -/
def SignatureDraft.head (draft : SignatureDraft) : SignatureDraft :=
  { draft with signature := { draft.signature with result := .unannotated } }

/-- What is left when one has gone through all that guards a deferral. -/
def Deferral.core {κ : Type} : Deferral κ → Deferral κ
  | .hoisted _ _ _ rest => rest.core
  | work => work

/-- The expression comes from a look that gave this type. -/
def Expr.Seen (value : Expr) (type : Ty) : Prop :=
  ∃ (before : Expr) (view : View), before.Faithful ∧ before.resolve view = (.ok type, value)

theorem Expr.Seen.faithful {value : Expr} {type : Ty} (seen : value.Seen type) :
    value.Faithful := by
  obtain ⟨before, view, faithful, look⟩ := seen
  have looked := Expr.resolve_sound view faithful
  rw [look] at looked
  exact looked.faithful

theorem Expr.Seen.settles {value : Expr} {type : Ty} (seen : value.Seen type) :
    type.isPending = true ∨ value.Settled type := by
  obtain ⟨before, view, faithful, look⟩ := seen
  have looked := Expr.resolve_sound view faithful
  rw [look] at looked
  exact looked.settled type rfl

/-- What was read off the slots is well typed, and has the type of the look. -/
theorem Expr.Seen.read {value : Expr} {type : Ty} {typed : Typed.Expr} (seen : value.Seen type)
    (read : Typed.Expr.ofExpr value = .ok typed) : typed.WellTyped ∧ typed.type.toTy = type := by
  obtain ⟨before, view, faithful, look⟩ := seen
  exact Expr.resolve_ofExpr faithful look read

def Declaration.Checked (d : Declaration) : Prop :=
  d.value.Seen d.type ∧
    (d.written.isConcrete = true → d.type.isPending = true ∨ d.written = d.type)

/-- Both sides were looked at together and agreed. An assignment to a bare name whose type is not
known yet waits for that name. A type that is known was `provided`. -/
def Assignment.Checked (a : Assignment) (awaited : List String) (provided : Ty → Prop) : Prop :=
  ∃ (view : View) (target : Target) (value : Expr) (targetType valueType : Ty),
    target.Faithful ∧ value.Faithful ∧ target.resolve view = (.ok targetType, a.target) ∧
    value.resolve view = (.ok valueType, a.value) ∧
    Check.assignable a.op targetType valueType = .ok () ∧
    (a.target.isSymbol = true → targetType.isPending = true → a.target.root ∈ awaited) ∧
    ∀ type, view.type a.target.root = .ok type → type.isConcrete = true → provided type

/-- What a return hands back has the result type, as far as it is known. -/
def Returns (result : Ty) : Option Expr → Prop
  | none => result = .void
  | some value => ∃ type, value.Seen type ∧ (type.isPending = true ∨ result = type)

structure Desk where
  scopes : Scopes (Deferral Empty)
  drafts : List Draft
  signatures : List SignatureDraft
  queue : List (Deferral Empty)

/-- The desk in a state. Work in hand counts as if it were still in the queue. -/
def Checker.desk {σ : Type} (state : Checker Empty σ) (hand : List (Deferral Empty)) : Desk :=
  ⟨state.scopes, state.drafts, state.signatures, hand ++ state.queue⟩

/-- Who binds names: declarations and function heads. -/
inductive Binder
  | draft (id : DraftId)
  | head (id : SignatureId)
  deriving DecidableEq

namespace Desk

variable (s : Desk)

/-- The scope and the name that a binder binds. -/
def key? : Binder → Option (ScopeId × String)
  | .draft id => s.drafts[id]?.bind fun d => d.work.declares.map (d.scope, ·)
  | .head id => s.signatures[id]?.map fun h => (h.scope, h.signature.name)

/-- The work is waiting somewhere, or is about to be performed. -/
def Live (work : Deferral Empty) : Prop :=
  work ∈ s.queue ∨ (∃ scope name, ∃ waiter ∈ s.scopes.waiters scope name, waiter.work = work) ∨
    ∃ scope, work ∈ s.scopes.resultWaiters scope

/-- A draft waits for a name on its way outwards whose type is not known yet. -/
def Waiting (id : DraftId) (scope : ScopeId) (name : String) : Prop :=
  ∃ outer owner binding, s.scopes.Path (scope :: outer) ∧ owner ∈ scope :: outer ∧
    s.scopes.binding? owner name = some binding ∧ binding.type.isConcrete = false ∧
    ∃ waiter ∈ s.scopes.waiters owner name, waiter.work = .resume id name

/-- A name on the way outwards from a scope has this type. -/
def Provides (scope : ScopeId) (name : String) (type : Ty) : Prop :=
  ∃ outer owner binding, s.scopes.Path (scope :: outer) ∧ owner ∈ scope :: outer ∧
    s.scopes.binding? owner name = some binding ∧ binding.type = type

/-- A return agrees with the result type that its function has so far. -/
def Returned (scope : ScopeId) (r : Return) : Prop :=
  ∃ body result, s.scopes.functionBody scope = .ok (some body) ∧
    s.scopes.result? body = some result ∧ result ≠ .unannotated ∧ Returns result r.value

def DraftChecked (id : DraftId) : Draft → Prop
  | ⟨scope, .declaration d⟩ => d.Checked ∧ s.scopes.binding? scope d.name = some d.binding
  | ⟨scope, .assignment a awaited⟩ => a.Checked awaited (s.Provides scope a.target.root) ∧
      (a.target.root ∈ awaited →
        .resume id a.target.root ∈ s.queue ∨ s.Waiting id scope a.target.root)
  | ⟨scope, .returns r⟩ => s.Returned scope r
  | ⟨_, .evaluation e⟩ => ∃ type, e.value.Seen type

/-- The binding of a function, whose result type may lag behind while it is not known. -/
def Bears (h : SignatureDraft) : Prop :=
  ∃ result, s.scopes.binding? h.scope h.signature.name =
      some ⟨h.signature.name, .function h.signature.parameters result, true,
        h.signature.exported⟩ ∧
    (result = h.signature.result ∨
      result.isConcrete = false ∧ h.signature.result.isConcrete = false)

/-- A result type that is known is the one its body keeps, or there is no return. -/
def HeadChecked (h : SignatureDraft) : Prop :=
  s.scopes.kind? h.body = some .function ∧ s.Bears h ∧
    (h.signature.result.isConcrete = true →
      s.scopes.result? h.body = some h.signature.result ∨
      s.scopes.result? h.body = some .unannotated ∧ h.signature.result = .void)

/-- A function of that name stands in the outermost scope. -/
def RootFunction (name : String) : Prop :=
  ∃ binding, s.scopes.binding? 0 name = some binding ∧ binding.type.isFunction = true

/-- The draft declares that name in the outermost scope. -/
def DeclaresAtRoot (id : DraftId) (name : String) : Prop :=
  s.key? (.draft id) = some (0, name)

/-- Whoever uses the name in this draft gets a function from the outermost scope, or nothing. -/
def Guarded (id : DraftId) (name : String) : Prop :=
  s.RootFunction name ∨ ∃ position, .hoisted 0 name position (.resume id name) ∈ s.queue ∨
    ∃ waiter ∈ s.scopes.waiters 0 name, waiter.work = .hoisted 0 name position (.resume id name)

structure Sound : Prop where
  rooted : s.scopes.Rooted
  bound : ∀ who scope name, s.key? who = some (scope, name) →
    (s.scopes.binding? scope name).isSome = true
  distinct : ∀ who other key, s.key? who = some key → s.key? other = some key → who = other
  drafts : ∀ (id : DraftId) d, s.drafts[id]? = some d → s.DraftChecked id d
  heads : ∀ (id : SignatureId) h, s.signatures[id]? = some h → s.HeadChecked h
  /-- Who waits for a result type waits for one that some return has set. -/
  concluding : ∀ work id, s.Live work → work.core = .conclude id →
    ∃ h, s.signatures[id]? = some h ∧ s.scopes.result? h.body ≠ some .unannotated
  /-- What waits for a function to come waits in vain only for a name of its own. -/
  hoisting : ∀ name id position, ∀ waiter ∈ s.scopes.waiters 0 name,
    waiter.work = .hoisted 0 name position (.resume id name) →
    s.scopes.binding? 0 name = none ∨ s.DeclaresAtRoot id name

end Desk

end Hoist
