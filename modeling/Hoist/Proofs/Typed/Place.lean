import Hoist.Proofs.Typing.WellTyped

/-!
Places in a checked file. A place is given by the blocks around it, from the inside outwards; of
each block it says what has been declared before the place, and what is declared in all.

A `Rule` says something about the parts of a statement at their place. `Everywhere` says that it
holds of all statements of a file.
-/
namespace Hoist.Typed

/-- A name that a block declares. -/
structure Entry where
  name : String
  type : ConcreteTy
  constant : Bool
  deriving DecidableEq

structure Block where
  loop : Bool
  /-- The result type, if the block is the body of a function. -/
  result : Option ConcreteTy
  before : List Entry
  all : List Entry

def Leaf.entries : Leaf → List Entry
  | .declare declaration => [⟨declaration.name, declaration.type, declaration.constant⟩]
  | .imports names _ _ => names.map fun name => ⟨name.1, name.2, true⟩
  | _ => []

def Signature.entries (signature : Signature) : List Entry :=
  signature.parameters.map fun parameter => ⟨parameter.1, parameter.2, false⟩

/-- What a statement declares in its block. -/
def Stmt.entries : Stmt → List Entry
  | .leaf content => content.entries
  | .function signature _ => [⟨signature.name, signature.type, true⟩]
  | _ => []

def Stmt.allEntries (stmts : List Stmt) : List Entry :=
  stmts.flatMap Stmt.entries

abbrev Place := List Block

namespace Place

/-- Where a file begins. -/
def top (stmts : List Stmt) : Place :=
  [⟨false, none, [], Stmt.allEntries stmts⟩]

/-- Where a body begins. -/
def enter (place : Place) (loop : Bool) (result : Option ConcreteTy) (parameters : List Entry)
    (body : List Stmt) : Place :=
  ⟨loop, result, parameters, parameters ++ Stmt.allEntries body⟩ :: place

/-- Behind a statement. -/
def after (entries : List Entry) : Place → Place
  | [] => []
  | block :: outer => { block with before := block.before ++ entries } :: outer

/-- The nearest binding of a name that comes before the place, and how many blocks lie between. -/
def visible? : Place → String → Option (Nat × Entry)
  | [], _ => none
  | block :: outer, name =>
    match block.before.find? (·.name = name) with
    | some entry => some (0, entry)
    | none => (visible? outer name).map fun (level, entry) => (level + 1, entry)

/-- The block at this level binds the name, before or behind the place. -/
def Declares (place : Place) (level : Nat) (entry : Entry) : Prop :=
  ∃ block, place[level]? = some block ∧ entry ∈ block.all

/-- The result type of the function around. -/
def result? (place : Place) : Option ConcreteTy :=
  place.findSome? (·.result)

def inLoop (place : Place) : Bool :=
  place.any (·.loop)

end Place

structure Rule where
  leaf : Place → Leaf → Prop
  condition : Place → Expr → Prop
  loop : Place → Expr → Prop
  head : Place → Signature → Prop

mutual

def Stmt.Holds (rule : Rule) (place : Place) : Stmt → Prop
  | .leaf content => rule.leaf place content
  | .branch condition body _ rest => rule.condition place condition ∧
      Stmt.AllHold rule (place.enter false none [] body) body ∧ Stmt.ChainHolds rule place rest
  | .loop condition body _ => rule.loop place condition ∧
      Stmt.AllHold rule (place.enter true none [] body) body
  | .function signature body => rule.head place signature ∧
      Stmt.AllHold rule (place.enter false (some signature.result) signature.entries body) body

def Stmt.ChainHolds (rule : Rule) (place : Place) : Chain Leaf Signature → Prop
  | .done => True
  | .otherwise body _ => Stmt.AllHold rule (place.enter false none [] body) body
  | .elseIf condition body _ rest => rule.condition place condition ∧
      Stmt.AllHold rule (place.enter false none [] body) body ∧ Stmt.ChainHolds rule place rest

def Stmt.AllHold (rule : Rule) (place : Place) : List Stmt → Prop
  | [] => True
  | stmt :: rest => Stmt.Holds rule place stmt ∧
      Stmt.AllHold rule (place.after (Stmt.entries stmt)) rest

end

def Everywhere (rule : Rule) (stmts : List Stmt) : Prop :=
  Stmt.AllHold rule (Place.top stmts) stmts

/-! Symbols. -/

/-- The symbols of a statement, with the types that stand on them. -/
def Leaf.symbols : Leaf → List (String × ConcreteTy)
  | .declare declaration => declaration.value.symbols
  | .assign assignment => assignment.target.symbols ++ assignment.value.symbols
  | .returns (some value) _ => value.symbols
  | .evaluate value _ => value.symbols
  | _ => []

/-- The expression that a statement is about. -/
def Leaf.value? : Leaf → Option Expr
  | .declare declaration => some declaration.value
  | .assign assignment => some assignment.value
  | .returns value _ => value
  | .evaluate value _ => some value
  | _ => none

/-- The first symbol of the expression that a statement is about. -/
def Leaf.lead (leaf : Leaf) : Option String :=
  leaf.value?.bind fun value => value.symbols.head?.map (·.1)

end Hoist.Typed
