import Hoist.Text.Quoted

/-!
Why a program is refused: one constructor a reason, with its name, its message and a hint.
-/
namespace Hoist

inductive Cause
  | typeMismatch (expected received : String)
  | heterogeneousArray (expected received : String)
  | emptyArray
  | duplicateField (field : String)
  | duplicateSymbol (name : String)
  | unknownSymbol (name : String)
  | unknownField (field type : String)
  | constantAssigned (name : String)
  | controlOutsideLoop (keyword : String)
  | functionNotTopLevel (name : String)
  | duplicateParameter (name : String)
  | untypedParameter (parameter : String)
  | returnOutsideFunction
  | returnMismatch (expected received : String)
  | invalidForwardReference (name : String)
  | unresolvedReference (name : String)
  | unresolvedImport (name source : String)
  | cyclicImport (source : String)
  | importNotTopLevel
  | exportNotTopLevel (name : String)
  | unexpectedArguments (expected received : Nat)
  | missingArguments (expected received : Nat)
  | invalidLoopCondition
  | unexpectedElse
  | unresolvedType (type : String)
  deriving DecidableEq, Inhabited, Repr

namespace Cause

def name : Cause → String
  | typeMismatch _ _ => "TypeMismatch"
  | heterogeneousArray _ _ => "HeterogeneousArray"
  | emptyArray => "EmptyArray"
  | duplicateField _ => "DuplicateField"
  | duplicateSymbol _ => "DuplicateSymbol"
  | unknownSymbol _ => "UnknownSymbol"
  | unknownField _ _ => "UnknownField"
  | constantAssigned _ => "ReassignToConst"
  | controlOutsideLoop _ => "ControlOutsideLoop"
  | functionNotTopLevel _ => "FunctionNotTopLevel"
  | duplicateParameter _ => "DuplicateParameter"
  | untypedParameter _ => "MissingTypeAnnotation"
  | returnOutsideFunction => "ReturnOutsideFunction"
  | returnMismatch _ _ => "ReturnTypeMismatch"
  | invalidForwardReference _ => "InvalidForwardReference"
  | unresolvedReference _ => "UnresolvedReference"
  | unresolvedImport _ _ => "UnresolvedImport"
  | cyclicImport _ => "CyclicImport"
  | importNotTopLevel => "ImportNotTopLevel"
  | exportNotTopLevel _ => "ExportNotTopLevel"
  | unexpectedArguments _ _ => "UnexpectedArguments"
  | missingArguments _ _ => "MissingArguments"
  | invalidLoopCondition => "InvalidLoopCondition"
  | unexpectedElse => "UnexpectedElse"
  | unresolvedType _ => "UnresolvedType"

open Text (quote)

def message : Cause → String
  | typeMismatch expected received =>
    s!"types do not match: expected {quote expected}, received {quote received}"
  | heterogeneousArray expected received =>
    s!"array elements do not match: expected {quote expected}, received {quote received}"
  | emptyArray => "array literal has no elements"
  | duplicateField field => s!"field {quote field} declared twice"
  | duplicateSymbol name => s!"variable {quote name} already declared"
  | unknownSymbol name => s!"variable {quote name} not declared"
  | unknownField field type => s!"type {type} has no field {quote field}"
  | constantAssigned name => s!"cannot reassign constant {quote name}"
  | controlOutsideLoop keyword => s!"{quote keyword} outside of a loop"
  | functionNotTopLevel name => s!"function {quote name} is not declared at top level"
  | duplicateParameter name => s!"parameter {quote name} declared twice"
  | untypedParameter parameter => s!"parameter {quote parameter} has no type annotation"
  | returnOutsideFunction => "return outside of a function"
  | returnMismatch expected received =>
    s!"return types do not match: expected {quote expected}, received {quote received}"
  | invalidForwardReference name =>
    s!"{quote name} is used before its declaration and is not a function"
  | unresolvedReference name => s!"{quote name} is referenced but never declared"
  | unresolvedImport name source => s!"{quote name} is not exported by {quote source}"
  | cyclicImport source => s!"module {quote source} is imported while it is being analyzed"
  | importNotTopLevel => "import is not at top level"
  | exportNotTopLevel name => s!"export of {quote name} is not at top level"
  | unexpectedArguments expected received =>
    s!"unexpected arguments: expected {expected}, received {received}"
  | missingArguments expected received =>
    s!"missing arguments: expected {expected}, received {received}"
  | invalidLoopCondition => "while condition must be the literal true"
  | unexpectedElse => "else without a preceding if"
  | unresolvedType type => s!"type {type} was never resolved"

/-- What the author of the program could look at, where there is something to say. -/
def hint : Cause → Option String
  | typeMismatch expected received => s!"Expected type `{expected}`, received `{received}`"
  | heterogeneousArray expected received =>
    s!"Array elements must share one type: expected `{expected}`, received `{received}`"
  | emptyArray => "Array literals need at least one element to infer their type"
  | duplicateField field => s!"Field `{field}` is declared more than once"
  | duplicateSymbol name => s!"Variable `{name}` already declared"
  | unknownSymbol name => s!"Variable `{name}` not declared"
  | unknownField field type => s!"Type `{type}` has no field `{field}`"
  | constantAssigned name => s!"`{name}` is a constant, declare it with `let` to reassign it"
  | controlOutsideLoop keyword => s!"`{keyword}` can only be used inside a loop"
  | functionNotTopLevel name => s!"Move function `{name}` to the top level of the file"
  | duplicateParameter name => s!"Parameter `{name}` is declared twice"
  | untypedParameter parameter => s!"Parameter `{parameter}` needs a type annotation"
  | returnOutsideFunction => none
  | returnMismatch expected received =>
    s!"Function returns `{expected}` elsewhere, received `{received}`"
  | invalidForwardReference name =>
    s!"Only functions can be used before their declaration, declare `{name}` earlier"
  | unresolvedReference name => s!"`{name}` is never declared"
  | unresolvedImport name source => s!"Module `{source}` does not export `{name}`"
  | cyclicImport source => s!"Module `{source}` imports itself"
  | importNotTopLevel => "Imports are only allowed at the top level of the file"
  | exportNotTopLevel name =>
    s!"Only top level declarations can be exported, `{name}` is nested"
  | unexpectedArguments expected received =>
    s!"Expected {expected} arguments, received {received}"
  | missingArguments expected received =>
    s!"Expected {expected} arguments, received {received}"
  | invalidLoopCondition => "While loops only accept the literal `true` as condition"
  | unexpectedElse => "`else` must directly follow an `if` or `else if` block"
  | unresolvedType _ => none

end Cause

end Hoist
