import Hoist.Syntax.Expr
import Hoist.Typing.Rules
import Hoist.Typing.View

/-!
Finding the type of an expression or of a target. The answer comes with the expression as it is
afterwards: the types that were found are in its slots, also when the search failed further on. A
slot that is filled already is believed.
-/
namespace Hoist

mutual

def Expr.resolve (view : View) : Expr → Except Fault Ty × Expr
  | .number value => (.ok .number, .number value)
  | .boolean value => (.ok .boolean, .boolean value)
  | .string value => (.ok (.string (.ofNat value.length)), .string value)
  | .symbol name slot =>
    if slot.isConcrete then (.ok slot, .symbol name slot)
    else match view.type name with
      | .error fault => (.error fault, .symbol name slot)
      | .ok type => (.ok type, .symbol name (if type.isConcrete then type else slot))
  | .record fields slot =>
    if slot.isConcrete then (.ok slot, .record fields slot)
    else match Expr.resolveFields view [] fields with
      | (.error fault, fields) => (.error fault, .record fields slot)
      | (.ok types, fields) =>
        let type := Ty.ofFields types
        (.ok type, .record fields (if type.isPending then slot else type))
  | .array elements slot =>
    if slot.isConcrete then (.ok slot, .array elements slot)
    else match Expr.resolveElements view none elements with
      | (.error fault, elements) => (.error fault, .array elements slot)
      | (.ok types, elements) =>
        match Ty.ofElements types with
        | .error fault => (.error fault, .array elements slot)
        | .ok type => (.ok type, .array elements (if type.isPending then slot else type))
  | .unary op operand =>
    match operand.resolve view with
    | (.error fault, operand) => (.error fault, .unary op operand)
    | (.ok type, operand) => (op.apply type, .unary op operand)
  | .binary op left right =>
    match left.resolve view with
    | (.error fault, left) => (.error fault, .binary op left right)
    | (.ok leftType, left) =>
      match right.resolve view with
      | (.error fault, right) => (.error fault, .binary op left right)
      | (.ok rightType, right) => (op.apply leftType rightType, .binary op left right)
  | .index left position =>
    match left.resolve view with
    | (.error fault, left) => (.error fault, .index left position)
    | (.ok leftType, left) =>
      if leftType.isPending then (.ok leftType, .index left position)
      else match leftType.element with
        | .error fault => (.error fault, .index left position)
        | .ok base =>
          match position.resolve view with
          | (.error fault, position) => (.error fault, .index left position)
          | (.ok type, position) => (base.atPosition type, .index left position)
  | .member left field =>
    match left.resolve view with
    | (.error fault, left) => (.error fault, .member left field)
    | (.ok type, left) => (type.atField field, .member left field)
  | .call callee arguments =>
    match callee.resolve view with
    | (.error fault, callee) => (.error fault, .call callee arguments)
    | (.ok calleeType, callee) =>
      if calleeType.isPending then (.ok calleeType, .call callee arguments)
      else match calleeType.callable arguments.length with
        | .error fault => (.error fault, .call callee arguments)
        | .ok (parameters, result) =>
          match Expr.resolveArguments view parameters arguments with
          | (.error fault, arguments) => (.error fault, .call callee arguments)
          | (.ok types, arguments) => (.ok (Ty.ofCall types result), .call callee arguments)

/-- The fields after those already seen; a field that was seen is refused before its value is
looked at. -/
def Expr.resolveFields (view : View) :
    List String → List (String × Expr) → Except Fault (List (String × Ty)) × List (String × Expr)
  | _, [] => (.ok [], [])
  | seen, (name, value) :: rest =>
    if seen.contains name then
      (.error (.refused (.duplicateField name)), (name, value) :: rest)
    else match value.resolve view with
      | (.error fault, value) => (.error fault, (name, value) :: rest)
      | (.ok type, value) =>
        let (types, rest) := Expr.resolveFields view (name :: seen) rest
        (types.map ((name, type) :: ·), (name, value) :: rest)

/-- The elements after those that gave the element type so far. -/
def Expr.resolveElements (view : View) :
    Option Ty → List Expr → Except Fault (List Ty) × List Expr
  | _, [] => (.ok [], [])
  | base, element :: rest =>
    match element.resolve view with
    | (.error fault, element) => (.error fault, element :: rest)
    | (.ok type, element) =>
      match Ty.join base type with
      | .error fault => (.error fault, element :: rest)
      | .ok base =>
        let (types, rest) := Expr.resolveElements view base rest
        (types.map (type :: ·), element :: rest)

/-- The arguments against the parameters that are left. -/
def Expr.resolveArguments (view : View) :
    List (String × Ty) → List Expr → Except Fault (List Ty) × List Expr
  | _, [] => (.ok [], [])
  | [], argument :: rest => (.ok [], argument :: rest)
  | (_, parameter) :: parameters, argument :: rest =>
    match argument.resolve view with
    | (.error fault, argument) => (.error fault, argument :: rest)
    | (.ok type, argument) =>
      match type.passTo parameter with
      | .error fault => (.error fault, argument :: rest)
      | .ok () =>
        let (types, rest) := Expr.resolveArguments view parameters rest
        (types.map (type :: ·), argument :: rest)

end

/-- The type of what a target addresses. -/
def Target.resolve (view : View) : Target → Except Fault Ty × Target
  | .symbol name => (view.type name, .symbol name)
  | .member left field slot =>
    match left.resolve view with
    | (.error fault, left) => (.error fault, .member left field slot)
    | (.ok type, left) => (type.atField field, .member left field type)
  | .index left position slot =>
    match left.resolve view with
    | (.error fault, left) => (.error fault, .index left position slot)
    | (.ok leftType, left) =>
      if leftType.isPending then (.ok leftType, .index left position leftType)
      else match leftType.element with
        | .error fault => (.error fault, .index left position slot)
        | .ok base =>
          match position.resolve view with
          | (.error fault, position) => (.error fault, .index left position base)
          | (.ok type, position) => (base.atPosition type, .index left position base)

end Hoist
