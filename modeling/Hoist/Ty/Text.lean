import Hoist.Ty.Basic

/-!
How a type is written in messages.
-/
namespace Hoist.Ty

mutual

def text : Ty → String
  | number => "number"
  | boolean => "boolean"
  | string length => "string<" ++ toString length ++ ">"
  | array base length => text base ++ "[" ++ toString length ++ "]"
  | record fields => "\x7b " ++ ", ".intercalate (fieldTexts fields) ++ " \x7d"
  | function parameters result =>
    "fn(" ++ ", ".intercalate (fieldTexts parameters) ++ ") -> " ++ text result
  | void => "void"
  | named name => name
  | unresolved => "<unresolved>"
  | unannotated => "<not calculated>"
  | pending name => "<pending on " ++ name ++ ">"

/-- The fields of a record, or the parameters of a function, each with its type. -/
def fieldTexts : List (String × Ty) → List String
  | [] => []
  | (name, type) :: rest => (name ++ ": " ++ text type) :: fieldTexts rest

end

end Hoist.Ty
