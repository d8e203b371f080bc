import Hoist.Text.Extending
import Hoist.Text.Hidden
import Hoist.Text.Unassigned

/-!
Quoted text: how a name or a type is shown inside a message. What a reader would not see, or not
see apart from its neighbour, is written by its number, so that two names that look alike can be
told apart.
-/
namespace Hoist.Text

/-- The written form of one character inside quotes. -/
def quoteChar (c : Char) : String :=
  if c = '"' then "\\\""
  else if c = '\\' then "\\\\"
  else if c = '\t' then "\\t"
  else if c = '\n' then "\\n"
  else if c = '\r' then "\\r"
  else if c.toNat = 0 then "\\0"
  else if isHidden c || isUnassigned c || isExtending c then
    "\\u\x7b" ++ String.ofList (Nat.toDigits 16 c.toNat) ++ "\x7d"
  else String.singleton c

def quote (text : String) : String :=
  "\"" ++ String.join (text.toList.map quoteChar) ++ "\""

end Hoist.Text
