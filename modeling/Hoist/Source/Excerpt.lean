import Hoist.Source.Line
import Hoist.Text.Blank

/-!
A picture of one source line with a caret under a column.
-/
namespace Hoist.Line

/-- Blanks that open the line are not shown. -/
def indentation (line : Line) : Nat :=
  (line.text.toList.takeWhile (· = ' ')).length

def shown (line : Line) : List Char :=
  Text.trim (line.text.toList.drop line.indentation)

/-- Where the caret stands, counted in bytes from the first character after the indentation. -/
def column (line : Line) : Nat :=
  line.offset - line.indentation

/-- The empty margin that stands above and below the line number. -/
def margin (line : Line) : List Char :=
  List.replicate ((toString line.number).length + 1) ' ' ++ ['|']

def excerpt (line : Line) : String :=
  String.ofList (line.margin ++ ['\n']
    ++ (toString line.number).toList ++ [' ', '|', ' '] ++ line.shown ++ ['\n']
    ++ line.margin ++ [' '] ++ List.replicate line.column '-' ++ ['^'])

end Hoist.Line
