/-!
The line of a source text that holds a byte offset. Lines end after their newline, so every byte
of the text belongs to exactly one line.

Main statement: cutting a text into lines loses nothing (`flatten_split`).
-/
namespace Hoist

/-- A line, its number counted from one, and a byte offset inside it. -/
structure Line where
  number : Nat
  text : String
  offset : Nat
  deriving DecidableEq, Repr

namespace Line

/-- Length in UTF-8. -/
def byteLength : List Char → Nat
  | [] => 0
  | c :: rest => c.utf8Size + byteLength rest

/-- Cuts a text after every newline. -/
def split : List Char → List (List Char)
  | [] => []
  | c :: rest =>
    if c = '\n' then [c] :: split rest
    else match split rest with
      | [] => [[c]]
      | line :: lines => (c :: line) :: lines

/-- Walks over the lines, the first of which has the given number, to the one with the offset. -/
def locate : List (List Char) → Nat → Nat → Option Line
  | [], _, _ => none
  | line :: lines, number, offset =>
    if offset < byteLength line then some ⟨number, String.ofList line, offset⟩
    else locate lines (number + 1) (offset - byteLength line)

/-- The line of `source` that holds the byte at `offset`, if there is such a byte. -/
def find? (source : String) (offset : Nat) : Option Line :=
  locate (split source.toList) 1 offset

theorem flatten_split (text : List Char) : (split text).flatten = text := by
  induction text with
  | nil => rfl
  | cons c rest ih =>
    by_cases newline : c = '\n'
    · simp [split, newline, ih]
    · simp only [split, newline, ↓reduceIte]
      cases parts : split rest with
      | nil => simpa [parts] using ih
      | cons line lines => simpa [parts] using ih

end Line

end Hoist
