import Mathlib
import Hoist.Diagnostic.Basic
import Hoist.Proofs.Source.Lines

/-!
Where the caret stands in a diagram. The line above it is shown without the white space at its ends,
but the caret is only moved back by the blanks that open the line. So it stands under the character
it is about if the line opens with blanks alone, and too far to the right by what other white space
the line opens with.

Main statement: `Diagnostic.caret_column`.
-/
namespace Hoist

/-! White space. -/

namespace Text

theorem ne_newline_of_visible {c : Char} (visible : isBlank c = false) : c ≠ '\n' := by
  rintro rfl
  exact absurd visible (by decide)

theorem eq_blank_of_visible {c : Char} (visible : isBlank c = false) :
    decide (c = ' ') = false := by
  rw [decide_eq_false_iff_not]
  rintro rfl
  exact absurd visible (by decide)

theorem drop_takeWhile (test : Char → Bool) (text : List Char) :
    text.drop (text.takeWhile test).length = text.dropWhile test :=
  calc text.drop (text.takeWhile test).length
    _ = (text.takeWhile test ++ text.dropWhile test).drop (text.takeWhile test).length := by
      rw [List.takeWhile_append_dropWhile]
    _ = text.dropWhile test := List.drop_left

theorem dropWhile_visible {test : Char → Bool} {c : Char} (stops : test c = false)
    (front back : List Char) :
    (front ++ c :: back).dropWhile test = front.dropWhile test ++ c :: back := by
  induction front with
  | nil => simp [stops]
  | cons d front ih => by_cases passes : test d = true <;> simp [passes, ih]

theorem takeWhile_visible {test : Char → Bool} {c : Char} (stops : test c = false)
    (front back : List Char) :
    (front ++ c :: back).takeWhile test = front.takeWhile test := by
  induction front with
  | nil => simp [stops]
  | cons d front ih => by_cases passes : test d = true <;> simp [passes, ih]

/-- A text without the white space that ends it. -/
def trimEnd (text : List Char) : List Char :=
  (text.reverse.dropWhile isBlank).reverse

theorem trim_visible {c : Char} (visible : isBlank c = false) (front back : List Char) :
    trim (front ++ c :: back) = front.dropWhile isBlank ++ c :: trimEnd back := by
  have flipped : (front.dropWhile isBlank ++ c :: back).reverse =
      back.reverse ++ c :: (front.dropWhile isBlank).reverse := by
    simp
  rw [trim, dropWhile_visible visible, flipped, dropWhile_visible visible]
  simp [trimEnd]

theorem newline_not_mem_trimEnd {line : List Char} (single : Line.Single line) :
    '\n' ∉ trimEnd line := by
  have rest : '\n' ∉ line.reverse.tail := by simpa [Line.Single] using single
  rw [trimEnd, List.mem_reverse]
  cases flipped : line.reverse with
  | nil => simp
  | cons c others =>
    rw [flipped, List.tail_cons] at rest
    by_cases blank : isBlank c = true
    · rw [List.dropWhile_cons_of_pos blank]
      exact fun mem => rest ((List.dropWhile_sublist _).mem mem)
    · have visible : isBlank c = false := by simpa using blank
      rw [List.dropWhile_cons_of_neg blank]
      simp [rest, Ne.symm (ne_newline_of_visible visible)]

end Text

/-! One line. -/

namespace Line

/-- The white space that opens a line, without the blanks that it starts with. -/
def stray (front : List Char) : List Char :=
  (front.dropWhile (· = ' ')).takeWhile Text.isBlank

/-- What is left of a line's front when the white space that opens it is not shown. -/
def seen (front : List Char) : List Char :=
  (front.dropWhile (· = ' ')).dropWhile Text.isBlank

theorem stray_eq_nil {front : List Char} :
    stray front = [] ↔ ∀ c ∈ front.takeWhile Text.isBlank, c = ' ' := by
  induction front with
  | nil => simp [stray]
  | cons c front ih =>
    by_cases blank : c = ' '
    · subst blank
      have white : Text.isBlank ' ' = true := by decide
      simpa [stray, white] using ih
    · by_cases white : Text.isBlank c = true <;> simp [stray, blank, white]

/-- The number of a line and the bar behind it. -/
def gutter (number : Nat) : List Char :=
  (toString number).toList ++ [' ', '|', ' ']

/-- A line with a caret behind so many dashes. -/
def caretRow (number dashes : Nat) : List Char :=
  List.replicate ((toString number).length + 1) ' ' ++ ['|', ' '] ++
    (List.replicate dashes '-' ++ ['^'])

variable {number : Nat} {front back : List Char} {c : Char}

theorem shown_visible (visible : Text.isBlank c = false) :
    shown ⟨number, String.ofList (front ++ c :: back), front.length⟩ =
      seen front ++ c :: Text.trimEnd back := by
  rw [shown, indentation, String.toList_ofList, Text.drop_takeWhile,
    Text.dropWhile_visible (Text.eq_blank_of_visible visible), Text.trim_visible visible, seen]

theorem column_visible (visible : Text.isBlank c = false) :
    column ⟨number, String.ofList (front ++ c :: back), front.length⟩ =
      (stray front).length + (seen front).length := by
  rw [column, indentation, String.toList_ofList,
    Text.takeWhile_visible (Text.eq_blank_of_visible visible), ← List.length_drop,
    Text.drop_takeWhile, ← List.length_append, stray, seen, List.takeWhile_append_dropWhile]

theorem excerpt_visible (visible : Text.isBlank c = false) :
    (excerpt ⟨number, String.ofList (front ++ c :: back), front.length⟩).toList =
      List.replicate ((toString number).length + 1) ' ' ++ ['|'] ++
        '\n' :: (gutter number ++ seen front ++ c :: Text.trimEnd back) ++
          '\n' :: caretRow number ((stray front).length + (seen front).length) := by
  rw [excerpt, String.toList_ofList, shown_visible visible, column_visible visible]
  simp [margin, gutter, caretRow]

theorem newline_not_mem_gutter (number : Nat) : '\n' ∉ gutter number := by
  have digits : '\n' ∉ (toString number).toList := by
    rw [Nat.toString_eq_repr, Nat.repr, String.toList_ofList]
    intro mem
    have digit := Nat.isDigit_of_mem_toDigits (by decide) (by decide) mem
    exact absurd digit (by decide)
  simp [gutter, -Nat.toString_eq_repr, digits]

theorem newline_not_mem_seen {front : List Char} (unbroken : '\n' ∉ front) : '\n' ∉ seen front := by
  intro mem
  exact unbroken ((List.dropWhile_sublist _).mem ((List.dropWhile_sublist _).mem mem))

theorem newline_not_mem_caretRow (number dashes : Nat) : '\n' ∉ caretRow number dashes := by
  simp [caretRow, List.mem_replicate]

theorem idxOf?_caretRow (number dashes : Nat) :
    (caretRow number dashes).idxOf? '^' = some ((gutter number).length + dashes) := by
  have first : (List.replicate ((toString number).length + 1) ' ' ++ ['|', ' '] ++
      List.replicate dashes '-').findIdx? (· == '^') = none := by
    simp [List.mem_replicate]
  rw [caretRow, ← List.append_assoc, List.idxOf?, List.findIdx?_append, first]
  simp only [List.findIdx?_singleton, beq_self_eq_true, ↓reduceIte, Option.map_some, Nat.zero_add,
    Option.none_or, gutter, List.length_append, List.length_replicate, List.length_cons,
    List.length_nil, String.length_toList]

end Line

/-! The last two lines of a diagram. -/

namespace Diagram

def caretLine (diagram : String) : List Char :=
  Line.lastLine diagram.toList

/-- The line above the caret. -/
def sourceLine (diagram : String) : List Char :=
  Line.lastLine (diagram.toList.take (diagram.toList.length - (caretLine diagram).length - 1))

/-- Where the caret stands in its line. -/
def caretColumn (diagram : String) : Option Nat :=
  (caretLine diagram).idxOf? '^'

variable {diagram : String} {top source caret : List Char}

theorem caretLine_eq (lines : diagram.toList = top ++ '\n' :: source ++ '\n' :: caret)
    (single : '\n' ∉ caret) : caretLine diagram = caret := by
  have apart : diagram.toList = (top ++ '\n' :: source) ++ ['\n'] ++ caret := by simp [lines]
  rw [caretLine, apart, Line.lastLine_append (Line.closed_newline _) single]

theorem sourceLine_eq (lines : diagram.toList = top ++ '\n' :: source ++ '\n' :: caret)
    (above : '\n' ∉ source) (single : '\n' ∉ caret) : sourceLine diagram = source := by
  have upper : diagram.toList.take (diagram.toList.length - caret.length - 1) =
      top ++ ['\n'] ++ source := by
    rw [lines, List.append_cons top]
    exact List.take_left' (by simp; omega)
  rw [sourceLine, caretLine_eq lines single, upper,
    Line.lastLine_append (Line.closed_newline _) above]

end Diagram

namespace Diagnostic

open Diagram Line

theorem exists_render (diagnostic : Diagnostic) {source : String} {line : Line}
    (found : find? source diagnostic.position.offset = some line) :
    ∃ top, (diagnostic.render source).toList = top ++ line.excerpt.toList := by
  simp only [render, found, String.toList_append]
  exact ⟨_, (List.append_assoc ..).symm⟩

theorem place_of_set {front back : List Char} {c other : Char} {column : Nat}
    (different : other ≠ c)
    (moved : front ++ other :: back = (front ++ c :: back).set column other) :
    column = front.length := by
  refine Decidable.byContradiction fun elsewhere => different ?_
  have left : (front ++ other :: back)[front.length]? = some other := by simp
  have right : ((front ++ c :: back).set column other)[front.length]? = some c := by
    rw [List.getElem?_set_ne elsewhere]
    simp
  rw [moved, right] at left
  exact (Option.some.inj left).symm

/-- In the diagram, the character that a diagnostic is about is shown in this column: any visible
character that takes its place in the source is seen there, and nothing else of the line changes. -/
structure ShowsAt (diagnostic : Diagnostic) (source : String) (column : Nat) : Prop where
  inside : column < (sourceLine (diagnostic.render source)).length
  follows : ∀ other : Char, other.toNat < 128 → Text.isBlank other = false →
    sourceLine (diagnostic.render
        (String.ofList (source.toList.set diagnostic.position.offset other))) =
      (sourceLine (diagnostic.render source)).set column other

/-- The diagnostic is about a visible character `c`, which has `front` before it and `back` behind
it on its line. -/
structure IsAbout (diagnostic : Diagnostic) (source : String) (earlier front : List Char) (c : Char)
    (back later : List Char) : Prop where
  between : Between source.toList earlier (front ++ c :: back) later
  unbroken : '\n' ∉ front
  ascii : ∀ d ∈ earlier ++ front, d.toNat < 128
  visible : Text.isBlank c = false
  offset : diagnostic.position.offset = (earlier ++ front).length

theorem exists_isAbout {diagnostic : Diagnostic} {source : String} {c : Char}
    (ascii : ∀ d ∈ source.toList, d.toNat < 128)
    (there : source.toList[diagnostic.position.offset]? = some c)
    (visible : Text.isBlank c = false) :
    ∃ earlier front back later, diagnostic.IsAbout source earlier front c back later ∧
      source.toList.take diagnostic.position.offset = earlier ++ front := by
  obtain ⟨earlier, front, back, later, between, unbroken, before⟩ := exists_around there
  obtain ⟨inside, -⟩ := List.getElem?_eq_some_iff.1 there
  refine ⟨earlier, front, back, later, ⟨between, unbroken, ?_, visible, ?_⟩, before⟩
  · intro d mem
    exact ascii d (List.mem_of_mem_take (before ▸ mem))
  · rw [← before, List.length_take, Nat.min_eq_left (Nat.le_of_lt inside)]

namespace IsAbout

variable {diagnostic : Diagnostic} {source : String} {earlier front back later : List Char}
  {c : Char}

theorem find?_eq (about : diagnostic.IsAbout source earlier front c back later) :
    find? source diagnostic.position.offset =
      some ⟨earlier.count '\n' + 1, String.ofList (front ++ c :: back), front.length⟩ := by
  have known : diagnostic.position.offset = byteLength earlier + front.length := by
    rw [about.offset, List.length_append,
      byteLength_eq_length fun d mem => about.ascii d (by simp [mem])]
  have inside : front.length < byteLength (front ++ c :: back) := by
    have := c.utf8Size_pos
    rw [byteLength_append, byteLength_eq_length fun d mem => about.ascii d (by simp [mem]),
      byteLength]
    omega
  rw [known, find?_eq_some about.between inside]

theorem render_lines (about : diagnostic.IsAbout source earlier front c back later) :
    sourceLine (diagnostic.render source) =
        gutter (earlier.count '\n' + 1) ++ seen front ++ c :: Text.trimEnd back ∧
      caretLine (diagnostic.render source) =
        caretRow (earlier.count '\n' + 1) ((stray front).length + (seen front).length) := by
  obtain ⟨top, rendered⟩ := diagnostic.exists_render about.find?_eq
  rw [excerpt_visible about.visible, ← List.append_assoc, ← List.append_assoc] at rendered
  have above : '\n' ∉ gutter (earlier.count '\n' + 1) ++ seen front ++ c :: Text.trimEnd back := by
    simp only [List.mem_append, List.mem_cons, not_or]
    exact ⟨⟨newline_not_mem_gutter _, newline_not_mem_seen about.unbroken⟩,
      Ne.symm (Text.ne_newline_of_visible about.visible),
      Text.newline_not_mem_trimEnd about.between.single.of_append⟩
  have single := newline_not_mem_caretRow (earlier.count '\n' + 1)
    ((stray front).length + (seen front).length)
  exact ⟨sourceLine_eq rendered above single, caretLine_eq rendered single⟩

theorem caretColumn_eq (about : diagnostic.IsAbout source earlier front c back later) :
    caretColumn (diagnostic.render source) =
      some ((gutter (earlier.count '\n' + 1) ++ seen front).length + (stray front).length) := by
  rw [caretColumn, about.render_lines.2, idxOf?_caretRow, List.length_append,
    Nat.add_comm (stray front).length, Nat.add_assoc]

/-- The line stays as it is but for the one character. -/
theorem set (about : diagnostic.IsAbout source earlier front c back later) {other : Char}
    (visible : Text.isBlank other = false) :
    diagnostic.IsAbout (String.ofList (source.toList.set diagnostic.position.offset other)) earlier
      front other back later := by
  refine ⟨?_, about.unbroken, about.ascii, visible, about.offset⟩
  rw [about.offset, String.toList_ofList]
  exact about.between.set (Text.ne_newline_of_visible about.visible)
    (Text.ne_newline_of_visible visible)

theorem showsAt_iff (about : diagnostic.IsAbout source earlier front c back later) (column : Nat) :
    diagnostic.ShowsAt source column ↔
      column = (gutter (earlier.count '\n' + 1) ++ seen front).length := by
  constructor
  · intro shows
    -- a visible character other than this one is seen in one place only
    obtain ⟨other, small, visible, different⟩ :
        ∃ other : Char, other.toNat < 128 ∧ Text.isBlank other = false ∧ other ≠ c := by
      by_cases same : c = 'a'
      · exact ⟨'b', by decide, by decide, by simp [same]⟩
      · exact ⟨'a', by decide, by decide, Ne.symm same⟩
    have moved := shows.follows other small visible
    rw [(about.set visible).render_lines.1, about.render_lines.1] at moved
    exact place_of_set different moved
  · rintro rfl
    refine ⟨by simp [about.render_lines.1], fun other small visible => ?_⟩
    rw [(about.set visible).render_lines.1, about.render_lines.1]
    simp

end IsAbout

theorem caret_column (diagnostic : Diagnostic) (source : String) (c : Char)
    (ascii : ∀ d ∈ source.toList, d.toNat < 128)
    (there : source.toList[diagnostic.position.offset]? = some c)
    (visible : Text.isBlank c = false) :
    ∃ column, (∀ other, diagnostic.ShowsAt source other ↔ other = column) ∧
      caretColumn (diagnostic.render source) = some (column +
        (stray (lastLine (source.toList.take diagnostic.position.offset))).length) ∧
      (caretColumn (diagnostic.render source) = some column ↔
        ∀ d ∈ (lastLine (source.toList.take diagnostic.position.offset)).takeWhile Text.isBlank,
          d = ' ') := by
  obtain ⟨earlier, front, back, later, about, before⟩ := exists_isAbout ascii there visible
  rw [before, lastLine_append about.between.closed about.unbroken]
  refine ⟨_, about.showsAt_iff, about.caretColumn_eq, ?_⟩
  rw [about.caretColumn_eq, ← stray_eq_nil, Option.some.injEq, Nat.add_eq_left,
    List.length_eq_zero_iff]

/-- A `return` outside of a function, at this offset of a file. -/
def strayReturn (offset : Nat) : Diagnostic :=
  ⟨.returnOutsideFunction, offset, "main"⟩

theorem blanksAhead_caret :
    "let a = 1;\n    return a;\n".toList[15]? = some 'r' ∧
      ∃ column, (strayReturn 15).ShowsAt "let a = 1;\n    return a;\n" column ∧
        caretColumn ((strayReturn 15).render "let a = 1;\n    return a;\n") = some column := by
  have there : "let a = 1;\n    return a;\n".toList[15]? = some 'r' := by decide
  have opening : (lastLine ("let a = 1;\n    return a;\n".toList.take 15)).takeWhile Text.isBlank =
      List.replicate 4 ' ' := by cbv
  obtain ⟨column, shows, -, caret⟩ :=
    caret_column (strayReturn 15) "let a = 1;\n    return a;\n" 'r' (by simp) there (by decide)
  refine ⟨there, column, (shows column).2 rfl, caret.2 fun d mem => ?_⟩
  exact List.eq_of_mem_replicate (opening ▸ mem)

/-- The line opens with a tab, which is not shown. The caret stands where it would if it were, under
the second character of `return`. -/
theorem tabAhead_caret :
    (∀ d ∈ "\treturn 1;".toList, d.toNat < 128) ∧ "\treturn 1;".toList[1]? = some 'r' ∧
      Text.isBlank 'r' = false ∧
      (strayReturn 1).render "\treturn 1;" =
        "Error: ReturnOutsideFunction\n-> main\n  |\n1 | return 1;\n  | -^" ∧
      ¬ ∃ column, (strayReturn 1).ShowsAt "\treturn 1;" column ∧
        caretColumn ((strayReturn 1).render "\treturn 1;") = some column := by
  have rendered : (strayReturn 1).render "\treturn 1;" =
      "Error: ReturnOutsideFunction\n-> main\n  |\n1 | return 1;\n  | -^" := by cbv
  refine ⟨by simp, by decide, by decide, rendered, ?_⟩
  rintro ⟨column, shows, caret⟩
  obtain rfl : 5 = column := by
    rw [rendered] at caret
    exact Option.some.inj (caret.symm.trans (by cbv)).symm
  have moved := shows.follows 'p' (by decide) (by decide)
  have replaced : (strayReturn 1).render
      (String.ofList ("\treturn 1;".toList.set (strayReturn 1).position.offset 'p')) =
      "Error: ReturnOutsideFunction\n-> main\n  |\n1 | peturn 1;\n  | -^" := by cbv
  rw [rendered, replaced] at moved
  exact absurd moved (by decide)

end Diagnostic

end Hoist
