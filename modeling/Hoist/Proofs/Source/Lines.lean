import Hoist.Source.Line

/-!
The lines of a text. A text that is empty or ends with a newline is closed: a new line starts behind
it. So where closed text, a line and more text follow each other, the walk over the lines comes to
that line, whatever stands before and behind it.

Main statements: `Line.find?_eq_some` says what is found there, and `Line.exists_around` that every
character of a text stands in such a line.
-/
namespace Hoist.Line

/-! Lengths. -/

@[simp] theorem byteLength_nil : byteLength [] = 0 := rfl

@[simp] theorem byteLength_append (first second : List Char) :
    byteLength (first ++ second) = byteLength first + byteLength second := by
  induction first with
  | nil => simp
  | cons c rest ih => simp [byteLength, ih, Nat.add_assoc]

theorem byteLength_eq_length {text : List Char} (ascii : ∀ c ∈ text, c.toNat < 128) :
    byteLength text = text.length := by
  induction text with
  | nil => rfl
  | cons c rest ih =>
    have small : c.utf8Size = 1 := by
      have := ascii c (by simp)
      rw [Char.utf8Size_eq_one_iff, UInt32.le_iff_toNat_le]
      exact Nat.le_of_lt_succ this
    rw [byteLength, small, ih fun d mem => ascii d (by simp [mem]), List.length_cons, Nat.add_comm]

/-! Cutting a text into lines. -/

/-- The text is empty or ends with a newline. -/
def Closed (text : List Char) : Prop :=
  ∀ c ∈ text.getLast?, c = '\n'

/-- The line has no newline before its last character. -/
def Single (line : List Char) : Prop :=
  '\n' ∉ line.dropLast

theorem closed_nil : Closed [] := by
  simp [Closed]

theorem closed_newline (text : List Char) : Closed (text ++ ['\n']) := by
  simp [Closed]

theorem Closed.tail {c : Char} {rest : List Char} (closed : Closed (c :: rest)) : Closed rest := by
  intro d last
  refine closed d ?_
  cases rest with
  | nil => simp at last
  | cons e rest => simpa using last

theorem Single.of_append {c : Char} {front back : List Char}
    (single : Single (front ++ c :: back)) : Single back := by
  intro mem
  refine single ?_
  cases back with
  | nil => simp at mem
  | cons d back => simp [mem]

theorem split_eq_nil {text : List Char} : split text = [] ↔ text = [] := by
  constructor
  · intro none
    simpa [none] using (flatten_split text).symm
  · rintro rfl
    rfl

/-- A character that does not end its line in closed text joins the line behind it. -/
theorem Closed.exists_split {c : Char} {rest : List Char} (closed : Closed (c :: rest))
    (inside : c ≠ '\n') : ∃ line lines, split rest = line :: lines := by
  cases parts : split rest with
  | nil =>
    obtain rfl := split_eq_nil.1 parts
    exact absurd (closed c rfl) inside
  | cons line lines => exact ⟨line, lines, rfl⟩

theorem split_append {earlier : List Char} (closed : Closed earlier) (rest : List Char) :
    split (earlier ++ rest) = split earlier ++ split rest := by
  induction earlier with
  | nil => rfl
  | cons c earlier ih =>
    have ih := ih closed.tail
    by_cases newline : c = '\n'
    · simp [split, newline, ih]
    · obtain ⟨line, lines, parts⟩ := closed.exists_split newline
      simp [split, newline, ih, parts]

theorem split_single {line : List Char} (single : Single line) (nonempty : line ≠ []) :
    split line = [line] := by
  induction line with
  | nil => exact absurd rfl nonempty
  | cons c rest ih =>
    cases rest with
    | nil => by_cases newline : c = '\n' <;> simp [split, newline]
    | cons d rest =>
      simp only [Single, List.dropLast_cons_cons, List.mem_cons, not_or] at single
      have newline : c ≠ '\n' := Ne.symm single.1
      rw [split, ih single.2 (by simp)]
      simp [newline]

theorem length_split {earlier : List Char} (closed : Closed earlier) :
    (split earlier).length = earlier.count '\n' := by
  induction earlier with
  | nil => rfl
  | cons c earlier ih =>
    have ih := ih closed.tail
    by_cases newline : c = '\n'
    · simp [split, newline, ih]
    · obtain ⟨line, lines, parts⟩ := closed.exists_split newline
      simp [split, newline, ← ih, parts]

/-! Walking over the lines. -/

theorem locate_append (lines more : List (List Char)) (number offset : Nat) :
    locate (lines ++ more) number (byteLength lines.flatten + offset) =
      locate more (number + lines.length) offset := by
  induction lines generalizing number with
  | nil => simp
  | cons line lines ih =>
    have further : ¬ byteLength line + byteLength lines.flatten + offset < byteLength line := by
      omega
    have left : byteLength line + byteLength lines.flatten + offset - byteLength line =
        byteLength lines.flatten + offset := by
      omega
    simp only [List.cons_append, List.flatten_cons, byteLength_append, locate, further, ↓reduceIte,
      left, ih, List.length_cons]
    congr 1
    omega

/-- `line` is one of the lines of the text, between what comes before and after it. -/
structure Between (text earlier line later : List Char) : Prop where
  whole : text = earlier ++ (line ++ later)
  closed : Closed earlier
  single : Single line
  ends : later = [] ∨ line.getLast? = some '\n'

/-- Another character takes the place of one inside the line. -/
theorem Between.set {text earlier front back later : List Char} {c other : Char}
    (between : Between text earlier (front ++ c :: back) later) (here : c ≠ '\n')
    (there : other ≠ '\n') :
    Between (text.set (earlier ++ front).length other) earlier (front ++ other :: back) later := by
  obtain ⟨rfl, closed, single, ends⟩ := between
  refine ⟨by simp, closed, ?_, ?_⟩
  · cases back with
    | nil => simpa [Single] using single
    | cons d back =>
      simp only [Single, List.dropLast_append_cons, List.dropLast_cons_cons, List.mem_append,
        List.mem_cons, not_or] at single ⊢
      exact ⟨single.1, Ne.symm there, single.2.2⟩
  · cases back with
    | nil => exact .inl (by simpa [here] using ends)
    | cons d back => simpa using ends

theorem Between.split_eq {text earlier line later : List Char}
    (between : Between text earlier line later) (nonempty : line ≠ []) :
    split text = split earlier ++ line :: split later := by
  rw [between.whole, split_append between.closed]
  obtain rfl | newline := between.ends
  · rw [List.append_nil, split_single between.single nonempty]
    rfl
  · have closed : Closed line := by simp [Closed, newline]
    rw [split_append closed, split_single between.single nonempty]
    rfl

theorem find?_eq_some {source : String} {earlier line later : List Char}
    (between : Between source.toList earlier line later) {offset : Nat}
    (inside : offset < byteLength line) :
    find? source (byteLength earlier + offset) =
      some ⟨earlier.count '\n' + 1, String.ofList line, offset⟩ := by
  have nonempty : line ≠ [] := by
    rintro rfl
    simp at inside
  have walk := locate_append (split earlier) (line :: split later) 1 offset
  rw [flatten_split] at walk
  rw [find?, between.split_eq nonempty, walk, locate, if_pos inside, length_split between.closed,
    Nat.add_comm]

/-! The line around a character. -/

/-- What stands behind the last newline of a text. -/
def lastLine (text : List Char) : List Char :=
  (text.reverse.takeWhile (· ≠ '\n')).reverse

theorem lastLine_append {earlier line : List Char} (closed : Closed earlier)
    (unbroken : '\n' ∉ line) : lastLine (earlier ++ line) = line := by
  have all : ∀ c ∈ line.reverse, decide (c ≠ '\n') = true := by
    intro c mem
    simp only [ne_eq, decide_not, Bool.not_eq_eq_eq_not, Bool.not_true, decide_eq_false_iff_not]
    rintro rfl
    exact unbroken (List.mem_reverse.1 mem)
  have stops : earlier.reverse.takeWhile (· ≠ '\n') = [] := by
    cases last : earlier.reverse with
    | nil => rfl
    | cons c others =>
      have : c = '\n' := closed c (by simp [List.getLast?_eq_head?_reverse, last])
      simp [this]
  rw [lastLine, List.reverse_append, List.takeWhile_append_of_pos all, stops, List.append_nil,
    List.reverse_reverse]

theorem exists_lastLine (text : List Char) :
    ∃ earlier front, text = earlier ++ front ∧ Closed earlier ∧ '\n' ∉ front := by
  induction text with
  | nil => exact ⟨[], [], rfl, closed_nil, by simp⟩
  | cons c rest ih =>
    obtain ⟨earlier, front, rfl, closed, unbroken⟩ := ih
    cases earlier with
    | nil =>
      by_cases newline : c = '\n'
      · exact ⟨[c], front, rfl, by simp [Closed, newline], unbroken⟩
      · exact ⟨[], c :: front, rfl, closed, by simp [unbroken, Ne.symm newline]⟩
    | cons d earlier =>
      exact ⟨c :: d :: earlier, front, rfl, by simpa [Closed] using closed, unbroken⟩

theorem exists_lineEnd (c : Char) (rest : List Char) :
    ∃ back later, rest = back ++ later ∧ Single (c :: back) ∧
      (later = [] ∨ (c :: back).getLast? = some '\n') := by
  induction rest generalizing c with
  | nil => exact ⟨[], [], rfl, by simp [Single], .inl rfl⟩
  | cons d rest ih =>
    by_cases newline : c = '\n'
    · exact ⟨[], d :: rest, rfl, by simp [Single], .inr (by simp [newline])⟩
    · obtain ⟨back, later, rfl, single, ends⟩ := ih d
      refine ⟨d :: back, later, rfl, ?_, by simpa using ends⟩
      simpa [Single, Ne.symm newline] using single

theorem exists_around {text : List Char} {index : Nat} {c : Char} (there : text[index]? = some c) :
    ∃ earlier front back later, Between text earlier (front ++ c :: back) later ∧
      '\n' ∉ front ∧ text.take index = earlier ++ front := by
  obtain ⟨small, rfl⟩ := List.getElem?_eq_some_iff.1 there
  obtain ⟨earlier, front, before, closed, unbroken⟩ := exists_lastLine (text.take index)
  obtain ⟨back, later, behind, single, ends⟩ := exists_lineEnd text[index] (text.drop (index + 1))
  refine ⟨earlier, front, back, later, ⟨?_, closed, ?_, ?_⟩, unbroken, before⟩
  · calc text = text.take index ++ text.drop index := (List.take_append_drop index text).symm
      _ = earlier ++ (front ++ text[index] :: back ++ later) := by
        rw [List.drop_eq_getElem_cons small, before, behind]
        simp
  · simp only [Single, List.dropLast_append_cons, List.mem_append, not_or]
    exact ⟨unbroken, single⟩
  · simpa using ends

end Hoist.Line
