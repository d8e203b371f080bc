import Mathlib
import Hoist.Proofs.Source.Lines

/-!
Lines in bytes. An offset counts bytes, and may point into the middle of a character. No byte of a
character other than the newline is a newline, so the bytes alone tell the lines of a text.

Main statement: for which offsets there is a line, and which one it is (`Line.find?_holds`).
-/
namespace Hoist.Line

/-- The bytes of a text in UTF-8. -/
def bytes (text : String) : List UInt8 :=
  text.toByteArray.data.toList

def newline : UInt8 := 10

/-- What the line that holds an offset is, told from the bytes of the text. -/
structure Holds (source : String) (offset : Nat) (line : Line) : Prop where
  number : line.number = ((bytes source).take offset).count newline + 1
  reaches : line.offset ≤ offset
  /-- It starts so far before the offset, and ends with the first newline that is not before it. -/
  text : bytes line.text = ((bytes source).drop (offset - line.offset)).take
    (line.offset + ((bytes source).drop offset).idxOf newline + 1)
  unbroken : newline ∉ (bytes line.text).dropLast
  inside : line.offset < (bytes line.text).length
  /-- Before it there is nothing or a newline. -/
  starts : ∀ byte ∈ ((bytes source).take (offset - line.offset)).getLast?, byte = newline

/-! Characters and their bytes. -/

def encode (text : List Char) : List UInt8 :=
  text.flatMap String.utf8EncodeChar

theorem bytes_ofList (text : List Char) : bytes (String.ofList text) = encode text := by
  simp [bytes, encode, String.toByteArray_ofList, List.utf8Encode]

theorem bytes_eq_encode (text : String) : bytes text = encode text.toList := by
  rw [← bytes_ofList, String.ofList_toList]

@[simp] theorem encode_append (first second : List Char) :
    encode (first ++ second) = encode first ++ encode second :=
  List.flatMap_append

@[simp] theorem encode_cons (c : Char) (rest : List Char) :
    encode (c :: rest) = String.utf8EncodeChar c ++ encode rest :=
  List.flatMap_cons

@[simp] theorem length_encode (text : List Char) : (encode text).length = byteLength text := by
  induction text with
  | nil => rfl
  | cons c rest ih => simp [byteLength, ih]

theorem newline_mem_utf8EncodeChar {c : Char} :
    newline ∈ String.utf8EncodeChar c ↔ c = '\n' := by
  have code : c = '\n' ↔ c.val.toNat = 10 := by
    rw [← Char.val_inj, ← UInt32.toNat_inj]
    rfl
  rw [code]
  unfold String.utf8EncodeChar newline
  generalize c.val.toNat = v
  dsimp only
  split
  · simp [← UInt8.toNat_inj]; omega
  · split
    · simp [← UInt8.toNat_inj]; omega
    · split <;> simp [← UInt8.toNat_inj] <;> omega

theorem newline_mem_encode {text : List Char} : newline ∈ encode text ↔ '\n' ∈ text := by
  simp [encode, newline_mem_utf8EncodeChar]

/-- Inside of a character, or at its end, there is no newline. -/
theorem newline_not_mem_dropLast (c : Char) : newline ∉ (String.utf8EncodeChar c).dropLast := by
  by_cases ends : c = '\n'
  · subst ends
    decide
  · exact fun mem => ends (newline_mem_utf8EncodeChar.1 (List.mem_of_mem_dropLast mem))

theorem count_encode (text : List Char) : (encode text).count newline = text.count '\n' := by
  induction text with
  | nil => rfl
  | cons c rest ih =>
    by_cases ends : c = '\n'
    · subst ends
      simp [ih, List.count_append, show (String.utf8EncodeChar '\n').count newline = 1 by decide,
        Nat.add_comm]
    · have none : (String.utf8EncodeChar c).count newline = 0 :=
        List.count_eq_zero.2 fun mem => ends (newline_mem_utf8EncodeChar.1 mem)
      simp [ih, List.count_append, none, ends]

theorem Closed.encode {text : List Char} (closed : Closed text) :
    ∀ byte ∈ (encode text).getLast?, byte = newline := by
  rcases List.eq_nil_or_concat text with rfl | ⟨front, c, rfl⟩
  · simp [Line.encode]
  · obtain rfl : c = '\n' := closed c (by simp)
    simp [Line.encode, List.getLast?_append, show (String.utf8EncodeChar '\n') = [newline] by decide]

theorem Single.encode {line : List Char} (single : Single line) :
    newline ∉ (encode line).dropLast := by
  rcases List.eq_nil_or_concat line with rfl | ⟨front, c, rfl⟩
  · simp [Line.encode]
  · have before : newline ∉ Line.encode front := by
      rw [newline_mem_encode]
      simpa [Single] using single
    have nonempty : String.utf8EncodeChar c ≠ [] :=
      List.ne_nil_of_length_pos (by simp [Char.utf8Size_pos])
    have whole : Line.encode (front.concat c) = Line.encode front ++ String.utf8EncodeChar c := by
      simp [Line.encode]
    rw [whole, List.dropLast_append_of_ne_nil nonempty, List.mem_append, not_or]
    exact ⟨before, newline_not_mem_dropLast c⟩

/-! The line around a byte. -/

/-- The character that a byte belongs to. -/
theorem exists_char {text : List Char} {offset : Nat} (inside : offset < byteLength text) :
    ∃ index c, text[index]? = some c ∧ byteLength (text.take index) ≤ offset ∧
      offset < byteLength (text.take index) + c.utf8Size := by
  induction text generalizing offset with
  | nil => simp at inside
  | cons c rest ih =>
    by_cases first : offset < c.utf8Size
    · exact ⟨0, c, rfl, by simp, by simpa using first⟩
    · simp only [byteLength] at inside
      have left : offset - c.utf8Size < byteLength rest := by omega
      obtain ⟨index, d, there, low, high⟩ := ih left
      exact ⟨index + 1, d, by simpa using there, by simp [byteLength]; omega,
        by simp [byteLength]; omega⟩

theorem locate_eq_none {lines : List (List Char)} {number offset : Nat}
    (behind : byteLength lines.flatten ≤ offset) : locate lines number offset = none := by
  induction lines generalizing number offset with
  | nil => rfl
  | cons line lines ih =>
    simp only [List.flatten_cons, byteLength_append] at behind
    rw [locate, if_neg (by omega)]
    exact ih (by omega)

/-- Where a line without a newline inside of it ends, as seen from a place in it. -/
theorem take_line {front back later : List UInt8} (nonempty : back ≠ [])
    (unbroken : newline ∉ (front ++ back).dropLast)
    (ends : later = [] ∨ back.getLast? = some newline) :
    (front ++ back ++ later).take (front.length + (back ++ later).idxOf newline + 1) =
      front ++ back := by
  obtain ⟨init, last, rfl⟩ := (List.eq_nil_or_concat back).resolve_left nonempty
  simp only [List.concat_eq_append, ← List.append_assoc, List.dropLast_concat, List.mem_append,
    not_or] at unbroken ends ⊢
  by_cases closes : last = newline
  · subst closes
    have here : (init ++ [newline] ++ later).idxOf newline = init.length := by
      rw [List.append_assoc, List.idxOf_append_of_notMem unbroken.2]
      simp
    rw [here, List.take_left']
    simp [Nat.add_assoc]
  · obtain rfl := ends.resolve_right (by simpa using closes)
    have nowhere : newline ∉ init ++ [last] := by simp [unbroken.2, Ne.symm closes]
    rw [List.append_nil, List.append_nil, List.idxOf_eq_length nowhere, List.take_of_length_le]
    simp [Nat.add_assoc]

theorem holds_between {source : String} {earlier front back later : List Char} {c : Char}
    {skipped : Nat} (between : Between source.toList earlier (front ++ c :: back) later)
    (unbroken : '\n' ∉ front) (inside : skipped < c.utf8Size) :
    Holds source (byteLength earlier + (byteLength front + skipped))
      ⟨earlier.count '\n' + 1, String.ofList (front ++ c :: back), byteLength front + skipped⟩ := by
  -- The line in two parts, the first of which ends at the offset.
  obtain ⟨before, isBefore⟩ : ∃ before, before =
    encode front ++ (String.utf8EncodeChar c).take skipped := ⟨_, rfl⟩
  obtain ⟨behind, isBehind⟩ : ∃ behind, behind =
    (String.utf8EncodeChar c).drop skipped ++ encode back := ⟨_, rfl⟩
  have line : encode (front ++ c :: back) = before ++ behind := by
    rw [isBefore, isBehind, encode_append, encode_cons, List.append_assoc,
      ← List.append_assoc (List.take _ _), List.take_append_drop]
  have whole : bytes source = encode earlier ++ (before ++ behind ++ encode later) := by
    rw [bytes_eq_encode, between.whole, encode_append, encode_append, line]
  have length : before.length = byteLength front + skipped := by
    simp [isBefore, Nat.min_eq_left (Nat.le_of_lt inside)]
  have nonempty : behind ≠ [] := List.ne_nil_of_length_pos (by simp [isBehind]; omega)
  have nowhere : newline ∉ before := by
    rw [isBefore, List.mem_append, newline_mem_encode, not_or]
    refine ⟨unbroken, fun mem => newline_not_mem_dropLast c ?_⟩
    rw [List.dropLast_eq_take, String.length_utf8EncodeChar]
    exact (List.take_subset_take_left _ (by omega)) mem
  have first : (bytes source).take (byteLength earlier + before.length) =
      encode earlier ++ before := by
    rw [whole, List.append_assoc before, ← List.append_assoc (encode earlier), List.take_left']
    simp
  have rest : (bytes source).drop (byteLength earlier + before.length) = behind ++ encode later := by
    rw [whole, List.append_assoc before, ← List.append_assoc (encode earlier), List.drop_left']
    simp
  rw [← length]
  constructor
  case number =>
    rw [first, List.count_append, count_encode, List.count_eq_zero.2 nowhere]
  case reaches => exact Nat.le_add_left _ _
  case text =>
    have ends : encode later = [] ∨ behind.getLast? = some newline := by
      refine between.ends.imp (fun none => by simp [none, encode]) fun closes => ?_
      have closed : Closed (front ++ c :: back) := by simp [Closed, closes]
      have last := closed.encode
      rw [line, List.getLast?_append_of_ne_nil _ nonempty, List.getLast?_eq_some_getLast nonempty]
        at last
      rw [List.getLast?_eq_some_getLast nonempty, last _ rfl]
    have unbroken := between.single.encode
    rw [line] at unbroken
    rw [bytes_ofList, line, rest, Nat.add_sub_cancel, whole, List.drop_left' (length_encode _)]
    exact (take_line nonempty unbroken ends).symm
  case unbroken =>
    rw [bytes_ofList]
    exact between.single.encode
  case inside =>
    rw [bytes_ofList, line, List.length_append]
    exact Nat.lt_add_of_pos_right (List.length_pos_of_ne_nil nonempty)
  case starts =>
    rw [Nat.add_sub_cancel, whole, List.take_left' (length_encode _)]
    exact between.closed.encode

/-- An offset inside of the text is in a line that is told from the bytes, and one behind it is in
none. -/
theorem find?_holds (source : String) (offset : Nat) :
    (bytes source).length ≤ offset ∧ find? source offset = none ∨
      offset < (bytes source).length ∧
        ∃ line, find? source offset = some line ∧ line.Holds source offset := by
  rw [bytes_eq_encode, length_encode]
  by_cases inside : offset < byteLength source.toList
  · refine .inr ⟨inside, ?_⟩
    obtain ⟨index, c, there, low, high⟩ := exists_char inside
    obtain ⟨earlier, front, back, later, between, unbroken, before⟩ := exists_around there
    rw [before, byteLength_append] at low high
    obtain ⟨skipped, rfl⟩ : ∃ skipped, offset = byteLength earlier + (byteLength front + skipped) :=
      ⟨offset - (byteLength earlier + byteLength front), by omega⟩
    have small : skipped < c.utf8Size := by omega
    refine ⟨_, find?_eq_some between ?_, holds_between between unbroken small⟩
    simp only [byteLength_append, byteLength]
    omega
  · refine .inl ⟨Nat.le_of_not_lt inside, locate_eq_none ?_⟩
    rw [flatten_split]
    exact Nat.le_of_not_lt inside

end Hoist.Line
