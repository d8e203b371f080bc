/-!
Sets of code points, as inclusive ranges in rising order. The tables over them follow version 17
of the Unicode standard. Main statement: in a rising table the search, which stops early, finds
every code point that some range holds.
-/
namespace Hoist.Text

/-- Whether a code point lies in one of the ranges. Since they rise, the search ends at the first
range that starts above it. -/
def inRanges : List (Nat × Nat) → Nat → Bool
  | [], _ => false
  | (low, high) :: rest, n => low ≤ n && (n ≤ high || inRanges rest n)

/-- Every range is nonempty and starts above the end of the one before it, the first at `least`
or above. -/
def rising (least : Nat) : List (Nat × Nat) → Bool
  | [] => true
  | (low, high) :: rest => least ≤ low && low ≤ high && rising (high + 1) rest

theorem least_le_of_rising {least : Nat} {ranges : List (Nat × Nat)}
    (up : rising least ranges = true) {r : Nat × Nat} (mem : r ∈ ranges) : least ≤ r.1 := by
  induction ranges generalizing least with
  | nil => cases mem
  | cons first rest ih =>
    simp only [rising, Bool.and_eq_true, decide_eq_true_eq] at up
    rcases List.mem_cons.mp mem with rfl | later
    · exact up.1.1
    · have := ih up.2 later
      omega

theorem inRanges_iff {least : Nat} {ranges : List (Nat × Nat)}
    (up : rising least ranges = true) (n : Nat) :
    inRanges ranges n = true ↔ ∃ r ∈ ranges, r.1 ≤ n ∧ n ≤ r.2 := by
  induction ranges generalizing least with
  | nil => simp [inRanges]
  | cons first rest ih =>
    simp only [rising, Bool.and_eq_true, decide_eq_true_eq] at up
    simp only [inRanges, Bool.and_eq_true, Bool.or_eq_true, decide_eq_true_eq, ih up.2,
      List.mem_cons, exists_eq_or_imp]
    constructor
    · rintro ⟨above, below | later⟩
      · exact .inl ⟨above, below⟩
      · exact .inr later
    · rintro (⟨above, below⟩ | ⟨r, mem, above, below⟩)
      · exact ⟨above, .inl below⟩
      · have := least_le_of_rising up.2 mem
        exact ⟨by omega, .inr ⟨r, mem, above, below⟩⟩

end Hoist.Text
