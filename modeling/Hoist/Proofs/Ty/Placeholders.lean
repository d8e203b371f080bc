import Hoist.Proofs.Typed.Forget
import Hoist.Proofs.Typing.Conversion

/-!
The placeholders of a type, in the order in which they are met. Three recursions over types agree on
them: a type is concrete if it has none, it can be read if it has none, and reading one that has
some stops at the first.

Main statement: reading a type and forgetting that it was read undo each other, and a type that
cannot be read is refused for its first placeholder (`ConcreteTy.reads_back`).
-/
namespace Hoist

namespace Ty

mutual

/-- The placeholders in a type: those of an array's base, of the fields of a record in their order,
of the parameters of a function in their order and then of its result. -/
def placeholders : Ty → List Ty
  | unresolved => [unresolved]
  | unannotated => [unannotated]
  | pending name => [pending name]
  | array base _ => placeholders base
  | record fields => fieldPlaceholders fields
  | function parameters result => fieldPlaceholders parameters ++ placeholders result
  | number | boolean | string _ | void | named _ => []

def fieldPlaceholders : List (String × Ty) → List Ty
  | [] => []
  | (_, type) :: rest => placeholders type ++ fieldPlaceholders rest

end

mutual

theorem placeholders_eq_nil : ∀ type : Ty, type.placeholders = [] ↔ type.isConcrete = true
  | .number | .boolean | .string _ | .void | .named _ => by simp [placeholders, isConcrete]
  | .unresolved | .unannotated | .pending _ => by simp [placeholders, isConcrete]
  | .array base _ => by simp [placeholders, isConcrete, placeholders_eq_nil base]
  | .record fields => by simp [placeholders, isConcrete, fieldPlaceholders_eq_nil fields]
  | .function parameters result => by
    simp [placeholders, isConcrete, fieldPlaceholders_eq_nil parameters,
      placeholders_eq_nil result]

theorem fieldPlaceholders_eq_nil : ∀ fields : List (String × Ty),
    fieldPlaceholders fields = [] ↔ areConcrete fields = true
  | [] => by simp [fieldPlaceholders, areConcrete]
  | (_, type) :: rest => by
    simp [fieldPlaceholders, areConcrete, placeholders_eq_nil type, fieldPlaceholders_eq_nil rest]

end

end Ty

theorem atPosition_eq_error {α : Type} {position : Position} {result : Except Cause α}
    {halt : Halt} : atPosition position result = .error halt ↔
      ∃ cause, result = .error cause ∧ halt = .rejected ⟨cause, position⟩ := by
  cases result <;> simp [atPosition, eq_comm]

namespace ConcreteTy

theorem exists_ofTy_iff {type : Ty} :
    (∃ concrete, ofTy type = .ok concrete) ↔ type.placeholders = [] := by
  simp only [ofTy_eq_ok, Ty.placeholders_eq_nil, Ty.isConcrete_iff]

theorem exists_ofFields_of_placeholders {fields : List (String × Ty)}
    (none : Ty.fieldPlaceholders fields = []) : ∃ concrete, ofFields fields = .ok concrete := by
  obtain ⟨concrete, rfl⟩ := exists_toFields ((Ty.fieldPlaceholders_eq_nil fields).1 none)
  exact ⟨concrete, ofFields_toFields concrete⟩

mutual

/-- What comes before the first placeholder can be read, so this is the one that is met. -/
theorem ofTy_first : ∀ {type first : Ty} {others : List Ty}, type.placeholders = first :: others →
    ofTy type = .error (.unresolvedType first.text)
  | .number, _, _, found | .boolean, _, _, found | .string _, _, _, found | .void, _, _, found
  | .named _, _, _, found => by simp [Ty.placeholders] at found
  | .unresolved, _, _, found | .unannotated, _, _, found | .pending _, _, _, found => by
    simp only [Ty.placeholders, List.cons.injEq] at found
    rw [← found.1, ofTy]
  | .array base _, _, _, found => by
    rw [Ty.placeholders] at found
    rw [ofTy, ofTy_first found]
    rfl
  | .record fields, _, _, found => by
    rw [Ty.placeholders] at found
    rw [ofTy, ofFields_first found]
    rfl
  | .function parameters result, _, _, found => by
    rw [Ty.placeholders, List.append_eq_cons_iff] at found
    obtain ⟨none, found⟩ | ⟨_, found, _⟩ := found
    · obtain ⟨read, known⟩ := exists_ofFields_of_placeholders none
      rw [ofTy, known, ofTy_first found]
      rfl
    · rw [ofTy, ofFields_first found]
      rfl

theorem ofFields_first : ∀ {fields : List (String × Ty)} {first : Ty} {others : List Ty},
    Ty.fieldPlaceholders fields = first :: others →
    ofFields fields = .error (.unresolvedType first.text)
  | [], _, _, found => by simp [Ty.fieldPlaceholders] at found
  | (_, type) :: rest, _, _, found => by
    rw [Ty.fieldPlaceholders, List.append_eq_cons_iff] at found
    obtain ⟨none, found⟩ | ⟨_, found, _⟩ := found
    · obtain ⟨read, known⟩ := exists_ofTy_iff.2 none
      rw [ofFields, known, ofFields_first found]
      rfl
    · rw [ofFields, ofTy_first found]
      rfl

end

theorem ofTy_eq_error {type : Ty} {cause : Cause} :
    ofTy type = .error cause ↔
      ∃ first, type.placeholders.head? = some first ∧ cause = .unresolvedType first.text := by
  cases found : type.placeholders with
  | nil =>
    obtain ⟨concrete, read⟩ := exists_ofTy_iff.2 found
    simp [read]
  | cons first others => simp [ofTy_first found, eq_comm]

theorem reads_back (type : Ty) (position : Position) :
    ((∃ concrete, atPosition position (ofTy type) = .ok concrete) ↔ type.isConcrete = true) ∧
      (∀ concrete, atPosition position (ofTy type) = .ok concrete ↔ concrete.toTy = type) ∧
      (∀ concrete : ConcreteTy, concrete.toTy.isConcrete = true ∧
        atPosition position (ofTy concrete.toTy) = .ok concrete) ∧
      ∀ halt, atPosition position (ofTy type) = .error halt ↔
        ∃ first, type.placeholders.head? = some first ∧
          halt = .rejected ⟨.unresolvedType first.text, position⟩ := by
  refine ⟨?_, ?_, ?_, ?_⟩
  · simp only [atPosition_eq_ok, ofTy_eq_ok, Ty.isConcrete_iff]
  · intro concrete
    rw [atPosition_eq_ok, ofTy_eq_ok, eq_comm]
  · intro concrete
    exact ⟨isConcrete_toTy concrete, atPosition_eq_ok.2 (ofTy_toTy concrete)⟩
  · intro halt
    simp only [atPosition_eq_error, ofTy_eq_error]
    constructor
    · rintro ⟨_, ⟨first, found, rfl⟩, rfl⟩
      exact ⟨first, found, rfl⟩
    · rintro ⟨first, found, rfl⟩
      exact ⟨_, ⟨first, found, rfl⟩, rfl⟩

end ConcreteTy

end Hoist
