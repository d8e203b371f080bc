/-!
Outcomes that fail for known reasons only. `Fails allowed outcome` says that an outcome which is a
failure has an error that is allowed; it goes through the ways in which outcomes are combined.
-/
namespace Hoist

def Fails {ε α : Type} (allowed : ε → Prop) (outcome : Except ε α) : Prop :=
  ∀ error, outcome = .error error → allowed error

variable {ε α β : Type} {allowed : ε → Prop}

@[simp] theorem fails_ok (value : α) : Fails allowed (.ok value : Except ε α) := by
  simp [Fails]

@[simp] theorem fails_pure (value : α) : Fails allowed (pure value : Except ε α) :=
  fails_ok value

@[simp] theorem fails_error {error : ε} :
    Fails allowed (.error error : Except ε α) ↔ allowed error := by
  simp [Fails]

theorem Fails.map {outcome : Except ε α} (fails : Fails allowed outcome) (change : α → β) :
    Fails allowed (outcome.map change) := by
  cases outcome with
  | error error => simpa [Except.map] using fails
  | ok value => simp [Except.map]

theorem Fails.bind {first : Except ε α} {next : α → Except ε β} (fails : Fails allowed first)
    (rest : ∀ value, Fails allowed (next value)) : Fails allowed (first >>= next) := by
  cases first with
  | error error => exact fun other same => fails other (congrArg Except.error (Except.error.inj same))
  | ok value => exact rest value

theorem Fails.exists_ok {outcome : Except ε α} (fails : Fails (fun _ => False) outcome) :
    ∃ value, outcome = .ok value := by
  cases outcome with
  | error error => exact (fails error rfl).elim
  | ok value => exact ⟨value, rfl⟩

end Hoist
