import Hoist.Proofs.Typing.Visit

/-!
What a look found can be told from what it left behind, without any names: the types that were found
are in the slots, and a part that waits for a name does so still. So the type that the last look gave
is known, also where it is kept nowhere.

Main statement: `Expr.resolve_lasts`.
-/
namespace Hoist

namespace Visit

variable {α β γ δ ι : Type}

/-- The second visit, to what the first left behind, has the answer of the first. -/
def Lasts (first second : Visit α β) : Prop :=
  ∀ answer, first.1 = .ok answer → second.1 = .ok answer

theorem Lasts.same (visit : Visit α β) : Lasts visit visit :=
  fun _ found => found

theorem Lasts.into {first second : Visit α β} (lasts : Lasts first second) (form : β → γ) :
    Lasts (into form first) (into form second) :=
  lasts

theorem Lasts.judge {first second : Visit α β} (lasts : Lasts first second)
    (rule : α → Except Fault γ) : Lasts (judge rule first) (judge rule second) := by
  intro answer found
  obtain ⟨value, looked, ruled⟩ := bind_eq_ok.1 found
  simp [Visit.judge, lasts value looked, Except.bind, ruled]

theorem Lasts.provided {check : Except Fault ι} {rest : δ} {next next' : ι → δ → Visit γ δ}
    (lasts : ∀ value, check = .ok value →
      Lasts (next value rest) (next' value (next value rest).2)) :
    Lasts (provided check rest next) (provided check (provided check rest next).2 next') := by
  intro answer found
  obtain ⟨value, rfl, onRest⟩ := exists_of_provided found
  exact lasts value rfl answer onRest

theorem Lasts.inTurn {first second : Visit α β} (part : Lasts first second) {rest : δ}
    {next next' : α → δ → Visit γ δ}
    (lasts : ∀ value, Lasts (next value rest) (next' value (next value rest).2)) :
    Lasts (inTurn first rest next) (inTurn second (inTurn first rest next).2.2 next') := by
  intro answer found
  change (Visit.provided first.1 rest next).1 = _ at found
  change (Visit.provided second.1 (Visit.provided first.1 rest next).2 next').1 = _
  obtain ⟨value, looked, onRest⟩ := exists_of_provided found
  rw [part value looked, looked]
  exact lasts value answer onRest

theorem Lasts.unlessPending {type : Ty} {rest : δ} {next next' : δ → Visit Ty δ}
    (lasts : Lasts (next rest) (next' (next rest).2)) :
    Lasts (unlessPending type rest next)
      (unlessPending type (unlessPending type rest next).2 next') := by
  intro answer found
  unfold Visit.unlessPending at *
  split at found
  · simp [*]
  · simpa [*] using lasts answer found

theorem Lasts.slotted {slot : Ty} {part : β} {visit visit' : β → Visit Ty β}
    (lasts : Lasts (visit part) (visit' (visit part).2)) :
    Lasts (slotted slot part visit)
      (slotted (slotted slot part visit).2.2 (slotted slot part visit).2.1 visit') := by
  intro answer found
  by_cases filled : slot.isConcrete = true
  · simpa [Visit.slotted, filled] using found
  · have looked : (visit part).1 = .ok answer := by simpa [Visit.slotted, filled] using found
    simp only [Visit.slotted, filled, Bool.false_eq_true, ↓reduceIte, looked, fill]
    cases pending : answer.isPending with
    | true => simp [filled, lasts answer looked]
    | false =>
      simp only [Bool.false_eq_true, ↓reduceIte]
      split
      · rfl
      · exact lasts answer looked

end Visit

open Visit

/-- A place where nothing is bound. -/
def View.blank : View := fun _ => .unbound

variable (view : View)

/-- The second look counts the arguments that the first has left. -/
theorem Expr.length_provided_arguments (check : Except Fault (List (String × Ty) × Ty))
    (arguments : List Expr) : (provided check arguments fun signature arguments =>
      judge (fun types => .ok (Ty.ofCall types signature.2))
        (Expr.resolveArguments view signature.1 arguments)).2.length = arguments.length := by
  cases check with
  | error _ => rfl
  | ok signature => exact Expr.resolveArguments_length view signature.1 arguments

mutual

theorem Expr.resolve_lasts : ∀ value : Expr,
    Lasts (value.resolve view) ((value.resolve view).2.resolve .blank)
  | .number _ | .boolean _ | .string _ => by
    simp only [Expr.resolve]
    exact .same _
  | .symbol name slot => by
    simp only [Expr.resolve_symbol, snd_into]
    refine Lasts.into ?_ _
    by_cases filled : slot.isConcrete = true
    · simp only [slotted, filled, ↓reduceIte]
      exact .same _
    · intro type found
      have looked : view.type name = .ok type := by simpa [slotted, filled] using found
      obtain concrete | rfl := View.type_cases looked
      · simp [slotted, filled, looked, fill, concrete, Ty.isPending_of_isConcrete concrete]
      · have unknown : View.blank.type name = .ok (.pending name) := rfl
        simp [slotted, filled, looked, unknown, fill, Ty.isPending, Ty.pendingOn]
  | .record fields slot => by
    simp only [Expr.resolve_record, snd_into]
    exact Lasts.into (Lasts.slotted ((Expr.fieldsLast [] fields).judge _)) _
  | .array elements slot => by
    simp only [Expr.resolve_array, snd_into]
    exact Lasts.into (Lasts.slotted ((Expr.elementsLast none elements).judge _)) _
  | .unary op operand => by
    simp only [Expr.resolve_unary, snd_into, snd_judge]
    exact Lasts.into ((Expr.resolve_lasts operand).judge op.apply) _
  | .member left field => by
    simp only [Expr.resolve_member, snd_into, snd_judge]
    exact Lasts.into ((Expr.resolve_lasts left).judge (·.atField field)) _
  | .binary op left right => by
    simp only [Expr.resolve_binary, snd_into]
    refine Lasts.into (Lasts.inTurn (Expr.resolve_lasts left) fun type => ?_) _
    exact (Expr.resolve_lasts right).judge (op.apply type)
  | .index left position => by
    simp only [Expr.resolve_index, snd_into]
    refine Lasts.into (Lasts.inTurn (Expr.resolve_lasts left) fun type => ?_) _
    refine Lasts.unlessPending (Lasts.provided fun base _ => ?_)
    exact (Expr.resolve_lasts position).judge base.atPosition
  | .call callee arguments => by
    simp only [Expr.resolve_call, snd_into]
    refine Lasts.into (Lasts.inTurn (Expr.resolve_lasts callee) fun type => ?_) _
    refine Lasts.unlessPending ?_
    rw [Expr.length_provided_arguments]
    refine Lasts.provided fun signature _ => ?_
    exact (Expr.argumentsLast signature.1 arguments).judge _

theorem Expr.fieldsLast : ∀ (seen : List String) (fields : List (String × Expr)),
    Lasts (Expr.resolveFields view seen fields)
      (Expr.resolveFields .blank seen (Expr.resolveFields view seen fields).2)
  | _, [] => by
    simp only [Expr.resolveFields]
    exact .same _
  | seen, (name, value) :: rest => by
    cases repeated : seen.contains name with
    | true =>
      simp only [Expr.resolveFields, repeated, ↓reduceIte]
      exact .same _
    | false =>
      simp only [Expr.resolveFields_cons _ repeated, snd_into]
      refine Lasts.into (Lasts.inTurn (Expr.resolve_lasts value) fun type => ?_) _
      exact (Expr.fieldsLast (name :: seen) rest).judge _

theorem Expr.elementsLast : ∀ (base : Option Ty) (elements : List Expr),
    Lasts (Expr.resolveElements view base elements)
      (Expr.resolveElements .blank base (Expr.resolveElements view base elements).2)
  | _, [] => by
    simp only [Expr.resolveElements]
    exact .same _
  | base, element :: rest => by
    simp only [Expr.resolveElements_cons, snd_into]
    refine Lasts.into (Lasts.inTurn (Expr.resolve_lasts element) fun type => ?_) _
    refine Lasts.provided fun next _ => ?_
    exact (Expr.elementsLast next rest).judge _

theorem Expr.argumentsLast : ∀ (parameters : List (String × Ty)) (arguments : List Expr),
    Lasts (Expr.resolveArguments view parameters arguments)
      (Expr.resolveArguments .blank parameters (Expr.resolveArguments view parameters arguments).2)
  | _, [] | [], _ :: _ => by
    simp only [Expr.resolveArguments]
    exact .same _
  | parameter :: parameters, argument :: rest => by
    simp only [Expr.resolveArguments_cons, snd_into]
    refine Lasts.into (Lasts.inTurn (Expr.resolve_lasts argument) fun type => ?_) _
    refine Lasts.provided fun _ _ => ?_
    exact (Expr.argumentsLast parameters rest).judge _

end

end Hoist
