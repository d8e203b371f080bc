import Hoist.Proofs.Typing.Blocked

/-!
Looks taken apart. A look visits the parts of an expression one after the other and stops at the
first that fails; the forms of expressions differ only in what is asked between two parts. So there
are few ways in which a look is put together from the looks at the parts: a rule judges what was
found (`judge`), a check or a part that fails keeps the rest from being looked at (`provided`,
`inTurn`), a type that is waited for does (`unlessPending`), and a slot that is filled does
(`slotted`).

Main statements: one equation for each form of expressions, `Expr.resolve_symbol` and so on.
-/
namespace Hoist

theorem Ty.pendingOn_eq_some {type : Ty} {name : String} :
    type.pendingOn = some name ↔ type = .pending name := by
  cases type <;> simp [Ty.pendingOn]

/-- What came of looking at something, and the thing as it is afterwards. -/
abbrev Visit (α β : Type) := Except Fault α × β

namespace Visit

variable {α β γ δ ι : Type}

def into (form : β → γ) (visit : Visit α β) : Visit α γ :=
  (visit.1, form visit.2)

/-- A rule has the last word on what was found. -/
def judge (rule : α → Except Fault γ) (visit : Visit α β) : Visit γ β :=
  (visit.1.bind rule, visit.2)

/-- The rest is left alone unless a check is passed. -/
def provided (check : Except Fault ι) (rest : δ) (next : ι → δ → Visit γ δ) : Visit γ δ :=
  match check with
  | .ok value => next value rest
  | .error fault => (.error fault, rest)

/-- One thing after the other; the rest is left alone if nothing is found in the first. -/
def inTurn (visit : Visit α β) (rest : δ) (next : α → δ → Visit γ δ) : Visit γ (β × δ) :=
  ((provided visit.1 rest next).1, (visit.2, (provided visit.1 rest next).2))

/-- The rest is left alone as long as the type before it is waited for. -/
def unlessPending (type : Ty) (rest : δ) (next : δ → Visit Ty δ) : Visit Ty δ :=
  if type.isPending then (.ok type, rest) else next rest

/-- What a slot holds after a visit. -/
def fill (slot : Ty) : Except Fault Ty → Ty
  | .ok type => if type.isPending then slot else type
  | .error _ => slot

/-- A thing with a slot is visited only if the slot is empty. -/
def slotted (slot : Ty) (part : β) (visit : β → Visit Ty β) : Visit Ty (β × Ty) :=
  if slot.isConcrete then (.ok slot, (part, slot))
  else ((visit part).1, ((visit part).2, fill slot (visit part).1))

@[simp] theorem snd_into (form : β → γ) (visit : Visit α β) :
    (into form visit).2 = form visit.2 := rfl

@[simp] theorem snd_judge (rule : α → Except Fault γ) (visit : Visit α β) :
    (judge rule visit).2 = visit.2 := rfl

theorem exists_of_judge {visit : Visit α β} {make : α → γ} {answer : γ}
    (found : (judge (fun value => .ok (make value)) visit).1 = .ok answer) :
    ∃ value, answer = make value := by
  obtain ⟨value, -, same⟩ := bind_eq_ok.1 found
  exact ⟨value, (Except.ok.inj same).symm⟩

theorem exists_of_provided {check : Except Fault ι} {rest : δ} {next : ι → δ → Visit γ δ}
    {answer : γ} (found : (provided check rest next).1 = .ok answer) :
    ∃ value, check = .ok value ∧ (next value rest).1 = .ok answer := by
  cases check with
  | error fault => simp [provided] at found
  | ok value => exact ⟨value, rfl, found⟩

theorem known_of_unlessPending {type answer : Ty} {rest : δ} {next : δ → Visit Ty δ}
    (found : (unlessPending type rest next).1 = .ok answer) (known : answer.isPending = false) :
    type.isPending = false := by
  by_contra pending
  obtain rfl : type = answer := by simpa [unlessPending, pending] using found
  exact pending known

end Visit

open Visit

/-! ## Looks as visits -/

section Forms

variable (view : View)

theorem Expr.resolve_symbol (name : String) (slot : Ty) :
    (Expr.symbol name slot).resolve view =
      into (fun parts => .symbol parts.1 parts.2)
        (slotted slot name fun name => (view.type name, name)) := by
  rw [Expr.resolve]
  unfold slotted into fill
  cases slot.isConcrete with
  | true => rfl
  | false =>
    cases seen : view.type name with
    | error fault => simp [seen]
    | ok type =>
      obtain concrete | rfl := View.type_cases seen
      · simp [seen, concrete, Ty.isPending_of_isConcrete concrete]
      · simp [seen, Ty.isConcrete, Ty.isPending, Ty.pendingOn]

theorem Expr.resolve_record (fields : List (String × Expr)) (slot : Ty) :
    (Expr.record fields slot).resolve view =
      into (fun parts => .record parts.1 parts.2)
        (slotted slot fields fun fields =>
          judge (fun types => .ok (Ty.ofFields types)) (Expr.resolveFields view [] fields)) := by
  rw [Expr.resolve]
  unfold slotted into judge fill
  cases slot.isConcrete with
  | true => rfl
  | false =>
    rcases look : Expr.resolveFields view [] fields with ⟨_ | _, _⟩ <;> simp [look, Except.bind]

theorem Expr.resolve_array (elements : List Expr) (slot : Ty) :
    (Expr.array elements slot).resolve view =
      into (fun parts => .array parts.1 parts.2)
        (slotted slot elements fun elements =>
          judge Ty.ofElements (Expr.resolveElements view none elements)) := by
  rw [Expr.resolve]
  unfold slotted into judge fill
  cases slot.isConcrete with
  | true => rfl
  | false =>
    rcases look : Expr.resolveElements view none elements with ⟨_ | types, _⟩
    · simp [look, Except.bind]
    · cases whole : Ty.ofElements types <;> simp [look, Except.bind, whole]

theorem Expr.resolve_unary (op : UnaryOp) (operand : Expr) :
    (Expr.unary op operand).resolve view =
      into (.unary op) (judge op.apply (operand.resolve view)) := by
  rw [Expr.resolve]
  rcases operand.resolve view with ⟨_ | _, _⟩ <;> rfl

theorem Expr.resolve_member (left : Expr) (field : String) :
    (Expr.member left field).resolve view =
      into (.member · field) (judge (·.atField field) (left.resolve view)) := by
  rw [Expr.resolve]
  rcases left.resolve view with ⟨_ | _, _⟩ <;> rfl

theorem Expr.resolve_binary (op : BinaryOp) (left right : Expr) :
    (Expr.binary op left right).resolve view =
      into (fun parts => .binary op parts.1 parts.2)
        (inTurn (left.resolve view) right fun leftType right =>
          judge (op.apply leftType) (right.resolve view)) := by
  rw [Expr.resolve]
  rcases left.resolve view with ⟨_ | _, _⟩
  · rfl
  · rcases look : right.resolve view with ⟨_ | _, _⟩ <;>
      simp [into, inTurn, provided, judge, look, Except.bind]

theorem Expr.resolve_index (left position : Expr) :
    (Expr.index left position).resolve view =
      into (fun parts => .index parts.1 parts.2)
        (inTurn (left.resolve view) position fun leftType position =>
          unlessPending leftType position fun position =>
            provided leftType.element position fun base position =>
              judge base.atPosition (position.resolve view)) := by
  rw [Expr.resolve]
  rcases left.resolve view with ⟨_ | leftType, _⟩
  · rfl
  · cases pending : leftType.isPending with
    | true => simp [into, inTurn, provided, unlessPending, pending]
    | false =>
      cases whole : leftType.element with
      | error fault => simp [into, inTurn, provided, unlessPending, pending, whole]
      | ok base =>
        rcases look : position.resolve view with ⟨_ | _, _⟩ <;>
          simp [into, inTurn, provided, unlessPending, judge, pending, whole, look, Except.bind]

theorem Expr.resolve_call (callee : Expr) (arguments : List Expr) :
    (Expr.call callee arguments).resolve view =
      into (fun parts => .call parts.1 parts.2)
        (inTurn (callee.resolve view) arguments fun calleeType arguments =>
          unlessPending calleeType arguments fun arguments =>
            provided (calleeType.callable arguments.length) arguments fun signature arguments =>
              judge (fun types => .ok (Ty.ofCall types signature.2))
                (Expr.resolveArguments view signature.1 arguments)) := by
  rw [Expr.resolve]
  rcases callee.resolve view with ⟨_ | calleeType, _⟩
  · rfl
  · cases pending : calleeType.isPending with
    | true => simp [into, inTurn, provided, unlessPending, pending]
    | false =>
      cases whole : calleeType.callable arguments.length with
      | error fault => simp [into, inTurn, provided, unlessPending, pending, whole]
      | ok signature =>
        rcases look : Expr.resolveArguments view signature.1 arguments with ⟨_ | _, _⟩ <;>
          simp [into, inTurn, provided, unlessPending, judge, pending, whole, look, Except.bind]

theorem Expr.resolveFields_cons {seen : List String} {name : String}
    (unseen : seen.contains name = false) (value : Expr) (rest : List (String × Expr)) :
    Expr.resolveFields view seen ((name, value) :: rest) =
      into (fun parts => (name, parts.1) :: parts.2)
        (inTurn (value.resolve view) rest fun type rest =>
          judge (fun types => .ok ((name, type) :: types))
            (Expr.resolveFields view (name :: seen) rest)) := by
  rw [Expr.resolveFields]
  simp only [unseen, Bool.false_eq_true, ↓reduceIte]
  rcases value.resolve view with ⟨_ | _, _⟩
  · rfl
  · rcases look : Expr.resolveFields view (name :: seen) rest with ⟨_ | _, _⟩ <;>
      simp [into, inTurn, provided, judge, look, Except.bind, Except.map]

theorem Expr.resolveElements_cons (base : Option Ty) (element : Expr) (rest : List Expr) :
    Expr.resolveElements view base (element :: rest) =
      into (fun parts => parts.1 :: parts.2)
        (inTurn (element.resolve view) rest fun type rest =>
          provided (Ty.join base type) rest fun base rest =>
            judge (fun types => .ok (type :: types)) (Expr.resolveElements view base rest)) := by
  rw [Expr.resolveElements]
  rcases element.resolve view with ⟨_ | type, _⟩
  · rfl
  · cases joined : Ty.join base type with
    | error fault => simp [into, inTurn, provided, joined]
    | ok base =>
      rcases look : Expr.resolveElements view base rest with ⟨_ | _, _⟩ <;>
        simp [into, inTurn, provided, judge, joined, look, Except.bind, Except.map]

theorem Expr.resolveArguments_cons (parameter : String × Ty) (parameters : List (String × Ty))
    (argument : Expr) (rest : List Expr) :
    Expr.resolveArguments view (parameter :: parameters) (argument :: rest) =
      into (fun parts => parts.1 :: parts.2)
        (inTurn (argument.resolve view) rest fun type rest =>
          provided (type.passTo parameter.2) rest fun _ rest =>
            judge (fun types => .ok (type :: types))
              (Expr.resolveArguments view parameters rest)) := by
  rw [Expr.resolveArguments]
  rcases argument.resolve view with ⟨_ | type, _⟩
  · rfl
  · cases passed : type.passTo parameter.2 with
    | error fault => simp [into, inTurn, provided, passed]
    | ok _ =>
      rcases look : Expr.resolveArguments view parameters rest with ⟨_ | _, _⟩ <;>
        simp [into, inTurn, provided, judge, passed, look, Except.bind, Except.map]

end Forms

end Hoist
