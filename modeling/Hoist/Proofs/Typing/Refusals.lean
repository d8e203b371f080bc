import Mathlib.Tactic.SplitIfs
import Hoist.Proofs.Outcome
import Hoist.Proofs.Typing.WellTyped
import Hoist.Typing.Resolve

/-!
Why a look fails. An expression or a target is refused by a typing rule, with one of the causes
that typing rules give, or a name leads to a scope that is not there; a look never complains about
declarations, functions, imports or types that are missing.

Main statements: a look fails as its names and the typing rules do (`Expr.fails_resolve`,
`Target.fails_resolve`).
-/
namespace Hoist

/-- The causes that typing rules give. -/
def Cause.isLawful : Cause → Bool
  | .typeMismatch _ _ | .heterogeneousArray _ _ | .emptyArray | .duplicateField _
  | .unknownField _ _ | .unexpectedArguments _ _ | .missingArguments _ _ => true
  | _ => false

def Fault.isLawful : Fault → Bool
  | .refused cause => cause.isLawful
  | .dangling => true

/-- The outcome is a failure only if a typing rule says so. -/
abbrev Lawful {α : Type} (outcome : Except Fault α) : Prop :=
  Fails (fun fault : Fault => fault.isLawful = true) outcome

/-- Whatever a typing rule refuses is allowed to fail. -/
def AllowsRules (allowed : Fault → Prop) : Prop :=
  ∀ cause : Cause, cause.isLawful = true → allowed (.refused cause)

variable {allowed : Fault → Prop}

/-! The rules. -/

theorem Ty.fails_mismatch (rules : AllowsRules allowed) {α : Type} (expected received : String) :
    Fails allowed (Ty.mismatch expected received : Except Fault α) :=
  fails_error.2 (rules _ rfl)

theorem View.lawful_type (view : View) (name : String) : Lawful (view.type name) := by
  unfold View.type
  split <;> simp [Fault.isLawful]

theorem Ty.fails_element (rules : AllowsRules allowed) (type : Ty) :
    Fails allowed type.element := by
  unfold Ty.element
  split
  · simp
  · exact Ty.fails_mismatch rules _ _

theorem Ty.fails_atPosition (rules : AllowsRules allowed) (base position : Ty) :
    Fails allowed (base.atPosition position) := by
  unfold Ty.atPosition
  split_ifs
  · simp
  · simp
  · exact Ty.fails_mismatch rules _ _

theorem Ty.fails_atField (rules : AllowsRules allowed) (type : Ty) (field : String) :
    Fails allowed (type.atField field) := by
  unfold Ty.atField
  split
  · simp
  · split
    · split
      · simp
      · exact fails_error.2 (rules _ rfl)
    · exact Ty.fails_mismatch rules _ _

theorem Ty.fails_callable (rules : AllowsRules allowed) (callee : Ty) (arguments : Nat) :
    Fails allowed (callee.callable arguments) := by
  unfold Ty.callable
  split
  · split_ifs
    · exact fails_error.2 (rules _ rfl)
    · exact fails_error.2 (rules _ rfl)
    · simp
  · exact Ty.fails_mismatch rules _ _

theorem Ty.fails_passTo (rules : AllowsRules allowed) (argument parameter : Ty) :
    Fails allowed (argument.passTo parameter) := by
  unfold Ty.passTo
  split_ifs
  · simp
  · exact Ty.fails_mismatch rules _ _

theorem Ty.fails_join (rules : AllowsRules allowed) (base : Option Ty) (element : Ty) :
    Fails allowed (Ty.join base element) := by
  unfold Ty.join
  split
  · simp
  · split
    · simp
    · split_ifs
      · simp
      · exact fails_error.2 (rules _ rfl)

theorem Ty.fails_ofElements (rules : AllowsRules allowed) (elements : List Ty) :
    Fails allowed (Ty.ofElements elements) := by
  unfold Ty.ofElements
  split
  · simp
  · split
    · exact fails_error.2 (rules _ rfl)
    · simp

theorem UnaryOp.fails_apply (rules : AllowsRules allowed) (op : UnaryOp) (operand : Ty) :
    Fails allowed (op.apply operand) := by
  unfold UnaryOp.apply
  split_ifs
  · simp
  · simp
  · exact Ty.fails_mismatch rules _ _

theorem BinaryOp.fails_apply (rules : AllowsRules allowed) (op : BinaryOp) (left right : Ty) :
    Fails allowed (op.apply left right) := by
  unfold BinaryOp.apply
  split
  · simp
  · split_ifs
    · simp
    · simp
    · exact Ty.fails_mismatch rules _ _

/-! Looks. A part that fails is the reason why the whole fails, so the failure is that of a name or
of the rule for some part. -/

/-- The names of these symbols fail only as it is allowed. -/
def View.Allows (view : View) (allowed : Fault → Prop) (symbols : List (String × Ty)) : Prop :=
  ∀ symbol ∈ symbols, Fails allowed (view.type symbol.1)

@[simp] theorem View.allows_append {view : View} {first second : List (String × Ty)} :
    view.Allows allowed (first ++ second) ↔ view.Allows allowed first ∧
      view.Allows allowed second := by
  simp only [View.Allows, List.mem_append, or_imp, forall_and]

mutual

theorem Expr.fails_resolve (rules : AllowsRules allowed) (view : View) : ∀ value : Expr,
    view.Allows allowed value.symbols → Fails allowed (value.resolve view).1
  | .number _, _ | .boolean _, _ | .string _, _ => by simp [Expr.resolve]
  | .symbol name slot, names => by
    have named := names (name, slot) (by simp [Expr.symbols])
    rw [Expr.resolve]
    split
    · simp
    · split <;> simp_all
  | .record fields slot, names => by
    have parts := Expr.fails_resolveFields rules view [] fields names
    rw [Expr.resolve]
    split
    · simp
    · split <;> simp_all
  | .array elements slot, names => by
    have parts := Expr.fails_resolveElements rules view none elements names
    rw [Expr.resolve]
    split
    · simp
    · split
      · simp_all
      · rename_i types _ _
        have whole := Ty.fails_ofElements rules types
        split <;> simp_all
  | .unary op operand, names => by
    have part := Expr.fails_resolve rules view operand names
    rw [Expr.resolve]
    split
    · simp_all
    · exact op.fails_apply rules _
  | .binary op left right, names => by
    obtain ⟨inLeft, inRight⟩ := View.allows_append.1 names
    have first := Expr.fails_resolve rules view left inLeft
    have second := Expr.fails_resolve rules view right inRight
    rw [Expr.resolve]
    split
    · simp_all
    · split
      · simp_all
      · exact op.fails_apply rules _ _
  | .index left position, names => by
    obtain ⟨inLeft, inPosition⟩ := View.allows_append.1 names
    have first := Expr.fails_resolve rules view left inLeft
    have second := Expr.fails_resolve rules view position inPosition
    rw [Expr.resolve]
    split
    · simp_all
    · rename_i leftType _ _
      have array := leftType.fails_element rules
      split
      · simp
      · split
        · simp_all
        · split
          · simp_all
          · exact Ty.fails_atPosition rules _ _
  | .member left field, names => by
    have part := Expr.fails_resolve rules view left names
    rw [Expr.resolve]
    split
    · simp_all
    · exact Ty.fails_atField rules _ field
  | .call callee arguments, names => by
    obtain ⟨inCallee, inArguments⟩ := View.allows_append.1 names
    have first := Expr.fails_resolve rules view callee inCallee
    rw [Expr.resolve]
    split
    · simp_all
    · rename_i calleeType _ _
      have function := calleeType.fails_callable rules arguments.length
      split
      · simp
      · split
        · simp_all
        · rename_i parameters _ _
          have rest := Expr.fails_resolveArguments rules view parameters arguments inArguments
          split <;> simp_all

theorem Expr.fails_resolveFields (rules : AllowsRules allowed) (view : View) :
    ∀ (seen : List String) (fields : List (String × Expr)),
    view.Allows allowed (Expr.fieldSymbols fields) →
    Fails allowed (Expr.resolveFields view seen fields).1
  | _, [], _ => by simp [Expr.resolveFields]
  | seen, (name, value) :: rest, names => by
    obtain ⟨inValue, inRest⟩ := View.allows_append.1 names
    have first := Expr.fails_resolve rules view value inValue
    have others := Expr.fails_resolveFields rules view (name :: seen) rest inRest
    rw [Expr.resolveFields]
    split
    · exact fails_error.2 (rules _ rfl)
    · split
      · simp_all
      · exact others.map _

theorem Expr.fails_resolveElements (rules : AllowsRules allowed) (view : View) :
    ∀ (base : Option Ty) (elements : List Expr), view.Allows allowed (Expr.allSymbols elements) →
    Fails allowed (Expr.resolveElements view base elements).1
  | _, [], _ => by simp [Expr.resolveElements]
  | base, element :: rest, names => by
    obtain ⟨inElement, inRest⟩ := View.allows_append.1 names
    have first := Expr.fails_resolve rules view element inElement
    rw [Expr.resolveElements]
    split
    · simp_all
    · rename_i type _ _
      have joined := Ty.fails_join rules base type
      split
      · simp_all
      · exact (Expr.fails_resolveElements rules view _ rest inRest).map _

theorem Expr.fails_resolveArguments (rules : AllowsRules allowed) (view : View) :
    ∀ (parameters : List (String × Ty)) (arguments : List Expr),
    view.Allows allowed (Expr.allSymbols arguments) →
    Fails allowed (Expr.resolveArguments view parameters arguments).1
  | _, [], _ => by simp [Expr.resolveArguments]
  | [], _ :: _, _ => by simp [Expr.resolveArguments]
  | (_, parameter) :: parameters, argument :: rest, names => by
    obtain ⟨inArgument, inRest⟩ := View.allows_append.1 names
    have first := Expr.fails_resolve rules view argument inArgument
    rw [Expr.resolveArguments]
    split
    · simp_all
    · rename_i type _ _
      have passed := type.fails_passTo rules parameter
      split
      · simp_all
      · exact (Expr.fails_resolveArguments rules view parameters rest inRest).map _

end

theorem Expr.resolve_lawful (view : View) (value : Expr) : Lawful (value.resolve view).1 :=
  Expr.fails_resolve (fun _ lawful => lawful) view value fun symbol _ => view.lawful_type symbol.1

theorem Target.fails_resolve (rules : AllowsRules allowed) (view : View)
    (names : ∀ name, Fails allowed (view.type name)) (target : Target) :
    Fails allowed (target.resolve view).1 := by
  induction target with
  | symbol name => exact names name
  | member left field slot ih =>
    rw [Target.resolve]
    split
    · simp_all
    · exact Ty.fails_atField rules _ field
  | index left position slot ih =>
    have second := Expr.fails_resolve rules view position fun symbol _ => names symbol.1
    rw [Target.resolve]
    split
    · simp_all
    · rename_i leftType _ _
      have array := leftType.fails_element rules
      split
      · simp
      · split
        · simp_all
        · split
          · simp_all
          · exact Ty.fails_atPosition rules _ _

theorem Target.resolve_lawful (view : View) (target : Target) :
    Lawful (target.resolve view).1 :=
  Target.fails_resolve (fun _ lawful => lawful) view view.lawful_type target

end Hoist
