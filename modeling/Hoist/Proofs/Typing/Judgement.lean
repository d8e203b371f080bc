import Mathlib.Data.List.Nodup
import Hoist.Proofs.Typing.Filled
import Hoist.Proofs.Typing.Refusals
import Hoist.Proofs.Typing.WellTyped

/-!
The typing judgement of the language, and that looking at an expression decides it. The judgement
says which type an expression has when names have the types of a context. It has one rule for each
way to form an expression or to read an operator, and knows neither slots nor pending types nor an
order in which parts are looked at.

Main statement: a look at a fresh expression whose names all have types answers with exactly the
type of the judgement, and is refused if there is none (`Scopes.resolve_eq_ok_iff_hasType`).
-/
namespace Hoist

/-- The types that names have. -/
abbrev Context := String → Option Ty

/-- The types of the names that are bound where the view is taken. -/
def View.context (view : View) : Context := fun name =>
  match view name with
  | .bound type => some type
  | .unbound | .dangling => none

inductive Expr.HasType (Γ : Context) : Expr → Ty → Prop
  | number {value} : HasType Γ (.number value) .number
  | boolean {value} : HasType Γ (.boolean value) .boolean
  | string {value} : HasType Γ (.string value) (.string (.ofNat value.length))
  | symbol {name slot type} : Γ name = some type → HasType Γ (.symbol name slot) type
  | array {elements slot base} :
      elements ≠ [] → (∀ element ∈ elements, HasType Γ element base) →
      HasType Γ (.array elements slot) (.array base elements.length)
  /-- The fields of the type are those of the literal, in its order. -/
  | record {fields slot types} :
      (fields.map (·.1)).Nodup → types.map (·.1) = fields.map (·.1) →
      List.Forall₂ (HasType Γ) (fields.map (·.2)) (types.map (·.2)) →
      HasType Γ (.record fields slot) (.record types)
  | sign {op operand} :
      op ∈ [UnaryOp.plus, .minus] → HasType Γ operand .number →
      HasType Γ (.unary op operand) .number
  | negation {operand} : HasType Γ operand .boolean → HasType Γ (.unary .not operand) .boolean
  | arithmetic {op left right} :
      op ∈ [BinaryOp.add, .subtract, .multiply, .divide, .or, .xor, .and] →
      HasType Γ left .number → HasType Γ right .number → HasType Γ (.binary op left right) .number
  | concatenation {left right m n} :
      HasType Γ left (.string m) → HasType Γ right (.string n) →
      HasType Γ (.binary .add left right) (.string (m + n))
  | equality {op left right operand} :
      op ∈ [BinaryOp.equal, .notEqual] → operand = .number ∨ operand = .boolean →
      HasType Γ left operand → HasType Γ right operand →
      HasType Γ (.binary op left right) .boolean
  | ordering {op left right} :
      op ∈ [BinaryOp.less, .lessEqual, .greater, .greaterEqual] →
      HasType Γ left .number → HasType Γ right .number → HasType Γ (.binary op left right) .boolean
  | index {left position base length} :
      HasType Γ left (.array base length) → HasType Γ position .number →
      HasType Γ (.index left position) base
  | member {left field fields type} :
      HasType Γ left (.record fields) → Table.first? field fields = some type →
      HasType Γ (.member left field) type
  /-- There are as many arguments as parameters, and each has the type of its parameter. -/
  | call {callee arguments parameters result} :
      HasType Γ callee (.function parameters result) →
      List.Forall₂ (HasType Γ) arguments (parameters.map (·.2)) →
      HasType Γ (.call callee arguments) result

/-! ## Rules that are given types which are not pending -/

theorem UnaryOp.apply_eq_ok {op : UnaryOp} {operand type : Ty} (known : operand.isPending = false) :
    op.apply operand = .ok type ↔ operand = op.operand ∧ type = op.operand := by
  unfold UnaryOp.apply
  simp only [known, Bool.false_eq_true, ↓reduceIte]
  split <;> simp_all [Ty.mismatch, eq_comm (a := type)]

theorem BinaryOp.apply_eq_ok {op : BinaryOp} {left right type : Ty}
    (leftKnown : left.isPending = false) (rightKnown : right.isPending = false) :
    op.apply left right = .ok type ↔ op.result? left right = some type := by
  unfold BinaryOp.apply
  split <;> simp_all [Ty.mismatch]

theorem Ty.element_eq_ok {left base : Ty} :
    left.element = .ok base ↔ ∃ length, left = .array base length := by
  cases left <;> simp [Ty.element, Ty.mismatch]

theorem Ty.atPosition_eq_ok {base position type : Ty} (known : position.isPending = false) :
    base.atPosition position = .ok type ↔ position = .number ∧ type = base := by
  unfold Ty.atPosition
  simp only [known, Bool.false_eq_true, ↓reduceIte]
  split <;> simp_all [Ty.mismatch, eq_comm (a := type)]

theorem Ty.atField_eq_ok {left type : Ty} {field : String} (known : left.isPending = false) :
    left.atField field = .ok type ↔
      ∃ fields, left = .record fields ∧ Table.first? field fields = some type := by
  unfold Ty.atField
  simp only [known, Bool.false_eq_true, ↓reduceIte]
  cases left with
  | record fields => cases found : Table.first? field fields <;> simp [found]
  | _ => simp [Ty.mismatch]

theorem Ty.callable_eq_ok {callee result : Ty} {count : Nat} {parameters : List (String × Ty)} :
    callee.callable count = .ok (parameters, result) ↔
      callee = .function parameters result ∧ count = parameters.length := by
  cases callee with
  | function formal answer =>
    simp only [Ty.callable]
    split
    · simp only [reduceCtorEq, Ty.function.injEq, false_iff]
      rintro ⟨⟨rfl, rfl⟩, rfl⟩
      omega
    · split
      · simp only [reduceCtorEq, Ty.function.injEq, false_iff]
        rintro ⟨⟨rfl, rfl⟩, rfl⟩
        omega
      · simp only [Except.ok.injEq, Prod.mk.injEq, Ty.function.injEq, iff_self_and]
        rintro ⟨rfl, rfl⟩
        omega
  | _ => simp [Ty.callable, Ty.mismatch]

theorem Ty.passTo_eq_ok {argument parameter : Ty} (known : argument.isPending = false) :
    argument.passTo parameter = .ok () ↔ argument = parameter := by
  unfold Ty.passTo
  simp only [known, Bool.false_or, decide_eq_true_eq]
  split <;> simp_all [Ty.mismatch]

theorem Ty.join_eq_ok {base after : Option Ty} {element : Ty} (known : element.isPending = false) :
    Ty.join base element = .ok after ↔ (∀ type ∈ base, type = element) ∧ after = some element := by
  unfold Ty.join
  simp only [known, Bool.false_eq_true, ↓reduceIte]
  cases base with
  | none => simp [eq_comm (a := after)]
  | some expected =>
    simp only [Option.mem_def, Option.some.injEq, forall_eq']
    split
    · rename_i same
      simp [same, eq_comm (a := after)]
    · rename_i different
      simp [different]

/-- The list of types holds nothing that is waited for. -/
theorem Ty.find?_isPending {types : List Ty} (known : ∀ type ∈ types, type.isConcrete = true) :
    types.find? Ty.isPending = none := by
  rw [List.find?_eq_none]
  intro type mem
  simp [Ty.isPending_of_isConcrete (known type mem)]

theorem Ty.ofElements_replicate {base : Ty} {count : Nat} (concrete : base.isConcrete = true) :
    Ty.ofElements (List.replicate (count + 1) base) = .ok (.array base (count + 1)) := by
  have known : ∀ type ∈ List.replicate (count + 1) base, type.isConcrete = true :=
    fun type mem => List.eq_of_mem_replicate mem ▸ concrete
  unfold Ty.ofElements
  rw [Ty.find?_isPending known]
  simp [List.replicate_succ]

theorem View.type_eq_of_context {view : View} {name : String} {type : Ty}
    (found : view.context name = some type) (concrete : type.isConcrete = true) :
    view.type name = .ok type := by
  unfold View.context at found
  unfold View.type
  generalize view name = reading at found ⊢
  cases reading with
  | bound known =>
    obtain rfl : known = type := Option.some.inj found
    exact congrArg Except.ok (if_pos concrete)
  | unbound | dangling => simp at found

/-- A look that answers exactly with what has a property finds the one thing that has it, or fails
and nothing has it. -/
theorem answer_cases {α β : Type} {look : Except Fault α × β} {typed : α → Prop}
    (decides : ∀ {answer}, look.1 = .ok answer ↔ typed answer) :
    (∃ fault after, look = (.error fault, after) ∧ ∀ answer, ¬ typed answer) ∨
      ∃ found after, look = (.ok found, after) ∧ typed found ∧
        ∀ answer, typed answer → answer = found := by
  obtain ⟨fault | found, after⟩ := look
  · exact .inl ⟨fault, after, rfl, fun answer has => by simpa using decides.2 has⟩
  · exact .inr ⟨found, after, rfl, decides.1 rfl, fun answer has =>
      (Except.ok.inj (decides.2 has)).symm⟩

/-! ## Types of the judgement are concrete -/

/-- Every name among these symbols has a type that is known. -/
def Context.Knows (Γ : Context) (symbols : List (String × Ty)) : Prop :=
  ∀ symbol ∈ symbols, ∃ type, Γ symbol.1 = some type ∧ type.isConcrete = true

@[simp] theorem Context.knows_append {Γ : Context} {first second : List (String × Ty)} :
    Γ.Knows (first ++ second) ↔ Γ.Knows first ∧ Γ.Knows second := by
  simp only [Context.Knows, List.mem_append, or_imp, forall_and]

theorem Ty.areConcrete_iff {fields : List (String × Ty)} :
    Ty.areConcrete fields = true ↔ ∀ type ∈ fields.map (·.2), type.isConcrete = true := by
  induction fields with
  | nil => simp [Ty.areConcrete]
  | cons field rest ih => simp [Ty.areConcrete, ih]

namespace Expr

variable {Γ : Context}

mutual

theorem HasType.isConcrete : ∀ {value : Expr} {type : Ty},
    HasType Γ value type → Γ.Knows value.symbols → type.isConcrete = true
  | .number _, _, .number, _ | .boolean _, _, .boolean, _ | .string _, _, .string, _ => rfl
  | .symbol name slot, _, .symbol found, known => by
    obtain ⟨type, bound, concrete⟩ := known (name, slot) (by simp [symbols])
    rw [found, Option.some.injEq] at bound
    exact bound ▸ concrete
  | .array [] _, _, .array nonempty _, _ => absurd rfl nonempty
  | .array (first :: _) _, _, .array _ typed, known => by
    rw [Ty.isConcrete]
    exact HasType.isConcrete (typed first List.mem_cons_self) (Context.knows_append.1 known).1
  | .record fields _, _, .record _ _ typed, known =>
    Ty.areConcrete_iff.2 (fieldsConcrete typed known)
  | .unary _ _, _, .sign _ _, _ | .unary _ _, _, .negation _, _ => rfl
  | .binary _ _ _, _, .arithmetic _ _ _, _ | .binary _ _ _, _, .concatenation _ _, _
  | .binary _ _ _, _, .equality _ _ _ _, _ | .binary _ _ _, _, .ordering _ _ _, _ => rfl
  | .index left _, _, .index whole _, known => by
    have concrete := HasType.isConcrete whole (Context.knows_append.1 known).1
    rwa [Ty.isConcrete] at concrete
  | .member left _, _, .member whole found, known =>
    Ty.isConcrete_atField (HasType.isConcrete whole known)
      ((Ty.atField_eq_ok rfl).2 ⟨_, rfl, found⟩)
  | .call callee _, _, .call called _, known => by
    have whole := HasType.isConcrete called (Context.knows_append.1 known).1
    rw [Ty.isConcrete, Bool.and_eq_true] at whole
    exact whole.2

theorem fieldsConcrete : ∀ {fields : List (String × Expr)} {types : List Ty},
    List.Forall₂ (HasType Γ) (fields.map (·.2)) types → Γ.Knows (fieldSymbols fields) →
    ∀ type ∈ types, type.isConcrete = true
  | [], _, .nil, _ => by simp
  | (_, value) :: rest, _, .cons first others, known => by
    have both := Context.knows_append.1 known
    exact List.forall_mem_cons.2
      ⟨HasType.isConcrete first both.1, fieldsConcrete others both.2⟩

end

/-! ## The rules as the look applies them

Each rule read backwards, in terms of what the look computes once it knows the parts. -/

theorem hasType_unary_iff {op : UnaryOp} {operand : Expr} {type : Ty} :
    HasType Γ (.unary op operand) type ↔ HasType Γ operand op.operand ∧ type = op.operand := by
  constructor
  · rintro (_ | _)
    case sign known typed =>
      cases op <;> simp_all [UnaryOp.operand]
    case negation typed => exact ⟨typed, rfl⟩
  · rintro ⟨typed, rfl⟩
    cases op with
    | plus | minus => exact .sign (by simp) typed
    | not => exact .negation typed

theorem hasType_binary_iff {op : BinaryOp} {left right : Expr} {type : Ty} :
    HasType Γ (.binary op left right) type ↔
      ∃ a b, HasType Γ left a ∧ HasType Γ right b ∧ op.result? a b = some type := by
  constructor
  · intro typed
    cases typed with
    | arithmetic known first second =>
      refine ⟨_, _, first, second, ?_⟩
      cases op <;> simp_all [BinaryOp.result?, BinaryOp.isArithmetic]
    | concatenation first second => exact ⟨_, _, first, second, by simp [BinaryOp.result?]⟩
    | equality known operands first second =>
      refine ⟨_, _, first, second, ?_⟩
      rcases operands with rfl | rfl <;> cases op <;>
        simp_all [BinaryOp.result?, BinaryOp.isArithmetic, BinaryOp.isEquality]
    | ordering known first second =>
      refine ⟨_, _, first, second, ?_⟩
      cases op <;> simp_all [BinaryOp.result?, BinaryOp.isArithmetic]
  · rintro ⟨a, b, first, second, result⟩
    unfold BinaryOp.result? at result
    split at result
    · simp only [Option.some.injEq] at result
      subst result
      cases op <;> simp only [BinaryOp.isArithmetic, ↓reduceIte, Bool.false_eq_true]
      case add | subtract | multiply | divide | or | xor | and =>
        exact .arithmetic (by simp) first second
      case equal | notEqual => exact .equality (by simp) (.inl rfl) first second
      case less | lessEqual | greater | greaterEqual => exact .ordering (by simp) first second
    · split at result
      · rename_i plus
        simp only [Option.some.injEq] at result
        subst plus result
        exact .concatenation first second
      · simp at result
    · split at result
      · rename_i equality
        simp only [Option.some.injEq] at result
        subst result
        refine .equality ?_ (.inr rfl) first second
        cases op <;> simp_all [BinaryOp.isEquality]
      · simp at result
    · simp at result

/-! ## Looks decide the judgement -/

theorem hasType_symbol_iff {name : String} {slot type : Ty} :
    HasType Γ (.symbol name slot) type ↔ Γ name = some type :=
  ⟨fun | .symbol found => found, .symbol⟩

theorem hasType_array_iff {elements : List Expr} {slot type : Ty} :
    HasType Γ (.array elements slot) type ↔ ∃ base, elements ≠ [] ∧
      (∀ element ∈ elements, HasType Γ element base) ∧ type = .array base elements.length :=
  ⟨fun | .array nonempty typed => ⟨_, nonempty, typed, rfl⟩,
    fun ⟨_, nonempty, typed, same⟩ => same ▸ .array nonempty typed⟩

theorem hasType_index_iff {left position : Expr} {type : Ty} :
    HasType Γ (.index left position) type ↔
      ∃ length, HasType Γ left (.array type length) ∧ HasType Γ position .number :=
  ⟨fun | .index whole inside => ⟨_, whole, inside⟩, fun ⟨_, whole, inside⟩ => .index whole inside⟩

theorem hasType_member_iff {left : Expr} {field : String} {type : Ty} :
    HasType Γ (.member left field) type ↔
      ∃ fields, HasType Γ left (.record fields) ∧ Table.first? field fields = some type :=
  ⟨fun | .member whole found => ⟨_, whole, found⟩, fun ⟨_, whole, found⟩ => .member whole found⟩

theorem hasType_call_iff {callee : Expr} {arguments : List Expr} {type : Ty} :
    HasType Γ (.call callee arguments) type ↔
      ∃ parameters, HasType Γ callee (.function parameters type) ∧
        List.Forall₂ (HasType Γ) arguments (parameters.map (·.2)) :=
  ⟨fun | .call called each => ⟨_, called, each⟩, fun ⟨_, called, each⟩ => .call called each⟩

mutual

theorem resolve_eq_ok_iff (view : View) : ∀ {value : Expr}, value.isFresh = true →
    view.context.Knows value.symbols → ∀ {type : Ty},
    (value.resolve view).1 = .ok type ↔ HasType view.context value type
  | .number _, _, _, type => by
    simp only [Expr.resolve, Except.ok.injEq]
    exact ⟨fun same => same ▸ .number, fun | .number => rfl⟩
  | .boolean _, _, _, type => by
    simp only [Expr.resolve, Except.ok.injEq]
    exact ⟨fun same => same ▸ .boolean, fun | .boolean => rfl⟩
  | .string _, _, _, type => by
    simp only [Expr.resolve, Except.ok.injEq]
    exact ⟨fun same => same ▸ .string, fun | .string => rfl⟩
  | .symbol name slot, fresh, known, type => by
    obtain ⟨found, bound, concrete⟩ := known (name, slot) (by simp [symbols])
    simp only [isFresh, beq_iff_eq] at fresh
    rw [hasType_symbol_iff, bound, Expr.resolve, fresh]
    simp [Ty.isConcrete, View.type_eq_of_context bound concrete]
  | .record fields slot, fresh, known, type => by
    simp only [isFresh, Bool.and_eq_true, beq_iff_eq] at fresh
    rw [Expr.resolve, fresh.2]
    simp only [Ty.isConcrete, Bool.false_eq_true, ↓reduceIte]
    obtain ⟨fault, after, look, none⟩ | ⟨types, after, look, ⟨distinct, -, names, typed⟩, only⟩ :=
      answer_cases (@resolveFields_eq_ok_iff view fields [] fresh.1 known)
    · simp only [look, reduceCtorEq, false_iff]
      rintro (_ | _)
      case record types distinct names typed => exact none types ⟨distinct, by simp, names, typed⟩
    · have concrete := Ty.find?_isPending (fieldsConcrete typed known)
      simp only [look, Ty.ofFields, concrete, Option.getD_none, Except.ok.injEq]
      constructor
      · rintro rfl
        exact .record distinct names typed
      · rintro (_ | _)
        case record others distinct names typed =>
          rw [only others ⟨distinct, by simp, names, typed⟩]
  | .array elements slot, fresh, known, type => by
    simp only [isFresh, Bool.and_eq_true, beq_iff_eq] at fresh
    rw [hasType_array_iff, Expr.resolve, fresh.2]
    simp only [Ty.isConcrete, Bool.false_eq_true, ↓reduceIte]
    obtain ⟨fault, after, look, none⟩ | ⟨types, after, look, ⟨base, -, rfl, typed⟩, only⟩ :=
      answer_cases (@resolveElements_eq_ok_iff view elements none fresh.1 known)
    · simp only [look, reduceCtorEq, false_iff]
      rintro ⟨base, -, typed, rfl⟩
      exact none _ ⟨base, by simp, rfl, typed⟩
    · simp only [look]
      cases elements with
      | nil => simp [Ty.ofElements]
      | cons first rest =>
        have concrete := (typed first List.mem_cons_self).isConcrete
          (Context.knows_append.1 known).1
        simp only [List.length_cons, Ty.ofElements_replicate concrete, Except.ok.injEq]
        constructor
        · rintro rfl
          exact ⟨base, by simp, typed, rfl⟩
        · rintro ⟨other, -, typed, rfl⟩
          have same := only _ ⟨other, by simp, rfl, typed⟩
          simp only [List.length_cons, List.replicate_succ, List.cons.injEq] at same
          rw [same.1]
  | .unary op operand, fresh, known, type => by
    rw [hasType_unary_iff, Expr.resolve]
    obtain ⟨fault, after, look, none⟩ | ⟨found, after, look, typed, only⟩ :=
      answer_cases (@resolve_eq_ok_iff view operand fresh known)
    · simp only [look, reduceCtorEq, false_iff]
      exact fun typed => none _ typed.1
    · have concrete := Ty.isPending_of_isConcrete (typed.isConcrete known)
      simp only [look, UnaryOp.apply_eq_ok concrete]
      exact and_congr_left' ⟨fun same => same ▸ typed, fun typed => (only _ typed).symm⟩
  | .binary op left right, fresh, known, type => by
    simp only [isFresh, Bool.and_eq_true] at fresh
    obtain ⟨leftKnown, rightKnown⟩ := Context.knows_append.1 known
    rw [hasType_binary_iff, Expr.resolve]
    obtain ⟨fault, after, look, none⟩ | ⟨leftType, after, look, onLeft, onlyLeft⟩ :=
      answer_cases (@resolve_eq_ok_iff view left fresh.1 leftKnown)
    · simp only [look, reduceCtorEq, false_iff]
      rintro ⟨a, _, typed, -⟩
      exact none a typed
    simp only [look]
    obtain ⟨fault, after, look, none⟩ | ⟨rightType, after, look, onRight, onlyRight⟩ :=
      answer_cases (@resolve_eq_ok_iff view right fresh.2 rightKnown)
    · simp only [look, reduceCtorEq, false_iff]
      rintro ⟨_, b, -, typed, -⟩
      exact none b typed
    simp only [look, BinaryOp.apply_eq_ok
      (Ty.isPending_of_isConcrete (onLeft.isConcrete leftKnown))
      (Ty.isPending_of_isConcrete (onRight.isConcrete rightKnown))]
    constructor
    · exact fun result => ⟨leftType, rightType, onLeft, onRight, result⟩
    · rintro ⟨a, b, first, second, result⟩
      rwa [onlyLeft a first, onlyRight b second] at result
  | .index left position, fresh, known, type => by
    simp only [isFresh, Bool.and_eq_true] at fresh
    obtain ⟨leftKnown, positionKnown⟩ := Context.knows_append.1 known
    rw [hasType_index_iff, Expr.resolve]
    obtain ⟨fault, after, look, none⟩ | ⟨leftType, after, look, onLeft, onlyLeft⟩ :=
      answer_cases (@resolve_eq_ok_iff view left fresh.1 leftKnown)
    · simp only [look, reduceCtorEq, false_iff]
      rintro ⟨length, typed, -⟩
      exact none _ typed
    simp only [look, Ty.isPending_of_isConcrete (onLeft.isConcrete leftKnown), Bool.false_eq_true,
      ↓reduceIte]
    cases whole : leftType.element with
    | error fault =>
      simp only [reduceCtorEq, false_iff]
      rintro ⟨length, typed, -⟩
      simp [← onlyLeft _ typed, Ty.element] at whole
    | ok base =>
      obtain ⟨length, rfl⟩ := Ty.element_eq_ok.1 whole
      obtain ⟨fault, after, look, none⟩ | ⟨found, after, look, onPosition, only⟩ :=
        answer_cases (@resolve_eq_ok_iff view position fresh.2 positionKnown)
      · simp only [look, reduceCtorEq, false_iff]
        rintro ⟨_, -, typed⟩
        exact none _ typed
      simp only [look, Ty.atPosition_eq_ok
        (Ty.isPending_of_isConcrete (onPosition.isConcrete positionKnown))]
      constructor
      · rintro ⟨rfl, rfl⟩
        exact ⟨length, onLeft, onPosition⟩
      · rintro ⟨_, typed, number⟩
        have same := onlyLeft _ typed
        simp only [Ty.array.injEq] at same
        exact ⟨(only _ number).symm, same.1⟩
  | .member left field, fresh, known, type => by
    rw [hasType_member_iff, Expr.resolve]
    obtain ⟨fault, after, look, none⟩ | ⟨found, after, look, typed, only⟩ :=
      answer_cases (@resolve_eq_ok_iff view left fresh known)
    · simp only [look, reduceCtorEq, false_iff]
      rintro ⟨fields, typed, -⟩
      exact none _ typed
    · have concrete := Ty.isPending_of_isConcrete (typed.isConcrete known)
      simp only [look, Ty.atField_eq_ok concrete]
      exact exists_congr fun fields =>
        and_congr_left' ⟨fun same => same ▸ typed, fun typed => (only _ typed).symm⟩
  | .call callee arguments, fresh, known, type => by
    simp only [isFresh, Bool.and_eq_true] at fresh
    obtain ⟨calleeKnown, argumentsKnown⟩ := Context.knows_append.1 known
    rw [hasType_call_iff, Expr.resolve]
    obtain ⟨fault, after, look, none⟩ | ⟨calleeType, after, look, onCallee, onlyCallee⟩ :=
      answer_cases (@resolve_eq_ok_iff view callee fresh.1 calleeKnown)
    · simp only [look, reduceCtorEq, false_iff]
      rintro ⟨parameters, typed, -⟩
      exact none _ typed
    simp only [look, Ty.isPending_of_isConcrete (onCallee.isConcrete calleeKnown),
      Bool.false_eq_true, ↓reduceIte]
    cases whole : calleeType.callable arguments.length with
    | error fault =>
      simp only [reduceCtorEq, false_iff]
      rintro ⟨parameters, typed, each⟩
      have accepted : (Ty.function parameters type).callable arguments.length =
          .ok (parameters, type) := Ty.callable_eq_ok.2 ⟨rfl, by simpa using each.length_eq⟩
      rw [← onlyCallee _ typed, accepted] at whole
      simp at whole
    | ok signature =>
      obtain ⟨parameters, result⟩ := signature
      obtain ⟨rfl, count⟩ := Ty.callable_eq_ok.1 whole
      obtain ⟨fault, after, look, none⟩ | ⟨types, after, look, ⟨rfl, each⟩, only⟩ :=
        answer_cases (@resolveArguments_eq_ok_iff view parameters arguments count fresh.2
          argumentsKnown)
      · simp only [look, reduceCtorEq, false_iff]
        rintro ⟨others, typed, each⟩
        have same := onlyCallee _ typed
        simp only [Ty.function.injEq] at same
        exact none _ ⟨rfl, same.1 ▸ each⟩
      have concrete := onCallee.isConcrete calleeKnown
      rw [Ty.isConcrete, Bool.and_eq_true, Ty.areConcrete_iff] at concrete
      simp only [look, Ty.ofCall, Ty.find?_isPending concrete.1, Option.getD_none, Except.ok.injEq]
      constructor
      · rintro rfl
        exact ⟨parameters, onCallee, each⟩
      · rintro ⟨others, typed, -⟩
        have same := onlyCallee _ typed
        simp only [Ty.function.injEq] at same
        exact same.2.symm

theorem resolveFields_eq_ok_iff (view : View) : ∀ {fields : List (String × Expr)}
    {seen : List String}, areFieldsFresh fields = true →
    view.context.Knows (fieldSymbols fields) → ∀ {types : List (String × Ty)},
    (resolveFields view seen fields).1 = .ok types ↔
      (fields.map (·.1)).Nodup ∧ (∀ name ∈ fields.map (·.1), name ∉ seen) ∧
        types.map (·.1) = fields.map (·.1) ∧
        List.Forall₂ (HasType view.context) (fields.map (·.2)) (types.map (·.2))
  | [], seen, _, _, types => by
    cases types <;> simp [resolveFields]
  | (name, value) :: rest, seen, fresh, known, types => by
    simp only [areFieldsFresh, Bool.and_eq_true] at fresh
    obtain ⟨valueKnown, restKnown⟩ := Context.knows_append.1 known
    rw [resolveFields]
    split
    · rename_i repeated
      simp only [reduceCtorEq, false_iff]
      rintro ⟨-, unseen, -⟩
      exact unseen name (by simp) (by simpa using repeated)
    rename_i first
    obtain ⟨fault, after, look, none⟩ | ⟨type, after, look, typed, only⟩ :=
      answer_cases (@resolve_eq_ok_iff view value fresh.1 valueKnown)
    · simp only [look, reduceCtorEq, false_iff]
      rintro ⟨-, -, names, each⟩
      cases types with
      | nil => simp at names
      | cons head tail =>
        simp only [List.map_cons, List.forall₂_cons] at each
        exact none _ each.1
    have others := @resolveFields_eq_ok_iff view rest (name :: seen) fresh.2 restKnown
    simp only [look, exceptMap_eq_ok, others]
    constructor
    · rintro ⟨types, ⟨distinct, unseen, names, each⟩, rfl⟩
      have absent : name ∉ rest.map (·.1) := fun mem => unseen name mem List.mem_cons_self
      refine ⟨List.nodup_cons.2 ⟨absent, distinct⟩, ?_, by simp [names], .cons typed each⟩
      rintro other (_ | ⟨_, mem⟩)
      · simpa using first
      · exact fun before => unseen other mem (List.mem_cons_of_mem _ before)
    · rintro ⟨distinct, unseen, names, each⟩
      cases types with
      | nil => simp at names
      | cons head tail =>
        simp only [List.map_cons, List.cons.injEq, List.forall₂_cons, List.nodup_cons]
          at distinct unseen names each
        obtain ⟨rfl, names⟩ := names
        refine ⟨tail, ⟨distinct.2, ?_, names, each.2⟩, by rw [← only _ each.1]⟩
        intro other mem before
        rcases List.mem_cons.1 before with rfl | before
        · exact distinct.1 mem
        · exact unseen other (List.mem_cons_of_mem _ mem) before

theorem resolveElements_eq_ok_iff (view : View) : ∀ {elements : List Expr} {base : Option Ty},
    areFresh elements = true → view.context.Knows (allSymbols elements) → ∀ {types : List Ty},
    (resolveElements view base elements).1 = .ok types ↔
      ∃ type, (∀ expected ∈ base, expected = type) ∧ types = List.replicate elements.length type ∧
        ∀ element ∈ elements, HasType view.context element type
  | [], base, _, _, types => by
    simp only [resolveElements, Except.ok.injEq, List.length_nil, List.replicate_zero]
    constructor
    · rintro rfl
      exact ⟨base.getD .number, by cases base <;> simp, rfl, by simp⟩
    · rintro ⟨_, -, rfl, -⟩
      rfl
  | element :: rest, base, fresh, known, types => by
    simp only [areFresh, Bool.and_eq_true] at fresh
    obtain ⟨elementKnown, restKnown⟩ := Context.knows_append.1 known
    rw [resolveElements]
    obtain ⟨fault, after, look, none⟩ | ⟨found, after, look, typed, only⟩ :=
      answer_cases (@resolve_eq_ok_iff view element fresh.1 elementKnown)
    · simp only [look, reduceCtorEq, false_iff]
      rintro ⟨type, -, -, each⟩
      exact none type (each element List.mem_cons_self)
    have concrete := Ty.isPending_of_isConcrete (typed.isConcrete elementKnown)
    simp only [look]
    cases joined : Ty.join base found with
    | error fault =>
      simp only [reduceCtorEq, false_iff]
      rintro ⟨type, expected, -, each⟩
      have same := only type (each element List.mem_cons_self)
      rw [(Ty.join_eq_ok concrete).2 ⟨same ▸ expected, rfl⟩] at joined
      simp at joined
    | ok next =>
      obtain ⟨expected, rfl⟩ := (Ty.join_eq_ok concrete).1 joined
      simp only [exceptMap_eq_ok, @resolveElements_eq_ok_iff view rest (some found) fresh.2 restKnown]
      constructor
      · rintro ⟨types, ⟨type, same, rfl, each⟩, rfl⟩
        obtain rfl := same found rfl
        exact ⟨found, expected, by simp [List.replicate_succ],
          List.forall_mem_cons.2 ⟨typed, each⟩⟩
      · rintro ⟨type, -, rfl, each⟩
        obtain ⟨first, each⟩ := List.forall_mem_cons.1 each
        obtain rfl := only type first
        exact ⟨_, ⟨type, by simp, rfl, each⟩, by simp [List.replicate_succ]⟩

theorem resolveArguments_eq_ok_iff (view : View) : ∀ {parameters : List (String × Ty)}
    {arguments : List Expr}, arguments.length = parameters.length → areFresh arguments = true →
    view.context.Knows (allSymbols arguments) → ∀ {types : List Ty},
    (resolveArguments view parameters arguments).1 = .ok types ↔
      types = parameters.map (·.2) ∧
        List.Forall₂ (HasType view.context) arguments (parameters.map (·.2))
  | [], [], _, _, _, types => by
    cases types <;> simp [resolveArguments]
  | (name, parameter) :: parameters, argument :: rest, count, fresh, known, types => by
    simp only [areFresh, Bool.and_eq_true] at fresh
    obtain ⟨argumentKnown, restKnown⟩ := Context.knows_append.1 known
    rw [resolveArguments]
    simp only [List.map_cons, List.forall₂_cons]
    obtain ⟨fault, after, look, none⟩ | ⟨found, after, look, typed, only⟩ :=
      answer_cases (@resolve_eq_ok_iff view argument fresh.1 argumentKnown)
    · simp only [look, reduceCtorEq, false_iff]
      exact fun each => none _ each.2.1
    have concrete := Ty.isPending_of_isConcrete (typed.isConcrete argumentKnown)
    simp only [look]
    cases passed : found.passTo parameter with
    | error fault =>
      simp only [reduceCtorEq, false_iff]
      rintro ⟨-, first, -⟩
      rw [(Ty.passTo_eq_ok concrete).2 (only _ first).symm] at passed
      simp at passed
    | ok _ =>
      obtain rfl := (Ty.passTo_eq_ok concrete).1 passed
      simp only [exceptMap_eq_ok,
        @resolveArguments_eq_ok_iff view parameters rest (by simpa using count) fresh.2 restKnown]
      constructor
      · rintro ⟨types, ⟨rfl, each⟩, rfl⟩
        exact ⟨rfl, typed, each⟩
      · rintro ⟨rfl, -, each⟩
        exact ⟨_, ⟨rfl, each⟩, rfl⟩

end

end Expr

/-- Seen from any scope, a fresh expression whose names all have known types is given exactly the
type of the judgement. If the judgement has none for it, it is refused, and what it is given is
never a type that is still waited for. -/
theorem Scopes.resolve_eq_ok_iff_hasType {δ : Type} (scopes : Scopes δ) (id : ScopeId)
    (value : Expr) (fresh : value.isFresh = true)
    (known : (scopes.view id).context.Knows value.symbols) :
    (∀ type, (value.resolve (scopes.view id)).1 = .ok type ↔
        value.HasType (scopes.view id).context type) ∧
      ((¬ ∃ type, value.HasType (scopes.view id).context type) →
        ∃ cause, (value.resolve (scopes.view id)).1 = .error (.refused cause)) ∧
      ∀ type, (value.resolve (scopes.view id)).1 = .ok type → type.isConcrete = true := by
  have decides := @Expr.resolve_eq_ok_iff (scopes.view id) value fresh known
  refine ⟨fun _ => decides, fun untyped => ?_, fun _ found => (decides.1 found).isConcrete known⟩
  cases look : (value.resolve (scopes.view id)).1 with
  | ok type => exact absurd ⟨type, decides.1 look⟩ untyped
  | error fault =>
    have names : (scopes.view id).Allows (fun fault => ∃ cause, fault = .refused cause)
        value.symbols := by
      intro symbol mem
      obtain ⟨type, bound, concrete⟩ := known symbol mem
      simp [View.type_eq_of_context bound concrete]
    obtain ⟨cause, rfl⟩ := Expr.fails_resolve (fun cause _ => ⟨cause, rfl⟩) _ value names fault look
    exact ⟨cause, rfl⟩

/-- A loop in a file with a function. -/
def loopInFile : Scopes Empty :=
  ⟨[⟨none, .block, ⟨[("f", ⟨"f", .function [("x", .array .number 2)] .boolean, true, false⟩)]⟩,
      .empty⟩,
    ⟨some 0, .loop, ⟨[("n", ⟨"n", .number, false, false⟩)]⟩, .empty⟩]⟩

/-- The negated result of a call with an array literal. -/
def negatedCall : Expr :=
  .unary .not (.call (.symbol "f" .unresolved)
    [.array [.symbol "n" .unresolved, .number ⟨0⟩] .unresolved])

theorem negatedCall_hasType :
    negatedCall.isFresh = true ∧ (loopInFile.view 1).context.Knows negatedCall.symbols ∧
      (negatedCall.resolve (loopInFile.view 1)).1 = .ok .boolean ∧
      negatedCall.HasType (loopInFile.view 1).context .boolean := by
  have fresh : negatedCall.isFresh = true := by decide
  have known : (loopInFile.view 1).context.Knows negatedCall.symbols := by
    intro symbol mem
    obtain rfl | rfl : symbol = ("f", .unresolved) ∨ symbol = ("n", .unresolved) := by
      simpa [negatedCall, Expr.symbols, Expr.allSymbols] using mem
    · exact ⟨.function [("x", .array .number 2)] .boolean, by decide, by decide⟩
    · exact ⟨.number, by decide, by decide⟩
  have found : (negatedCall.resolve (loopInFile.view 1)).1 = .ok .boolean := by decide
  exact ⟨fresh, known, found,
    ((loopInFile.resolve_eq_ok_iff_hasType 1 negatedCall fresh known).1 .boolean).1 found⟩

end Hoist
