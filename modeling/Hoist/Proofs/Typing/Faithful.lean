import Hoist.Proofs.Typing.Looking

/-!
Expressions between two looks. One is faithful if every record and array in it whose slot is
filled has been found well typed at the type in the slot. An expression nobody has looked at is
faithful (`Expr.faithful_of_isFresh`), every look keeps it so, and a look that ends with a type
that is not pending leaves the expression settled at that type (`Expr.resolve_sound`).
-/
namespace Hoist

mutual

def Expr.Faithful : Expr → Prop
  | .number _ | .boolean _ | .string _ | .symbol _ _ => True
  | .record fields slot =>
    Expr.FieldsFaithful fields ∧ (slot.isConcrete = true → (Expr.record fields slot).Settled slot)
  | .array elements slot =>
    Expr.AllFaithful elements ∧ (slot.isConcrete = true → (Expr.array elements slot).Settled slot)
  | .unary _ operand => operand.Faithful
  | .binary _ left right => left.Faithful ∧ right.Faithful
  | .index left position => left.Faithful ∧ position.Faithful
  | .member left _ => left.Faithful
  | .call callee arguments => callee.Faithful ∧ Expr.AllFaithful arguments

def Expr.FieldsFaithful : List (String × Expr) → Prop
  | [] => True
  | (_, value) :: rest => value.Faithful ∧ Expr.FieldsFaithful rest

def Expr.AllFaithful : List Expr → Prop
  | [] => True
  | value :: rest => value.Faithful ∧ Expr.AllFaithful rest

end

mutual

/-- No slot has been filled. -/
def Expr.isFresh : Expr → Bool
  | .number _ | .boolean _ | .string _ => true
  | .symbol _ slot => slot == .unresolved
  | .record fields slot => Expr.areFieldsFresh fields && slot == .unresolved
  | .array elements slot => Expr.areFresh elements && slot == .unresolved
  | .unary _ operand => operand.isFresh
  | .binary _ left right => left.isFresh && right.isFresh
  | .index left position => left.isFresh && position.isFresh
  | .member left _ => left.isFresh
  | .call callee arguments => callee.isFresh && Expr.areFresh arguments

def Expr.areFieldsFresh : List (String × Expr) → Bool
  | [] => true
  | (_, value) :: rest => value.isFresh && Expr.areFieldsFresh rest

def Expr.areFresh : List Expr → Bool
  | [] => true
  | value :: rest => value.isFresh && Expr.areFresh rest

end

mutual

theorem Expr.faithful_of_isFresh : ∀ {value : Expr}, value.isFresh = true → value.Faithful
  | .number _, _ | .boolean _, _ | .string _, _ | .symbol _ _, _ => trivial
  | .record fields slot, fresh => by
    simp only [Expr.isFresh, Bool.and_eq_true, beq_iff_eq] at fresh
    exact ⟨Expr.fieldsFaithful_of_areFresh fresh.1, by simp [fresh.2, Ty.isConcrete]⟩
  | .array elements slot, fresh => by
    simp only [Expr.isFresh, Bool.and_eq_true, beq_iff_eq] at fresh
    exact ⟨Expr.allFaithful_of_areFresh fresh.1, by simp [fresh.2, Ty.isConcrete]⟩
  | .unary _ operand, fresh => @Expr.faithful_of_isFresh operand fresh
  | .binary _ left right, fresh | .index left right, fresh => by
    simp only [Expr.isFresh, Bool.and_eq_true] at fresh
    exact ⟨Expr.faithful_of_isFresh fresh.1, Expr.faithful_of_isFresh fresh.2⟩
  | .member left _, fresh => @Expr.faithful_of_isFresh left fresh
  | .call callee arguments, fresh => by
    simp only [Expr.isFresh, Bool.and_eq_true] at fresh
    exact ⟨Expr.faithful_of_isFresh fresh.1, Expr.allFaithful_of_areFresh fresh.2⟩

theorem Expr.fieldsFaithful_of_areFresh : ∀ {fields : List (String × Expr)},
    Expr.areFieldsFresh fields = true → Expr.FieldsFaithful fields
  | [], _ => trivial
  | (_, value) :: rest, fresh => by
    simp only [Expr.areFieldsFresh, Bool.and_eq_true] at fresh
    exact ⟨Expr.faithful_of_isFresh fresh.1, Expr.fieldsFaithful_of_areFresh fresh.2⟩

theorem Expr.allFaithful_of_areFresh : ∀ {values : List Expr},
    Expr.areFresh values = true → Expr.AllFaithful values
  | [], _ => trivial
  | value :: rest, fresh => by
    simp only [Expr.areFresh, Bool.and_eq_true] at fresh
    exact ⟨Expr.faithful_of_isFresh fresh.1, Expr.allFaithful_of_areFresh fresh.2⟩

end

/-! What a look makes of the parts of an expression. -/

/-- A list of expressions that is settled at these types. -/
def Expr.AllSettled (values : List Expr) (types : List Ty) : Prop :=
  ∃ typed : List Typed.Expr, (∀ value ∈ typed, value.WellTyped) ∧
    Typed.Expr.toExprs typed = values ∧ typed.map (·.type.toTy) = types

def Expr.FieldsSettled (fields : List (String × Expr)) (types : List (String × Ty)) : Prop :=
  ∃ typed : List (String × Typed.Expr), (∀ field ∈ typed, field.2.WellTyped) ∧
    Typed.Expr.toFields typed = fields ∧
    ConcreteTy.toFields (Typed.Expr.fieldTypes typed) = types

theorem Expr.AllSettled.cons {value : Expr} {type : Ty} {rest : List Expr} {types : List Ty}
    (head : value.Settled type) (tail : Expr.AllSettled rest types) :
    Expr.AllSettled (value :: rest) (type :: types) := by
  obtain ⟨typed, well, rfl, rfl⟩ := head
  obtain ⟨others, wells, rfl, rfl⟩ := tail
  exact ⟨typed :: others, by simpa using ⟨well, wells⟩, rfl, rfl⟩

theorem Expr.FieldsSettled.cons {name : String} {value : Expr} {type : Ty}
    {rest : List (String × Expr)} {types : List (String × Ty)}
    (head : value.Settled type) (tail : Expr.FieldsSettled rest types) :
    Expr.FieldsSettled ((name, value) :: rest) ((name, type) :: types) := by
  obtain ⟨typed, well, rfl, rfl⟩ := head
  obtain ⟨others, wells, rfl, rfl⟩ := tail
  refine ⟨(name, typed) :: others, ?_, rfl, rfl⟩
  intro field mem
  obtain rfl | mem := List.mem_cons.1 mem
  · exact well
  · exact wells field mem

theorem Expr.FieldsSettled.record {fields : List (String × Expr)} {types : List (String × Ty)}
    (settled : Expr.FieldsSettled fields types) (distinct : (fields.map (·.1)).Nodup) :
    (Expr.record fields (.record types)).Settled (.record types) := by
  obtain ⟨typed, wells, rfl, rfl⟩ := settled
  rw [Typed.Expr.toFields_eq_map, List.map_map] at distinct
  exact ⟨.record typed (.record (Typed.Expr.fieldTypes typed)), .record wells distinct, rfl, rfl⟩

theorem Expr.AllSettled.array {elements : List Expr} {base : Ty} {types : List Ty}
    (settled : Expr.AllSettled elements (base :: types)) (same : ∀ type ∈ types, type = base) :
    (Expr.array elements (.array base (types.length + 1))).Settled
      (.array base (types.length + 1)) := by
  obtain ⟨typed, wells, rfl, types_eq⟩ := settled
  cases typed with
  | nil => simp at types_eq
  | cons first rest =>
    simp only [List.map_cons, List.cons.injEq] at types_eq
    obtain ⟨rfl, rfl⟩ := types_eq
    have all : ∀ element ∈ first :: rest, element.type = first.type := by
      intro element mem
      obtain rfl | mem := List.mem_cons.1 mem
      · rfl
      · exact ConcreteTy.toTy_injective (same _ (List.mem_map_of_mem mem))
    refine ⟨_, .array (by simp) wells all, ?_, ?_⟩
    · simp [Typed.Expr.toExpr, ConcreteTy.toTy]
    · simp [Typed.Expr.type, ConcreteTy.toTy]

theorem Typed.UnaryRule.of_apply {op : UnaryOp} {operand : ConcreteTy} {type : Ty}
    (applied : op.apply operand.toTy = .ok type) :
    ∃ result : ConcreteTy, Typed.UnaryRule op operand result ∧ result.toTy = type := by
  simp only [UnaryOp.apply, ConcreteTy.isPending_toTy] at applied
  split at applied
  · contradiction
  · split at applied
    · rename_i same
      cases op with
      | plus =>
        obtain rfl := ConcreteTy.toTy_injective (b := .number) same
        exact ⟨.number, .plus, Except.ok.inj applied⟩
      | minus =>
        obtain rfl := ConcreteTy.toTy_injective (b := .number) same
        exact ⟨.number, .minus, Except.ok.inj applied⟩
      | not =>
        obtain rfl := ConcreteTy.toTy_injective (b := .boolean) same
        exact ⟨.boolean, .not, Except.ok.inj applied⟩
    · simp [Ty.mismatch] at applied

theorem Typed.BinaryRule.of_result? {op : BinaryOp} {left right : ConcreteTy} {type : Ty}
    (result : op.result? left.toTy right.toTy = some type) :
    ∃ concrete : ConcreteTy, Typed.BinaryRule op left right concrete ∧ concrete.toTy = type := by
  cases left <;> cases right <;> simp [ConcreteTy.toTy, BinaryOp.result?] at result
  · cases arithmetic : op.isArithmetic
    · refine ⟨.boolean, ?_, by simpa [arithmetic, ConcreteTy.toTy] using result⟩
      cases equality : op.isEquality
      · exact .ordering arithmetic equality
      · exact .equality equality (.inl rfl)
    · exact ⟨.number, .arithmetic arithmetic, by simpa [arithmetic, ConcreteTy.toTy] using result⟩
  · exact ⟨.boolean, .equality result.1 (.inr rfl), result.2⟩
  · obtain ⟨rfl, rfl⟩ := result
    exact ⟨.string _, .concatenation, rfl⟩

theorem Typed.BinaryRule.of_apply {op : BinaryOp} {left right : ConcreteTy} {type : Ty}
    (applied : op.apply left.toTy right.toTy = .ok type) :
    ∃ result : ConcreteTy, Typed.BinaryRule op left right result ∧ result.toTy = type := by
  simp only [BinaryOp.apply] at applied
  split at applied
  · rename_i found
    obtain rfl := Except.ok.inj applied
    exact of_result? found
  · simp [Ty.mismatch] at applied

/-! Looks at faithful expressions. -/

@[simp] theorem exceptMap_eq_ok {ε α β : Type} {outcome : Except ε α} {change : α → β} {b : β} :
    outcome.map change = .ok b ↔ ∃ a, outcome = .ok a ∧ change a = b :=
  map_eq_ok

/-- What comes of a look: the outcome, and the expression afterwards. -/
structure Expr.Looked (look : Except Fault Ty × Expr) : Prop where
  faithful : look.2.Faithful
  settled : ∀ type, look.1 = .ok type → type.isPending = true ∨ look.2.Settled type

structure Expr.FieldsLooked (seen : List String)
    (look : Except Fault (List (String × Ty)) × List (String × Expr)) : Prop where
  faithful : Expr.FieldsFaithful look.2
  distinct : ∀ types, look.1 = .ok types →
    (look.2.map (·.1)).Nodup ∧ ∀ name ∈ look.2.map (·.1), name ∉ seen
  settled : ∀ types, look.1 = .ok types →
    (∃ type ∈ types.map (·.2), type.isPending = true) ∨ Expr.FieldsSettled look.2 types

structure Expr.ElementsLooked (base : Option Ty) (look : Except Fault (List Ty) × List Expr) :
    Prop where
  faithful : Expr.AllFaithful look.2
  settled : ∀ types, look.1 = .ok types → (∃ type ∈ types, type.isPending = true) ∨
    Expr.AllSettled look.2 types ∧ ∀ expected ∈ base.or types.head?, ∀ type ∈ types,
      type = expected

structure Expr.ArgumentsLooked (parameters : List (String × Ty))
    (look : Except Fault (List Ty) × List Expr) : Prop where
  faithful : Expr.AllFaithful look.2
  settled : ∀ types, look.1 = .ok types → (∃ type ∈ types, type.isPending = true) ∨
    (parameters.length = look.2.length →
      Expr.AllSettled look.2 types ∧ types = parameters.map (·.2))

theorem Expr.Looked.of_settled {value : Expr} {type : Ty} (faithful : value.Faithful)
    (settled : value.Settled type) : Expr.Looked (.ok type, value) :=
  ⟨faithful, fun _ same => .inr (Except.ok.inj same ▸ settled)⟩

theorem Expr.Looked.of_error {value : Expr} {fault : Fault} (faithful : value.Faithful) :
    Expr.Looked (.error fault, value) :=
  ⟨faithful, fun _ impossible => by simp at impossible⟩

theorem Expr.Looked.of_pending {value : Expr} {type : Ty} (faithful : value.Faithful)
    (pending : type.isPending = true) : Expr.Looked (.ok type, value) :=
  ⟨faithful, fun _ same => .inl (Except.ok.inj same ▸ pending)⟩

theorem Expr.Looked.record {fields : List (String × Expr)} {types : List (String × Ty)}
    {slot : Ty} (looked : Expr.FieldsLooked [] (.ok types, fields))
    (empty : ¬ slot.isConcrete = true) :
    Expr.Looked (.ok (Ty.ofFields types),
      .record fields (if (Ty.ofFields types).isPending then slot else Ty.ofFields types)) := by
  obtain ⟨distinct, _⟩ := looked.distinct types rfl
  cases blocked : (types.map (·.2)).find? Ty.isPending with
  | some type =>
    have pending : type.isPending = true := by simpa using List.find?_some blocked
    simp only [Ty.ofFields, blocked, Option.getD_some, pending, ↓reduceIte]
    exact .of_pending ⟨looked.faithful, fun filled => absurd filled empty⟩ pending
  | none =>
    have settled : Expr.FieldsSettled fields types := by
      refine (looked.settled types rfl).resolve_left ?_
      rintro ⟨type, mem, pending⟩
      exact List.find?_eq_none.1 blocked type mem pending
    have whole := settled.record distinct
    simp only [Ty.ofFields, blocked, Option.getD_none,
      Ty.isPending_of_isConcrete whole.isConcrete, Bool.false_eq_true, ↓reduceIte]
    exact .of_settled ⟨looked.faithful, fun _ => whole⟩ whole

theorem Expr.Looked.array {elements : List Expr} {types : List Ty} {type slot : Ty}
    (looked : Expr.ElementsLooked none (.ok types, elements))
    (found : Ty.ofElements types = .ok type) (empty : ¬ slot.isConcrete = true) :
    Expr.Looked (.ok type, .array elements (if type.isPending then slot else type)) := by
  unfold Ty.ofElements at found
  cases blocked : types.find? Ty.isPending with
  | some other =>
    simp only [blocked, Except.ok.injEq] at found
    subst found
    have pending : other.isPending = true := by simpa using List.find?_some blocked
    simp only [pending, ↓reduceIte]
    exact .of_pending ⟨looked.faithful, fun filled => absurd filled empty⟩ pending
  | none =>
    obtain ⟨settled, same⟩ := (looked.settled types rfl).resolve_left (by
      rintro ⟨other, mem, pending⟩
      exact List.find?_eq_none.1 blocked other mem pending)
    cases types with
    | nil => simp at found
    | cons base rest =>
      simp only [blocked, List.length_cons, Except.ok.injEq] at found
      have whole := settled.array fun other mem => same base (by simp) other (by simp [mem])
      rw [found] at whole
      simp only [Ty.isPending_of_isConcrete whole.isConcrete, Bool.false_eq_true, ↓reduceIte]
      exact .of_settled ⟨looked.faithful, fun _ => whole⟩ whole

theorem Expr.Looked.unary {op : UnaryOp} {operand : Expr} {type : Ty}
    (looked : Expr.Looked (.ok type, operand)) :
    Expr.Looked (op.apply type, .unary op operand) := by
  refine ⟨looked.faithful, fun result applied => ?_⟩
  obtain pending | ⟨typed, well, rfl, rfl⟩ := looked.settled type rfl
  · simp only [UnaryOp.apply, pending, ↓reduceIte, Except.ok.injEq] at applied
    exact .inl (applied ▸ pending)
  · obtain ⟨concrete, rule, rfl⟩ := Typed.UnaryRule.of_apply applied
    exact .inr ⟨_, .unary well rule, rfl, rfl⟩

theorem BinaryOp.apply_pending {op : BinaryOp} {left right type : Ty}
    (pending : left.isPending = true ∨ right.isPending = true)
    (applied : op.apply left right = .ok type) : type.isPending = true := by
  have unknown : op.result? left right = none := by
    obtain pending | pending := pending
    · cases left <;> simp_all [Ty.isPending, Ty.pendingOn, BinaryOp.result?]
    · cases right <;> simp_all [Ty.isPending, Ty.pendingOn, BinaryOp.result?]
  simp only [BinaryOp.apply, unknown] at applied
  split at applied
  · simp_all
  · split at applied
    · simp_all
    · simp_all

theorem Expr.Looked.binary {op : BinaryOp} {left right : Expr} {leftType rightType : Ty}
    (onLeft : Expr.Looked (.ok leftType, left)) (onRight : Expr.Looked (.ok rightType, right)) :
    Expr.Looked (op.apply leftType rightType, .binary op left right) := by
  refine ⟨⟨onLeft.faithful, onRight.faithful⟩, fun result applied => ?_⟩
  obtain pending | ⟨typedLeft, wellLeft, rfl, rfl⟩ := onLeft.settled leftType rfl
  · exact .inl (BinaryOp.apply_pending (.inl pending) applied)
  · obtain pending | ⟨typedRight, wellRight, rfl, rfl⟩ := onRight.settled rightType rfl
    · exact .inl (BinaryOp.apply_pending (.inr pending) applied)
    · obtain ⟨concrete, rule, rfl⟩ := Typed.BinaryRule.of_apply applied
      exact .inr ⟨_, .binary wellLeft wellRight rule, rfl, rfl⟩

theorem ConcreteTy.of_element {left : ConcreteTy} {base : Ty}
    (found : left.toTy.element = .ok base) :
    ∃ concrete length, left = .array concrete length ∧ concrete.toTy = base := by
  cases left <;> simp [ConcreteTy.toTy, Ty.element, Ty.mismatch] at found
  exact ⟨_, _, rfl, found⟩

theorem ConcreteTy.of_atField {left : ConcreteTy} {field : String} {type : Ty}
    (found : left.toTy.atField field = .ok type) :
    ∃ fields concrete, left = .record fields ∧ Table.first? field fields = some concrete ∧
      concrete.toTy = type := by
  cases left with
  | record fields =>
    simp only [ConcreteTy.toTy, Ty.atField, Ty.isPending, Ty.pendingOn, Option.isSome_none,
      Bool.false_eq_true, ↓reduceIte, ConcreteTy.first?_toFields] at found
    cases present : Table.first? field fields with
    | none => simp [present] at found
    | some concrete => exact ⟨fields, concrete, rfl, present, by simpa [present] using found⟩
  | _ => simp [ConcreteTy.toTy, Ty.atField, Ty.isPending, Ty.pendingOn, Ty.mismatch] at found

theorem ConcreteTy.of_callable {callee : ConcreteTy} {count : Nat}
    {parameters : List (String × Ty)} {result : Ty}
    (found : callee.toTy.callable count = .ok (parameters, result)) :
    ∃ concrete type, callee = .function concrete type ∧ ConcreteTy.toFields concrete = parameters ∧
      type.toTy = result ∧ parameters.length = count := by
  cases callee with
  | function concrete type =>
    simp only [ConcreteTy.toTy, Ty.callable] at found
    split at found
    · simp at found
    · split at found
      · simp at found
      · obtain ⟨rfl, rfl⟩ : ConcreteTy.toFields concrete = parameters ∧ type.toTy = result := by
          simpa using found
        exact ⟨concrete, type, rfl, rfl, rfl, by omega⟩
  | _ => simp [ConcreteTy.toTy, Ty.callable, Ty.mismatch] at found

theorem Expr.Looked.index {left position : Expr} {leftType base positionType : Ty}
    (onLeft : Expr.Looked (.ok leftType, left)) (known : ¬ leftType.isPending = true)
    (element : leftType.element = .ok base)
    (onPosition : Expr.Looked (.ok positionType, position)) :
    Expr.Looked (base.atPosition positionType, .index left position) := by
  refine ⟨⟨onLeft.faithful, onPosition.faithful⟩, fun result found => ?_⟩
  obtain ⟨typedLeft, wellLeft, rfl, rfl⟩ := (onLeft.settled leftType rfl).resolve_left known
  obtain ⟨concrete, length, isArray, rfl⟩ := ConcreteTy.of_element element
  unfold Ty.atPosition at found
  obtain pending | ⟨typedPosition, wellPosition, rfl, rfl⟩ := onPosition.settled positionType rfl
  · simp only [pending, ↓reduceIte, Except.ok.injEq] at found
    exact .inl (found ▸ pending)
  · simp only [ConcreteTy.isPending_toTy, Bool.false_eq_true, ↓reduceIte] at found
    split at found
    · rename_i number
      obtain rfl := Except.ok.inj found
      have number := ConcreteTy.toTy_injective (b := .number) number
      exact .inr ⟨_, .index wellLeft wellPosition isArray number, rfl, rfl⟩
    · simp [Ty.mismatch] at found

theorem Expr.Looked.member {left : Expr} {field : String} {type : Ty}
    (looked : Expr.Looked (.ok type, left)) :
    Expr.Looked (type.atField field, .member left field) := by
  refine ⟨looked.faithful, fun result found => ?_⟩
  obtain pending | ⟨typed, well, rfl, rfl⟩ := looked.settled type rfl
  · simp only [Ty.atField, pending, ↓reduceIte, Except.ok.injEq] at found
    exact .inl (found ▸ pending)
  · obtain ⟨fields, concrete, isRecord, present, rfl⟩ := ConcreteTy.of_atField found
    exact .inr ⟨_, .member well isRecord present, rfl, rfl⟩

theorem Expr.Looked.call {callee : Expr} {arguments : List Expr} {calleeType result : Ty}
    {parameters : List (String × Ty)} {types : List Ty} {count : Nat}
    (onCallee : Expr.Looked (.ok calleeType, callee)) (known : ¬ calleeType.isPending = true)
    (callable : calleeType.callable count = .ok (parameters, result))
    (onArguments : Expr.ArgumentsLooked parameters (.ok types, arguments))
    (count_eq : count = arguments.length) :
    Expr.Looked (.ok (Ty.ofCall types result), .call callee arguments) := by
  obtain ⟨typedCallee, wellCallee, rfl, rfl⟩ := (onCallee.settled calleeType rfl).resolve_left known
  obtain ⟨concrete, type, isFunction, rfl, rfl, enough⟩ := ConcreteTy.of_callable callable
  have faithful : (Expr.call typedCallee.toExpr arguments).Faithful :=
    ⟨onCallee.faithful, onArguments.faithful⟩
  cases blocked : types.find? Ty.isPending with
  | some other =>
    have pending : other.isPending = true := by simpa using List.find?_some blocked
    simp only [Ty.ofCall, blocked, Option.getD_some]
    exact .of_pending faithful pending
  | none =>
    obtain ⟨⟨typed, wells, rfl, types_eq⟩, passed⟩ := (onArguments.settled types rfl).resolve_left
      (by
        rintro ⟨other, mem, pending⟩
        exact List.find?_eq_none.1 blocked other mem pending)
      (enough.trans count_eq)
    simp only [Ty.ofCall, blocked, Option.getD_none]
    refine .of_settled faithful ⟨_, .call wellCallee wells isFunction ?_, rfl, rfl⟩
    rw [← types_eq, ConcreteTy.toFields_eq_map, List.map_map] at passed
    have injective : Function.Injective ConcreteTy.toTy := fun _ _ => ConcreteTy.toTy_injective
    apply injective.list_map
    simpa [List.map_map, Function.comp_def] using passed

theorem Expr.resolveArguments_length (view : View) (parameters : List (String × Ty))
    (arguments : List Expr) :
    (Expr.resolveArguments view parameters arguments).2.length = arguments.length := by
  induction arguments generalizing parameters with
  | nil => simp [Expr.resolveArguments]
  | cons argument rest ih =>
    cases parameters with
    | nil => rfl
    | cons parameter parameters =>
      simp only [Expr.resolveArguments]
      split
      · rfl
      · split
        · rfl
        · simp [ih]

mutual

/-- A look keeps a faithful expression faithful, and settles it if nothing is pending. -/
theorem Expr.resolve_sound (view : View) : ∀ {value : Expr}, value.Faithful →
    Expr.Looked (value.resolve view)
  | .number value, _ => .of_settled trivial ⟨.number value, .number, rfl, rfl⟩
  | .boolean value, _ => .of_settled trivial ⟨.boolean value, .boolean, rfl, rfl⟩
  | .string value, _ => .of_settled trivial ⟨.string value, .string, rfl, rfl⟩
  | .symbol name slot, _ => by
    simp only [Expr.resolve]
    split
    · rename_i filled
      obtain ⟨concrete, rfl⟩ := Ty.isConcrete_iff.1 filled
      exact .of_settled trivial ⟨.symbol name concrete, .symbol, rfl, rfl⟩
    · split
      · exact .of_error trivial
      · rename_i type found
        cases known : type.isConcrete
        · refine .of_pending trivial ?_
          unfold View.type at found
          split at found <;> simp at found
          · split at found <;> subst found <;> simp_all [Ty.isPending, Ty.pendingOn]
          · subst found
            simp [Ty.isPending, Ty.pendingOn]
        · obtain ⟨concrete, rfl⟩ := Ty.isConcrete_iff.1 known
          exact .of_settled trivial ⟨.symbol name concrete, .symbol, by simp [Typed.Expr.toExpr],
            rfl⟩
  | .record fields slot, faithful => by
    have inner := Expr.resolveFields_sound view [] faithful.1
    simp only [Expr.resolve]
    split
    · rename_i filled
      exact .of_settled faithful (faithful.2 filled)
    · rename_i empty
      split
      · rename_i failed
        rw [failed] at inner
        exact .of_error ⟨inner.faithful, fun filled => absurd filled empty⟩
      · rename_i found
        rw [found] at inner
        exact .record inner empty
  | .array elements slot, faithful => by
    have inner := Expr.resolveElements_sound view none faithful.1
    simp only [Expr.resolve]
    split
    · rename_i filled
      exact .of_settled faithful (faithful.2 filled)
    · rename_i empty
      split
      · rename_i failed
        rw [failed] at inner
        exact .of_error ⟨inner.faithful, fun filled => absurd filled empty⟩
      · rename_i found
        rw [found] at inner
        split
        · exact .of_error ⟨inner.faithful, fun filled => absurd filled empty⟩
        · rename_i type whole
          exact .array inner whole empty
  | .unary op operand, faithful => by
    have inner := @Expr.resolve_sound view operand faithful
    simp only [Expr.resolve]
    split
    · rename_i failed
      rw [failed] at inner
      exact .of_error inner.faithful
    · rename_i found
      rw [found] at inner
      exact inner.unary
  | .binary op left right, faithful => by
    have onLeft := Expr.resolve_sound view faithful.1
    have onRight := Expr.resolve_sound view faithful.2
    simp only [Expr.resolve]
    split
    · rename_i failed
      rw [failed] at onLeft
      exact .of_error ⟨onLeft.faithful, faithful.2⟩
    · rename_i found
      rw [found] at onLeft
      split
      · rename_i failed
        rw [failed] at onRight
        exact .of_error ⟨onLeft.faithful, onRight.faithful⟩
      · rename_i found
        rw [found] at onRight
        exact onLeft.binary onRight
  | .index left position, faithful => by
    have onLeft := Expr.resolve_sound view faithful.1
    have onPosition := Expr.resolve_sound view faithful.2
    simp only [Expr.resolve]
    split
    · rename_i failed
      rw [failed] at onLeft
      exact .of_error ⟨onLeft.faithful, faithful.2⟩
    · rename_i found
      rw [found] at onLeft
      split
      · rename_i pending
        exact .of_pending ⟨onLeft.faithful, faithful.2⟩ pending
      · rename_i known
        split
        · exact .of_error ⟨onLeft.faithful, faithful.2⟩
        · rename_i element
          split
          · rename_i failed
            rw [failed] at onPosition
            exact .of_error ⟨onLeft.faithful, onPosition.faithful⟩
          · rename_i found
            rw [found] at onPosition
            exact onLeft.index known element onPosition
  | .member left field, faithful => by
    have inner := @Expr.resolve_sound view left faithful
    simp only [Expr.resolve]
    split
    · rename_i failed
      rw [failed] at inner
      exact .of_error inner.faithful
    · rename_i found
      rw [found] at inner
      exact inner.member
  | .call callee arguments, faithful => by
    have onCallee := Expr.resolve_sound view faithful.1
    simp only [Expr.resolve]
    split
    · rename_i failed
      rw [failed] at onCallee
      exact .of_error ⟨onCallee.faithful, faithful.2⟩
    · rename_i found
      rw [found] at onCallee
      split
      · rename_i pending
        exact .of_pending ⟨onCallee.faithful, faithful.2⟩ pending
      · rename_i known
        split
        · exact .of_error ⟨onCallee.faithful, faithful.2⟩
        · rename_i parameters result callable
          have onArguments := Expr.resolveArguments_sound view parameters faithful.2
          have count := Expr.resolveArguments_length view parameters arguments
          split
          · rename_i failed
            rw [failed] at onArguments
            exact .of_error ⟨onCallee.faithful, onArguments.faithful⟩
          · rename_i found
            rw [found] at onArguments count
            exact onCallee.call known callable onArguments count.symm

theorem Expr.resolveFields_sound (view : View) : ∀ (seen : List String)
    {fields : List (String × Expr)}, Expr.FieldsFaithful fields →
    Expr.FieldsLooked seen (Expr.resolveFields view seen fields)
  | _, [], _ =>
    ⟨trivial, fun _ _ => by simp [Expr.resolveFields], fun types found => .inr (by
      obtain rfl := Except.ok.inj found
      exact ⟨[], by simp, rfl, rfl⟩)⟩
  | seen, (name, value) :: rest, faithful => by
    have onValue := Expr.resolve_sound view faithful.1
    have onRest := Expr.resolveFields_sound view (name :: seen) faithful.2
    simp only [Expr.resolveFields]
    split
    · exact ⟨faithful, fun _ impossible => by simp at impossible,
        fun _ impossible => by simp at impossible⟩
    · rename_i unseen
      split
      · rename_i failed
        rw [failed] at onValue
        exact ⟨⟨onValue.faithful, faithful.2⟩, fun _ impossible => by simp at impossible,
          fun _ impossible => by simp at impossible⟩
      · rename_i type value' found
        rw [found] at onValue
        refine ⟨⟨onValue.faithful, onRest.faithful⟩, fun types same => ?_, fun types same => ?_⟩
        · obtain ⟨others, onOthers, rfl⟩ := exceptMap_eq_ok.1 same
          obtain ⟨distinct, fresh⟩ := onRest.distinct others onOthers
          simp only [List.map_cons, List.nodup_cons, List.mem_cons, forall_eq_or_imp]
          refine ⟨⟨fun mem => fresh name mem (by simp), distinct⟩, by simpa using unseen, ?_⟩
          intro other mem before
          exact fresh other mem (by simp [before])
        · obtain ⟨others, onOthers, rfl⟩ := exceptMap_eq_ok.1 same
          obtain pending | settled := onValue.settled type rfl
          · exact .inl ⟨type, by simp, pending⟩
          · obtain ⟨other, mem, pending⟩ | tail := onRest.settled others onOthers
            · exact .inl ⟨other, by simpa using .inr (by simpa using mem), pending⟩
            · exact .inr (.cons settled tail)

theorem Expr.resolveElements_sound (view : View) : ∀ (base : Option Ty) {elements : List Expr},
    Expr.AllFaithful elements →
    Expr.ElementsLooked base (Expr.resolveElements view base elements)
  | _, [], _ => ⟨trivial, fun types found => .inr (by
      obtain rfl := Except.ok.inj found
      exact ⟨⟨[], by simp, rfl, rfl⟩, by simp⟩)⟩
  | base, element :: rest, faithful => by
    have onElement := Expr.resolve_sound view faithful.1
    simp only [Expr.resolveElements]
    split
    · rename_i failed
      rw [failed] at onElement
      exact ⟨⟨onElement.faithful, faithful.2⟩, fun _ impossible => by simp at impossible⟩
    · rename_i type element' found
      rw [found] at onElement
      split
      · exact ⟨⟨onElement.faithful, faithful.2⟩, fun _ impossible => by simp at impossible⟩
      · rename_i base' joined
        have onRest := Expr.resolveElements_sound view base' faithful.2
        refine ⟨⟨onElement.faithful, onRest.faithful⟩, fun types same => ?_⟩
        obtain ⟨others, onOthers, rfl⟩ := exceptMap_eq_ok.1 same
        obtain pending | settled := onElement.settled type rfl
        · exact .inl ⟨type, by simp, pending⟩
        · obtain ⟨other, mem, pending⟩ | ⟨tail, agree⟩ := onRest.settled others onOthers
          · exact .inl ⟨other, by simp [mem], pending⟩
          · refine .inr ⟨.cons settled tail, ?_⟩
            have joined : base' = some type ∧ base.or (some type) = some type := by
              simp only [Ty.join, Ty.isPending_of_isConcrete settled.isConcrete,
                Bool.false_eq_true, ↓reduceIte] at joined
              cases base with
              | none => simp_all
              | some expected =>
                simp only at joined
                split at joined <;> simp_all
            intro expected mem other among
            simp only [List.head?_cons, joined.2, Option.mem_def, Option.some.injEq] at mem
            subst mem
            obtain rfl | among := List.mem_cons.1 among
            · rfl
            · exact agree type (by simp [joined.1]) other among

theorem Expr.resolveArguments_sound (view : View) : ∀ (parameters : List (String × Ty))
    {arguments : List Expr}, Expr.AllFaithful arguments →
    Expr.ArgumentsLooked parameters (Expr.resolveArguments view parameters arguments)
  | parameters, [], _ => ⟨trivial, fun types found => .inr (by
      obtain rfl := Except.ok.inj found
      intro count
      obtain rfl : parameters = [] := by simpa [Expr.resolveArguments] using count
      exact ⟨⟨[], by simp, rfl, rfl⟩, rfl⟩)⟩
  | [], argument :: rest, faithful =>
    ⟨faithful, fun types found => .inr (by
      intro count
      simp [Expr.resolveArguments] at count)⟩
  | (_, parameter) :: parameters, argument :: rest, faithful => by
    have onArgument := Expr.resolve_sound view faithful.1
    have onRest := Expr.resolveArguments_sound view parameters faithful.2
    simp only [Expr.resolveArguments]
    split
    · rename_i failed
      rw [failed] at onArgument
      exact ⟨⟨onArgument.faithful, faithful.2⟩, fun _ impossible => by simp at impossible⟩
    · rename_i type argument' found
      rw [found] at onArgument
      split
      · exact ⟨⟨onArgument.faithful, faithful.2⟩, fun _ impossible => by simp at impossible⟩
      · rename_i passed
        refine ⟨⟨onArgument.faithful, onRest.faithful⟩, fun types same => ?_⟩
        obtain ⟨others, onOthers, rfl⟩ := exceptMap_eq_ok.1 same
        obtain pending | settled := onArgument.settled type rfl
        · exact .inl ⟨type, by simp, pending⟩
        · obtain ⟨other, mem, pending⟩ | tail := onRest.settled others onOthers
          · exact .inl ⟨other, by simp [mem], pending⟩
          · refine .inr fun count => ?_
            obtain ⟨tail, rfl⟩ := tail (by simpa using count)
            have : type = parameter := by
              simp only [Ty.passTo, Ty.isPending_of_isConcrete settled.isConcrete,
                Bool.false_or, decide_eq_true_eq] at passed
              by_contra differs
              simp [differs, Ty.mismatch] at passed
            exact ⟨.cons settled tail, by simp [this]⟩

end

end Hoist
