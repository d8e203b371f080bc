import Hoist.Proofs.Typing.WellTyped

/-!
Reading types and expressions off their plain forms. A type can be read exactly if it is concrete
(`ofTy_eq_ok`, `isConcrete_iff`), an expression that has been read is the one it was read off
(`toExpr_ofExpr`), and one that is well typed can be read again (`WellTyped.ofExpr_toExpr`).

An expression is settled at a type when it is the plain form of a well-typed one of that type.
-/
namespace Hoist

section Outcomes

variable {ε α β : Type}

@[simp] theorem bind_eq_ok {first : Except ε α} {next : α → Except ε β} {b : β} :
    (first >>= next) = .ok b ↔ ∃ a, first = .ok a ∧ next a = .ok b := by
  cases first <;> simp [bind, Except.bind]

@[simp] theorem pure_eq_ok {a b : α} : (pure a : Except ε α) = .ok b ↔ a = b := by
  simp [pure, Except.pure]

@[simp] theorem throw_ne_ok {error : ε} {a : α} : (throw error : Except ε α) ≠ .ok a := by
  simp [throw, throwThe, MonadExceptOf.throw]

@[simp] theorem map_eq_ok {outcome : Except ε α} {change : α → β} {b : β} :
    change <$> outcome = .ok b ↔ ∃ a, outcome = .ok a ∧ change a = b := by
  cases outcome <;> simp [Functor.map, Except.map]

end Outcomes

namespace ConcreteTy

mutual

theorem toTy_ofTy : ∀ {type : Ty} {concrete : ConcreteTy}, ofTy type = .ok concrete →
    concrete.toTy = type
  | .number, _, read | .boolean, _, read | .string _, _, read | .void, _, read
  | .named _, _, read => by simp [ofTy] at read; subst read; rfl
  | .array base length, _, read => by
    simp only [ofTy, bind_eq_ok, pure_eq_ok] at read
    obtain ⟨base', hb, rfl⟩ := read
    rw [toTy, toTy_ofTy hb]
  | .record fields, _, read => by
    simp only [ofTy, bind_eq_ok, pure_eq_ok] at read
    obtain ⟨fields', hf, rfl⟩ := read
    rw [toTy, toFields_ofFields hf]
  | .function parameters result, _, read => by
    simp only [ofTy, bind_eq_ok, pure_eq_ok] at read
    obtain ⟨parameters', hp, result', hr, rfl⟩ := read
    rw [toTy, toFields_ofFields hp, toTy_ofTy hr]
  | .unresolved, _, read | .unannotated, _, read | .pending _, _, read => by simp [ofTy] at read

theorem toFields_ofFields : ∀ {fields : List (String × Ty)} {concrete : List (String × ConcreteTy)},
    ofFields fields = .ok concrete → toFields concrete = fields
  | [], _, read => by simp [ofFields] at read; subst read; rfl
  | (name, type) :: rest, _, read => by
    simp only [ofFields, bind_eq_ok, pure_eq_ok] at read
    obtain ⟨type', ht, rest', hr, rfl⟩ := read
    rw [toFields, toTy_ofTy ht, toFields_ofFields hr]

end

theorem ofTy_eq_ok {type : Ty} {concrete : ConcreteTy} :
    ofTy type = .ok concrete ↔ type = concrete.toTy :=
  ⟨fun read => (toTy_ofTy read).symm, fun same => same ▸ ofTy_toTy concrete⟩

theorem ofFields_eq_ok {fields : List (String × Ty)} {concrete : List (String × ConcreteTy)} :
    ofFields fields = .ok concrete ↔ fields = toFields concrete :=
  ⟨fun read => (toFields_ofFields read).symm, fun same => same ▸ ofFields_toFields concrete⟩

mutual

@[simp] theorem isConcrete_toTy : ∀ type : ConcreteTy, type.toTy.isConcrete = true
  | .number | .boolean | .string _ | .void | .named _ => rfl
  | .array base _ => by simp [toTy, Ty.isConcrete, isConcrete_toTy base]
  | .record fields => by simp [toTy, Ty.isConcrete, areConcrete_toFields fields]
  | .function parameters result => by
    simp [toTy, Ty.isConcrete, areConcrete_toFields parameters, isConcrete_toTy result]

@[simp] theorem areConcrete_toFields : ∀ fields : List (String × ConcreteTy),
    Ty.areConcrete (toFields fields) = true
  | [] => rfl
  | (_, type) :: rest => by
    simp [toFields, Ty.areConcrete, isConcrete_toTy type, areConcrete_toFields rest]

end

mutual

theorem exists_toTy : ∀ {type : Ty}, type.isConcrete = true → ∃ concrete, type = toTy concrete
  | .number, _ => ⟨number, rfl⟩
  | .boolean, _ => ⟨boolean, rfl⟩
  | .string length, _ => ⟨string length, rfl⟩
  | .void, _ => ⟨void, rfl⟩
  | .named name, _ => ⟨named name, rfl⟩
  | .array base length, concrete => by
    obtain ⟨base', rfl⟩ := @exists_toTy base (by simpa [Ty.isConcrete] using concrete)
    exact ⟨array base' length, rfl⟩
  | .record fields, concrete => by
    obtain ⟨fields', rfl⟩ :=
      @exists_toFields fields (by simpa [Ty.isConcrete] using concrete)
    exact ⟨record fields', rfl⟩
  | .function parameters result, concrete => by
    simp only [Ty.isConcrete, Bool.and_eq_true] at concrete
    obtain ⟨parameters', rfl⟩ := exists_toFields concrete.1
    obtain ⟨result', rfl⟩ := exists_toTy concrete.2
    exact ⟨function parameters' result', rfl⟩

theorem exists_toFields : ∀ {fields : List (String × Ty)}, Ty.areConcrete fields = true →
    ∃ concrete, fields = toFields concrete
  | [], _ => ⟨[], rfl⟩
  | (name, type) :: rest, concrete => by
    simp only [Ty.areConcrete, Bool.and_eq_true] at concrete
    obtain ⟨type', rfl⟩ := exists_toTy concrete.1
    obtain ⟨rest', rfl⟩ := exists_toFields concrete.2
    exact ⟨(name, type') :: rest', rfl⟩

end

end ConcreteTy

theorem Ty.isConcrete_iff {type : Ty} :
    type.isConcrete = true ↔ ∃ concrete : ConcreteTy, type = concrete.toTy :=
  ⟨ConcreteTy.exists_toTy, fun ⟨concrete, same⟩ => same ▸ concrete.isConcrete_toTy⟩

theorem ConcreteTy.toFields_eq_map (fields : List (String × ConcreteTy)) :
    toFields fields = fields.map fun field => (field.1, field.2.toTy) := by
  induction fields with
  | nil => rfl
  | cons field rest ih => rw [toFields, ih, List.map_cons]

namespace Typed

theorem UnaryRule.unaryType_eq {op : UnaryOp} {operand type : ConcreteTy}
    (rule : UnaryRule op operand type) : Expr.unaryType op = type := by
  cases rule <;> rfl

theorem BinaryRule.binaryType_eq {op : BinaryOp} {left right type : ConcreteTy}
    (rule : BinaryRule op left right type) : Expr.binaryType op left right = type := by
  cases rule with
  | arithmetic arithmetic => simp [Expr.binaryType, arithmetic]
  | concatenation => rfl
  | equality equality operand =>
    have : op.isArithmetic = false := by
      cases op <;> simp_all [BinaryOp.isEquality, BinaryOp.isArithmetic]
    obtain rfl | rfl := operand <;> simp [Expr.binaryType, this]
  | ordering arithmetic _ => simp [Expr.binaryType, arithmetic]

namespace Expr

theorem toExprs_eq_map (values : List Expr) : toExprs values = values.map toExpr := by
  induction values with
  | nil => rfl
  | cons value rest ih => rw [toExprs, ih, List.map_cons]

theorem toFields_eq_map (fields : List (String × Expr)) :
    toFields fields = fields.map fun field => (field.1, field.2.toExpr) := by
  induction fields with
  | nil => rfl
  | cons field rest ih => rw [toFields, ih, List.map_cons]

mutual

theorem toExpr_ofExpr : ∀ {plain : Hoist.Expr} {typed : Expr}, ofExpr plain = .ok typed →
    typed.toExpr = plain
  | .number _, _, read | .boolean _, _, read | .string _, _, read => by
    simp [ofExpr] at read; subst read; rfl
  | .symbol name slot, _, read => by
    simp only [ofExpr, bind_eq_ok, pure_eq_ok] at read
    obtain ⟨type, ht, rfl⟩ := read
    rw [toExpr, ConcreteTy.toTy_ofTy ht]
  | .record fields slot, _, read => by
    simp only [ofExpr, bind_eq_ok, pure_eq_ok] at read
    obtain ⟨fields', hf, type, ht, rfl⟩ := read
    rw [toExpr, toFields_ofFields hf, ConcreteTy.toTy_ofTy ht]
  | .array elements slot, _, read => by
    simp only [ofExpr, bind_eq_ok, pure_eq_ok] at read
    obtain ⟨elements', he, type, ht, rfl⟩ := read
    rw [toExpr, toExprs_ofExprs he, ConcreteTy.toTy_ofTy ht]
  | .unary op operand, _, read => by
    simp only [ofExpr, bind_eq_ok, pure_eq_ok] at read
    obtain ⟨operand', ho, rfl⟩ := read
    rw [toExpr, toExpr_ofExpr ho]
  | .binary op left right, _, read => by
    simp only [ofExpr, bind_eq_ok, pure_eq_ok] at read
    obtain ⟨left', hl, right', hr, rfl⟩ := read
    rw [toExpr, toExpr_ofExpr hl, toExpr_ofExpr hr]
  | .index left position, _, read => by
    simp only [ofExpr, bind_eq_ok, pure_eq_ok] at read
    obtain ⟨left', hl, type, _, position', hp, rfl⟩ := read
    rw [toExpr, toExpr_ofExpr hl, toExpr_ofExpr hp]
  | .member left field, _, read => by
    simp only [ofExpr, bind_eq_ok, pure_eq_ok] at read
    obtain ⟨left', hl, type, _, rfl⟩ := read
    rw [toExpr, toExpr_ofExpr hl]
  | .call callee arguments, _, read => by
    simp only [ofExpr, bind_eq_ok, pure_eq_ok] at read
    obtain ⟨callee', hc, type, _, arguments', ha, rfl⟩ := read
    rw [toExpr, toExpr_ofExpr hc, toExprs_ofExprs ha]

theorem toFields_ofFields : ∀ {plain : List (String × Hoist.Expr)} {typed : List (String × Expr)},
    ofFields plain = .ok typed → toFields typed = plain
  | [], _, read => by simp [ofFields] at read; subst read; rfl
  | (name, value) :: rest, _, read => by
    simp only [ofFields, bind_eq_ok, pure_eq_ok] at read
    obtain ⟨value', hv, rest', hr, rfl⟩ := read
    rw [toFields, toExpr_ofExpr hv, toFields_ofFields hr]

theorem toExprs_ofExprs : ∀ {plain : List Hoist.Expr} {typed : List Expr},
    ofExprs plain = .ok typed → toExprs typed = plain
  | [], _, read => by simp [ofExprs] at read; subst read; rfl
  | value :: rest, _, read => by
    simp only [ofExprs, bind_eq_ok, pure_eq_ok] at read
    obtain ⟨value', hv, rest', hr, rfl⟩ := read
    rw [toExprs, toExpr_ofExpr hv, toExprs_ofExprs hr]

end

theorem ofExprs_toExprs {values : List Expr}
    (each : ∀ value ∈ values, ofExpr value.toExpr = .ok value) :
    ofExprs (toExprs values) = .ok values := by
  induction values with
  | nil => rfl
  | cons value rest ih =>
    have head := each value (by simp)
    have tail := ih fun other mem => each other (by simp [mem])
    simp [toExprs, ofExprs, head, tail]

theorem ofFields_toFields {fields : List (String × Expr)}
    (each : ∀ field ∈ fields, ofExpr field.2.toExpr = .ok field.2) :
    ofFields (toFields fields) = .ok fields := by
  induction fields with
  | nil => rfl
  | cons field rest ih =>
    have head := each field (by simp)
    have tail := ih fun other mem => each other (by simp [mem])
    simp [toFields, ofFields, head, tail]

/-- The types of a well-typed expression can be found again from those in its slots. -/
theorem WellTyped.ofExpr_toExpr {typed : Expr} (well : typed.WellTyped) :
    ofExpr typed.toExpr = .ok typed := by
  induction well with
  | number | boolean | string => rfl
  | symbol => simp [toExpr, ofExpr, ConcreteTy.ofTy_toTy]
  | record _ _ ih => simp [toExpr, ofExpr, ofFields_toFields ih, ConcreteTy.ofTy_toTy]
  | array _ _ _ ih => simp [toExpr, ofExpr, ofExprs_toExprs ih, ConcreteTy.ofTy_toTy]
  | unary _ rule ih => simp [toExpr, ofExpr, ih, rule.unaryType_eq]
  | binary _ _ rule ihl ihr => simp [toExpr, ofExpr, ihl, ihr, rule.binaryType_eq]
  | index _ _ left _ ihl ihp => simp [toExpr, ofExpr, ihl, ihp, left, indexType]
  | member _ left field ih => simp [toExpr, ofExpr, ih, left, memberType, field]
  | call _ _ callee _ ihc iha => simp [toExpr, ofExpr, ihc, ofExprs_toExprs iha, callee, callType]

end Expr

end Typed

end Hoist
