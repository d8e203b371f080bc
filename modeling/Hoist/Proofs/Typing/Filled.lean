import Hoist.Proofs.Typing.Targets

/-!
Looks at expressions whose slots are all filled, whatever with: the types in them need not agree.
Such an expression says by itself what its type is, so a look changes nothing in it and never has
to wait (`Typed.Expr.firm_toExpr`). A target whose positions are filled depends on the type of its
root, and a second look from the same place changes nothing (`Typed.Target.resolve_again`).
-/
namespace Hoist

/-- A look leaves the expression as it is, and ends with a type that is known or with none. -/
structure Expr.Firm (view : View) (value : Expr) : Prop where
  same : (value.resolve view).2 = value
  known : ∀ type, (value.resolve view).1 = .ok type → type.isConcrete = true

structure Expr.AllFirm (view : View) (parameters : List (String × Ty)) (arguments : List Expr) :
    Prop where
  same : (Expr.resolveArguments view parameters arguments).2 = arguments
  known : ∀ types, (Expr.resolveArguments view parameters arguments).1 = .ok types →
    ∀ type ∈ types, type.isConcrete = true

theorem Expr.Firm.of_ok {view : View} {value : Expr} (type : Ty)
    (look : value.resolve view = (.ok type, value)) (concrete : type.isConcrete = true) :
    value.Firm view where
  same := by rw [look]
  known other found := by
    rw [look] at found
    exact Except.ok.inj found ▸ concrete

theorem Expr.Firm.of_error {view : View} {value : Expr} (fault : Fault)
    (look : value.resolve view = (.error fault, value)) : value.Firm view where
  same := by rw [look]
  known type found := by simp [look] at found

/-- What is known of a look at a firm expression. -/
theorem Expr.Firm.cases {view : View} {value : Expr} (firm : value.Firm view) :
    (∃ fault, value.resolve view = (.error fault, value)) ∨
      ∃ type, value.resolve view = (.ok type, value) ∧ type.isConcrete = true := by
  obtain ⟨same, known⟩ := firm
  rcases look : value.resolve view with ⟨fault | type, after⟩
  · rw [look] at same
    exact .inl ⟨fault, by rw [← same]⟩
  · rw [look] at same
    exact .inr ⟨type, by rw [← same], known type (by rw [look])⟩

/-! Rules that are applied to known types answer with a known type, if they answer. -/

theorem UnaryOp.isConcrete_apply {op : UnaryOp} {operand type : Ty}
    (concrete : operand.isConcrete = true) (applied : op.apply operand = .ok type) :
    type.isConcrete = true := by
  unfold UnaryOp.apply at applied
  split at applied
  · exact Except.ok.inj applied ▸ concrete
  · split at applied
    · rename_i same
      exact Except.ok.inj applied ▸ same ▸ concrete
    · simp [Ty.mismatch] at applied

theorem BinaryOp.isConcrete_apply {op : BinaryOp} {left right type : Ty}
    (concrete : left.isConcrete = true) (concrete' : right.isConcrete = true)
    (applied : op.apply left right = .ok type) : type.isConcrete = true := by
  unfold BinaryOp.apply at applied
  split at applied
  · rename_i result
    obtain rfl := Except.ok.inj applied
    unfold BinaryOp.result? at result
    split at result
    · obtain rfl := Option.some.inj result
      split <;> rfl
    · split at result
      · obtain rfl := Option.some.inj result
        rfl
      · simp at result
    · split at result
      · obtain rfl := Option.some.inj result
        rfl
      · simp at result
    · simp at result
  · split at applied
    · exact Except.ok.inj applied ▸ concrete
    · split at applied
      · exact Except.ok.inj applied ▸ concrete'
      · simp [Ty.mismatch] at applied

theorem Ty.isConcrete_element {left base : Ty} (concrete : left.isConcrete = true)
    (found : left.element = .ok base) : base.isConcrete = true := by
  obtain ⟨known, rfl⟩ := Ty.isConcrete_iff.1 concrete
  obtain ⟨element, _, _, rfl⟩ := ConcreteTy.of_element found
  exact element.isConcrete_toTy

theorem Ty.isConcrete_atPosition {base position type : Ty} (concrete : base.isConcrete = true)
    (known : position.isConcrete = true) (found : base.atPosition position = .ok type) :
    type.isConcrete = true := by
  unfold Ty.atPosition at found
  split at found
  · exact Except.ok.inj found ▸ known
  · split at found
    · exact Except.ok.inj found ▸ concrete
    · simp [Ty.mismatch] at found

theorem Ty.isConcrete_atField {left type : Ty} {field : String} (concrete : left.isConcrete = true)
    (found : left.atField field = .ok type) : type.isConcrete = true := by
  obtain ⟨known, rfl⟩ := Ty.isConcrete_iff.1 concrete
  obtain ⟨_, value, _, _, rfl⟩ := ConcreteTy.of_atField found
  exact value.isConcrete_toTy

theorem Ty.isConcrete_callable {callee result : Ty} {parameters : List (String × Ty)} {count : Nat}
    (concrete : callee.isConcrete = true) (found : callee.callable count = .ok (parameters, result)) :
    result.isConcrete = true := by
  obtain ⟨known, rfl⟩ := Ty.isConcrete_iff.1 concrete
  obtain ⟨_, type, _, _, rfl, _⟩ := ConcreteTy.of_callable found
  exact type.isConcrete_toTy

theorem Ty.isConcrete_ofCall {types : List Ty} {result : Ty}
    (known : ∀ type ∈ types, type.isConcrete = true) (concrete : result.isConcrete = true) :
    (Ty.ofCall types result).isConcrete = true := by
  unfold Ty.ofCall
  cases blocked : types.find? Ty.isPending with
  | none => exact concrete
  | some type => exact known type (List.mem_of_find?_eq_some blocked)

/-! Expressions. -/

mutual

theorem Typed.Expr.firm_toExpr (view : View) : ∀ typed : Typed.Expr, typed.toExpr.Firm view
  | .number _ | .boolean _ | .string _ => .of_ok _ rfl rfl
  | .symbol name type => .of_ok _ (by simp [toExpr, Hoist.Expr.resolve]) type.isConcrete_toTy
  | .record fields type => .of_ok _ (by simp [toExpr, Hoist.Expr.resolve]) type.isConcrete_toTy
  | .array elements type => .of_ok _ (by simp [toExpr, Hoist.Expr.resolve]) type.isConcrete_toTy
  | .unary op operand _ => by
    rcases (firm_toExpr view operand).cases with ⟨fault, look⟩ | ⟨type, look, known⟩
    · exact .of_error fault (by rw [toExpr, Hoist.Expr.resolve, look])
    · refine ⟨by rw [toExpr, Hoist.Expr.resolve, look], fun result found => ?_⟩
      rw [toExpr, Hoist.Expr.resolve, look] at found
      exact UnaryOp.isConcrete_apply known found
  | .binary op left right _ => by
    rcases (firm_toExpr view left).cases with ⟨fault, look⟩ | ⟨type, look, known⟩
    · exact .of_error fault (by rw [toExpr, Hoist.Expr.resolve, look])
    · rcases (firm_toExpr view right).cases with ⟨fault, look'⟩ | ⟨type', look', known'⟩
      · exact .of_error fault (by simp only [toExpr, Hoist.Expr.resolve, look, look'])
      · refine ⟨by simp only [toExpr, Hoist.Expr.resolve, look, look'], fun result found => ?_⟩
        simp only [toExpr, Hoist.Expr.resolve, look, look'] at found
        exact BinaryOp.isConcrete_apply known known' found
  | .index left position _ => by
    rcases (firm_toExpr view left).cases with ⟨fault, look⟩ | ⟨type, look, known⟩
    · exact .of_error fault (by rw [toExpr, Hoist.Expr.resolve, look])
    · have here := Ty.isPending_of_isConcrete known
      cases array : type.element with
      | error fault => exact .of_error fault (by simp [toExpr, Hoist.Expr.resolve, look, here, array])
      | ok base =>
        rcases (firm_toExpr view position).cases with ⟨fault, look'⟩ | ⟨type', look', known'⟩
        · exact .of_error fault (by simp [toExpr, Hoist.Expr.resolve, look, here, array, look'])
        · refine ⟨by simp [toExpr, Hoist.Expr.resolve, look, here, array, look'],
            fun result found => ?_⟩
          simp only [toExpr, Hoist.Expr.resolve, look, here, array, look', Bool.false_eq_true,
            ↓reduceIte] at found
          exact Ty.isConcrete_atPosition (Ty.isConcrete_element known array) known' found
  | .member left field _ => by
    rcases (firm_toExpr view left).cases with ⟨fault, look⟩ | ⟨type, look, known⟩
    · exact .of_error fault (by rw [toExpr, Hoist.Expr.resolve, look])
    · refine ⟨by rw [toExpr, Hoist.Expr.resolve, look], fun result found => ?_⟩
      rw [toExpr, Hoist.Expr.resolve, look] at found
      exact Ty.isConcrete_atField known found
  | .call callee arguments _ => by
    rcases (firm_toExpr view callee).cases with ⟨fault, look⟩ | ⟨type, look, known⟩
    · exact .of_error fault (by rw [toExpr, Hoist.Expr.resolve, look])
    · have here := Ty.isPending_of_isConcrete known
      cases function : type.callable (toExprs arguments).length with
      | error fault =>
        exact .of_error fault (by simp [toExpr, Hoist.Expr.resolve, look, here, function])
      | ok pair =>
        obtain ⟨parameters, result⟩ := pair
        have passed := allFirm_toExprs view parameters arguments
        rcases looks : Hoist.Expr.resolveArguments view parameters (toExprs arguments) with
          ⟨fault | types, after⟩
        · obtain rfl : after = toExprs arguments := by simpa [looks] using passed.same
          exact .of_error fault (by simp [toExpr, Hoist.Expr.resolve, look, here, function, looks])
        · obtain rfl : after = toExprs arguments := by simpa [looks] using passed.same
          refine .of_ok (Ty.ofCall types result)
            (by simp [toExpr, Hoist.Expr.resolve, look, here, function, looks]) ?_
          exact Ty.isConcrete_ofCall (passed.known types (by rw [looks]))
            (Ty.isConcrete_callable known function)

theorem Typed.Expr.allFirm_toExprs (view : View) : ∀ (parameters : List (String × Ty))
    (arguments : List Typed.Expr), Hoist.Expr.AllFirm view parameters (toExprs arguments)
  | _, [] => ⟨by simp [toExprs, Hoist.Expr.resolveArguments],
      by simp [toExprs, Hoist.Expr.resolveArguments]⟩
  | [], _ :: _ => ⟨by simp [toExprs, Hoist.Expr.resolveArguments],
      by simp [toExprs, Hoist.Expr.resolveArguments]⟩
  | (_, parameter) :: parameters, argument :: rest => by
    have others := allFirm_toExprs view parameters rest
    rcases (firm_toExpr view argument).cases with ⟨fault, look⟩ | ⟨type, look, known⟩
    · exact ⟨by simp [toExprs, Hoist.Expr.resolveArguments, look],
        by simp [toExprs, Hoist.Expr.resolveArguments, look]⟩
    · cases passed : type.passTo parameter with
      | error fault =>
        exact ⟨by simp [toExprs, Hoist.Expr.resolveArguments, look, passed],
          by simp [toExprs, Hoist.Expr.resolveArguments, look, passed]⟩
      | ok done =>
        refine ⟨by simp [toExprs, Hoist.Expr.resolveArguments, look, passed, others.same],
          fun types found => ?_⟩
        simp only [toExprs, Hoist.Expr.resolveArguments, look, passed, exceptMap_eq_ok] at found
        obtain ⟨found', looks, rfl⟩ := found
        intro other mem
        rcases List.mem_cons.1 mem with rfl | mem
        · exact known
        · exact others.known found' looks other mem

end

/-! Targets. -/

/-- A target whose root has a known type has one itself. -/
theorem Typed.Target.known_of_look {view : View} {target : Typed.Target} {root type : Ty}
    {after : Hoist.Target} (start : view.type target.root = .ok root)
    (concrete : root.isConcrete = true)
    (look : target.toTarget.resolve view = (.ok type, after)) : type.isConcrete = true := by
  induction target generalizing type after with
  | symbol name =>
    have same : view.type name = .ok type := congrArg Prod.fst look
    exact Except.ok.inj (start.symm.trans same) ▸ concrete
  | member left field slot ih =>
    rw [toTarget, Hoist.Target.resolve] at look
    split at look
    · simp at look
    · rename_i found
      exact Ty.isConcrete_atField (ih start found) (congrArg Prod.fst look)
  | index left position slot ih =>
    rw [toTarget, Hoist.Target.resolve] at look
    split at look
    · simp at look
    · rename_i leftType _ found
      have known := ih start found
      rw [if_neg (by simp [Ty.isPending_of_isConcrete known])] at look
      cases array : leftType.element with
      | error fault => simp [array] at look
      | ok base =>
        rcases (position.firm_toExpr view).cases with ⟨fault, look'⟩ | ⟨other, look', known'⟩
        · simp [array, look'] at look
        · simp only [array, look'] at look
          exact Ty.isConcrete_atPosition (Ty.isConcrete_element known array) known'
            (congrArg Prod.fst look)

/-- The slots of a target are written by every look, so a second one finds what it would write. -/
theorem Typed.Target.resolve_again {view : View} {target : Typed.Target} {type : Ty}
    {after : Hoist.Target} (look : target.toTarget.resolve view = (.ok type, after)) :
    after.resolve view = (.ok type, after) := by
  induction target generalizing type after with
  | symbol name =>
    obtain rfl : Hoist.Target.symbol name = after := congrArg Prod.snd look
    exact look
  | member left field slot ih =>
    rw [toTarget, Hoist.Target.resolve] at look
    split at look
    · simp at look
    · rename_i found
      obtain ⟨here, rfl⟩ := Prod.ext_iff.1 look
      simp only at here
      simp only [Hoist.Target.resolve, ih found, here]
  | index left position slot ih =>
    rw [toTarget, Hoist.Target.resolve] at look
    split at look
    · simp at look
    · rename_i leftType _ found
      have again := ih found
      split at look
      · rename_i pending
        obtain ⟨here, rfl⟩ := Prod.ext_iff.1 look
        obtain rfl : leftType = type := Except.ok.inj here
        simp only [Hoist.Target.resolve, again, pending, ↓reduceIte]
      · rename_i settled
        cases array : leftType.element with
        | error fault => simp [array] at look
        | ok base =>
          rcases (position.firm_toExpr view).cases with ⟨fault, look'⟩ | ⟨other, look', _⟩
          · simp [array, look'] at look
          · simp only [array, look'] at look
            obtain ⟨here, rfl⟩ := Prod.ext_iff.1 look
            simp only at here
            simp only [Hoist.Target.resolve, again, settled, array, look', here,
              Bool.false_eq_true, ↓reduceIte]

end Hoist
