import Hoist.Proofs.Typing.Faithful

/-!
What a look waits for: the first symbol, in the order in which they are looked at, that has
neither a filled slot nor a type in the view (`Expr.resolve_pendingOn`). As long as there is one,
the expression cannot be read (`Expr.resolve_ofExpr`).
-/
namespace Hoist

/-- The view has a type for the name. -/
def View.knows (view : View) (name : String) : Bool :=
  match view.type name with
  | .ok type => type.isConcrete
  | .error _ => false

def View.blocks (view : View) (symbol : String × Ty) : Bool :=
  !symbol.2.isConcrete && !view.knows symbol.1

def View.firstBlocked (view : View) (symbols : List (String × Ty)) : Option String :=
  (symbols.find? view.blocks).map (·.1)

theorem View.firstBlocked_append (view : View) (before after : List (String × Ty)) :
    view.firstBlocked (before ++ after) =
      (view.firstBlocked before).or (view.firstBlocked after) := by
  simp only [View.firstBlocked, List.find?_append]
  cases before.find? view.blocks <;> rfl

theorem View.type_cases {view : View} {name : String} {type : Ty}
    (found : view.type name = .ok type) : type.isConcrete = true ∨ type = .pending name := by
  unfold View.type at found
  split at found
  · rename_i bound _
    cases known : bound.isConcrete <;> simp_all
  · exact .inr (Except.ok.inj found).symm
  · simp at found

theorem Ty.pendingOn_eq_none {type : Ty} : type.pendingOn = none ↔ type.isPending = false := by
  cases type <;> simp [Ty.isPending, Ty.pendingOn]

theorem Ty.pendingOn_eq_none_of_isConcrete {type : Ty} (concrete : type.isConcrete = true) :
    type.pendingOn = none :=
  Ty.pendingOn_eq_none.2 (Ty.isPending_of_isConcrete concrete)

mutual

theorem Typed.Expr.symbols_toExpr : ∀ typed : Typed.Expr,
    typed.toExpr.symbols = typed.symbols.map fun symbol => (symbol.1, symbol.2.toTy)
  | .number _ | .boolean _ | .string _ | .symbol _ _ => rfl
  | .record fields _ => Typed.Expr.fieldSymbols_toFields fields
  | .array elements _ => Typed.Expr.allSymbols_toExprs elements
  | .unary _ operand _ => Typed.Expr.symbols_toExpr operand
  | .binary _ left right _ | .index left right _ => by
    simp [Typed.Expr.toExpr, Hoist.Expr.symbols, Typed.Expr.symbols,
      Typed.Expr.symbols_toExpr left, Typed.Expr.symbols_toExpr right]
  | .member left _ _ => Typed.Expr.symbols_toExpr left
  | .call callee arguments _ => by
    simp [Typed.Expr.toExpr, Hoist.Expr.symbols, Typed.Expr.symbols,
      Typed.Expr.symbols_toExpr callee, Typed.Expr.allSymbols_toExprs arguments]

theorem Typed.Expr.fieldSymbols_toFields : ∀ fields : List (String × Typed.Expr),
    Hoist.Expr.fieldSymbols (Typed.Expr.toFields fields) =
      (Typed.Expr.fieldSymbols fields).map fun symbol => (symbol.1, symbol.2.toTy)
  | [] => rfl
  | (_, value) :: rest => by
    simp [Typed.Expr.toFields, Hoist.Expr.fieldSymbols, Typed.Expr.fieldSymbols,
      Typed.Expr.symbols_toExpr value, Typed.Expr.fieldSymbols_toFields rest]

theorem Typed.Expr.allSymbols_toExprs : ∀ values : List Typed.Expr,
    Hoist.Expr.allSymbols (Typed.Expr.toExprs values) =
      (Typed.Expr.allSymbols values).map fun symbol => (symbol.1, symbol.2.toTy)
  | [] => rfl
  | value :: rest => by
    simp [Typed.Expr.toExprs, Hoist.Expr.allSymbols, Typed.Expr.allSymbols,
      Typed.Expr.symbols_toExpr value, Typed.Expr.allSymbols_toExprs rest]

end

theorem Expr.Settled.firstBlocked_eq {value : Expr} {type : Ty} (settled : value.Settled type)
    (view : View) : view.firstBlocked value.symbols = none := by
  obtain ⟨typed, _, rfl, _⟩ := settled
  rw [typed.symbols_toExpr]
  simp [View.firstBlocked, View.blocks]

theorem Ty.findSome?_pendingOn (types : List Ty) :
    types.findSome? Ty.pendingOn = (types.find? Ty.isPending).bind Ty.pendingOn := by
  induction types with
  | nil => rfl
  | cons type rest ih =>
    cases waits : type.pendingOn with
    | none => simp [waits, Ty.isPending, ih]
    | some name => simp [waits, Ty.isPending]

theorem Ty.pendingOn_getD (types : List Ty) {whole : Ty} (known : whole.pendingOn = none) :
    ((types.find? Ty.isPending).getD whole).pendingOn = types.findSome? Ty.pendingOn := by
  rw [Ty.findSome?_pendingOn]
  cases types.find? Ty.isPending with
  | none => exact known
  | some type => rfl

theorem Ty.pendingOn_ofElements {types : List Ty} {type : Ty}
    (found : Ty.ofElements types = .ok type) :
    type.pendingOn = types.findSome? Ty.pendingOn := by
  rw [Ty.findSome?_pendingOn]
  unfold Ty.ofElements at found
  cases blocked : types.find? Ty.isPending with
  | some other =>
    rw [blocked] at found
    obtain rfl := Except.ok.inj found
    rfl
  | none =>
    rw [blocked] at found
    cases types with
    | nil => simp at found
    | cons base rest =>
      obtain rfl := Except.ok.inj found
      rfl

theorem UnaryOp.pendingOn_apply {op : UnaryOp} {operand type : Ty}
    (applied : op.apply operand = .ok type) : type.pendingOn = operand.pendingOn := by
  unfold UnaryOp.apply at applied
  split at applied
  · obtain rfl := Except.ok.inj applied
    rfl
  · split at applied
    · rename_i same
      obtain rfl := Except.ok.inj applied
      rw [same]
    · simp [Ty.mismatch] at applied

theorem BinaryOp.pendingOn_apply {op : BinaryOp} {left right type : Ty}
    (applied : op.apply left right = .ok type) :
    type.pendingOn = left.pendingOn.or right.pendingOn := by
  unfold BinaryOp.apply at applied
  split at applied
  · rename_i found
    obtain rfl := Except.ok.inj applied
    cases left <;> cases right <;> simp [BinaryOp.result?] at found <;> grind [Ty.pendingOn]
  · split at applied
    · rename_i pending
      obtain rfl := Except.ok.inj applied
      obtain ⟨name, waits⟩ := Option.isSome_iff_exists.1 pending
      simp [waits]
    · rename_i known
      split at applied
      · obtain rfl := Except.ok.inj applied
        have : left.pendingOn = none := Ty.pendingOn_eq_none.2 (by simpa using known)
        simp [this]
      · simp [Ty.mismatch] at applied

theorem Ty.pendingOn_atPosition {base position type : Ty} (known : base.pendingOn = none)
    (found : base.atPosition position = .ok type) : type.pendingOn = position.pendingOn := by
  unfold Ty.atPosition at found
  split at found
  · obtain rfl := Except.ok.inj found
    rfl
  · split at found
    · rename_i number
      obtain rfl := Except.ok.inj found
      rw [known, number]
      rfl
    · simp [Ty.mismatch] at found

mutual

/-- A look that does not fail waits for the first symbol that blocks it, and for nothing else. -/
theorem Expr.resolve_pendingOn (view : View) : ∀ {value : Expr}, value.Faithful →
    ∀ {type : Ty}, (value.resolve view).1 = .ok type →
    type.pendingOn = view.firstBlocked value.symbols
  | .number _, _, _, found | .boolean _, _, _, found | .string _, _, _, found => by
    obtain rfl := Except.ok.inj found
    rfl
  | .symbol name slot, _, type, found => by
    simp only [Expr.resolve] at found
    split at found
    · rename_i filled
      obtain rfl := Except.ok.inj found
      simp [Expr.symbols, View.firstBlocked, View.blocks, filled,
        Ty.pendingOn_eq_none_of_isConcrete filled]
    · rename_i empty
      split at found
      · simp at found
      · rename_i seen
        obtain rfl := Except.ok.inj found
        obtain concrete | rfl := View.type_cases seen
        · simp [Expr.symbols, View.firstBlocked, View.blocks, View.knows, seen, concrete,
            Ty.pendingOn_eq_none_of_isConcrete concrete]
        · simp only [Bool.not_eq_true] at empty
          simp [Expr.symbols, View.firstBlocked, View.blocks, View.knows, seen, empty,
            Ty.isConcrete, Ty.pendingOn]
  | .record fields slot, faithful, type, found => by
    simp only [Expr.resolve] at found
    split at found
    · rename_i filled
      obtain rfl := Except.ok.inj found
      have settled := faithful.2 filled
      rw [settled.firstBlocked_eq, Ty.pendingOn_eq_none_of_isConcrete filled]
    · split at found
      · simp at found
      · rename_i types after seen
        obtain rfl := Except.ok.inj found
        have inner := Expr.resolveFields_pendingOn view [] faithful.1 (congrArg Prod.fst seen)
        rw [Ty.ofFields, Ty.pendingOn_getD _ rfl, inner]
        rfl
  | .array elements slot, faithful, type, found => by
    simp only [Expr.resolve] at found
    split at found
    · rename_i filled
      obtain rfl := Except.ok.inj found
      have settled := faithful.2 filled
      rw [settled.firstBlocked_eq, Ty.pendingOn_eq_none_of_isConcrete filled]
    · split at found
      · simp at found
      · rename_i types after seen
        split at found
        · simp at found
        · rename_i whole
          obtain rfl := Except.ok.inj found
          have inner := Expr.resolveElements_pendingOn view none faithful.1 (congrArg Prod.fst seen)
          rw [Ty.pendingOn_ofElements whole, inner]
          rfl
  | .unary op operand, faithful, type, found => by
    simp only [Expr.resolve] at found
    split at found
    · simp at found
    · rename_i seen
      rw [UnaryOp.pendingOn_apply found,
        @Expr.resolve_pendingOn view operand faithful _ (congrArg Prod.fst seen)]
      rfl
  | .binary op left right, faithful, type, found => by
    simp only [Expr.resolve] at found
    split at found
    · simp at found
    · rename_i seenLeft
      split at found
      · simp at found
      · rename_i seenRight
        rw [BinaryOp.pendingOn_apply found, Expr.symbols, View.firstBlocked_append,
          Expr.resolve_pendingOn view faithful.1 (congrArg Prod.fst seenLeft),
          Expr.resolve_pendingOn view faithful.2 (congrArg Prod.fst seenRight)]
  | .index left position, faithful, type, found => by
    simp only [Expr.resolve] at found
    split at found
    · simp at found
    · rename_i leftType after seenLeft
      have onLeft := Expr.resolve_pendingOn view faithful.1 (congrArg Prod.fst seenLeft)
      have looked := Expr.resolve_sound view faithful.1
      rw [seenLeft] at looked
      rw [Expr.symbols, View.firstBlocked_append, ← onLeft]
      split at found
      · rename_i pending
        obtain rfl := Except.ok.inj found
        obtain ⟨name, waits⟩ := Option.isSome_iff_exists.1 pending
        simp [waits]
      · rename_i known
        split at found
        · simp at found
        · rename_i base element
          split at found
          · simp at found
          · rename_i seenPosition
            obtain ⟨typed, _, _, rfl⟩ := (looked.settled leftType rfl).resolve_left known
            obtain ⟨concrete, length, _, rfl⟩ := ConcreteTy.of_element element
            have settled := Ty.pendingOn_eq_none_of_isConcrete concrete.isConcrete_toTy
            rw [Ty.pendingOn_eq_none_of_isConcrete typed.type.isConcrete_toTy, Option.none_or,
              Ty.pendingOn_atPosition settled found,
              Expr.resolve_pendingOn view faithful.2 (congrArg Prod.fst seenPosition)]
  | .member left field, faithful, type, found => by
    simp only [Expr.resolve] at found
    split at found
    · simp at found
    · rename_i leftType after seen
      have onLeft := @Expr.resolve_pendingOn view left faithful _ (congrArg Prod.fst seen)
      have looked := @Expr.resolve_sound view left faithful
      rw [seen] at looked
      rw [Expr.symbols, ← onLeft]
      obtain pending | ⟨typed, _, _, rfl⟩ := looked.settled leftType rfl
      · simp only [Ty.atField, pending, ↓reduceIte, Except.ok.injEq] at found
        rw [found]
      · obtain ⟨fields, concrete, _, _, rfl⟩ := ConcreteTy.of_atField found
        rw [Ty.pendingOn_eq_none_of_isConcrete typed.type.isConcrete_toTy,
          Ty.pendingOn_eq_none_of_isConcrete concrete.isConcrete_toTy]
  | .call callee arguments, faithful, type, found => by
    simp only [Expr.resolve] at found
    split at found
    · simp at found
    · rename_i calleeType after seenCallee
      have onCallee := Expr.resolve_pendingOn view faithful.1 (congrArg Prod.fst seenCallee)
      have looked := Expr.resolve_sound view faithful.1
      rw [seenCallee] at looked
      rw [Expr.symbols, View.firstBlocked_append, ← onCallee]
      split at found
      · rename_i pending
        obtain rfl := Except.ok.inj found
        obtain ⟨name, waits⟩ := Option.isSome_iff_exists.1 pending
        simp [waits]
      · rename_i known
        split at found
        · simp at found
        · rename_i parameters result callable
          split at found
          · simp at found
          · rename_i types after seenArguments
            obtain rfl := Except.ok.inj found
            obtain ⟨typed, _, _, rfl⟩ := (looked.settled calleeType rfl).resolve_left known
            obtain ⟨_, concrete, _, _, rfl, enough⟩ := ConcreteTy.of_callable callable
            have settled := Ty.pendingOn_eq_none_of_isConcrete concrete.isConcrete_toTy
            rw [Ty.pendingOn_eq_none_of_isConcrete typed.type.isConcrete_toTy, Option.none_or,
              Ty.ofCall, Ty.pendingOn_getD _ settled]
            exact Expr.resolveArguments_pendingOn view faithful.2 (by omega)
              (congrArg Prod.fst seenArguments)

theorem Expr.resolveFields_pendingOn (view : View) : ∀ (seen : List String)
    {fields : List (String × Expr)}, Expr.FieldsFaithful fields → ∀ {types : List (String × Ty)},
    (Expr.resolveFields view seen fields).1 = .ok types →
    (types.map (·.2)).findSome? Ty.pendingOn = view.firstBlocked (Expr.fieldSymbols fields)
  | _, [], _, _, found => by
    obtain rfl := Except.ok.inj found
    rfl
  | seen, (name, value) :: rest, faithful, types, found => by
    simp only [Expr.resolveFields] at found
    split at found
    · simp at found
    · split at found
      · simp at found
      · rename_i type _ seenValue
        obtain ⟨others, onOthers, rfl⟩ := exceptMap_eq_ok.1 found
        have onValue := Expr.resolve_pendingOn view faithful.1 (congrArg Prod.fst seenValue)
        have onRest := Expr.resolveFields_pendingOn view (name :: seen) faithful.2 onOthers
        rw [Expr.fieldSymbols, View.firstBlocked_append, ← onValue, ← onRest, List.map_cons,
          List.findSome?_cons]
        cases type.pendingOn <;> rfl

theorem Expr.resolveElements_pendingOn (view : View) : ∀ (base : Option Ty)
    {elements : List Expr}, Expr.AllFaithful elements → ∀ {types : List Ty},
    (Expr.resolveElements view base elements).1 = .ok types →
    types.findSome? Ty.pendingOn = view.firstBlocked (Expr.allSymbols elements)
  | _, [], _, _, found => by
    obtain rfl := Except.ok.inj found
    rfl
  | base, element :: rest, faithful, types, found => by
    simp only [Expr.resolveElements] at found
    split at found
    · simp at found
    · rename_i type _ seenElement
      split at found
      · simp at found
      · rename_i base' _
        obtain ⟨others, onOthers, rfl⟩ := exceptMap_eq_ok.1 found
        have onElement := Expr.resolve_pendingOn view faithful.1 (congrArg Prod.fst seenElement)
        have onRest := Expr.resolveElements_pendingOn view base' faithful.2 onOthers
        rw [Expr.allSymbols, View.firstBlocked_append, ← onElement, ← onRest, List.findSome?_cons]
        cases type.pendingOn <;> rfl

theorem Expr.resolveArguments_pendingOn (view : View) : ∀ {parameters : List (String × Ty)}
    {arguments : List Expr}, Expr.AllFaithful arguments →
    arguments.length ≤ parameters.length → ∀ {types : List Ty},
    (Expr.resolveArguments view parameters arguments).1 = .ok types →
    types.findSome? Ty.pendingOn = view.firstBlocked (Expr.allSymbols arguments)
  | parameters, [], _, _, _, found => by
    simp only [Expr.resolveArguments, Except.ok.injEq] at found
    subst found
    rfl
  | [], argument :: rest, _, enough, _, _ => by simp at enough
  | (_, parameter) :: parameters, argument :: rest, faithful, enough, types, found => by
    simp only [Expr.resolveArguments] at found
    split at found
    · simp at found
    · rename_i type _ seenArgument
      split at found
      · simp at found
      · obtain ⟨others, onOthers, rfl⟩ := exceptMap_eq_ok.1 found
        have onArgument := Expr.resolve_pendingOn view faithful.1 (congrArg Prod.fst seenArgument)
        have onRest := Expr.resolveArguments_pendingOn view faithful.2 (by simpa using enough)
          onOthers
        rw [Expr.allSymbols, View.firstBlocked_append, ← onArgument, ← onRest,
          List.findSome?_cons]
        cases type.pendingOn <;> rfl

end

/-- A blocked symbol still has no type after the look. -/
theorem View.Fills.exists_empty {view : View} {before after : List (String × Ty)} {name : String}
    (keeps : List.Forall₂ view.Fills before after) (blocked : view.firstBlocked before = some name) :
    ∃ slot, (name, slot) ∈ after ∧ slot.isConcrete = false := by
  obtain ⟨⟨_, slot⟩, found, rfl⟩ := Option.map_eq_some_iff.1 blocked
  have mem := List.mem_of_find?_eq_some found
  have blocks := List.find?_some found
  simp only [View.blocks, Bool.and_eq_true, Bool.not_eq_true'] at blocks
  clear found blocked
  induction keeps with
  | nil => simp at mem
  | cons head _ ih =>
    obtain rfl | mem := List.mem_cons.1 mem
    · obtain ⟨same, kept | ⟨_, concrete, type⟩⟩ := head
      · exact ⟨slot, List.mem_cons.2 (.inl (Prod.ext same.symm kept.symm)), blocks.1⟩
      · simp [View.knows, type, concrete] at blocks
    · obtain ⟨other, among, empty⟩ := ih mem
      exact ⟨other, by simp [among], empty⟩

/-- What an expression waits for is one of its symbols, which has no type yet. -/
theorem Expr.waits_of_pending {view : View} {value after : Expr} {type : Ty} {name : String}
    (faithful : value.Faithful) (look : value.resolve view = (.ok type, after))
    (pending : type.pendingOn = some name) :
    name ∈ value.symbols.map (·.1) ∧ view.knows name = false := by
  rw [Expr.resolve_pendingOn view faithful (congrArg Prod.fst look)] at pending
  obtain ⟨symbol, found, rfl⟩ := Option.map_eq_some_iff.1 pending
  have blocks := List.find?_some found
  simp only [View.blocks, Bool.and_eq_true, Bool.not_eq_true'] at blocks
  exact ⟨List.mem_map_of_mem (List.mem_of_find?_eq_some found), blocks.2⟩

/-- What can be read off an expression after a look is well typed, and has the type that the look
ended with. -/
theorem Expr.resolve_ofExpr {view : View} {value after : Expr} {type : Ty} {typed : Typed.Expr}
    (faithful : value.Faithful) (look : value.resolve view = (.ok type, after))
    (read : Typed.Expr.ofExpr after = .ok typed) : typed.WellTyped ∧ typed.type.toTy = type := by
  have looked := Expr.resolve_sound view faithful
  have keeps := Expr.resolve_keeps view value
  rw [look] at looked keeps
  obtain pending | ⟨other, well, rfl, rfl⟩ := looked.settled type rfl
  · obtain ⟨name, waits⟩ := Option.isSome_iff_exists.1 pending
    rw [Expr.resolve_pendingOn view faithful (congrArg Prod.fst look)] at waits
    obtain ⟨slot, mem, empty⟩ := View.Fills.exists_empty keeps waits
    rw [← Typed.Expr.toExpr_ofExpr read, typed.symbols_toExpr] at mem
    obtain ⟨_, _, same⟩ := List.mem_map.1 mem
    simp [← (Prod.mk.inj same).2] at empty
  · rw [well.ofExpr_toExpr] at read
    obtain rfl := Except.ok.inj read
    exact ⟨well, rfl⟩

end Hoist
