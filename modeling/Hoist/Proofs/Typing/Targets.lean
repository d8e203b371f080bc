import Hoist.Proofs.Typing.Blocked

/-!
Looks at the targets of assignments. The name a target starts from has no slot, so it is looked up
anew every time; the slots of the steps after it are written anew as well, and only the symbols
inside positions keep their types.

Main statements: a target that can be read after a look leads from the type of its root to the
type that the look ended with, unless it is a bare name that is still pending
(`Target.resolve_ofTarget`).
-/
namespace Hoist

def Target.isFresh : Target → Bool
  | .symbol _ => true
  | .member left _ _ => left.isFresh
  | .index left position _ => left.isFresh && position.isFresh

def Target.Faithful : Target → Prop
  | .symbol _ => True
  | .member left _ _ => left.Faithful
  | .index left position _ => left.Faithful ∧ position.Faithful

theorem Target.faithful_of_isFresh {target : Target} (fresh : target.isFresh = true) :
    target.Faithful := by
  induction target with
  | symbol => trivial
  | member _ _ _ ih => exact ih fresh
  | index _ _ _ ih =>
    simp only [Target.isFresh, Bool.and_eq_true] at fresh
    exact ⟨ih fresh.1, Expr.faithful_of_isFresh fresh.2⟩

@[simp] theorem Typed.Target.root_toTarget (target : Typed.Target) :
    target.toTarget.root = target.root := by
  induction target with
  | symbol => rfl
  | member _ _ _ ih => exact ih
  | index _ _ _ ih => exact ih

@[simp] theorem Typed.Target.isSymbol_toTarget (target : Typed.Target) :
    target.toTarget.isSymbol = target.isSymbol := by
  cases target <;> rfl

theorem Typed.Target.toTarget_ofTarget {plain : Hoist.Target} {typed : Typed.Target}
    (read : Typed.Target.ofTarget plain = .ok typed) : typed.toTarget = plain := by
  induction plain generalizing typed with
  | symbol name =>
    obtain rfl := Except.ok.inj read
    rfl
  | member left field slot ih =>
    simp only [ofTarget, bind_eq_ok, pure_eq_ok] at read
    obtain ⟨left', onLeft, type, onSlot, rfl⟩ := read
    rw [toTarget, ih onLeft, ConcreteTy.toTy_ofTy onSlot]
  | index left position slot ih =>
    simp only [ofTarget, bind_eq_ok, pure_eq_ok] at read
    obtain ⟨left', onLeft, type, onSlot, position', onPosition, rfl⟩ := read
    rw [toTarget, ih onLeft, ConcreteTy.toTy_ofTy onSlot, Expr.toExpr_ofExpr onPosition]

theorem Typed.Target.symbols_toTarget (target : Typed.Target) :
    target.toTarget.symbols = target.symbols.map fun symbol => (symbol.1, symbol.2.toTy) := by
  induction target with
  | symbol => rfl
  | member _ _ _ ih => exact ih
  | index left position type ih =>
    simp [toTarget, Hoist.Target.symbols, symbols, ih, Expr.symbols_toExpr]

theorem Target.resolve_keeps (view : View) (target : Target) :
    List.Forall₂ view.Fills target.symbols (target.resolve view).2.symbols := by
  induction target with
  | symbol name => exact .nil
  | member left field slot ih =>
    simp only [Target.resolve]
    split <;> simp_all [Target.symbols]
  | index left position slot ih =>
    have onPosition := Expr.resolve_keeps view position
    simp only [Target.resolve]
    split
    · rename_i failed
      rw [failed] at ih
      exact List.rel_append ih (view.fills_same _)
    · rename_i found
      rw [found] at ih
      split
      · exact List.rel_append ih (view.fills_same _)
      · split
        · exact List.rel_append ih (view.fills_same _)
        · split <;> simp_all only [Target.symbols] <;> exact List.rel_append ih onPosition

@[simp] theorem Target.resolve_root (view : View) (target : Target) :
    (target.resolve view).2.root = target.root := by
  induction target with
  | symbol name => rfl
  | member left field slot ih =>
    simp only [Target.resolve]
    split <;> simp_all [Target.root]
  | index left position slot ih =>
    simp only [Target.resolve]
    split
    · simp_all [Target.root]
    · split
      · simp_all [Target.root]
      · split
        · simp_all [Target.root]
        · split <;> simp_all [Target.root]

@[simp] theorem Target.resolve_isSymbol (view : View) (target : Target) :
    (target.resolve view).2.isSymbol = target.isSymbol := by
  cases target with
  | symbol name => rfl
  | member left field slot =>
    simp only [Target.resolve]
    split <;> rfl
  | index left position slot =>
    simp only [Target.resolve]
    split
    · rfl
    · split
      · rfl
      · split
        · rfl
        · split <;> rfl

theorem Target.resolve_faithful (view : View) {target : Target} (faithful : target.Faithful) :
    (target.resolve view).2.Faithful := by
  induction target with
  | symbol name => trivial
  | member left field slot ih =>
    have inner := ih faithful
    simp only [Target.resolve]
    split <;> simp_all [Target.Faithful]
  | index left position slot ih =>
    have inner := ih faithful.1
    have onPosition := (Expr.resolve_sound view faithful.2).faithful
    simp only [Target.resolve]
    split
    · rename_i failed
      rw [failed] at inner
      exact ⟨inner, faithful.2⟩
    · rename_i found
      rw [found] at inner
      split
      · exact ⟨inner, faithful.2⟩
      · split
        · exact ⟨inner, faithful.2⟩
        · split <;> simp_all [Target.Faithful]

/-- A target that has been looked at without anything pending: it leads from the type of its root
to `type`. -/
def Target.Settled (target : Target) (view : View) (type : Ty) : Prop :=
  ∃ (typed : Typed.Target) (root concrete : ConcreteTy), typed.toTarget = target ∧
    view.type target.root = .ok root.toTy ∧ typed.Leads root concrete ∧ concrete.toTy = type

theorem Target.resolve_settles {view : View} {target after : Target} {type : Ty}
    (faithful : target.Faithful) (look : target.resolve view = (.ok type, after)) :
    type.isPending = true ∨ after.Settled view type := by
  induction target generalizing after type with
  | symbol name =>
    simp only [Target.resolve, Prod.mk.injEq] at look
    obtain ⟨found, rfl⟩ := look
    obtain concrete | rfl := View.type_cases found
    · obtain ⟨root, rfl⟩ := Ty.isConcrete_iff.1 concrete
      exact .inr ⟨.symbol name, root, root, rfl, found, .symbol, rfl⟩
    · exact .inl rfl
  | member left field slot ih =>
    simp only [Target.resolve] at look
    split at look
    · simp at look
    · rename_i leftType left' onLeft
      obtain ⟨found, rfl⟩ := Prod.mk.inj look
      obtain pending | ⟨typed, root, concrete, rfl, known, leads, rfl⟩ := ih faithful onLeft
      · simp only [Ty.atField, pending, ↓reduceIte, Except.ok.injEq] at found
        exact .inl (found ▸ pending)
      · obtain ⟨fields, result, rfl, present, rfl⟩ := ConcreteTy.of_atField found
        exact .inr ⟨.member typed field (.record fields), root, result, rfl, known,
          .member leads present, rfl⟩
  | index left position slot ih =>
    simp only [Target.resolve] at look
    split at look
    · simp at look
    · rename_i leftType left' onLeft
      split at look
      · rename_i pending
        obtain ⟨found, rfl⟩ := Prod.mk.inj look
        obtain rfl := Except.ok.inj found
        exact .inl pending
      · rename_i settled
        obtain ⟨typed, root, concrete, rfl, known, leads, rfl⟩ :=
          (ih faithful.1 onLeft).resolve_left settled
        split at look
        · simp at look
        · rename_i base element
          obtain ⟨result, length, rfl, rfl⟩ := ConcreteTy.of_element element
          have looked := Expr.resolve_sound view faithful.2
          split at look
          · simp at look
          · rename_i positionType position' onPosition
            rw [onPosition] at looked
            obtain ⟨found, rfl⟩ := Prod.mk.inj look
            unfold Ty.atPosition at found
            split at found
            · rename_i pending
              obtain rfl := Except.ok.inj found
              exact .inl pending
            · rename_i notPending
              split at found
              · rename_i number
                obtain rfl := Except.ok.inj found
                obtain ⟨typedPosition, well, rfl, same⟩ :=
                  (looked.settled positionType rfl).resolve_left notPending
                have number := ConcreteTy.toTy_injective (b := .number) (same.trans number)
                exact .inr ⟨.index typed typedPosition result, root, result, rfl, known,
                  .index leads well number, rfl⟩
              · simp [Ty.mismatch] at found

/-- What a target waits for is its root or a symbol of a position, and has no type yet. -/
theorem Target.waits_of_pending {view : View} {target after : Target} {type : Ty} {name : String}
    (faithful : target.Faithful) (look : target.resolve view = (.ok type, after))
    (pending : type.pendingOn = some name) :
    name ∈ target.root :: target.symbols.map (·.1) ∧ view.knows name = false := by
  induction target generalizing after type with
  | symbol symbol =>
    simp only [Target.resolve, Prod.mk.injEq] at look
    obtain concrete | rfl := View.type_cases look.1
    · simp [Ty.pendingOn_eq_none_of_isConcrete concrete] at pending
    · obtain rfl : symbol = name := by simpa [Ty.pendingOn] using pending
      exact ⟨List.mem_cons_self, by simp [View.knows, look.1, Ty.isConcrete]⟩
  | member left field slot ih =>
    simp only [Target.resolve] at look
    split at look
    · simp at look
    · rename_i leftType left' onLeft
      obtain ⟨found, rfl⟩ := Prod.mk.inj look
      have faithful : left.Faithful := faithful
      obtain waits | ⟨_, _, concrete, _, _, _, rfl⟩ := Target.resolve_settles faithful onLeft
      · simp only [Ty.atField, waits, ↓reduceIte, Except.ok.injEq] at found
        exact ih faithful onLeft (found ▸ pending)
      · obtain ⟨_, result, _, _, rfl⟩ := ConcreteTy.of_atField found
        simp [Ty.pendingOn_eq_none_of_isConcrete result.isConcrete_toTy] at pending
  | index left position slot ih =>
    simp only [Target.root, Target.symbols, List.map_append, List.mem_cons, List.mem_append]
    simp only [Target.resolve] at look
    split at look
    · simp at look
    · rename_i leftType left' onLeft
      split at look
      · obtain rfl := Except.ok.inj (Prod.mk.inj look).1
        obtain ⟨mem, unknown⟩ := ih faithful.1 onLeft pending
        exact ⟨(List.mem_cons.1 mem).imp_right .inl, unknown⟩
      · rename_i settled
        obtain ⟨_, _, concrete, _, _, _, rfl⟩ :=
          (Target.resolve_settles faithful.1 onLeft).resolve_left settled
        split at look
        · simp at look
        · rename_i base element
          obtain ⟨result, _, _, rfl⟩ := ConcreteTy.of_element element
          split at look
          · simp at look
          · rename_i positionType position' onPosition
            have known := Ty.pendingOn_eq_none_of_isConcrete result.isConcrete_toTy
            rw [Ty.pendingOn_atPosition known (Prod.mk.inj look).1] at pending
            obtain ⟨mem, unknown⟩ := Expr.waits_of_pending faithful.2 onPosition pending
            exact ⟨.inr (.inr mem), unknown⟩

theorem Typed.Target.Leads.ofTarget_toTarget {root type : ConcreteTy} {target : Typed.Target}
    (leads : target.Leads root type) : Typed.Target.ofTarget target.toTarget = .ok target := by
  induction leads with
  | symbol => rfl
  | member _ _ ih => simp [toTarget, ofTarget, ih, ConcreteTy.ofTy_toTy]
  | index _ well _ ih => simp [toTarget, ofTarget, ih, ConcreteTy.ofTy_toTy, well.ofExpr_toExpr]

/-- A pending target cannot be read, bare names apart. -/
theorem Target.unread_of_pending {view : View} {target after : Target} {type : Ty}
    {typed : Typed.Target} (faithful : target.Faithful)
    (look : target.resolve view = (.ok type, after)) (pending : type.isPending = true)
    (read : Typed.Target.ofTarget after = .ok typed) : target.isSymbol = true := by
  cases target with
  | symbol name => rfl
  | member left field slot =>
    simp only [Target.resolve] at look
    split at look
    · simp at look
    · rename_i leftType left' onLeft
      obtain ⟨found, rfl⟩ := Prod.mk.inj look
      simp only [Typed.Target.ofTarget, bind_eq_ok, pure_eq_ok] at read
      obtain ⟨_, _, concrete, onSlot, _⟩ := read
      obtain rfl := ConcreteTy.ofTy_eq_ok.1 onSlot
      obtain ⟨_, result, _, _, rfl⟩ := ConcreteTy.of_atField found
      simp at pending
  | index left position slot =>
    simp only [Target.resolve] at look
    split at look
    · simp at look
    · rename_i leftType left' onLeft
      split at look
      · rename_i leftPending
        obtain ⟨_, rfl⟩ := Prod.mk.inj look
        simp only [Typed.Target.ofTarget, bind_eq_ok, pure_eq_ok] at read
        obtain ⟨_, _, concrete, onSlot, _⟩ := read
        obtain rfl := ConcreteTy.ofTy_eq_ok.1 onSlot
        simp at leftPending
      · split at look
        · simp at look
        · split at look
          · simp at look
          · rename_i base element _ positionType position' onPosition
            obtain ⟨found, rfl⟩ := Prod.mk.inj look
            simp only [Typed.Target.ofTarget, bind_eq_ok, pure_eq_ok] at read
            obtain ⟨_, _, concrete, onSlot, typedPosition, readPosition, _⟩ := read
            obtain rfl := ConcreteTy.ofTy_eq_ok.1 onSlot
            obtain ⟨_, rfl⟩ := Expr.resolve_ofExpr faithful.2 onPosition readPosition
            unfold Ty.atPosition at found
            simp only [ConcreteTy.isPending_toTy, Bool.false_eq_true, ↓reduceIte] at found
            split at found
            · obtain rfl := Except.ok.inj found
              simp at pending
            · simp [Ty.mismatch] at found

theorem Target.resolve_ofTarget {view : View} {target after : Target} {type : Ty}
    {typed : Typed.Target} (faithful : target.Faithful)
    (look : target.resolve view = (.ok type, after))
    (read : Typed.Target.ofTarget after = .ok typed) :
    (∃ root concrete : ConcreteTy, view.type typed.root = .ok root.toTy ∧
      typed.Leads root concrete ∧ concrete.toTy = type) ∨
    typed.isSymbol = true ∧ type.isPending = true := by
  obtain pending | ⟨other, root, concrete, rfl, known, leads, rfl⟩ :=
    Target.resolve_settles faithful look
  · have bare := Target.unread_of_pending faithful look pending read
    have same := Target.resolve_isSymbol view target
    rw [look, ← Typed.Target.toTarget_ofTarget read, Typed.Target.isSymbol_toTarget] at same
    exact .inr ⟨same.trans bare, pending⟩
  · rw [leads.ofTarget_toTarget] at read
    obtain rfl := Except.ok.inj read
    exact .inl ⟨root, concrete, by simpa using known, leads, rfl⟩

end Hoist
