import Hoist.Proofs.Typing.Judgement
import Hoist.Proofs.Typing.Visit

/-!
Targets read as expressions. What an assignment writes to could as well stand on its right side, and
a look at the target ends as a look at that expression does, with the same types in the slots of
its positions. A target differs in what it keeps: its root has no slot, and its steps do.

Main statement: `Target.resolve_mirrors`.
-/
namespace Hoist

open Visit

/-- The expression that is written like the target, with a slot for its root. -/
def Target.toExpr (slot : Ty) : Target → Expr
  | .symbol name => .symbol name slot
  | .member left field _ => .member (left.toExpr slot) field
  | .index left position _ => .index (left.toExpr slot) position

/-- What the steps of a target have recorded after a look from a view: a member the type of what it
is a member of, an index the element type of its array. If the array is waited for, the index keeps
that instead, and its position is not looked at. -/
inductive Target.Recorded (view : View) : Target → Target → Prop
  | symbol (name : String) : Recorded view (.symbol name) (.symbol name)
  | member {left left' : Target} {type : Ty} (field : String) (slot : Ty) :
    Recorded view left left' → ((left.toExpr .unresolved).resolve view).1 = .ok type →
    Recorded view (.member left field slot) (.member left' field type)
  | index {left left' : Target} {base : Ty} {length : Nat} (position : Expr) (slot : Ty) :
    Recorded view left left' →
    ((left.toExpr .unresolved).resolve view).1 = .ok (.array base length) →
    Recorded view (.index left position slot) (.index left' (position.resolve view).2 base)
  | pending {left left' : Target} {name : String} (position : Expr) (slot : Ty) :
    Recorded view left left' →
    ((left.toExpr .unresolved).resolve view).1 = .ok (.pending name) →
    Recorded view (.index left position slot) (.index left' position (.pending name))

/-- The look at the target and the look at the expression visit the same parts. -/
theorem Target.resolve_toExpr (view : View) (target : Target) :
    (target.toExpr .unresolved).resolve view =
      into (toExpr (fill .unresolved (view.type target.root))) (target.resolve view) := by
  induction target with
  | symbol name =>
    simp only [toExpr, Expr.resolve_symbol, slotted, Ty.isConcrete, Bool.false_eq_true, ↓reduceIte]
    rfl
  | member left field slot ih =>
    rw [toExpr, Expr.resolve, ih, Target.resolve]
    rcases left.resolve view with ⟨fault | type, after⟩ <;> rfl
  | index left position slot ih =>
    rw [toExpr, Expr.resolve, ih, Target.resolve]
    rcases left.resolve view with ⟨fault | type, after⟩
    · rfl
    · simp only [into]
      split
      · rfl
      · cases type.element with
        | error fault => rfl
        | ok base => rcases position.resolve view with ⟨fault | found, after⟩ <;> rfl

theorem Target.recorded_resolve {view : View} {target : Target} {type : Ty}
    (found : (target.resolve view).1 = .ok type) :
    target.Recorded view (target.resolve view).2 := by
  induction target generalizing type with
  | symbol name => exact .symbol name
  | member left field slot ih =>
    have same := congrArg Prod.fst (left.resolve_toExpr view)
    rw [Target.resolve] at found ⊢
    rcases look : left.resolve view with ⟨fault | leftType, after⟩
    · simp [look] at found
    · rw [look] at ih same
      exact .member field slot (ih rfl) same
  | index left position slot ih =>
    have same := congrArg Prod.fst (left.resolve_toExpr view)
    rw [Target.resolve] at found ⊢
    rcases look : left.resolve view with ⟨fault | leftType, after⟩
    · simp [look] at found
    · rw [look] at ih same
      simp only [look] at found ⊢
      split
      · rename_i pending
        obtain ⟨name, waits⟩ := Option.isSome_iff_exists.1 pending
        obtain rfl := Ty.pendingOn_eq_some.1 waits
        exact .pending position slot (ih rfl) same
      · rename_i known
        simp only [known, Bool.false_eq_true, ↓reduceIte] at found
        cases array : leftType.element with
        | error fault => simp [array] at found
        | ok base =>
          obtain ⟨length, rfl⟩ := Ty.element_eq_ok.1 array
          rcases inside : position.resolve view with ⟨fault | positionType, position'⟩
          · simp [array, inside] at found
          · have recorded := Recorded.index position slot (ih rfl) same
            rwa [inside] at recorded

/-- A look at a target finds the very type that a look at the expression written like it finds,
waits for the same name or ends with the same fault, and it leaves the same slots in the positions.
If it does not fail, every step has recorded what it stands on. -/
theorem Target.resolve_mirrors (view : View) (target : Target) :
    (target.toExpr .unresolved).resolve view =
        ((target.resolve view).1,
          (target.resolve view).2.toExpr (fill .unresolved (view.type target.root))) ∧
      ∀ type, (target.resolve view).1 = .ok type →
        target.Recorded view (target.resolve view).2 :=
  ⟨target.resolve_toExpr view, fun _ found => recorded_resolve found⟩

/-- A place where the rows of a table have types, and the name `last` has none. -/
def amongRows : View := fun name =>
  if name = "table" then .bound (.record [("rows", .array (.array .number 2) 3)]) else .unbound

/-- `table.rows[0][last]`, as it comes from the parser. -/
def lastCell : Target :=
  .index (.index (.member (.symbol "table") "rows" .unresolved) (.number ⟨0⟩) .unresolved)
    (.symbol "last" .unresolved) .unresolved

theorem lastCell_mirrors :
    ((lastCell.toExpr .unresolved).resolve amongRows).1 = .ok (.pending "last") ∧
      (lastCell.resolve amongRows).2 =
        .index
          (.index
            (.member (.symbol "table") "rows" (.record [("rows", .array (.array .number 2) 3)]))
            (.number ⟨0⟩) (.array .number 2))
          (.symbol "last" .unresolved) .number ∧
      lastCell.Recorded amongRows (lastCell.resolve amongRows).2 := by
  have found : (lastCell.resolve amongRows).1 = .ok (.pending "last") := by decide
  obtain ⟨same, records⟩ := lastCell.resolve_mirrors amongRows
  exact ⟨(congrArg Prod.fst same).trans found, rfl, records _ found⟩

end Hoist
