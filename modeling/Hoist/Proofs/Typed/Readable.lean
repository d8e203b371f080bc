import Hoist.Proofs.Ty.Placeholders
import Hoist.Proofs.Typed.Reading

/-!
Which expressions and targets can be read. What hinders reading stands at single nodes: a slot with
a placeholder in it, or a left part that can be read and has the wrong kind of type. An expression
can be read exactly if none of its parts has such a flaw, at whatever depth.

Main statement: for expressions as for targets, reading and forgetting undo each other, and reading
fails exactly where there is a flaw, for want of a type (`Typed.readings_undone`).
-/
namespace Hoist

namespace ConcreteTy

def IsArray (type : ConcreteTy) : Prop :=
  ∃ base length, type = .array base length

def HasField (field : String) (type : ConcreteTy) : Prop :=
  ∃ fields, type = .record fields ∧ field ∈ fields.map (·.1)

def IsFunction (type : ConcreteTy) : Prop :=
  ∃ parameters result, type = .function parameters result

end ConcreteTy

/-! Flaws. -/

namespace Expr

mutual

/-- An expression and all that stands inside it. -/
def parts : Expr → List Expr
  | number value => [number value]
  | boolean value => [boolean value]
  | string value => [string value]
  | symbol name slot => [symbol name slot]
  | record fields slot => record fields slot :: fieldParts fields
  | array elements slot => array elements slot :: allParts elements
  | unary op operand => unary op operand :: parts operand
  | binary op left right => binary op left right :: (parts left ++ parts right)
  | index left position => index left position :: (parts left ++ parts position)
  | member left field => member left field :: parts left
  | call callee arguments => call callee arguments :: (parts callee ++ allParts arguments)

def fieldParts : List (String × Expr) → List Expr
  | [] => []
  | (_, value) :: rest => parts value ++ fieldParts rest

def allParts : List Expr → List Expr
  | [] => []
  | value :: rest => parts value ++ allParts rest

end

/-- The node has a placeholder in its slot, or its left part has the wrong kind of type. -/
def Flawed : Expr → Prop
  | symbol _ slot | record _ slot | array _ slot => slot.placeholders ≠ []
  | index left _ => ∃ read, Typed.Expr.ofExpr left = .ok read ∧ ¬ read.type.IsArray
  | member left field => ∃ read, Typed.Expr.ofExpr left = .ok read ∧ ¬ read.type.HasField field
  | call callee _ => ∃ read, Typed.Expr.ofExpr callee = .ok read ∧ ¬ read.type.IsFunction
  | number _ | boolean _ | string _ | unary _ _ | binary _ _ _ => False

/-- None of these nodes has a flaw. -/
def Flawless (nodes : List Expr) : Prop :=
  ∀ node ∈ nodes, ¬ node.Flawed

@[simp] theorem flawless_nil : Flawless [] := by
  simp [Flawless]

@[simp] theorem flawless_cons {node : Expr} {rest : List Expr} :
    Flawless (node :: rest) ↔ ¬ node.Flawed ∧ Flawless rest := by
  simp [Flawless]

@[simp] theorem flawless_append {first second : List Expr} :
    Flawless (first ++ second) ↔ Flawless first ∧ Flawless second := by
  simp [Flawless, or_imp, forall_and]

/-- Some part of the expression has a flaw. -/
def HasFlaw (value : Expr) : Prop :=
  ∃ part ∈ value.parts, part.Flawed

theorem not_hasFlaw {value : Expr} : ¬ value.HasFlaw ↔ Flawless value.parts := by
  simp [HasFlaw, Flawless]

end Expr

namespace Target

def slots : Target → List Ty
  | symbol _ => []
  | member left _ slot => left.slots ++ [slot]
  | index left _ slot => left.slots ++ [slot]

/-- The expressions that the target is indexed by. -/
def positions : Target → List Expr
  | symbol _ => []
  | member left _ _ => left.positions
  | index left position _ => left.positions ++ [position]

/-- There is a placeholder in some slot, or a flaw in some index. -/
def HasFlaw (target : Target) : Prop :=
  (∃ slot ∈ target.slots, slot.placeholders ≠ []) ∨ ∃ value ∈ target.positions, value.HasFlaw

@[simp] theorem hasFlaw_symbol {name : String} : ¬ (symbol name).HasFlaw := by
  simp [HasFlaw, slots, positions]

@[simp] theorem hasFlaw_member {left : Target} {field : String} {slot : Ty} :
    (member left field slot).HasFlaw ↔ left.HasFlaw ∨ slot.placeholders ≠ [] := by
  simp only [HasFlaw, slots, positions, List.mem_append, List.mem_singleton, or_and_right,
    exists_or, exists_eq_left, or_right_comm]

@[simp] theorem hasFlaw_index {left : Target} {position : Expr} {slot : Ty} :
    (index left position slot).HasFlaw ↔
      left.HasFlaw ∨ slot.placeholders ≠ [] ∨ position.HasFlaw := by
  simp only [HasFlaw, slots, positions, List.mem_append, List.mem_singleton, or_and_right,
    exists_or, exists_eq_left, or_assoc, or_left_comm]

end Target

/-! The rules that reading uses at a node. -/

theorem Table.exists_first?_iff {α : Type} {name : String} {entries : List (String × α)} :
    (∃ value, first? name entries = some value) ↔ name ∈ entries.map (·.1) := by
  induction entries with
  | nil => simp [first?]
  | cons entry rest ih =>
    obtain ⟨other, value⟩ := entry
    by_cases same : other = name
    · simp [first?, same]
    · simpa [first?, same, Ne.symm same] using ih

namespace Typed.Expr

theorem exists_indexType {type : ConcreteTy} :
    (∃ element, indexType type = .ok element) ↔ type.IsArray := by
  cases type <;> simp [indexType, ConcreteTy.IsArray]

theorem exists_memberType {field : String} {type : ConcreteTy} :
    (∃ value, memberType field type = .ok value) ↔ type.HasField field := by
  cases type with
  | record fields =>
    simp only [memberType, ConcreteTy.HasField, ConcreteTy.record.injEq, exists_eq_left',
      ← Table.exists_first?_iff]
    cases Table.first? field fields <;> simp
  | number | boolean | string | array | function | void | named =>
    simp [memberType, ConcreteTy.HasField]

theorem exists_callType {type : ConcreteTy} :
    (∃ result, callType type = .ok result) ↔ type.IsFunction := by
  cases type <;> simp [callType, ConcreteTy.IsFunction]

end Typed.Expr

/-! Reading. A node can be read if its parts can be read and it has no flaw of its own. -/

theorem exists_ok_and {ε α : Type} {outcome : Except ε α} {good : α → Prop} :
    (∃ value, outcome = .ok value ∧ good value) ↔
      (¬ ∃ value, outcome = .ok value ∧ ¬ good value) ∧ ∃ value, outcome = .ok value := by
  cases outcome <;> simp

namespace Typed

open Hoist.Expr (Flawed Flawless parts fieldParts allParts)

namespace Expr

mutual

theorem exists_ofExpr_iff : ∀ value : Hoist.Expr,
    (∃ read, ofExpr value = .ok read) ↔ Flawless value.parts
  | .number _ | .boolean _ | .string _ => by simp [ofExpr, parts, Flawed]
  | .symbol _ slot => by simp [ofExpr, parts, Flawed, ConcreteTy.exists_ofTy_iff]
  | .record fields slot => by
    simp [ofExpr, parts, Flawed, ConcreteTy.exists_ofTy_iff, exists_ofFields_iff fields, and_comm]
  | .array elements slot => by
    simp [ofExpr, parts, Flawed, ConcreteTy.exists_ofTy_iff, exists_ofExprs_iff elements, and_comm]
  | .unary _ operand => by simp [ofExpr, parts, Flawed, exists_ofExpr_iff operand]
  | .binary _ left right => by
    simp [ofExpr, parts, Flawed, exists_ofExpr_iff left, exists_ofExpr_iff right]
  | .index left position => by
    -- where the left part can be read, the node's own flaw comes down to the type it has
    simp only [parts, Expr.flawless_cons, Expr.flawless_append, Flawed,
      ← exists_ofExpr_iff left, ← exists_ofExpr_iff position, ← and_assoc, ← exists_ok_and]
    simp [ofExpr, exists_indexType, ← and_assoc]
  | .member left field => by
    simp only [parts, Expr.flawless_cons, Flawed, ← exists_ofExpr_iff left, ← exists_ok_and]
    simp [ofExpr, exists_memberType]
  | .call callee arguments => by
    simp only [parts, Expr.flawless_cons, Expr.flawless_append, Flawed,
      ← exists_ofExpr_iff callee, ← exists_ofExprs_iff arguments, ← and_assoc, ← exists_ok_and]
    simp [ofExpr, exists_callType, ← and_assoc]

theorem exists_ofFields_iff : ∀ fields : List (String × Hoist.Expr),
    (∃ read, ofFields fields = .ok read) ↔ Flawless (fieldParts fields)
  | [] => by simp [ofFields, fieldParts]
  | (_, value) :: rest => by
    simp [ofFields, fieldParts, exists_ofExpr_iff value, exists_ofFields_iff rest]

theorem exists_ofExprs_iff : ∀ values : List Hoist.Expr,
    (∃ read, ofExprs values = .ok read) ↔ Flawless (allParts values)
  | [] => by simp [ofExprs, allParts]
  | value :: rest => by
    simp [ofExprs, allParts, exists_ofExpr_iff value, exists_ofExprs_iff rest]

end

end Expr

theorem Target.exists_ofTarget_iff (target : Hoist.Target) :
    (∃ read, ofTarget target = .ok read) ↔ ¬ target.HasFlaw := by
  induction target with
  | symbol name => simp [ofTarget]
  | member left field slot ih => simp [ofTarget, ih, ConcreteTy.exists_ofTy_iff]
  | index left position slot ih =>
    simp [ofTarget, ih, ConcreteTy.exists_ofTy_iff, Expr.exists_ofExpr_iff, Expr.not_hasFlaw]

/-! Both ways. -/

/-- Reading plain forms and forgetting what was read undo each other, wherever the plain form
stands. Reading fails exactly at the flawed forms, since a type is missing, and with the place that
was given to it. -/
structure Undone {α β : Type} (read : α → Except Cause β) (forget : β → α) (HasFlaw : α → Prop) :
    Prop where
  forget_read {plain : α} {typed : β} {position : Position} :
    atPosition position (read plain) = .ok typed → forget typed = plain
  read_forget {plain : α} {typed : β} {position : Position} (other : Position) :
    atPosition position (read plain) = .ok typed →
      atPosition other (read (forget typed)) = .ok typed
  fails_iff (plain : α) (position : Position) :
    (∃ halt, atPosition position (read plain) = .error halt) ↔ HasFlaw plain
  refused {plain : α} {halt : Halt} {position : Position} :
    atPosition position (read plain) = .error halt →
      ∃ type, halt = .rejected ⟨.unresolvedType type, position⟩

theorem Undone.of_reading {α β : Type} {read : α → Except Cause β} {forget : β → α}
    {HasFlaw : α → Prop} (back : ∀ {plain typed}, read plain = .ok typed → forget typed = plain)
    (reads : ∀ plain, (∃ typed, read plain = .ok typed) ↔ ¬ HasFlaw plain)
    (unread : ∀ plain, Unread (read plain)) : Undone read forget HasFlaw where
  forget_read known := back (atPosition_eq_ok.1 known)
  read_forget other known := by
    have known := atPosition_eq_ok.1 known
    rw [back known]
    exact atPosition_eq_ok.2 known
  fails_iff plain position := by
    rw [← not_iff_not, ← reads]
    cases read plain <;> simp [atPosition]
  refused {plain halt position} failed := by
    obtain ⟨cause, stops, rfl⟩ := atPosition_eq_error.1 failed
    have missing := unread plain cause stops
    cases cause <;> simp [Cause.isUnread] at missing ⊢

theorem readings_undone :
    Undone Expr.ofExpr Expr.toExpr Hoist.Expr.HasFlaw ∧
      Undone Target.ofTarget Target.toTarget Hoist.Target.HasFlaw := by
  constructor
  · refine .of_reading Expr.toExpr_ofExpr (fun value => ?_) Expr.unread_ofExpr
    rw [Hoist.Expr.not_hasFlaw, Expr.exists_ofExpr_iff]
  · exact .of_reading Target.toTarget_ofTarget Target.exists_ofTarget_iff Target.unread_ofTarget

end Typed

end Hoist
