import Hoist.Proofs.Scope.Nearest
import Hoist.Proofs.Typing.Again
import Hoist.Proofs.Typing.Filled
import Hoist.Proofs.Typing.Fresh

/-!
What work waits for, and where. A look ends with a type that is known all through, or it waits for a
name that is seen from its scope and has no type there (`Expr.resolve_answers`). For an expression
as it comes from the parser that is the first of its names without a type, so the scope in which the
work waits for it either has a binding that is still open, or is the outermost one and nobody binds
the name.

Main statement: `Scopes.resolve_waits_for_first`.
-/
namespace Hoist

namespace Visit

variable {α β γ δ ι : Type}

/-- Whatever is found in a visit is good. -/
def OnlyFinds (good : α → Prop) (visit : Visit α β) : Prop :=
  ∀ answer, visit.1 = .ok answer → good answer

namespace OnlyFinds

variable {good : α → Prop} {good' : γ → Prop}

theorem into {visit : Visit α β} (ends : OnlyFinds good visit) (form : β → γ) :
    OnlyFinds good (Visit.into form visit) :=
  ends

theorem judge {visit : Visit α β} (ends : OnlyFinds good visit) {rule : α → Except Fault γ}
    (ruled : ∀ answer found, good answer → rule answer = .ok found → good' found) :
    OnlyFinds good' (Visit.judge rule visit) := by
  intro found judged
  obtain ⟨answer, seen, applied⟩ := bind_eq_ok.1 judged
  exact ruled answer found (ends answer seen) applied

theorem map {visit : Visit α β} (ends : OnlyFinds good visit) {make : α → γ}
    (made : ∀ answer, good answer → good' (make answer)) :
    OnlyFinds good' (Visit.judge (fun answer => .ok (make answer)) visit) :=
  ends.judge fun answer _ fine same => Except.ok.inj same ▸ made answer fine

theorem provided {check : Except Fault ι} {rest : δ} {next : ι → δ → Visit γ δ}
    (ends : ∀ value, check = .ok value → OnlyFinds good' (next value rest)) :
    OnlyFinds good' (Visit.provided check rest next) := by
  intro found seen
  obtain ⟨value, passed, seen⟩ := exists_of_provided seen
  exact ends value passed found seen

theorem inTurn {visit : Visit α β} (part : OnlyFinds good visit) {rest : δ}
    {next : α → δ → Visit γ δ} (ends : ∀ answer, good answer → OnlyFinds good' (next answer rest)) :
    OnlyFinds good' (Visit.inTurn visit rest next) :=
  provided fun answer seen => ends answer (part answer seen)

theorem unlessPending {good : Ty → Prop} {type : Ty} (fine : good type) {rest : δ}
    {next : δ → Visit Ty δ} (ends : type.isPending = false → OnlyFinds good (next rest)) :
    OnlyFinds good (Visit.unlessPending type rest next) := by
  unfold Visit.unlessPending
  split
  · intro found same
    exact Except.ok.inj same ▸ fine
  · exact ends (by simp [*])

theorem slotted {good : Ty → Prop} {slot : Ty} (filled : slot.isConcrete = true → good slot)
    {part : β} {visit : β → Visit Ty β} (ends : OnlyFinds good (visit part)) :
    OnlyFinds good (Visit.slotted slot part visit) := by
  unfold Visit.slotted
  split
  · intro found same
    exact Except.ok.inj same ▸ filled ‹_›
  · exact ends

end OnlyFinds

end Visit

open Visit

/-! ## Answers -/

/-- What a look from the view may end with. -/
def View.Answers (view : View) (type : Ty) : Prop :=
  type.isConcrete = true ∨ ∃ name, type = .pending name ∧ view.type name = .ok (.pending name)

namespace View.Answers

variable {view : View}

theorem isConcrete {type : Ty} (answers : view.Answers type) (known : type.isPending = false) :
    type.isConcrete = true := by
  obtain concrete | ⟨name, rfl, _⟩ := answers
  · exact concrete
  · simp [Ty.isPending, Ty.pendingOn] at known

/-- A rule that passes on what is pending, and makes known types from known types. -/
theorem judged {rule : Ty → Except Fault Ty}
    (waits : ∀ type, type.isPending = true → rule type = .ok type)
    (makes : ∀ type found, type.isConcrete = true → rule type = .ok found → found.isConcrete = true)
    {type found : Ty} (answers : view.Answers type) (applied : rule type = .ok found) :
    view.Answers found := by
  cases pending : type.isPending with
  | true =>
    obtain rfl : type = found := by simpa [waits type pending] using applied
    exact answers
  | false => exact .inl (makes type found (answers.isConcrete pending) applied)

theorem binary {op : BinaryOp} {left right found : Ty} (onLeft : view.Answers left)
    (onRight : view.Answers right) (applied : op.apply left right = .ok found) :
    view.Answers found := by
  have waits := BinaryOp.pendingOn_apply applied
  obtain concrete | ⟨name, rfl, _⟩ := id onLeft
  · obtain concrete' | ⟨name, rfl, _⟩ := id onRight
    · exact .inl (BinaryOp.isConcrete_apply concrete concrete' applied)
    · rw [Ty.pendingOn_eq_none_of_isConcrete concrete] at waits
      exact Ty.pendingOn_eq_some.1 waits ▸ onRight
  · exact Ty.pendingOn_eq_some.1 waits ▸ onLeft

/-- The first type that is pending, or else the whole that known parts make. -/
theorem first {types : List Ty} (answers : ∀ type ∈ types, view.Answers type) {whole : Ty}
    (makes : (∀ type ∈ types, type.isConcrete = true) → whole.isConcrete = true) :
    view.Answers ((types.find? Ty.isPending).getD whole) := by
  cases blocked : types.find? Ty.isPending with
  | some type => exact answers type (List.mem_of_find?_eq_some blocked)
  | none =>
    refine .inl (makes fun type mem => (answers type mem).isConcrete ?_)
    simpa using List.find?_eq_none.1 blocked type mem

theorem ofElements {types : List Ty} (answers : ∀ type ∈ types, view.Answers type) {found : Ty}
    (whole : Ty.ofElements types = .ok found) : view.Answers found := by
  cases types with
  | nil => simp [Ty.ofElements] at whole
  | cons base rest =>
    have known : view.Answers
        (((base :: rest).find? Ty.isPending).getD (.array base (rest.length + 1))) :=
      first answers fun each => by simpa [Ty.isConcrete] using each base (by simp)
    unfold Ty.ofElements at whole
    cases blocked : (base :: rest).find? Ty.isPending <;> rw [blocked] at known whole <;>
      exact Except.ok.inj whole ▸ known

end View.Answers

section Looks

variable (view : View)

mutual

theorem Expr.resolve_answers : ∀ value : Expr, OnlyFinds view.Answers (value.resolve view)
  | .number _ | .boolean _ | .string _ => by
    intro type found
    obtain rfl := Except.ok.inj found
    exact .inl rfl
  | .symbol name slot => by
    rw [Expr.resolve_symbol]
    refine (OnlyFinds.slotted .inl fun type seen => ?_).into _
    obtain concrete | rfl := View.type_cases seen
    · exact .inl concrete
    · exact .inr ⟨name, rfl, seen⟩
  | .record fields slot => by
    rw [Expr.resolve_record]
    refine (OnlyFinds.slotted .inl ?_).into _
    exact (Expr.fields_answer [] fields).map fun types answers =>
      .first answers Ty.areConcrete_iff.2
  | .array elements slot => by
    rw [Expr.resolve_array]
    refine (OnlyFinds.slotted .inl ?_).into _
    exact (Expr.elements_answer none elements).judge fun _ _ answers whole =>
      .ofElements answers whole
  | .unary op operand => by
    rw [Expr.resolve_unary]
    exact (operand.resolve_answers.judge fun _ _ =>
      .judged (fun _ => op.apply_waits) fun _ _ => UnaryOp.isConcrete_apply).into _
  | .member left field => by
    rw [Expr.resolve_member]
    exact (left.resolve_answers.judge fun _ _ =>
      .judged (fun _ => Ty.atField_waits field) fun _ _ => Ty.isConcrete_atField).into _
  | .binary op left right => by
    rw [Expr.resolve_binary]
    refine (left.resolve_answers.inTurn fun leftType onLeft => ?_).into _
    exact right.resolve_answers.judge fun _ _ onRight => onLeft.binary onRight
  | .index left position => by
    rw [Expr.resolve_index]
    refine (left.resolve_answers.inTurn fun leftType onLeft =>
      .unlessPending onLeft fun known => .provided fun base whole => ?_).into _
    have concrete := Ty.isConcrete_element (onLeft.isConcrete known) whole
    exact position.resolve_answers.judge fun _ _ =>
      .judged (fun _ => Ty.atPosition_waits base) fun _ _ => Ty.isConcrete_atPosition concrete
  | .call callee arguments => by
    rw [Expr.resolve_call]
    refine (callee.resolve_answers.inTurn fun calleeType onCallee =>
      .unlessPending onCallee fun known => .provided fun signature whole => ?_).into _
    have concrete := Ty.isConcrete_callable (onCallee.isConcrete known) whole
    exact (Expr.arguments_answer signature.1 arguments).map fun types answers =>
      .first answers fun _ => concrete

theorem Expr.fields_answer : ∀ (seen : List String) (fields : List (String × Expr)),
    OnlyFinds (fun types => ∀ type ∈ types.map (·.2), view.Answers type)
      (Expr.resolveFields view seen fields)
  | seen, [] => by
    intro types found
    obtain rfl := Except.ok.inj found
    simp
  | seen, (name, value) :: rest => by
    cases unseen : seen.contains name with
    | true =>
      intro types found
      rw [Expr.resolveFields, if_pos unseen] at found
      simp at found
    | false =>
      rw [Expr.resolveFields_cons view unseen]
      refine (value.resolve_answers.inTurn fun type answers => ?_).into _
      exact (Expr.fields_answer (name :: seen) rest).map fun types others =>
        List.forall_mem_cons.2 ⟨answers, others⟩

theorem Expr.elements_answer : ∀ (base : Option Ty) (elements : List Expr),
    OnlyFinds (fun types => ∀ type ∈ types, view.Answers type)
      (Expr.resolveElements view base elements)
  | base, [] => by
    intro types found
    obtain rfl := Except.ok.inj found
    simp
  | base, element :: rest => by
    rw [Expr.resolveElements_cons]
    refine (element.resolve_answers.inTurn fun type answers => .provided fun base' _ => ?_).into _
    exact (Expr.elements_answer base' rest).map fun types others =>
      List.forall_mem_cons.2 ⟨answers, others⟩

theorem Expr.arguments_answer : ∀ (parameters : List (String × Ty)) (arguments : List Expr),
    OnlyFinds (fun types => ∀ type ∈ types, view.Answers type)
      (Expr.resolveArguments view parameters arguments)
  | _, [] | [], _ :: _ => by
    intro types found
    obtain rfl : [] = types := by simpa [Expr.resolveArguments] using found
    simp
  | parameter :: parameters, argument :: rest => by
    rw [Expr.resolveArguments_cons]
    refine (argument.resolve_answers.inTurn fun type answers => .provided fun _ _ => ?_).into _
    exact (Expr.arguments_answer parameters rest).map fun types others =>
      List.forall_mem_cons.2 ⟨answers, others⟩

end

end Looks

/-! ## The first name without a type -/

theorem View.knows_iff {view : View} {name : String} :
    view.knows name = true ↔ ∃ type, view name = .bound type ∧ type.isConcrete = true := by
  unfold View.knows View.type
  cases view name with
  | bound type => cases concrete : type.isConcrete <;> simp [concrete, Ty.isConcrete]
  | unbound => simp [Ty.isConcrete]
  | dangling => simp

namespace Scopes

variable {δ : Type} {scopes : Scopes δ} {id : ScopeId}

theorem knows_view_iff {name : String} :
    (scopes.view id).knows name = true ↔ scopes.Known id name := by
  simp only [View.knows_iff, view_eq_bound_iff, Known]
  constructor
  · rintro ⟨_, ⟨owner, binding, nearest, rfl⟩, concrete⟩
    exact ⟨owner, binding, nearest, concrete⟩
  · rintro ⟨owner, binding, nearest, concrete⟩
    exact ⟨_, ⟨owner, binding, nearest, rfl⟩, concrete⟩

/-- As long as no slot is filled, exactly the names without a type block a look. -/
theorem blocks_of_isFresh {value : Expr} (fresh : value.isFresh = true) {symbol : String × Ty}
    (mem : symbol ∈ value.symbols) :
    (scopes.view id).blocks symbol = false ↔ scopes.Known id symbol.1 := by
  rw [← knows_view_iff]
  simp [View.blocks, Expr.empty_of_isFresh fresh symbol mem]

theorem exists_first_of_pending {value : Expr} (fresh : value.isFresh = true) {name : String}
    (found : (value.resolve (scopes.view id)).1 = .ok (.pending name)) :
    ∃ before slot after, value.symbols = before ++ (name, slot) :: after ∧
      (∀ symbol ∈ before, scopes.Known id symbol.1) ∧ ¬ scopes.Known id name := by
  have waits := Expr.resolve_pendingOn _ (Expr.faithful_of_isFresh fresh) found
  obtain ⟨⟨_, slot⟩, first, rfl⟩ := Option.map_eq_some_iff.1 waits.symm
  obtain ⟨blocks, before, after, split, passes⟩ := List.find?_eq_some_iff_append.1 first
  refine ⟨before, slot, after, split, fun symbol mem => ?_, fun known => ?_⟩
  · exact (blocks_of_isFresh fresh (by simp [split, mem])).1 (by simpa using passes symbol mem)
  · rw [(blocks_of_isFresh fresh (by simp [split])).2 known] at blocks
    simp at blocks

theorem known_of_isConcrete {value : Expr} (fresh : value.isFresh = true) {type : Ty}
    (found : (value.resolve (scopes.view id)).1 = .ok type) (concrete : type.isConcrete = true) :
    ∀ symbol ∈ value.symbols, scopes.Known id symbol.1 := by
  have waits := Expr.resolve_pendingOn _ (Expr.faithful_of_isFresh fresh) found
  rw [Ty.pendingOn_eq_none_of_isConcrete concrete] at waits
  have passes := List.find?_eq_none.1 (Option.map_eq_none_iff.1 waits.symm)
  exact fun symbol mem => (blocks_of_isFresh fresh mem).1 (by simpa using passes symbol mem)

end Scopes

/-- A look at a fresh expression that has to wait does so for the first of its names whose nearest
binding has no type, or that has none. The work is then put where that binding is, or in the
outermost scope exactly if there is no such binding; nowhere does it wait for a name that has its
type already. If the look ends with a known type, then so had every name. -/
theorem Scopes.resolve_waits_for_first {δ : Type} (scopes : Scopes δ) (id : ScopeId) {value : Expr}
    (fresh : value.isFresh = true) {type : Ty}
    (found : (value.resolve (scopes.view id)).1 = .ok type) :
    (∀ name, type = .pending name →
      (∃ before slot after, value.symbols = before ++ (name, slot) :: after ∧
        (∀ symbol ∈ before, scopes.Known id symbol.1) ∧ ¬ scopes.Known id name) ∧
      (∀ owner, scopes.anchor id name none = .ok (.bound owner) ↔
        ∃ binding, scopes.Nearest name id owner binding ∧ binding.type.isConcrete = false) ∧
      (∀ top, scopes.anchor id name none = .ok (.root top) ↔
        scopes.top id = .ok top ∧ ∀ owner binding, ¬ scopes.Nearest name id owner binding) ∧
      ∃ anchor, scopes.anchor id name none = .ok anchor ∧
        ∀ binding, scopes.binding? anchor.scope name = some binding →
          binding.type.isConcrete = false) ∧
    (type.isConcrete = true → ∀ symbol ∈ value.symbols, scopes.Known id symbol.1) := by
  refine ⟨?_, known_of_isConcrete fresh found⟩
  rintro name rfl
  obtain ⟨before, slot, after, split, passed, unknown⟩ := exists_first_of_pending fresh found
  refine ⟨⟨before, slot, after, split, passed, unknown⟩, ?_⟩
  -- The look has seen the name, so the way outwards was not cut off.
  have inside : scopes.view id name ≠ .dangling := by
    obtain concrete | ⟨_, same, seen⟩ := Expr.resolve_answers (scopes.view id) value _ found
    · simp [Ty.isConcrete] at concrete
    · obtain rfl := Ty.pending.inj same
      intro dangling
      simp [View.type, dangling] at seen
  exact anchor_of_unknown inside unknown

/-- A loop in a file where `y` is declared, but has no type yet. -/
def openFile : Scopes Empty :=
  ⟨[⟨none, .block, ⟨[("f", ⟨"f", .function [] .number, true, false⟩),
      ("y", ⟨"y", .unresolved, false, false⟩)]⟩, .empty⟩,
    ⟨some 0, .loop, ⟨[("n", ⟨"n", .number, false, false⟩)]⟩, .empty⟩]⟩

/-- `f() + n + y + z` -/
def openSum : Expr :=
  .binary .add
    (.binary .add
      (.binary .add (.call (.symbol "f" .unresolved) []) (.symbol "n" .unresolved))
      (.symbol "y" .unresolved))
    (.symbol "z" .unresolved)

theorem openSum_waits :
    openSum.isFresh = true ∧ (openSum.resolve (openFile.view 1)).1 = .ok (.pending "y") ∧
      openFile.anchor 1 "y" none = .ok (.bound 0) ∧ ¬ openFile.Known 1 "y" := by
  have fresh : openSum.isFresh = true := by decide
  have found : (openSum.resolve (openFile.view 1)).1 = .ok (.pending "y") := by decide
  have nearest : openFile.Nearest "y" 1 0 ⟨"y", .unresolved, false, false⟩ :=
    .outer rfl rfl (.here rfl)
  obtain ⟨⟨_, _, _, _, _, unknown⟩, bound, -⟩ :=
    (openFile.resolve_waits_for_first 1 fresh found).1 "y" rfl
  exact ⟨fresh, found, (bound 0).2 ⟨_, nearest, rfl⟩, unknown⟩

end Hoist
