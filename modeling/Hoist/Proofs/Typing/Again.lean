import Hoist.Proofs.Typing.Judgement
import Hoist.Proofs.Typing.Visit

/-!
Looking at an expression again, from a place where more names may have types by then. The slots
that the first look filled are believed, so whole records and arrays are passed over, and what
stood behind a blocked part is looked at for the first time. All the same, the second look ends as
a first look from the later place would have ended.

Three visits are compared: an early one, a later one to the same thing, and a later one to what the
early one left behind. For each way in which visits are put together it is shown that they agree if
the visits to the parts do (`Visit.Agree`), so looks agree (`Expr.agree`).

Main statements: `Expr.resolve_deferred`; and after any looks at all, an expression that is given a
type can be read at that type (`Expr.resolve_readable`).
-/
namespace Hoist

namespace Visit

variable {α β γ δ ι : Type}

/-- An early visit, a later one to the same thing, and a later one to what the early one left. An
answer of the early visit that is known, and not only pending, does not change any more. -/
structure Agree (known : α → Prop) (early direct again : Visit α β) : Prop where
  stays : ∀ answer, early.1 = .ok answer → known answer → direct = early
  fails : ∀ cause, early.1 = .error (.refused cause) → ∃ fault, direct.1 = .error fault
  outcome : again.1 = direct.1
  /-- After a failure the early visit may have come further than the direct one. -/
  slots : (∃ answer, direct.1 = .ok answer) ∨ direct.2 = early.2 → again.2 = direct.2

namespace Agree

variable {known : α → Prop} {known' : γ → Prop}

theorem same (visit : Visit α β) : Agree known visit visit visit :=
  ⟨fun _ _ _ => rfl, fun _ failed => ⟨_, failed⟩, rfl, fun _ => rfl⟩

/-- An early visit that is held up before it has changed anything says nothing. -/
theorem of_unknown {answer : α} {rest : β} (unknown : ¬ known answer) (direct : Visit α β) :
    Agree known (.ok answer, rest) direct direct :=
  ⟨fun _ found sure => absurd (Except.ok.inj found ▸ sure) unknown, nofun, rfl, fun _ => rfl⟩

theorem into {early direct again : Visit α β} (agree : Agree known early direct again)
    (form : β → γ) (injective : form.Injective) :
    Agree known (into form early) (into form direct) (into form again) where
  stays answer found sure := congrArg (Visit.into form) (agree.stays answer found sure)
  fails := agree.fails
  outcome := agree.outcome
  slots reached := congrArg form (agree.slots (reached.imp_right fun alike => injective alike))

/-- The rules of the two places may differ, as they may come after a part whose type is known by
now. Where they do, and where the answer is not known, the early rule only waits. -/
theorem judge {early direct again : Visit α β} (agree : Agree known early direct again)
    {rule later : α → Except Fault γ}
    (lawful : ∀ answer, known answer ∧ later answer = rule answer ∨
      ∃ blocked, rule answer = .ok blocked ∧ ¬ known' blocked) :
    Agree known' (judge rule early) (judge later direct) (judge later again) where
  stays result found sure := by
    obtain ⟨answer, answered, ruled⟩ := bind_eq_ok.1 found
    obtain ⟨certain, alike⟩ | ⟨blocked, waits, unknown⟩ := lawful answer
    · rw [agree.stays answer answered certain]
      simp [Visit.judge, answered, Except.bind, alike]
    · obtain rfl := Except.ok.inj (ruled.symm.trans waits)
      exact absurd sure unknown
  fails cause failed := by
    cases answered : early.1 with
    | error fault =>
      have failed : early.1 = .error (.refused cause) := by
        simpa [Visit.judge, answered, Except.bind] using failed
      obtain ⟨fault, failed⟩ := agree.fails cause failed
      exact ⟨fault, by simp [Visit.judge, failed, Except.bind]⟩
    | ok answer =>
      have ruled : rule answer = .error (.refused cause) := by
        simpa [Visit.judge, answered, Except.bind] using failed
      obtain ⟨certain, alike⟩ | ⟨blocked, waits, -⟩ := lawful answer
      · rw [agree.stays answer answered certain]
        exact ⟨.refused cause, by simp [Visit.judge, answered, Except.bind, alike, ruled]⟩
      · simp [ruled] at waits
  outcome := congrArg (Except.bind · later) agree.outcome
  slots reached := agree.slots (reached.imp_left fun ⟨_, found⟩ =>
    have ⟨answer, answered, _⟩ := bind_eq_ok.1 found
    ⟨answer, answered⟩)

/-- A rule that always has an answer. -/
theorem map {early direct again : Visit α β} (agree : Agree known early direct again)
    {make later : α → γ} (alike : ∀ answer, known' (make answer) →
      known answer ∧ later answer = make answer) :
    Agree known' (Visit.judge (fun answer => .ok (make answer)) early)
      (Visit.judge (fun answer => .ok (later answer)) direct)
      (Visit.judge (fun answer => .ok (later answer)) again) := by
  refine agree.judge fun answer => ?_
  by_cases sure : known' (make answer)
  · exact .inl ⟨(alike answer sure).1, by rw [(alike answer sure).2]⟩
  · exact .inr ⟨make answer, rfl, sure⟩

theorem provided {check later : Except Fault ι} {rest : δ} {next next' : ι → δ → Visit γ δ}
    (fails : ∀ cause, check = .error (.refused cause) → ∃ fault, later = .error fault)
    (passes : ∀ value answer, check = .ok value → (next value rest).1 = .ok answer →
      known' answer → ∃ value', later = .ok value')
    (agree : ∀ value value', check = .ok value → later = .ok value' →
      Agree known' (next value rest) (next' value' rest) (next' value' (next value rest).2)) :
    Agree known' (provided check rest next) (provided later rest next')
      (provided later (provided check rest next).2 next') := by
  cases check with
  | error fault =>
    refine ⟨fun _ found => ?_, fun cause failed => ?_, rfl, fun _ => rfl⟩
    · simp [Visit.provided] at found
    obtain ⟨fault', failed⟩ := fails cause (congrArg Except.error (Except.error.inj failed))
    exact ⟨fault', by simp [Visit.provided, failed]⟩
  | ok value =>
    cases later with
    | error fault =>
      -- Only the early visit went on, so what it found cannot have been known.
      refine ⟨fun answer found sure => ?_, fun _ _ => ⟨fault, rfl⟩, rfl, fun reached => ?_⟩
      · obtain ⟨_, impossible⟩ := passes value answer rfl found sure
        cases impossible
      · exact (reached.resolve_left (by simp [Visit.provided])).symm
    | ok value' => exact agree value value' rfl rfl

/-- Where both places make the same check. -/
theorem provided_same (check : Except Fault ι) {rest : δ} {next next' : ι → δ → Visit γ δ}
    (agree : ∀ value, check = .ok value →
      Agree known' (next value rest) (next' value rest) (next' value (next value rest).2)) :
    Agree known' (Visit.provided check rest next) (Visit.provided check rest next')
      (Visit.provided check (Visit.provided check rest next).2 next') := by
  refine provided (fun _ failed => ⟨_, failed⟩) (fun value _ passed _ _ => ⟨value, passed⟩) ?_
  rintro value value' passed again
  obtain rfl := Except.ok.inj (passed.symm.trans again)
  exact agree value passed

theorem inTurn {early direct again : Visit α β} (part : Agree known early direct again)
    {rest : δ} {next next' : α → δ → Visit γ δ}
    (sure : ∀ value answer, (next value rest).1 = .ok answer → known' answer → known value)
    (agree : ∀ value value', (known value → value' = value) →
      Agree known' (next value rest) (next' value' rest) (next' value' (next value rest).2)) :
    Agree known' (inTurn early rest next) (inTurn direct rest next')
      (inTurn again (inTurn early rest next).2.2 next') := by
  have stays : ∀ value answer, early.1 = .ok value → (next value rest).1 = .ok answer →
      known' answer → direct = early := fun value answer found onRest certain =>
    part.stays value found (sure value answer onRest certain)
  have onRest : Agree known' (Visit.provided early.1 rest next) (Visit.provided direct.1 rest next')
      (Visit.provided direct.1 (Visit.provided early.1 rest next).2 next') := by
    refine provided part.fails (fun value answer found onRest certain => ?_) ?_
    · exact ⟨value, by rw [stays value answer found onRest certain, found]⟩
    · intro value value' found found'
      refine agree value value' fun certain => ?_
      rw [part.stays value found certain, found] at found'
      exact (Except.ok.inj found').symm
  unfold Visit.inTurn
  rw [part.outcome]
  refine ⟨fun answer found certain => ?_, onRest.fails, onRest.outcome, fun reached => ?_⟩
  · obtain ⟨value, looked, onward⟩ := exists_of_provided found
    rw [onRest.stays answer found certain, stays value answer looked onward certain]
  · obtain ⟨answer, found⟩ | unchanged := reached
    · obtain ⟨value, looked, -⟩ := exists_of_provided found
      exact Prod.ext (part.slots (.inl ⟨value, looked⟩)) (onRest.slots (.inl ⟨answer, found⟩))
    · obtain ⟨first, second⟩ := Prod.mk.inj unchanged
      exact Prod.ext (part.slots (.inr first)) (onRest.slots (.inr second))

theorem unlessPending {type later : Ty} (alike : type.isPending = false → later = type) {rest : δ}
    {next next' : δ → Visit Ty δ}
    (agree : type.isPending = false → Agree (·.isPending = false) (next rest) (next' rest)
      (next' (next rest).2)) :
    Agree (·.isPending = false) (unlessPending type rest next) (unlessPending later rest next')
      (unlessPending later (unlessPending type rest next).2 next') := by
  cases pending : type.isPending with
  | true =>
    simp only [Visit.unlessPending, pending, ↓reduceIte]
    exact of_unknown (by simp [pending]) _
  | false =>
    obtain rfl := alike pending
    simpa [Visit.unlessPending, pending] using agree pending

theorem slotted {slot : Ty} {part : β} {visit visit' : β → Visit Ty β}
    (agree : Agree (·.isPending = false) (visit part) (visit' part) (visit' (visit part).2)) :
    Agree (·.isPending = false) (slotted slot part visit) (slotted slot part visit')
      (slotted (slotted slot part visit).2.2 (slotted slot part visit).2.1 visit') := by
  by_cases filled : slot.isConcrete = true
  · simp only [Visit.slotted, filled, ↓reduceIte]
    exact same _
  by_cases settled : ∃ type, (visit part).1 = .ok type ∧ type.isPending = false
  · -- The slot has been filled, and all three end with the type in it.
    obtain ⟨type, found, known⟩ := settled
    have alike := agree.stays type found known
    have outcome : (visit' (visit part).2).1 = .ok type := by rw [agree.outcome, alike, found]
    have slots : (visit' (visit part).2).2 = (visit part).2 := by
      rw [agree.slots (.inr (by rw [alike])), alike]
    have first : Visit.slotted slot part visit = (.ok type, ((visit part).2, type)) := by
      simp [Visit.slotted, filled, found, fill, known]
    have direct : Visit.slotted slot part visit' = (.ok type, ((visit part).2, type)) := by
      simp [Visit.slotted, filled, alike, found, fill, known]
    have final : Visit.slotted type (visit part).2 visit' = (.ok type, ((visit part).2, type)) := by
      unfold Visit.slotted
      split
      · rfl
      · simp [outcome, slots, fill]
    rw [first, direct, final]
    exact same _
  · have empty : fill slot (visit part).1 = slot := by
      unfold fill
      split
      · rename_i type found
        have pending : type.isPending = true := by
          by_contra known
          exact settled ⟨type, found, by simpa using known⟩
        simp [pending]
      · rfl
    simp only [Visit.slotted, filled, Bool.false_eq_true, ↓reduceIte, empty]
    refine ⟨fun type found known => absurd ⟨type, found, known⟩ settled, agree.fails,
      agree.outcome, fun reached => ?_⟩
    have slots := agree.slots (reached.imp_right fun unchanged => (Prod.mk.inj unchanged).1)
    rw [slots, agree.outcome]

end Agree

end Visit

open Visit

/-! ## Rules wait for what is pending -/

/-- None of these types is waited for. -/
def Ty.AllKnown (types : List Ty) : Prop :=
  ∀ type ∈ types, type.isPending = false

theorem Ty.find?_of_not_allKnown {types : List Ty} (unknown : ¬ Ty.AllKnown types) :
    ∃ blocked, types.find? Ty.isPending = some blocked ∧ blocked.isPending = true := by
  cases found : types.find? Ty.isPending with
  | some blocked => exact ⟨blocked, rfl, List.find?_some found⟩
  | none =>
    refine absurd (fun type mem => ?_) unknown
    simpa using List.find?_eq_none.1 found type mem

theorem Ty.allKnown_of_first {types : List Ty} {whole : Ty}
    (known : ((types.find? Ty.isPending).getD whole).isPending = false) : Ty.AllKnown types := by
  by_contra unknown
  obtain ⟨blocked, found, pending⟩ := Ty.find?_of_not_allKnown unknown
  simp [found, pending] at known

theorem UnaryOp.apply_waits (op : UnaryOp) {operand : Ty} (pending : operand.isPending = true) :
    op.apply operand = .ok operand := by
  simp [UnaryOp.apply, pending]

theorem BinaryOp.apply_waits (op : BinaryOp) {left right : Ty}
    (pending : left.isPending = true ∨ right.isPending = true) :
    ∃ blocked, op.apply left right = .ok blocked ∧ blocked.isPending = true := by
  cases applied : op.apply left right with
  | ok type => exact ⟨type, rfl, BinaryOp.apply_pending pending applied⟩
  | error fault =>
    unfold BinaryOp.apply at applied
    grind

theorem Ty.atField_waits {left : Ty} (field : String) (pending : left.isPending = true) :
    left.atField field = .ok left := by
  simp [Ty.atField, pending]

theorem Ty.atPosition_waits (base : Ty) {position : Ty} (pending : position.isPending = true) :
    base.atPosition position = .ok position := by
  simp [Ty.atPosition, pending]

/-- A base that both places have is still common to them after one more element. -/
theorem Ty.join_ahead {base base' after after' : Option Ty} {type type' : Ty}
    (ahead : ∀ expected, base = some expected → base' = some expected)
    (alike : type.isPending = false → type' = type) (joined : Ty.join base type = .ok after)
    (joined' : Ty.join base' type' = .ok after') :
    ∀ expected, after = some expected → after' = some expected := by
  intro expected present
  cases pending : type.isPending with
  | true =>
    obtain rfl : base = after := by simpa [Ty.join, pending] using joined
    obtain rfl := ahead expected present
    unfold Ty.join at joined'
    grind
  | false =>
    obtain rfl := alike pending
    rw [((Ty.join_eq_ok pending).1 joined').2, ← ((Ty.join_eq_ok pending).1 joined).2, present]

theorem Ty.join_refused {base base' : Option Ty} {type type' : Ty} {cause : Cause}
    (ahead : ∀ expected, base = some expected → base' = some expected)
    (alike : type.isPending = false → type' = type)
    (failed : Ty.join base type = .error (.refused cause)) :
    ∃ fault, Ty.join base' type' = .error fault := by
  cases pending : type.isPending with
  | true => simp [Ty.join, pending] at failed
  | false =>
    cases base with
    | none => simp [Ty.join, pending] at failed
    | some expected =>
      rw [alike pending, ahead expected rfl]
      exact ⟨_, failed⟩

theorem Visit.Agree.judge_waits {β : Type} {early direct again : Visit Ty β}
    (agree : Agree (·.isPending = false) early direct again) {rule : Ty → Except Fault Ty}
    (waits : ∀ type, type.isPending = true → rule type = .ok type) :
    Agree (·.isPending = false) (Visit.judge rule early) (Visit.judge rule direct)
      (Visit.judge rule again) := by
  refine agree.judge fun type => ?_
  cases pending : type.isPending with
  | true => exact .inr ⟨type, waits type pending, by simp [pending]⟩
  | false => exact .inl ⟨rfl, rfl⟩

/-! ## Looks agree -/

/-- Every name that has a type in the view has it later on, too. -/
def View.GrowsTo (view later : View) : Prop :=
  ∀ name type, view name = .bound type → type.isConcrete = true → later name = .bound type

theorem View.GrowsTo.type_eq {view later : View} (grows : view.GrowsTo later) {name : String}
    {type : Ty} (found : view.type name = .ok type) (known : type.isPending = false) :
    later.type name = .ok type := by
  unfold View.type at found ⊢
  cases here : view name with
  | bound bound =>
    cases concrete : bound.isConcrete with
    | true =>
      obtain rfl : bound = type := by simpa [here, concrete] using found
      simp [grows name bound here concrete, concrete]
    | false =>
      obtain rfl : Ty.pending name = type := by simpa [here, concrete] using found
      simp [Ty.isPending, Ty.pendingOn] at known
  | unbound =>
    obtain rfl : Ty.pending name = type := by simpa [here] using found
    simp [Ty.isPending, Ty.pendingOn] at known
  | dangling => simp [here] at found

theorem View.GrowsTo.agree_type {view later : View} (grows : view.GrowsTo later) (name : String) :
    Agree (·.isPending = false) (view.type name, name) (later.type name, name)
      (later.type name, name) where
  stays type found known := by
    have found : view.type name = .ok type := found
    rw [grows.type_eq found known, found]
  fails cause failed := by
    unfold View.type at failed
    split at failed <;> simp at failed
  outcome := rfl
  slots _ := rfl

section Looks

variable {view later : View}

mutual

theorem Expr.agree (grows : view.GrowsTo later) : ∀ value : Expr,
    Agree (·.isPending = false) (value.resolve view) (value.resolve later)
      ((value.resolve view).2.resolve later)
  | .number _ | .boolean _ | .string _ => by
    simp only [Expr.resolve]
    exact .same _
  | .symbol name slot => by
    simp only [Expr.resolve_symbol, snd_into]
    refine Agree.into (Agree.slotted ?_) _ fun a b same => by simpa [Prod.ext_iff] using same
    exact grows.agree_type name
  | .record fields slot => by
    simp only [Expr.resolve_record, snd_into]
    refine Agree.into (Agree.slotted ?_) _ fun a b same => by simpa [Prod.ext_iff] using same
    exact (Expr.fieldsAgree grows [] fields).map fun types known => ⟨Ty.allKnown_of_first known, rfl⟩
  | .array elements slot => by
    simp only [Expr.resolve_array, snd_into]
    refine Agree.into (Agree.slotted ?_) _ fun a b same => by simpa [Prod.ext_iff] using same
    refine (Expr.elementsAgree grows elements none none nofun).judge fun types => ?_
    by_cases known : Ty.AllKnown types
    · exact .inl ⟨⟨rfl, known⟩, rfl⟩
    · obtain ⟨blocked, found, pending⟩ := Ty.find?_of_not_allKnown known
      exact .inr ⟨blocked, by simp [Ty.ofElements, found], by simp [pending]⟩
  | .unary op operand => by
    simp only [Expr.resolve_unary, snd_into, snd_judge]
    have agree := (Expr.agree grows operand).judge_waits fun _ => op.apply_waits
    exact agree.into _ fun a b same => by simpa using same
  | .member left field => by
    simp only [Expr.resolve_member, snd_into, snd_judge]
    have agree := (Expr.agree grows left).judge_waits fun _ => Ty.atField_waits field
    exact agree.into _ fun a b same => by simpa using same
  | .binary op left right => by
    simp only [Expr.resolve_binary, snd_into]
    refine Agree.into (Agree.inTurn (Expr.agree grows left) (fun leftType type found known => ?_)
      fun leftType leftType' alike => ?_) _ fun a b same => by simpa [Prod.ext_iff] using same
    · obtain ⟨rightType, -, applied⟩ := bind_eq_ok.1 found
      by_contra pending
      simp [BinaryOp.apply_pending (.inl (by simpa using pending)) applied] at known
    · refine (Expr.agree grows right).judge fun rightType => ?_
      by_cases waits : leftType.isPending = true ∨ rightType.isPending = true
      · obtain ⟨blocked, applied, pending⟩ := op.apply_waits waits
        exact .inr ⟨blocked, applied, by simp [pending]⟩
      · simp only [not_or, Bool.not_eq_true] at waits
        exact .inl ⟨waits.2, by rw [alike waits.1]⟩
  | .index left position => by
    simp only [Expr.resolve_index, snd_into]
    refine Agree.into (Agree.inTurn (Expr.agree grows left) (fun leftType type found known => ?_)
      fun leftType leftType' alike => ?_) _ fun a b same => by simpa [Prod.ext_iff] using same
    · exact known_of_unlessPending found known
    · refine Agree.unlessPending alike fun settled => ?_
      obtain rfl := alike settled
      refine Agree.provided_same _ fun base _ => ?_
      exact (Expr.agree grows position).judge_waits fun _ => Ty.atPosition_waits base
  | .call callee arguments => by
    simp only [Expr.resolve_call, snd_into]
    refine Agree.into (Agree.inTurn (Expr.agree grows callee) (fun _ type found known => ?_)
      fun calleeType calleeType' alike => ?_) _ fun a b same => by simpa [Prod.ext_iff] using same
    · exact known_of_unlessPending found known
    · refine Agree.unlessPending alike fun settled => ?_
      obtain rfl := alike settled
      -- The second look counts the arguments that the first has left.
      have count : ∀ check : Except Fault (List (String × Ty) × Ty),
        (provided check arguments fun signature arguments =>
          judge (fun types => .ok (Ty.ofCall types signature.2))
            (Expr.resolveArguments view signature.1 arguments)).2.length = arguments.length := by
        rintro (_ | signature)
        · rfl
        · exact Expr.resolveArguments_length view signature.1 arguments
      rw [count]
      refine Agree.provided_same _ fun signature _ => ?_
      exact (Expr.argumentsAgree grows signature.1 arguments).map fun types known =>
        ⟨Ty.allKnown_of_first known, rfl⟩

theorem Expr.fieldsAgree (grows : view.GrowsTo later) :
    ∀ (seen : List String) (fields : List (String × Expr)),
    Agree (fun types => Ty.AllKnown (types.map (·.2))) (Expr.resolveFields view seen fields)
      (Expr.resolveFields later seen fields)
      (Expr.resolveFields later seen (Expr.resolveFields view seen fields).2)
  | _, [] => by
    simp only [Expr.resolveFields]
    exact .same _
  | seen, (name, value) :: rest => by
    cases repeated : seen.contains name with
    | true =>
      simp only [Expr.resolveFields, repeated, ↓reduceIte]
      exact .same _
    | false =>
      simp only [Expr.resolveFields_cons _ repeated, snd_into]
      refine Agree.into (Agree.inTurn (Expr.agree grows value) (fun type types found known => ?_)
        fun type type' alike => ?_) _ fun a b same => by simpa [Prod.ext_iff] using same
      · obtain ⟨others, rfl⟩ := exists_of_judge found
        exact known type (by simp)
      · refine (Expr.fieldsAgree grows (name :: seen) rest).map fun types known => ?_
        obtain ⟨settled, known⟩ := List.forall_mem_cons.1 known
        exact ⟨known, by rw [alike settled]⟩

/-- The later visits may know the element type already where the early one does not. -/
theorem Expr.elementsAgree (grows : view.GrowsTo later) :
    ∀ (elements : List Expr) (base base' : Option Ty),
    (∀ type, base = some type → base' = some type) →
    Agree (fun types => base' = base ∧ Ty.AllKnown types)
      (Expr.resolveElements view base elements) (Expr.resolveElements later base' elements)
      (Expr.resolveElements later base' (Expr.resolveElements view base elements).2)
  | [], _, _, _ => by
    simp only [Expr.resolveElements]
    exact .same _
  | element :: rest, base, base', ahead => by
    simp only [Expr.resolveElements_cons, snd_into]
    refine Agree.into (Agree.inTurn (Expr.agree grows element) (fun type types found known => ?_)
      fun type type' alike => ?_) _ fun a b same => by simpa [Prod.ext_iff] using same
    · obtain ⟨_, -, onRest⟩ := exists_of_provided found
      obtain ⟨others, rfl⟩ := exists_of_judge onRest
      exact known.2 type (by simp)
    · refine Agree.provided (fun _ => Ty.join_refused ahead alike) ?_ ?_
      · rintro next types joined onRest ⟨rfl, known⟩
        obtain ⟨others, rfl⟩ := exists_of_judge onRest
        exact ⟨next, by rw [alike (known type (by simp)), joined]⟩
      · intro next next' joined joined'
        have onRest := Expr.elementsAgree grows rest next next'
          (Ty.join_ahead ahead alike joined joined')
        refine onRest.map fun types known => ?_
        obtain ⟨rfl, all⟩ := known
        obtain ⟨settled, others⟩ := List.forall_mem_cons.1 all
        obtain rfl := alike settled
        exact ⟨⟨Except.ok.inj (joined'.symm.trans joined), others⟩, rfl⟩

theorem Expr.argumentsAgree (grows : view.GrowsTo later) :
    ∀ (parameters : List (String × Ty)) (arguments : List Expr),
    Agree Ty.AllKnown (Expr.resolveArguments view parameters arguments)
      (Expr.resolveArguments later parameters arguments)
      (Expr.resolveArguments later parameters (Expr.resolveArguments view parameters arguments).2)
  | _, [] => by
    simp only [Expr.resolveArguments]
    exact .same _
  | [], _ :: _ => by
    simp only [Expr.resolveArguments]
    exact .same _
  | parameter :: parameters, argument :: rest => by
    simp only [Expr.resolveArguments_cons, snd_into]
    refine Agree.into (Agree.inTurn (Expr.agree grows argument) (fun type types found known => ?_)
      fun type type' alike => ?_) _ fun a b same => by simpa [Prod.ext_iff] using same
    · obtain ⟨_, -, onRest⟩ := exists_of_provided found
      obtain ⟨others, rfl⟩ := exists_of_judge onRest
      exact known type (by simp)
    · refine Agree.provided (fun cause failed => ?_) ?_ ?_
      · cases pending : type.isPending with
        | true => simp [Ty.passTo, pending] at failed
        | false => exact ⟨_, alike pending ▸ failed⟩
      · intro done types passed onRest known
        obtain ⟨others, rfl⟩ := exists_of_judge onRest
        exact ⟨done, by rw [alike (known type (by simp)), passed]⟩
      · intro _ _ _ _
        refine (Expr.argumentsAgree grows parameters rest).map fun types known => ?_
        obtain ⟨settled, known⟩ := List.forall_mem_cons.1 known
        exact ⟨known, by rw [alike settled]⟩

end

end Looks

theorem View.GrowsTo.refl (view : View) : view.GrowsTo view :=
  fun _ _ found _ => found

/-- A look that was put off ends as it would have ended without the first try. Whatever names had
types keep them, and others may have got one: then a type that was found stays, a refusal stays a
refusal, and a second look, at what the first has left behind, ends with the very same type or
fault as one at the expression as it was, with the same slots unless it fails. From an unchanged
place a second look changes nothing at all. -/
theorem Expr.resolve_deferred {view later : View} (grows : view.GrowsTo later) (value : Expr) :
    (∀ type, (value.resolve view).1 = .ok type → type.isConcrete = true →
      (value.resolve later).1 = .ok type) ∧
    (∀ cause, (value.resolve view).1 = .error (.refused cause) →
      ∃ fault, (value.resolve later).1 = .error fault ∧
        ((∀ symbol ∈ value.symbols, later symbol.1 ≠ .dangling) →
          ∃ cause', fault = .refused cause')) ∧
    ((value.resolve view).2.resolve later).1 = (value.resolve later).1 ∧
    (∀ type, (value.resolve later).1 = .ok type →
      (value.resolve view).2.resolve later = value.resolve later) ∧
    (value.resolve view).2.resolve view = value.resolve view := by
  have agree := Expr.agree grows value
  have unchanged := Expr.agree (.refl view) value
  refine ⟨fun type found concrete => ?_, fun cause failed => ?_, agree.outcome,
    fun type found => Prod.ext agree.outcome (agree.slots (.inl ⟨type, found⟩)),
    Prod.ext unchanged.outcome (unchanged.slots (.inr rfl))⟩
  · rw [agree.stays type found (Ty.isPending_of_isConcrete concrete), found]
  · obtain ⟨fault, failed⟩ := agree.fails cause failed
    refine ⟨fault, failed, fun inside => ?_⟩
    have names : later.Allows (fun fault => ∃ cause, fault = .refused cause) value.symbols := by
      intro symbol mem
      have here := inside symbol mem
      unfold View.type
      split <;> simp_all
    exact Expr.fails_resolve (fun cause _ => ⟨cause, rfl⟩) later value names fault failed

/-- A place where only `n` has a type. -/
def beforeCallee : View := fun name =>
  if name = "n" then .bound .number else .unbound

/-- The same place once `f` is known. -/
def afterCallee : View := fun name =>
  if name = "f" then .bound (.function [] .boolean) else beforeCallee name

/-- A record whose first field can be typed without `f`, and whose second cannot. -/
def halfBlocked : Expr :=
  .record
    [("pair", .array [.symbol "n" .unresolved, .number ⟨0⟩] .unresolved),
      ("no", .unary .not (.call (.symbol "f" .unresolved) []))]
    .unresolved

theorem resolve_deferred_halfBlocked :
    beforeCallee.GrowsTo afterCallee ∧ (halfBlocked.resolve beforeCallee).1 = .ok (.pending "f") ∧
      ((halfBlocked.resolve beforeCallee).2.resolve afterCallee).1 =
        .ok (.record [("pair", .array .number 2), ("no", .boolean)]) ∧
      (halfBlocked.resolve beforeCallee).2.resolve afterCallee =
        halfBlocked.resolve afterCallee := by
  have grows : beforeCallee.GrowsTo afterCallee := by
    intro name type found _
    by_cases callee : name = "f"
    · simp [beforeCallee, callee] at found
    · simpa [afterCallee, callee] using found
  have direct : (halfBlocked.resolve afterCallee).1 =
      .ok (.record [("pair", .array .number 2), ("no", .boolean)]) := by decide
  obtain ⟨-, -, outcome, slots, -⟩ := Expr.resolve_deferred grows halfBlocked
  exact ⟨grows, by decide, outcome.trans direct, slots _ direct⟩

/-! ## Any number of looks -/

/-- The expression after looks from these places, whatever came of them. -/
def Expr.afterLooks (value : Expr) (views : List View) : Expr :=
  views.foldl (fun value view => (value.resolve view).2) value

theorem Expr.Faithful.afterLooks {value : Expr} (faithful : value.Faithful) (views : List View) :
    (value.afterLooks views).Faithful := by
  induction views generalizing value with
  | nil => exact faithful
  | cons view rest ih => exact ih (Expr.resolve_sound view faithful).faithful

/-- However often an expression has been looked at, and from wherever, a look that gives it a type
leaves it so that it can be read, at that very type. The places need not have anything to do with
each other, and the earlier looks may have failed. -/
theorem Expr.resolve_readable {value : Expr} (fresh : value.isFresh = true) (earlier : List View)
    (view : View) (type : Ty) (found : ((value.afterLooks earlier).resolve view).1 = .ok type)
    (known : type.isPending = false) :
    type.isConcrete = true ∧
      ∃ typed, Typed.Expr.ofExpr ((value.afterLooks earlier).resolve view).2 = .ok typed ∧
        typed.type.toTy = type := by
  have faithful := (Expr.faithful_of_isFresh fresh).afterLooks earlier
  have looked := Expr.resolve_sound view faithful
  have settled := (looked.settled type found).resolve_left (by simp [known])
  obtain ⟨typed, well, plain, same⟩ := settled
  refine ⟨same ▸ typed.type.isConcrete_toTy, typed, ?_, same⟩
  rw [← plain]
  exact well.ofExpr_toExpr

/-- A place where `n` means something else. -/
def elsewhere : View := fun name =>
  if name = "n" then .bound .boolean else afterCallee name

theorem resolve_readable_halfBlocked :
    halfBlocked.isFresh = true ∧
      ((halfBlocked.afterLooks [beforeCallee]).resolve elsewhere).1 =
        .ok (.record [("pair", .array .number 2), ("no", .boolean)]) ∧
      ∃ typed, Typed.Expr.ofExpr ((halfBlocked.afterLooks [beforeCallee]).resolve elsewhere).2 =
          .ok typed ∧
        typed.type.toTy = .record [("pair", .array .number 2), ("no", .boolean)] := by
  have fresh : halfBlocked.isFresh = true := by decide
  have found : ((halfBlocked.afterLooks [beforeCallee]).resolve elsewhere).1 =
      .ok (.record [("pair", .array .number 2), ("no", .boolean)]) := by decide
  exact ⟨fresh, found, (Expr.resolve_readable fresh [beforeCallee] elsewhere _ found (by decide)).2⟩

end Hoist
