import Hoist.Proofs.Check.Move
import Hoist.Proofs.Check.QueueSteps

/-!
Who binds a name, whatever stands in the slots of a program. Between two deferrals a declaration and
the binding of its name say the same, and so do the head of a function and its binding once the
result type is known. Performing deferrals binds no new names, and changes nothing of a binding but
the type, and that only by the one who owns it.

Main statements: `QueueStep.ownersKept` for a deferral and `ownersKept_runWave` for a wave.
-/
namespace Hoist

namespace Desk

variable {s m t : Desk}

/-- The binding of a function has the result type of its head, once that is known. -/
def Heads (s : Desk) (h : SignatureDraft) : Prop :=
  ∃ result, s.scopes.binding? h.scope h.signature.name =
      some ⟨h.signature.name, .function h.signature.parameters result, true,
        h.signature.exported⟩ ∧
    (h.signature.result.isConcrete = true → result = h.signature.result)

structure Owned (s : Desk) : Prop where
  distinct : ∀ who other key, s.key? who = some key → s.key? other = some key → who = other
  declared : ∀ (id : DraftId) scope d, s.drafts[id]? = some ⟨scope, .declaration d⟩ →
    s.scopes.binding? scope d.name = some d.binding
  headed : ∀ (id : SignatureId) h, s.signatures[id]? = some h → s.Heads h

/-- Performing deferrals leaves it as it is which scopes there are, who binds which names in them, and
where drafts and heads stand. -/
structure LayoutFixed (s t : Desk) : Prop extends Steady s t where
  constant : ∀ scope name, (t.scopes.binding? scope name).map (·.constant) =
    (s.scopes.binding? scope name).map (·.constant)
  exported : ∀ scope name, (t.scopes.binding? scope name).map (·.exported) =
    (s.scopes.binding? scope name).map (·.exported)
  draftScope : ∀ id : DraftId, t.drafts[id]?.map (·.scope) = s.drafts[id]?.map (·.scope)
  headScope : ∀ id : SignatureId,
    t.signatures[id]?.map (·.scope) = s.signatures[id]?.map (·.scope)

theorem LayoutFixed.trans (first : LayoutFixed s m) (second : LayoutFixed m t) : LayoutFixed s t :=
  ⟨first.toSteady.trans second.toSteady,
    fun scope name => (second.constant scope name).trans (first.constant scope name),
    fun scope name => (second.exported scope name).trans (first.exported scope name),
    fun id => (second.draftScope id).trans (first.draftScope id),
    fun id => (second.headScope id).trans (first.headScope id)⟩

theorem key?_draft_iff {id : DraftId} {scope : ScopeId} {name : String} :
    s.key? (.draft id) = some (scope, name) ↔
      ∃ d : Declaration, s.drafts[id]? = some ⟨scope, .declaration d⟩ ∧ d.name = name := by
  cases found : s.drafts[id]? with
  | none => simp [key?, found]
  | some draft =>
    obtain ⟨place, work⟩ := draft
    cases work <;> simp [key?, found, Work.declares]

theorem key?_head_iff {id : SignatureId} {scope : ScopeId} {name : String} :
    s.key? (.head id) = some (scope, name) ↔
      ∃ h, s.signatures[id]? = some h ∧ h.scope = scope ∧ h.signature.name = name := by
  cases found : s.signatures[id]? <;> simp [key?, found]

/-- Whoever owns a name has bound it. -/
theorem Owned.bound (owned : s.Owned) {who : Binder} {scope : ScopeId} {name : String}
    (key : s.key? who = some (scope, name)) : (s.scopes.binding? scope name).isSome = true := by
  cases who with
  | draft id =>
    obtain ⟨d, found, rfl⟩ := key?_draft_iff.1 key
    simp [owned.declared id scope d found]
  | head id =>
    obtain ⟨h, found, rfl, rfl⟩ := key?_head_iff.1 key
    obtain ⟨result, bound, _⟩ := owned.headed id h found
    simp [bound]

/-! Steps that have nothing to do with bindings. -/

structure Idle (s t : Desk) : Prop where
  parent : ∀ id, t.scopes.parent? id = s.scopes.parent? id
  kind : ∀ id, t.scopes.kind? id = s.scopes.kind? id
  bindings : ∀ scope name, t.scopes.binding? scope name = s.scopes.binding? scope name
  declarations : ∀ (id : DraftId) scope d, t.drafts[id]? = some ⟨scope, .declaration d⟩ ↔
    s.drafts[id]? = some ⟨scope, .declaration d⟩
  draftScope : ∀ id : DraftId, t.drafts[id]?.map (·.scope) = s.drafts[id]?.map (·.scope)
  signatures : t.signatures = s.signatures

theorem Idle.refl (s : Desk) : Idle s s :=
  ⟨fun _ => rfl, fun _ => rfl, fun _ _ => rfl, fun _ _ _ => .rfl, fun _ => rfl, rfl⟩

theorem key?_of_declarations
    (declarations : ∀ (id : DraftId) scope d, t.drafts[id]? = some ⟨scope, .declaration d⟩ ↔
      s.drafts[id]? = some ⟨scope, .declaration d⟩)
    (signatures : t.signatures = s.signatures) (who : Binder) : t.key? who = s.key? who := by
  cases who with
  | draft id =>
    refine Option.ext fun key => ?_
    obtain ⟨scope, name⟩ := key
    simp only [key?_draft_iff, declarations]
  | head id => simp [key?, signatures]

/-- Everyone has the names and bindings that they had. -/
theorem Owned.of_same (owned : s.Owned)
    (bindings : ∀ scope name, t.scopes.binding? scope name = s.scopes.binding? scope name)
    (declarations : ∀ (id : DraftId) scope d, t.drafts[id]? = some ⟨scope, .declaration d⟩ ↔
      s.drafts[id]? = some ⟨scope, .declaration d⟩)
    (signatures : t.signatures = s.signatures) : t.Owned where
  distinct who other key mine theirs := owned.distinct who other key
    (key?_of_declarations declarations signatures who ▸ mine)
    (key?_of_declarations declarations signatures other ▸ theirs)
  declared id scope d found := by
    rw [bindings]
    exact owned.declared id scope d ((declarations id scope d).1 found)
  headed id h found := by
    rw [signatures] at found
    simpa only [Heads, bindings] using owned.headed id h found

theorem Idle.key (idle : Idle s t) : ∀ who, t.key? who = s.key? who :=
  key?_of_declarations idle.declarations idle.signatures

theorem Idle.layoutFixed (idle : Idle s t) : LayoutFixed s t where
  parent := idle.parent
  kind := idle.kind
  named scope name := by rw [idle.bindings]
  key := idle.key
  unowned scope name _ := idle.bindings scope name
  body id := by rw [idle.signatures]
  constant scope name := by rw [idle.bindings]
  exported scope name := by rw [idle.bindings]
  draftScope := idle.draftScope
  headScope id := by rw [idle.signatures]

theorem Owned.idle (owned : s.Owned) (idle : Idle s t) : t.Owned :=
  owned.of_same idle.bindings idle.declarations idle.signatures

/-! Steps that change a binding. The owner changes along with it, and nobody else owns it. -/

section Bound

variable {who : Binder} {scope : ScopeId} {binding : Binding} {work : List (Deferral Empty)}
  (mine : s.key? who = some (scope, binding.name))
  (bound : s.scopes.Bound t.scopes scope binding work)
include mine bound

theorem Owned.binding?_of_ne {other : Binder} {place : ScopeId} {name : String} (owned : s.Owned)
    (different : other ≠ who) (theirs : s.key? other = some (place, name)) :
    t.scopes.binding? place name = s.scopes.binding? place name := by
  rw [bound.bindings, if_neg]
  rintro ⟨rfl, rfl⟩
  exact different (owned.distinct _ _ _ theirs mine)

theorem layoutFixed_of_bound {before : Binding} (key : ∀ who, t.key? who = s.key? who)
    (old : s.scopes.binding? scope binding.name = some before)
    (constant : binding.constant = before.constant) (exported : binding.exported = before.exported)
    (body : ∀ id : SignatureId, t.signatures[id]?.map (·.body) = s.signatures[id]?.map (·.body))
    (draftScope : ∀ id : DraftId, t.drafts[id]?.map (·.scope) = s.drafts[id]?.map (·.scope))
    (headScope : ∀ id : SignatureId,
      t.signatures[id]?.map (·.scope) = s.signatures[id]?.map (·.scope)) : LayoutFixed s t where
  parent := bound.parent
  kind := bound.kind
  named := named_bound bound (by simp [old])
  key := key
  unowned place name free := by
    rw [bound.bindings, if_neg]
    rintro ⟨rfl, rfl⟩
    exact free who mine
  body := body
  constant place name := by
    rw [bound.bindings]
    split
    case isTrue same =>
      obtain ⟨rfl, rfl⟩ := same
      simp [old, constant]
    case isFalse => rfl
  exported place name := by
    rw [bound.bindings]
    split
    case isTrue same =>
      obtain ⟨rfl, rfl⟩ := same
      simp [old, exported]
    case isFalse => rfl
  draftScope := draftScope
  headScope := headScope

end Bound

theorem Owned.redeclare {id : DraftId} {scope : ScopeId} {d after : Declaration}
    {work : List (Deferral Empty)} (owned : s.Owned)
    (found : s.drafts[id]? = some ⟨scope, .declaration d⟩)
    (put : PutAt s.drafts id ⟨scope, .declaration after⟩ t.drafts)
    (heads : t.signatures = s.signatures)
    (bound : s.scopes.Bound t.scopes scope after.binding work)
    (name : after.name = d.name) (constant : after.constant = d.constant)
    (exported : after.exported = d.exported) :
    t.Owned ∧ LayoutFixed s t := by
  have mine : s.key? (.draft id) = some (scope, after.binding.name) :=
    key?_draft_iff.2 ⟨d, found, name.symm⟩
  have key := key?_putAt put heads mine.symm
  have old : s.scopes.binding? scope after.binding.name = some d.binding := by
    rw [show after.binding.name = d.name from name]
    exact owned.declared id scope d found
  have draftScope (other : DraftId) :
      t.drafts[other]?.map (·.scope) = s.drafts[other]?.map (·.scope) := by
    by_cases same : other = id
    · subst same
      simp [put other, found]
    · simp [put other, same]
  refine ⟨⟨?_, ?_, ?_⟩, layoutFixed_of_bound mine bound key old constant exported
    (fun _ => by rw [heads]) draftScope fun _ => by rw [heads]⟩
  · intro who other key' mine theirs
    rw [key] at mine theirs
    exact owned.distinct who other key' mine theirs
  · intro other place e isThere
    by_cases same : other = id
    · subst same
      obtain ⟨rfl, rfl⟩ : scope = place ∧ after = e := by simpa [put other] using isThere
      simp [bound.bindings, Declaration.binding]
    · rw [put other, if_neg same] at isThere
      rw [Owned.binding?_of_ne mine bound owned (by simpa using same) (key?_draft_iff.2 ⟨e, isThere, rfl⟩)]
      exact owned.declared other place e isThere
  · intro other h isThere
    rw [heads] at isThere
    obtain ⟨result, bears⟩ := owned.headed other h isThere
    refine ⟨result, ?_, bears.2⟩
    rw [Owned.binding?_of_ne mine bound owned (by simp) (key?_head_iff.2 ⟨h, isThere, rfl, rfl⟩)]
    exact bears.1

section Head

variable {id : SignatureId} {h : SignatureDraft} {result : Ty}
  (found : s.signatures[id]? = some h)
  (put : PutAt s.signatures id { h with signature := { h.signature with result } } t.signatures)
include found put

theorem headScope_putAt (other : SignatureId) :
    t.signatures[other]?.map (·.scope) = s.signatures[other]?.map (·.scope) := by
  by_cases same : other = id
  · subst same
    simp [put other, found]
  · simp [put other, same]

theorem Owned.conclude {work : List (Deferral Empty)} (owned : s.Owned)
    (drafts : t.drafts = s.drafts)
    (bound : s.scopes.Bound t.scopes h.scope { h.signature with result }.binding work) :
    t.Owned ∧ LayoutFixed s t := by
  have mine : s.key? (.head id) = some (h.scope, { h.signature with result }.binding.name) :=
    key?_head_iff.2 ⟨h, found, rfl, rfl⟩
  have key := key?_putAt_head found put drafts
  obtain ⟨before, old, -⟩ := owned.headed id h found
  refine ⟨⟨?_, ?_, ?_⟩, layoutFixed_of_bound mine bound key old rfl rfl
    (body_putAt_head found put) (fun _ => by rw [drafts]) (headScope_putAt found put)⟩
  · intro who other key' mine theirs
    rw [key] at mine theirs
    exact owned.distinct who other key' mine theirs
  · intro other place e isThere
    rw [drafts] at isThere
    rw [Owned.binding?_of_ne mine bound owned (by simp) (key?_draft_iff.2 ⟨e, isThere, rfl⟩)]
    exact owned.declared other place e isThere
  · intro other g isThere
    by_cases same : other = id
    · subst same
      obtain rfl : { h with signature := { h.signature with result } } = g := by
        simpa [put other] using isThere
      exact ⟨result, by simp [bound.bindings, Signature.binding, Signature.type], fun _ => rfl⟩
    · rw [put other, if_neg same] at isThere
      obtain ⟨later, bears⟩ := owned.headed other g isThere
      refine ⟨later, ?_, bears.2⟩
      rw [Owned.binding?_of_ne mine bound owned (by simpa using same)
        (key?_head_iff.2 ⟨g, isThere, rfl, rfl⟩)]
      exact bears.1

/-- A result type that is not known need not be in the binding. -/
theorem Owned.postpone (owned : s.Owned) (drafts : t.drafts = s.drafts)
    (unknown : result.isConcrete = false)
    (parent : ∀ id, t.scopes.parent? id = s.scopes.parent? id)
    (kind : ∀ id, t.scopes.kind? id = s.scopes.kind? id)
    (bindings : ∀ scope name, t.scopes.binding? scope name = s.scopes.binding? scope name) :
    t.Owned ∧ LayoutFixed s t := by
  have key := key?_putAt_head found put drafts
  refine ⟨⟨?_, ?_, ?_⟩, ⟨⟨parent, kind, fun _ _ => by rw [bindings], key,
    fun scope name _ => bindings scope name, body_putAt_head found put⟩,
    fun _ _ => by rw [bindings], fun _ _ => by rw [bindings], fun _ => by rw [drafts],
    headScope_putAt found put⟩⟩
  · intro who other key' mine theirs
    rw [key] at mine theirs
    exact owned.distinct who other key' mine theirs
  · intro other place e isThere
    rw [drafts] at isThere
    rw [bindings]
    exact owned.declared other place e isThere
  · intro other g isThere
    simp only [Heads, bindings]
    by_cases same : other = id
    · subst same
      obtain rfl : { h with signature := { h.signature with result } } = g := by
        simpa [put other] using isThere
      obtain ⟨before, old, -⟩ := owned.headed other h found
      exact ⟨before, old, by simp [unknown]⟩
    · rw [put other, if_neg same] at isThere
      exact owned.headed other g isThere

end Head

end Desk

namespace Check

open Desk

variable {σ : Type} {s m t : Checker Empty σ}

/-- The owners stay, and the step leaves all that performing deferrals leaves. -/
structure OwnersKept (s t : Checker Empty σ) : Prop where
  owned : (s.desk []).Owned → (t.desk []).Owned
  layoutFixed : (s.desk []).Owned → LayoutFixed (s.desk []) (t.desk [])

theorem OwnersKept.trans (first : OwnersKept s m) (second : OwnersKept m t) : OwnersKept s t :=
  ⟨fun owned => second.owned (first.owned owned),
    fun owned => (first.layoutFixed owned).trans (second.layoutFixed (first.owned owned))⟩

theorem OwnersKept.of_idle (idle : Idle (s.desk []) (t.desk [])) : OwnersKept s t :=
  ⟨fun owned => owned.idle idle, fun _ => idle.layoutFixed⟩

/-- The queue, the budget, the store and the notes do not matter. -/
theorem OwnersKept.of_same (scopes : t.scopes = s.scopes) (drafts : t.drafts = s.drafts)
    (signatures : t.signatures = s.signatures) : OwnersKept s t :=
  .of_idle ⟨by simp [Checker.desk, scopes], by simp [Checker.desk, scopes],
    by simp [Checker.desk, scopes], by simp [Checker.desk, drafts],
    by simp [Checker.desk, drafts], signatures⟩

theorem OwnersKept.refl (s : Checker Empty σ) : OwnersKept s s :=
  .of_same rfl rfl rfl

theorem OwnersKept.since (ownersKept : OwnersKept m t) (scopes : m.scopes = s.scopes)
    (drafts : m.drafts = s.drafts) (signatures : m.signatures = s.signatures) : OwnersKept s t :=
  (OwnersKept.of_same scopes drafts signatures).trans ownersKept

theorem OwnersKept.until (ownersKept : OwnersKept s m) (scopes : t.scopes = m.scopes)
    (drafts : t.drafts = m.drafts) (signatures : t.signatures = m.signatures) : OwnersKept s t :=
  ownersKept.trans (.of_same scopes drafts signatures)

/-! What is looked at again. -/

variable {scope : ScopeId} {position : Position} {name : String} {work before : Work} {done : Unit}
  {id : DraftId}

/-- A draft that declares nothing is put in the place of another one. -/
theorem idle_putAt {after : Work} (put : PutAt s.drafts id ⟨scope, after⟩ t.drafts)
    (found : s.drafts[id]? = some ⟨scope, before⟩) (idle : before.declares = none)
    (idle' : after.declares = none) (calm : s.scopes.Calm t.scopes)
    (signatures : t.signatures = s.signatures) : Idle (s.desk []) (t.desk []) := by
  refine ⟨calm.parent, calm.kind, calm.bindings, fun other place d => ?_, fun other => ?_, signatures⟩
  · by_cases same : other = id
    · subst same
      simp only [Checker.desk, put other, ↓reduceIte, found, Option.some.injEq, Draft.mk.injEq]
      constructor
      · rintro ⟨_, rfl⟩
        simp [Work.declares] at idle'
      · rintro ⟨_, rfl⟩
        simp [Work.declares] at idle
    · simp [Checker.desk, put other, same]
  · by_cases same : other = id
    · subst same
      simp [Checker.desk, put other, found]
    · simp [Checker.desk, put other, same]

theorem idle_defer {declared : Option String}
    (ends : Ends (defer scope name declared (.resume id name) position) s done t) :
    Idle (s.desk []) (t.desk []) := by
  obtain ⟨_, _, _, _, -, awaits, rfl⟩ := exists_of_defer ends
  have calm := (Scopes.await_eq_ok awaits).calm
  exact ⟨calm.parent, calm.kind, calm.bindings, fun _ _ _ => .rfl, fun _ => rfl, rfl⟩

/-- A declaration and its binding change together, and other statements change nothing that matters. -/
theorem Reviewed.ownersKept {handed : List (Deferral Empty)}
    (reviewed : Reviewed id scope work s handed t) (found : s.drafts[id]? = some ⟨scope, before⟩)
    (same : ∀ d, work = .declaration d ↔ before = .declaration d) : OwnersKept s t := by
  obtain ⟨types, last, m, looked, answers⟩ := reviewed
  have put := looked.putAt
  have calm := looked.calm
  have signatures := looked.signatures
  have quiet (idle : work.declares = none) (idle' : last.declares = none) : OwnersKept s m := by
    refine .of_idle (idle_putAt put found ?_ idle' calm signatures)
    cases before with
    | declaration d => simp [(same d).2 rfl, Work.declares] at idle
    | _ => rfl
  have looks := looked.looks
  cases answers with
  | assignment => cases looks with | assignment => exact quiet rfl rfl
  | evaluation => cases looks with | evaluation => exact quiet rfl rfl
  | agrees => cases looks <;> exact quiet rfl rfl
  | sets _ _ ends =>
    obtain ⟨_, sets, rfl⟩ := ends_setResult.1 ends
    obtain ⟨_, _, _, _, changes⟩ := Scopes.setResult_eq_ok sets
    refine OwnersKept.trans (m := m) (by cases looks <;> exact quiet rfl rfl) (.of_idle ?_)
    exact ⟨changes.parent, changes.kind, changes.bindings, fun _ _ _ => .rfl, fun _ => rfl, rfl⟩
  | binds ends =>
    cases looks with
    | @declaration d _ _ _ _ =>
      obtain rfl := (same d).1 rfl
      obtain ⟨_, updates, rfl⟩ := ends_update.1 ends
      have idle : Idle (s.desk []) ⟨m.scopes, s.drafts, s.signatures, s.queue⟩ :=
        ⟨calm.parent, calm.kind, calm.bindings, fun _ _ _ => .rfl, fun _ => rfl, rfl⟩
      have both (owned : (s.desk []).Owned) := (owned.idle idle).redeclare
        (t := ⟨_, m.drafts, m.signatures, m.queue⟩) found put signatures
        (Scopes.update_eq_ok updates).2 rfl rfl rfl
      exact ⟨fun owned => (both owned).1, fun owned => idle.layoutFixed.trans (both owned).2⟩

theorem ownersKept_checkAssignment {a : Assignment}
    (found : s.drafts[id]? = some ⟨scope, .assignment a []⟩)
    (ends : Ends (checkAssignment id scope a []) s done t) : OwnersKept s t := by
  obtain ⟨_, _, _, looked⟩ := looked_checkAssignment (List.getElem?_eq_some_iff.1 found).1 ends
  exact Reviewed.ownersKept ⟨_, _, _, looked, .assignment⟩ found fun _ => .rfl

theorem ownersKept_checkEvaluation {e : Evaluation}
    (found : s.drafts[id]? = some ⟨scope, .evaluation e⟩)
    (ends : Ends (checkEvaluation id scope e) s done t) : OwnersKept s t := by
  obtain ⟨_, _, looked⟩ := looked_checkEvaluation (List.getElem?_eq_some_iff.1 found).1 ends
  exact Reviewed.ownersKept ⟨_, _, _, looked, .evaluation⟩ found fun _ => .rfl

theorem ownersKept_checkReturn {settle : List (Deferral Empty) → Check Empty σ Unit}
    (settles : ∀ {work s done t}, Ends (settle work) s done t → OwnersKept s t) {r : Return}
    (found : s.drafts[id]? = some ⟨scope, .returns r⟩)
    (ends : Ends (checkReturn settle id scope r) s done t) : OwnersKept s t := by
  rw [checkReturn_judge, ends_bind] at ends
  obtain ⟨handed, m, judges, settled⟩ := ends
  refine ((reviewed_judgeReturn found judges).ownersKept found fun _ => .rfl).trans ?_
  cases handed with
  | none =>
    obtain ⟨-, rfl⟩ := ends_pure.1 settled
    exact .refl _
  | some work => exact settles settled

/-! Waves. -/

/-- Who waits for a result type does not matter. -/
theorem Headed.idle {k : SignatureId} {h : SignatureDraft} (headed : Headed k h s t) :
    Idle (s.desk []) ⟨t.scopes, s.drafts, s.signatures, s.queue⟩ ∧ t.drafts = s.drafts ∧
      PutAt s.signatures k h t.signatures := by
  obtain ⟨_, scopes, put, rfl, waits⟩ := headed
  refine ⟨?_, rfl, put⟩
  split at waits
  · obtain ⟨_, _, _, _, changes⟩ := Scopes.awaitResult_eq_ok waits
    exact ⟨changes.parent, changes.kind, changes.bindings, fun _ _ _ => .rfl, fun _ => rfl, rfl⟩
  · exact waits ▸ .refl _

theorem QueueStep.ownersKept (queueStep : QueueStep s t) : OwnersKept s t := by
  cases queueStep with
  | @resume _ _ _ _ _ name d _ _ here reviewed =>
    refine OwnersKept.until (OwnersKept.since (reviewed.ownersKept here fun e => ?_) rfl rfl rfl)
      rfl rfl rfl
    cases d.work <;> simp [Work.strike]
  | postpone _ _ here _ pending headed =>
    obtain ⟨idle, drafts, put⟩ := headed.idle
    have unknown {type : Ty} (waits : type.isPending = true) : type.isConcrete = false :=
      Bool.eq_false_iff.2 fun concrete => by simp [Ty.isPending_of_isConcrete concrete] at waits
    have both (owned : (s.desk []).Owned) := Owned.postpone (t := t.desk []) here put owned drafts
      (unknown pending) idle.parent idle.kind idle.bindings
    exact ⟨fun owned => (both owned).1, fun owned => (both owned).2⟩
  | @conclude m _ _ handed _ _ _ scopes _ _ here _ _ headed changes =>
    obtain ⟨⟨parent, kind, bindings, declarations, draftScope, signatures⟩, drafts, put⟩ :=
      headed.idle
    have idle : Idle (s.desk []) ⟨m.scopes, s.drafts, s.signatures, s.queue⟩ :=
      ⟨parent, kind, bindings, declarations, draftScope, signatures⟩
    have both (owned : (s.desk []).Owned) := Owned.conclude
      (t := Checker.desk { m with scopes, queue := m.queue ++ handed } []) here put
      (owned.idle idle) drafts (Scopes.update_eq_ok changes).2
    exact ⟨fun owned => (both owned).1, fun owned => idle.layoutFixed.trans (both owned).2⟩

theorem QueueSteps.ownersKept (queueSteps : QueueSteps s t) : OwnersKept s t := by
  induction queueSteps with
  | refl => exact .refl s
  | tail _ queueStep ih =>
    rcases queueStep with queueStep | ⟨_, _, _, rfl⟩
    · exact ih.trans queueStep.ownersKept
    · exact ih.trans (.of_same rfl rfl rfl)

theorem ownersKept_runWave {client : Empty → Check Empty σ Unit} {handed : List (Deferral Empty)}
    (ends : Ends (runWave client handed) s done t) : OwnersKept s t :=
  ((continues_runWave client handed s).of_ends ends).ownersKept.since rfl rfl rfl

end Check

end Hoist
