import Hoist.Proofs.Check.Look

/-!
The moves on a desk that performing work is made of, and what they leave as it was.
-/
namespace Hoist

namespace Desk

/-- Work that may wait for a name: a draft, or a draft that expects a function. -/
def Awaitable (s : Desk) (scope : ScopeId) (name : String) (work : Deferral Empty) : Prop :=
  ∃ id, work = .resume id name ∨ ∃ position, work = .hoisted 0 name position (.resume id name) ∧
    scope = 0 ∧ (s.scopes.binding? 0 name = none ∨ s.DeclaresAtRoot id name)

/-- A look at the value of a return, which may be missing. -/
def ReturnLook (view : View) : Option Expr → Ty → Option Expr → Prop
  | none, type, after => type = .void ∧ after = none
  | some value, type, after =>
    value.Faithful ∧ ∃ looked, value.resolve view = (.ok type, looked) ∧ after = some looked

inductive Move : Desk → Desk → Prop
  | await {s : Desk} {scope : ScopeId} {name : String} {waiter : Waiter (Deferral Empty)}
      {scopes : Scopes (Deferral Empty)} :
      s.scopes.Awaited scopes scope name waiter → s.Awaitable scope name waiter.work →
      Move s { s with scopes }
  | evaluate {s : Desk} {id : DraftId} {scope : ScopeId} {e : Evaluation} {value : Expr} {type : Ty}
      {drafts : List Draft} :
      (∀ d, s.drafts[id]? = some d → d = ⟨scope, .evaluation e⟩) → e.value.Faithful →
      e.value.resolve (s.scopes.view scope) = (.ok type, value) →
      PutAt s.drafts id ⟨scope, .evaluation { e with value }⟩ drafts →
      Move s { s with drafts }
  | assign {s : Desk} {id : DraftId} {scope : ScopeId} {a : Assignment} {awaited : List String}
      {target : Target} {value : Expr} {targetType valueType : Ty} {drafts : List Draft} :
      (∀ d, s.drafts[id]? = some d → ∃ before, d = ⟨scope, .assignment a before⟩) →
      a.target.Faithful → a.value.Faithful →
      a.target.resolve (s.scopes.view scope) = (.ok targetType, target) →
      a.value.resolve (s.scopes.view scope) = (.ok valueType, value) →
      Check.assignable a.op targetType valueType = .ok () →
      (a.target.isSymbol = true → targetType.isPending = true → a.target.root ∈ awaited) →
      (a.target.root ∈ awaited →
        .resume id a.target.root ∈ s.queue ∨ s.Waiting id scope a.target.root) →
      PutAt s.drafts id ⟨scope, .assignment { a with target, value } awaited⟩ drafts →
      Move s { s with drafts }
  /-- A return that agrees with the result type, or is not known yet. -/
  | confirm {s : Desk} {id : DraftId} {scope : ScopeId} {r : Return} {value : Option Expr}
      {type result : Ty} {body : ScopeId} {drafts : List Draft} :
      (∀ d, s.drafts[id]? = some d → d = ⟨scope, .returns r⟩) →
      ReturnLook (s.scopes.view scope) r.value type value →
      s.scopes.functionBody scope = .ok (some body) → s.scopes.result? body = some result →
      result.isConcrete = true → type.isPending = true ∨ result = type →
      PutAt s.drafts id ⟨scope, .returns { r with value }⟩ drafts →
      Move s { s with drafts }
  /-- A return that sets the result type. -/
  | decide {s : Desk} {id : DraftId} {scope : ScopeId} {r : Return} {value : Option Expr}
      {type result : Ty} {body : ScopeId} {drafts : List Draft}
      {scopes : Scopes (Deferral Empty)} :
      (∀ d, s.drafts[id]? = some d → d = ⟨scope, .returns r⟩) →
      ReturnLook (s.scopes.view scope) r.value type value →
      s.scopes.functionBody scope = .ok (some body) → s.scopes.result? body = some result →
      result.isConcrete = false →
      (result = .unannotated → ∀ h ∈ s.signatures, h.body ≠ body) →
      s.scopes.Changed scopes body type [] →
      PutAt s.drafts id ⟨scope, .returns { r with value }⟩ drafts →
      Move s { s with scopes, drafts, queue := s.queue ++ s.scopes.resultWaiters body }
  | redeclare {s : Desk} {id : DraftId} {scope : ScopeId} {d after : Declaration} {value : Expr}
      {type : Ty} {drafts : List Draft} {scopes : Scopes (Deferral Empty)}
      {work : List (Deferral Empty)} :
      s.drafts[id]? = some ⟨scope, .declaration d⟩ →
      d.value.resolve (s.scopes.view scope) = (.ok type, value) →
      { d with value }.withType type = .ok after →
      s.scopes.Bound scopes scope after.binding work →
      PutAt s.drafts id ⟨scope, .declaration after⟩ drafts →
      Move s { s with scopes, drafts, queue := s.queue ++ work }
  /-- The result type of a function has changed and is still not known. -/
  | postpone {s : Desk} {id : SignatureId} {h : SignatureDraft} {result : Ty}
      {signatures : List SignatureDraft} {scopes : Scopes (Deferral Empty)} :
      s.signatures[id]? = some h → s.scopes.result? h.body = some result →
      result.isPending = true →
      s.scopes.Changed scopes h.body result (s.scopes.resultWaiters h.body ++ [.conclude id]) →
      PutAt s.signatures id { h with signature := { h.signature with result } } signatures →
      Move s { s with scopes, signatures }
  | conclude {s : Desk} {id : SignatureId} {h : SignatureDraft} {result : Ty}
      {signatures : List SignatureDraft} {scopes : Scopes (Deferral Empty)}
      {work : List (Deferral Empty)} :
      s.signatures[id]? = some h → s.scopes.result? h.body = some result →
      result ≠ .unannotated →
      s.scopes.Bound scopes h.scope { h.signature with result }.binding work →
      PutAt s.signatures id { h with signature := { h.signature with result } } signatures →
      Move s { s with scopes, signatures, queue := s.queue ++ work }
  /-- Work that has been performed leaves the queue. -/
  | pop {s : Desk} {work : Deferral Empty} {rest : List (Deferral Empty)} :
      s.queue = work :: rest →
      (∀ name id position, work = .hoisted 0 name position (.resume id name) →
        s.RootFunction name) →
      (∀ id scope a awaited, s.drafts[id]? = some ⟨scope, .assignment a awaited⟩ →
        work = .resume id a.target.root → a.target.root ∈ awaited →
        s.Waiting id scope a.target.root) →
      Move s { s with queue := rest }

/-- What no move changes: the scopes, who binds which names, and what nobody binds. -/
structure Steady (s t : Desk) : Prop where
  parent : ∀ id, t.scopes.parent? id = s.scopes.parent? id
  kind : ∀ id, t.scopes.kind? id = s.scopes.kind? id
  named : ∀ scope name,
    (t.scopes.binding? scope name).isSome = (s.scopes.binding? scope name).isSome
  key : ∀ who, t.key? who = s.key? who
  unowned : ∀ scope name, (∀ who, s.key? who ≠ some (scope, name)) →
    t.scopes.binding? scope name = s.scopes.binding? scope name
  body : ∀ id : SignatureId, t.signatures[id]?.map (·.body) = s.signatures[id]?.map (·.body)

theorem Steady.refl (s : Desk) : Steady s s :=
  ⟨fun _ => rfl, fun _ => rfl, fun _ _ => rfl, fun _ => rfl, fun _ _ _ => rfl, fun _ => rfl⟩

theorem Steady.trans {s m t : Desk} (first : Steady s m) (second : Steady m t) : Steady s t where
  parent id := (second.parent id).trans (first.parent id)
  kind id := (second.kind id).trans (first.kind id)
  named scope name := (second.named scope name).trans (first.named scope name)
  key who := (second.key who).trans (first.key who)
  unowned scope name free :=
    (second.unowned scope name fun who => first.key who ▸ free who).trans
      (first.unowned scope name free)
  body id := (second.body id).trans (first.body id)

/-- Putting a draft in the place of one with the same key changes no key. -/
theorem key?_putAt {s t : Desk} {id : DraftId} {d : Draft} (put : PutAt s.drafts id d t.drafts)
    (heads : t.signatures = s.signatures)
    (same : d.work.declares.map (d.scope, ·) = s.key? (.draft id)) (who : Binder) :
    t.key? who = s.key? who := by
  cases who with
  | head k => simp [key?, heads]
  | draft other =>
    by_cases here : other = id
    · subst here
      rw [← same]
      simp [key?, put other]
    · simp [key?, put other, here]

theorem key?_of_idle {s : Desk} {id : DraftId} {scope : ScopeId} {work : Work}
    (idle : work.declares = none)
    (old : ∀ d, s.drafts[id]? = some d → d.work.declares = none) :
    work.declares.map (scope, ·) = s.key? (.draft id) := by
  rw [idle]
  cases found : s.drafts[id]? with
  | none => simp [key?, found]
  | some d => simp [key?, found, old d found]

section Head

variable {s t : Desk} {id : SignatureId} {h : SignatureDraft} {result : Ty}
  (found : s.signatures[id]? = some h)
  (put : PutAt s.signatures id { h with signature := { h.signature with result } } t.signatures)
include found put

/-- A new result type changes neither the key nor the body of a function's head. -/
theorem key?_putAt_head (drafts : t.drafts = s.drafts) (who : Binder) :
    t.key? who = s.key? who := by
  cases who with
  | draft _ => simp [key?, drafts]
  | head other =>
    by_cases here : other = id
    · subst here
      simp [key?, put other, found]
    · simp [key?, put other, here]

theorem body_putAt_head (other : SignatureId) :
    t.signatures[other]?.map (·.body) = s.signatures[other]?.map (·.body) := by
  by_cases here : other = id
  · subst here
    simp [put other, found]
  · simp [put other, here]

end Head

theorem named_bound {before after : Scopes (Deferral Empty)} {id : ScopeId} {binding : Binding}
    {work : List (Deferral Empty)} (bound : before.Bound after id binding work)
    (known : (before.binding? id binding.name).isSome = true) (scope : ScopeId) (name : String) :
    (after.binding? scope name).isSome = (before.binding? scope name).isSome := by
  rw [bound.bindings]
  split
  · rename_i same
    obtain ⟨rfl, rfl⟩ := same
    exact known.symm
  · rfl

theorem mem_waiters_awaited {before after : Scopes (Deferral Empty)} {place scope : ScopeId}
    {name other : String} {waiter old : Waiter (Deferral Empty)}
    (awaited : before.Awaited after place name waiter) (mem : old ∈ before.waiters scope other) :
    old ∈ after.waiters scope other := by
  rw [awaited.waiters]
  split
  · rename_i here
    obtain ⟨rfl, rfl⟩ := here
    exact List.mem_append_left _ mem
  · exact mem

theorem Move.steady {s t : Desk} (sound : s.Sound) (move : Move s t) : Steady s t := by
  cases move with
  | await awaited _ =>
    exact ⟨awaited.parent, awaited.kind, fun scope name => by rw [awaited.bindings],
      fun _ => rfl, fun scope name _ => awaited.bindings scope name, fun _ => rfl⟩
  | evaluate old _ _ put =>
    exact ⟨fun _ => rfl, fun _ => rfl, fun _ _ => rfl,
      key?_putAt put rfl (key?_of_idle rfl fun d found => by rw [old d found]; rfl),
      fun _ _ _ => rfl, fun _ => rfl⟩
  | assign old _ _ _ _ _ _ _ put =>
    refine ⟨fun _ => rfl, fun _ => rfl, fun _ _ => rfl,
      key?_putAt put rfl (key?_of_idle rfl fun d found => ?_), fun _ _ _ => rfl, fun _ => rfl⟩
    obtain ⟨_, rfl⟩ := old d found
    rfl
  | confirm old _ _ _ _ _ put =>
    exact ⟨fun _ => rfl, fun _ => rfl, fun _ _ => rfl,
      key?_putAt put rfl (key?_of_idle rfl fun d found => by rw [old d found]; rfl),
      fun _ _ _ => rfl, fun _ => rfl⟩
  | decide old _ _ _ _ _ changed put =>
    exact ⟨changed.parent, changed.kind, fun scope name => by rw [changed.bindings],
      key?_putAt put rfl (key?_of_idle rfl fun d found => by rw [old d found]; rfl),
      fun scope name _ => changed.bindings scope name, fun _ => rfl⟩
  | @redeclare id scope d after value type _ _ _ old _ typed bound put =>
    obtain ⟨rfl, _⟩ := Declaration.withType_eq_ok typed
    have key : s.key? (.draft id) = some (scope, d.name) := by simp [key?, old, Work.declares]
    refine ⟨bound.parent, bound.kind, named_bound bound (sound.bound _ _ _ key),
      key?_putAt put rfl key.symm, fun other name free => ?_, fun _ => rfl⟩
    rw [bound.bindings, if_neg]
    rintro ⟨rfl, rfl⟩
    exact free _ key
  | postpone found _ _ changed put =>
    exact ⟨changed.parent, changed.kind, fun scope name => by rw [changed.bindings],
      key?_putAt_head found put rfl, fun scope name _ => changed.bindings scope name,
      body_putAt_head found put⟩
  | @conclude id h _ _ _ _ found _ _ bound put =>
    have key : s.key? (.head id) = some (h.scope, h.signature.name) := by simp [key?, found]
    refine ⟨bound.parent, bound.kind, named_bound bound (sound.bound _ _ _ key),
      key?_putAt_head found put rfl, fun other name free => ?_, body_putAt_head found put⟩
    rw [bound.bindings, if_neg]
    rintro ⟨rfl, rfl⟩
    exact free _ key
  | pop => exact ⟨fun _ => rfl, fun _ => rfl, fun _ _ => rfl, fun _ => rfl, fun _ _ _ => rfl,
      fun _ => rfl⟩

end Desk

end Hoist
