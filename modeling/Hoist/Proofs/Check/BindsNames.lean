import Hoist.Proofs.Check.Extend
import Hoist.Proofs.Check.Owned
import Hoist.Proofs.Check.Runs

/-!
The names that checking binds. From one state of a run to a later one all that is there stays: a
scope where it is, and a name that is bound stays bound. `BindsNames scope names exports` says that a
step binds these names in a scope, where nobody had bound them, and in older scopes no others, and
that it exports only names of the file.

Main statements: `BindsNames.trans`, and one for each way to bind a name (`bindsNames_declaration`,
`bindsNames_importNames`, `bindsNames_defineParameters`, `bindsNames_closeFunction`).
-/
namespace Hoist

namespace Desk

variable {s t : Desk} {scope : ScopeId}

/-! New owners. -/

/-- A name that nobody has bound has no owner. -/
theorem Owned.free (owned : s.Owned) {name : String}
    (unbound : s.scopes.binding? scope name = none) (who : Binder) :
    s.key? who ≠ some (scope, name) := by
  intro key
  have bound := owned.bound key
  simp [unbound] at bound

theorem Owned.define {binding : Binding} {work : List (Deferral Empty)} (owned : s.Owned)
    (unbound : s.scopes.binding? scope binding.name = none)
    (bound : s.scopes.Bound t.scopes scope binding work) (drafts : t.drafts = s.drafts)
    (signatures : t.signatures = s.signatures) : t.Owned := by
  have key (who : Binder) : t.key? who = s.key? who := by
    cases who <;> simp [key?, drafts, signatures]
  have old {who : Binder} {place : ScopeId} {name : String} (theirs : s.key? who = some (place, name)) :
      t.scopes.binding? place name = s.scopes.binding? place name := by
    rw [bound.bindings, if_neg]
    rintro ⟨rfl, rfl⟩
    exact owned.free unbound who theirs
  refine ⟨fun who other key' mine theirs => ?_, fun id place d found => ?_, fun id h found => ?_⟩
  · exact owned.distinct who other key' (key who ▸ mine) (key other ▸ theirs)
  · rw [drafts] at found
    rw [old (key?_draft_iff.2 ⟨d, found, rfl⟩)]
    exact owned.declared id place d found
  · rw [signatures] at found
    obtain ⟨result, bears⟩ := owned.headed id h found
    refine ⟨result, ?_, bears.2⟩
    rw [old (key?_head_iff.2 ⟨h, found, rfl, rfl⟩)]
    exact bears.1

theorem Owned.addDeclaration {d : Declaration} (owned : s.Owned)
    (free : ∀ who, s.key? who ≠ some (scope, d.name))
    (bound : s.scopes.binding? scope d.name = some d.binding) :
    Owned { s with drafts := s.drafts ++ [⟨scope, .declaration d⟩] } := by
  have put := putAt_append s.drafts ⟨scope, .declaration d⟩
  have key (who : Binder) :
      Desk.key? { s with drafts := s.drafts ++ [⟨scope, .declaration d⟩] } who =
        if who = .draft s.drafts.length then some (scope, d.name) else s.key? who := by
    cases who with
    | head id => simp [key?]
    | draft id =>
      simp only [key?, put id, Binder.draft.injEq]
      split <;> simp [Work.declares]
  refine ⟨fun who other key' mine theirs => ?_, fun id place e found => ?_, owned.headed⟩
  · rw [key] at mine theirs
    split at mine <;> split at theirs
    · simp_all
    · exact absurd (theirs.trans mine.symm) (free other)
    · exact absurd (mine.trans theirs.symm) (free who)
    · exact owned.distinct who other key' mine theirs
  · rw [put id] at found
    split at found
    · obtain ⟨rfl, rfl⟩ : scope = place ∧ d = e := by simpa using found
      exact bound
    · exact owned.declared id place e found

theorem Owned.addIdle {draft : Work} (owned : s.Owned) (idle : draft.declares = none) :
    Owned { s with drafts := s.drafts ++ [⟨scope, draft⟩] } := by
  have put := putAt_append s.drafts ⟨scope, draft⟩
  have key : ∀ who, Desk.key? { s with drafts := s.drafts ++ [⟨scope, draft⟩] } who = s.key? who :=
    key?_putAt put rfl (key?_of_idle idle fun d found => by simp at found)
  refine ⟨fun who other key' mine theirs => ?_, fun id place d found => ?_, owned.headed⟩
  · exact owned.distinct who other key' ((key who).symm.trans mine) ((key other).symm.trans theirs)
  · rw [put id] at found
    split at found
    · obtain ⟨-, rfl⟩ : scope = place ∧ draft = .declaration d := by simpa using found
      simp [Work.declares] at idle
    · exact owned.declared id place d found

theorem Owned.addHead {h : SignatureDraft} (owned : s.Owned)
    (free : ∀ who, s.key? who ≠ some (h.scope, h.signature.name)) (heads : s.Heads h) :
    Owned { s with signatures := s.signatures ++ [h] } := by
  have put := putAt_append s.signatures h
  have key (who : Binder) : Desk.key? { s with signatures := s.signatures ++ [h] } who =
      if who = .head s.signatures.length then some (h.scope, h.signature.name)
      else s.key? who := by
    cases who with
    | draft id => simp [key?]
    | head id =>
      simp only [key?, put id, Binder.head.injEq]
      split <;> simp
  refine ⟨fun who other key' mine theirs => ?_, owned.declared, fun id g found => ?_⟩
  · rw [key] at mine theirs
    split at mine <;> split at theirs
    · simp_all
    · exact absurd (theirs.trans mine.symm) (free other)
    · exact absurd (mine.trans theirs.symm) (free who)
    · exact owned.distinct who other key' mine theirs
  · rw [put id] at found
    split at found
    · obtain rfl : h = g := by simpa using found
      exact heads
    · exact owned.headed id g found

end Desk

namespace Check

open Desk

variable {σ : Type} {s m t : Checker Empty σ}

/-- Scopes, names that are bound, drafts and heads stay where they are. -/
structure LayoutKept (s t : Checker Empty σ) : Prop where
  parent : ∀ id parent, s.scopes.parent? id = some parent → t.scopes.parent? id = some parent
  kind : ∀ id kind, s.scopes.kind? id = some kind → t.scopes.kind? id = some kind
  named : ∀ scope name, (s.scopes.binding? scope name).isSome = true →
    (t.scopes.binding? scope name).isSome = true
  draftScope : ∀ (id : DraftId) scope, s.drafts[id]?.map (·.scope) = some scope →
    t.drafts[id]?.map (·.scope) = some scope
  headScope : ∀ (id : SignatureId) scope, s.signatures[id]?.map (·.scope) = some scope →
    t.signatures[id]?.map (·.scope) = some scope

theorem LayoutKept.trans (first : LayoutKept s m) (second : LayoutKept m t) : LayoutKept s t where
  parent id parent before := second.parent id parent (first.parent id parent before)
  kind id kind before := second.kind id kind (first.kind id kind before)
  named scope name before := second.named scope name (first.named scope name before)
  draftScope id scope before := second.draftScope id scope (first.draftScope id scope before)
  headScope id scope before := second.headScope id scope (first.headScope id scope before)

theorem LayoutKept.made (stays : LayoutKept s t) {id : ScopeId}
    (there : (s.scopes.parent? id).isSome = true) : (t.scopes.parent? id).isSome = true := by
  obtain ⟨parent, found⟩ := Option.isSome_iff_exists.1 there
  exact Option.isSome_iff_exists.2 ⟨parent, stays.parent id parent found⟩

theorem LayoutKept.of_layoutFixed (layoutFixed : LayoutFixed (s.desk []) (t.desk [])) :
    LayoutKept s t where
  parent id _ before := (layoutFixed.parent id).trans before
  kind id _ before := (layoutFixed.kind id).trans before
  named scope name before := (layoutFixed.named scope name).trans before
  draftScope id _ before := (layoutFixed.draftScope id).trans before
  headScope id _ before := (layoutFixed.headScope id).trans before

/-- From a checker in which the owners are right to another one these names are bound in the scope,
and at most these are exported, all of them by the file. -/
structure BindsNames (scope : ScopeId) (names exports : List String) (s t : Checker Empty σ) :
    Prop where
  owned : (t.desk []).Owned
  layoutKept : LayoutKept s t
  distinct : names.Nodup
  unbound : ∀ name ∈ names, s.scopes.binding? scope name = none
  bound : ∀ name ∈ names, (t.scopes.binding? scope name).isSome = true
  exported : ∀ place name binding, t.scopes.binding? place name = some binding →
    binding.exported = true →
    (∃ before, s.scopes.binding? place name = some before ∧ before.exported = true) ∨
      place = 0 ∧ name ∈ exports
  /-- In a scope that was there before no other names are bound. -/
  only : ∀ place name, (s.scopes.parent? place).isSome = true →
    (t.scopes.binding? place name).isSome = true →
    (s.scopes.binding? place name).isSome = true ∨ place = scope ∧ name ∈ names

variable {scope : ScopeId} {names others exports more : List String}

theorem BindsNames.trans (first : BindsNames scope names exports s m)
    (second : BindsNames scope others more m t) :
    BindsNames scope (names ++ others) (exports ++ more) s t where
  owned := second.owned
  layoutKept := first.layoutKept.trans second.layoutKept
  distinct := by
    refine List.nodup_append.2 ⟨first.distinct, second.distinct, fun name mem other mem' => ?_⟩
    rintro rfl
    have here := first.bound name mem
    simp [second.unbound name mem'] at here
  unbound name mem := by
    rcases List.mem_append.1 mem with mem | mem
    · exact first.unbound name mem
    · rw [← Option.not_isSome_iff_eq_none]
      intro before
      have here := first.layoutKept.named scope name before
      simp [second.unbound name mem] at here
  bound name mem := by
    rcases List.mem_append.1 mem with mem | mem
    · exact second.layoutKept.named scope name (first.bound name mem)
    · exact second.bound name mem
  exported place name binding bound exported := by
    rcases second.exported place name binding bound exported with ⟨between, bound, exported⟩ | new
    · rcases first.exported place name between bound exported with before | ⟨rfl, mem⟩
      · exact .inl before
      · exact .inr ⟨rfl, List.mem_append_left _ mem⟩
    · exact .inr ⟨new.1, List.mem_append_right _ new.2⟩
  only place name there bound := by
    rcases second.only place name (first.layoutKept.made there) bound with before | ⟨rfl, mem⟩
    · refine (first.only place name there before).imp_right fun new => ⟨new.1, ?_⟩
      exact List.mem_append_left _ new.2
    · exact .inr ⟨rfl, List.mem_append_right _ mem⟩

/-- Names of a scope that was made meanwhile do not count. -/
theorem BindsNames.enclose {inner : ScopeId} (made : BindsNames scope [] [] s m)
    (new : s.scopes.parent? inner = none) (inside : BindsNames inner names exports m t) :
    BindsNames scope [] exports s t where
  owned := inside.owned
  layoutKept := made.layoutKept.trans inside.layoutKept
  distinct := .nil
  unbound := by simp
  bound := by simp
  exported place name binding bound exported := by
    rcases inside.exported place name binding bound exported with ⟨between, bound, exported⟩ | new
    · exact (made.exported place name between bound exported).imp_right (by simp)
    · exact .inr new
  only place name there bound := by
    rcases inside.only place name (made.layoutKept.made there) bound with before | ⟨rfl, -⟩
    · exact made.only place name there before
    · simp [new] at there

theorem BindsNames.of_ownersKept (owned : (s.desk []).Owned) (ownersKept : OwnersKept s t) :
    BindsNames scope [] [] s t where
  owned := ownersKept.owned owned
  layoutKept := .of_layoutFixed (ownersKept.layoutFixed owned)
  distinct := .nil
  unbound := by simp
  bound := by simp
  exported place name binding bound exported := by
    have same := (ownersKept.layoutFixed owned).exported place name
    simp only [Checker.desk, bound, Option.map_some, exported] at same
    obtain ⟨before, old, isExported⟩ := Option.map_eq_some_iff.1 same.symm
    exact .inl ⟨before, old, isExported⟩
  only place name _ bound := .inl (((ownersKept.layoutFixed owned).named place name).symm.trans bound)

theorem BindsNames.refl (owned : (s.desk []).Owned) : BindsNames scope [] [] s s :=
  .of_ownersKept owned (.refl s)

/-! The small steps. -/

variable {position : Position} {binding : Binding} {work : List (Deferral Empty)} {done : Unit}
  {id : DraftId}

theorem bindsNames_createScope {outer inner : ScopeId} {kind : ScopeKind} (owned : (s.desk []).Owned)
    (ends : Ends (createScope (some outer) kind) s inner t) : BindsNames scope [] [] s t := by
  obtain ⟨rfl, rfl⟩ := ends_createScope.1 ends
  have created := s.scopes.created_create outer kind
  refine ⟨owned.of_same created.bindings (fun _ _ _ => .rfl) rfl,
    ⟨created.parent_mono, fun id _ before => ?_, fun place name before => ?_, fun _ _ => id,
      fun _ _ => id⟩, .nil, by simp, by simp, fun place name binding bound exported => ?_,
    fun place name _ bound => ?_⟩
  · obtain ⟨_, here, _⟩ := Option.map_eq_some_iff.1 before
    rwa [created.kind, if_neg (Nat.ne_of_lt (Scopes.lt_size_of_get here))]
  · rwa [created.bindings]
  · exact .inl ⟨binding, by rwa [created.bindings] at bound, exported⟩
  · exact .inl (by rwa [created.bindings] at bound)

/-- The scope is a new one. -/
theorem unmade_of_creates {parent : Option ScopeId} {kind : ScopeKind} {inner : ScopeId}
    (ends : Ends (createScope parent kind) s inner t) : s.scopes.parent? inner = none := by
  rw [(ends_createScope.1 ends).2]
  simp [Scopes.parent?, Scopes.size]

theorem bindsNames_define (owned : (s.desk []).Owned) (root : binding.exported = true → scope = 0)
    (ends : Ends (define scope binding position) s work t) :
    BindsNames scope [binding.name] (if binding.exported then [binding.name] else []) s t := by
  obtain ⟨changed, defines, rfl⟩ := ends_define.1 ends
  obtain ⟨unbound, bound⟩ := Scopes.define_eq_ok defines
  refine ⟨owned.define (t := ⟨changed, s.drafts, s.signatures, s.queue⟩) unbound bound rfl rfl,
    ⟨fun id _ before => (bound.parent id).trans before,
      fun id _ before => (bound.kind id).trans before, fun place name before => ?_, fun _ _ => id,
      fun _ _ => id⟩, by simp, by simpa using unbound, ?_, ?_, fun place name _ there => ?_⟩
  · rw [bound.bindings]
    split
    · rfl
    · exact before
  · simp [bound.bindings]
  · intro place name other there exported
    rw [bound.bindings] at there
    split at there
    case isTrue same =>
      obtain rfl := Option.some.inj there
      exact .inr ⟨same.1.trans (root exported), by simp [same.2, exported]⟩
    case isFalse => exact .inl ⟨other, there, exported⟩
  · rw [bound.bindings] at there
    split at there
    case isTrue same => exact .inr ⟨same.1, by simp [same.2]⟩
    case isFalse => exact .inl there

theorem bindsNames_addDraft {draft : Work} (owned : (t.desk []).Owned)
    (ends : Ends (addDraft scope draft) s id t) : BindsNames scope [] [] s t := by
  obtain ⟨rfl, rfl⟩ := ends_addDraft.1 ends
  refine ⟨owned, ⟨fun _ _ => id, fun _ _ => id, fun _ _ => id, fun other _ before => ?_,
    fun _ _ => id⟩, .nil, by simp, by simp,
    fun place name binding bound exported => .inl ⟨binding, bound, exported⟩,
    fun _ _ _ => .inl⟩
  obtain ⟨d, found, _⟩ := Option.map_eq_some_iff.1 before
  rwa [List.getElem?_append_left (List.getElem?_eq_some_iff.1 found).1]

theorem bindsNames_addIdle {draft : Work} (idle : draft.declares = none) (owned : (s.desk []).Owned)
    (ends : Ends (addDraft scope draft) s id t) : BindsNames scope [] [] s t := by
  refine bindsNames_addDraft ?_ ends
  obtain ⟨rfl, rfl⟩ := ends_addDraft.1 ends
  exact owned.addIdle idle

/-! Heads. A head is kept before its name is bound, so the owners are right again only after both. -/

section Head

variable {inner : ScopeId} {signature : Signature} {changed : Scopes (Deferral Empty)}
  (headed : Headed s.signatures.length ⟨scope, inner, signature⟩ s m) (owned : (s.desk []).Owned)
  (changes : m.scopes.define scope signature.binding = .ok (work, changed))
include headed owned changes

theorem owned_of_head : Owned ⟨changed, m.drafts, m.signatures, m.queue⟩ := by
  obtain ⟨idle, drafts, put⟩ := headed.idle
  obtain ⟨unbound, bound⟩ := Scopes.define_eq_ok changes
  have waits := owned.idle idle
  have heads : Heads ⟨changed, s.drafts, s.signatures, m.queue⟩ ⟨scope, inner, signature⟩ :=
    ⟨signature.result, by simp [bound.bindings, Signature.binding, Signature.type], fun _ => rfl⟩
  have defined : Owned ⟨changed, s.drafts, s.signatures, m.queue⟩ :=
    waits.define unbound bound rfl rfl
  rw [drafts, put.eq_append]
  exact defined.addHead (waits.free unbound) heads

theorem bindsNames_head (root : signature.exported = true → scope = 0) (journal : List Note) :
    BindsNames scope [signature.name] (if signature.exported then [signature.name] else []) s
      { m with scopes := changed, journal } := by
  obtain ⟨idle, drafts, put⟩ := headed.idle
  have waits : OwnersKept s { s with scopes := m.scopes } := .of_idle idle
  have defines : Ends (define scope signature.binding signature.span.start) { s with scopes := m.scopes } work
      { s with
        scopes := changed
        journal := .defined signature.name signature.type scope :: s.journal } :=
    ends_define.2 ⟨changed, changes, rfl⟩
  have bindsNames := (BindsNames.of_ownersKept owned waits).trans
    (bindsNames_define (waits.owned owned) root defines)
  obtain ⟨distinct, declared, heads⟩ := owned_of_head headed owned changes
  refine ⟨⟨distinct, declared, heads⟩,
    ⟨bindsNames.layoutKept.parent, bindsNames.layoutKept.kind, bindsNames.layoutKept.named,
    fun id _ found => by rwa [drafts], fun id _ found => ?_⟩, bindsNames.distinct, bindsNames.unbound,
    bindsNames.bound, bindsNames.exported, bindsNames.only⟩
  obtain ⟨h, here, _⟩ := Option.map_eq_some_iff.1 found
  rwa [put.eq_append, List.getElem?_append_left (List.getElem?_eq_some_iff.1 here).1]

end Head

theorem owned_initial (store : σ) (budget : Nat) :
    ((Checker.initial store budget : Checker Empty σ).desk []).Owned := by
  refine ⟨fun who _ _ mine => ?_, fun id _ _ found => ?_, fun id _ found => ?_⟩
  · cases who <;> simp [Desk.key?, Checker.desk, Checker.initial] at mine
  · simp [Checker.desk, Checker.initial] at found
  · simp [Checker.desk, Checker.initial] at found

/-- Nobody owns a new name while a wave goes on, so its binding is what it was. -/
theorem unclaimed_of_ownersKept {changed : Scopes (Deferral Empty)} {queue : List (Deferral Empty)}
    {journal : List Note} (owned : (s.desk []).Owned)
    (changes : s.scopes.define scope binding = .ok (work, changed))
    (ownersKept : OwnersKept { s with scopes := changed, queue, journal } t) :
    (∀ who, (t.desk []).key? who ≠ some (scope, binding.name)) ∧
      t.scopes.binding? scope binding.name = some binding := by
  obtain ⟨unbound, bound⟩ := Scopes.define_eq_ok changes
  have free := owned.free unbound
  have layoutFixed := ownersKept.layoutFixed (owned.define unbound bound rfl rfl)
  refine ⟨fun who => layoutFixed.key who ▸ free who, ?_⟩
  have kept := layoutFixed.unowned scope binding.name free
  exact kept.trans (by simp [Checker.desk, bound.bindings])

/-! Statements. What becomes of the work that is handed back is left to `settle`. -/

theorem ownersKept_importType {env : Env Empty σ} {name source : String} {type : Ty}
    (ends : Ends (importType env name source position) s type t) : OwnersKept s t := by
  simp only [importType, ends_bind, ends_get, ends_set, and_assoc, exists_and_left,
    exists_eq_left] at ends
  obtain ⟨_, ends⟩ := ends
  split at ends
  · obtain ⟨-, rfl⟩ := ends_pure.1 ends
    exact .of_same rfl rfl rfl
  · simp at ends

section Settle

variable {env : Env Empty σ}
  (settles : ∀ {work s done t}, Ends (env.settle work) s done t → OwnersKept s t)
include settles

theorem bindsNames_settled (owned : (s.desk []).Owned) (root : binding.exported = true → scope = 0)
    (defines : Ends (define scope binding position) s work m)
    (settled : Ends (env.settle work) m done t) :
    BindsNames scope [binding.name] (if binding.exported then [binding.name] else []) s t := by
  have first := bindsNames_define owned root defines
  simpa using first.trans (.of_ownersKept first.owned (settles settled))

theorem bindsNames_declaration {d : Declaration} (owned : (s.desk []).Owned)
    (root : d.exported = true → scope = 0)
    (run : LeafRun env scope (.declare d) s (.draft id) t) :
    BindsNames scope [d.name] (if d.exported then [d.name] else []) s t ∧
      t.drafts[id]?.map (·.scope) = some scope := by
  cases run with
    | @declare _ _ _ after _ _ _ _ n o _ _ _ typed defines settled adds defers
  obtain ⟨same, -⟩ := Declaration.withType_eq_ok typed
  have sameName : after.binding.name = d.name := by rw [same]; rfl
  have sameExported : after.binding.exported = d.exported := by rw [same]; rfl
  rw [← sameExported] at root
  have bindsNames := bindsNames_settled settles owned root defines settled
  obtain ⟨free, bound⟩ : (∀ who, (n.desk []).key? who ≠ some (scope, after.name)) ∧
      n.scopes.binding? scope after.name = some after.binding := by
    obtain ⟨changed, changes, rfl⟩ := ends_define.1 defines
    exact unclaimed_of_ownersKept owned changes (settles settled)
  have added : BindsNames scope [] [] n o := by
    refine bindsNames_addDraft ?_ adds
    obtain ⟨rfl, rfl⟩ := ends_addDraft.1 adds
    exact bindsNames.owned.addDeclaration free bound
  have deferred : OwnersKept o t := by
    unfold deferDeclaration at defers
    split at defers
    · obtain ⟨-, rfl⟩ := ends_pure.1 defers
      exact .refl _
    · exact .of_idle (idle_defer defers)
  have last : BindsNames scope [] [] o t := .of_ownersKept added.owned deferred
  refine ⟨?_, last.layoutKept.draftScope _ _ ?_⟩
  · simpa [sameName, sameExported] using bindsNames.trans (added.trans last)
  · simp [drafts_addDraft adds]

theorem bindsNames_importNames {source : String} {names : List String}
    {found : List (String × ConcreteTy)} (owned : (s.desk []).Owned)
    (ends : Ends (importNames env scope source position names) s found t) :
    BindsNames scope names [] s t := by
  induction names generalizing s found with
  | nil =>
    obtain ⟨rfl, rfl⟩ := ends_pure.1 ends
    exact .refl owned
  | cons name rest ih =>
    simp only [importNames, ends_bind, ends_ofCause, ends_pure, and_assoc, exists_and_left,
      exists_eq_left] at ends
    obtain ⟨type, m, gives, known, -, work, n, defines, _, o, settled, others, _, ends, rfl, rfl⟩ := ends
    have gave := ownersKept_importType gives
    have first := bindsNames_settled settles (gave.owned owned) (by simp) defines settled
    simpa using (BindsNames.of_ownersKept owned gave).trans (first.trans (ih first.owned ends))

theorem bindsNames_defineParameters {inner : ScopeId} {parameters : List (String × Ty)}
    (owned : (s.desk []).Owned)
    (ends : Ends (defineParameters env.settle inner position parameters) s done t) :
    BindsNames inner (parameters.map (·.1)) [] s t := by
  induction parameters generalizing s with
  | nil =>
    obtain ⟨-, rfl⟩ := ends_pure.1 ends
    exact .refl owned
  | cons parameter rest ih =>
    simp only [defineParameters, ends_bind] at ends
    obtain ⟨work, m, defines, _, n, settled, ends⟩ := ends
    have first := bindsNames_settled settles owned (by simp) defines settled
    simpa using first.trans (ih first.owned ends)

theorem bindsNames_closeFunction {inner : ScopeId} {signature : Signature} {id : SignatureId}
    (owned : (s.desk []).Owned) (root : signature.exported = true → scope = 0)
    (ends : Ends (closeFunction env.settle scope inner signature) s id t) :
    BindsNames scope [signature.name] (if signature.exported then [signature.name] else []) s t ∧
      t.signatures[id]?.map (·.scope) = some scope := by
  simp only [closeFunction_eq, finishFunction_eq, ends_bind, ends_scopes, ends_ofFault, ends_pure,
    and_assoc, exists_and_left, exists_eq_left] at ends
  obtain ⟨result?, -, id, m, keeps, work, n, defines, _, _, settled, rfl, rfl⟩ := ends
  obtain ⟨rfl, m, journal, headed, rfl⟩ := headed_addHead keeps
  obtain ⟨changed, changes, rfl⟩ := ends_define.1 defines
  have defined := bindsNames_head headed owned changes root
  have last : BindsNames scope [] [] _ t := .of_ownersKept (defined _).owned (settles settled)
  refine ⟨by simpa [Signature.binding] using (defined _).trans last, last.layoutKept.headScope _ _ ?_⟩
  simp [headed.idle.2.2.here]

end Settle

end Check

end Hoist
