import Hoist.Proofs.Check.Tally

/-!
Those who wait. A step leaves who waits for a name alone, unless the name is bound, anew or again, and
looks at one draft at most. What is looked at may go on waiting.

Main statements: `CheckStep.looked`, and that nobody but drafts wait for names and nobody but the
heads of functions for result types (`CheckStep.manned`).
-/
namespace Hoist

namespace Scopes

variable {before between after : Scopes (Deferral Empty)}

/-- Who waits for a name is left alone, unless the name is bound, anew or again. For a result type
more heads of functions may wait. -/
structure Releases (before after : Scopes (Deferral Empty)) : Prop where
  parents : ∀ id parent, before.parent? id = some parent → after.parent? id = some parent
  names : ∀ place name,
    after.waiters place name = [] ∧ (after.binding? place name).isSome = true ∨
      after.waiters place name = before.waiters place name ∧
        after.binding? place name = before.binding? place name
  results : ∀ body, ∀ work ∈ after.resultWaiters body,
    work ∈ before.resultWaiters body ∨ ∃ k, work.errand = .head k

theorem Releases.refl (scopes : Scopes (Deferral Empty)) : scopes.Releases scopes :=
  ⟨fun _ _ => id, fun _ _ => .inr ⟨rfl, rfl⟩, fun _ _ => .inl⟩

theorem Releases.trans (first : before.Releases between) (second : between.Releases after) :
    before.Releases after where
  parents id parent found := second.parents id parent (first.parents id parent found)
  names place name := by
    rcases second.names place name with bound | ⟨waiters, same⟩
    · exact .inl bound
    · simpa only [waiters, same] using first.names place name
  results body work mem := (second.results body work mem).elim (first.results body work) .inr

theorem Bound.releases {scope : ScopeId} {binding : Binding} {work : List (Deferral Empty)}
    (bound : before.Bound after scope binding work) : before.Releases after := by
  refine ⟨fun id _ found => (bound.parent id).trans found, fun place name => ?_,
    fun body work mem => .inl (bound.resultWaiters body ▸ mem)⟩
  rw [bound.waiters, bound.bindings]
  split
  · exact .inl ⟨rfl, rfl⟩
  · exact .inr ⟨rfl, rfl⟩

theorem Changed.releases {body : ScopeId} {result : Ty} {waiting : List (Deferral Empty)}
    (changed : before.Changed after body result waiting)
    (heads : ∀ work ∈ waiting, work ∈ before.resultWaiters body ∨ ∃ k, work.errand = .head k) :
    before.Releases after := by
  refine ⟨fun id _ found => (changed.parent id).trans found, fun place name =>
    .inr ⟨changed.waiters place name, changed.bindings place name⟩, fun other work mem => ?_⟩
  rw [changed.resultWaiters] at mem
  split at mem
  case isTrue same => exact same ▸ heads work mem
  case isFalse => exact .inl mem

end Scopes

namespace Check

variable {σ : Type} {s t m : Checker Empty σ} {id : DraftId} {scope : ScopeId} {work last : Work}
  {names got : List String} {types : List Ty} {before after : Scopes (Deferral Empty)}
  {handed : List (Deferral Empty)} {setting : Setting σ}

theorem Answers.releases {origin : Scopes (Deferral Empty)}
    (answers : Answers scope origin work types m handed t) :
    m.scopes.Releases t.scopes ∧ ∃ scopes journal, t = { m with scopes, journal } := by
  cases answers with
  | assignment | evaluation | agrees => exact ⟨.refl _, _, _, rfl⟩
  | binds ends =>
    obtain ⟨_, updates, rfl⟩ := ends_update.1 ends
    exact ⟨(Scopes.update_eq_ok updates).2.releases, _, _, rfl⟩
  | sets _ _ ends =>
    obtain ⟨_, sets, rfl⟩ := ends_setResult.1 ends
    obtain ⟨_, _, _, _, changes⟩ := Scopes.setResult_eq_ok sets
    exact ⟨changes.releases (by simp), _, _, rfl⟩

theorem Headed.releases {k : SignatureId} {h : SignatureDraft} (headed : Headed k h s t) :
    s.scopes.Releases t.scopes ∧ t.drafts = s.drafts := by
  obtain ⟨_, _, -, rfl, waits⟩ := headed
  refine ⟨?_, rfl⟩
  split at waits
  · obtain ⟨_, _, _, _, changes⟩ := Scopes.awaitResult_eq_ok waits
    refine changes.releases fun work mem => (List.mem_append.1 mem).imp_right fun new => ⟨k, ?_⟩
    rw [List.mem_singleton.1 new]
    rfl
  · exact waits ▸ .refl _

/-- At most one draft is looked at, for the first time or again. -/
theorem CheckStep.looked (checkStep : CheckStep setting s t) :
    s.scopes.Releases t.scopes ∧ t.drafts = s.drafts ∨
      ∃ view id scope work types last m queue,
        Looked view id scope work { s with queue } types last m ∧ m.scopes.Releases t.scopes ∧
        t.drafts = m.drafts ∧
        (id = s.drafts.length ∧ (∀ d, work = .declaration d → setting.declared d) ∨
          ∃ d name, s.drafts[id]? = some d ∧ scope = d.scope ∧ work = d.work.strike name ∧
            view = s.scopes.view scope) := by
  cases checkStep with
  | idle => exact .inl ⟨.refl _, rfl⟩
  | @create _ parent kind _ _ =>
    have created := s.scopes.created_create parent kind
    exact .inl ⟨⟨created.parent_mono, fun place name =>
      .inr ⟨created.waiters place name, created.bindings place name⟩,
      fun body work mem => .inl (created.resultWaiters body ▸ mem)⟩, rfl⟩
  | define done => exact .inl ⟨(Scopes.define_eq_ok done).2.releases, rfl⟩
  | declare _ declared _ _ _ looked =>
    exact .inr ⟨_, _, _, _, _, _, _, s.queue, looked, .refl _, rfl,
      .inl ⟨rfl, fun _ same => by cases same; exact declared⟩⟩
  | reach _ idle _ reviewed =>
    obtain ⟨_, _, _, looked, answers⟩ := reviewed
    obtain ⟨releases, _, _, rfl⟩ := answers.releases
    exact .inr ⟨_, _, _, _, _, _, _, s.queue, looked, releases, rfl,
      .inl ⟨rfl, fun d same => by simp [same, Work.declares] at idle⟩⟩
  | head _ _ _ headed done =>
    obtain ⟨releases, drafts⟩ := headed.releases
    exact .inl ⟨releases.trans (Scopes.define_eq_ok done).2.releases, drafts⟩
  | queueStep queueStep =>
    cases queueStep with
    | resume _ _ here reviewed =>
      obtain ⟨_, _, _, looked, answers⟩ := reviewed
      obtain ⟨releases, _, _, rfl⟩ := answers.releases
      exact .inr ⟨_, _, _, _, _, _, _, _, looked, releases, rfl,
        .inr ⟨_, _, here, rfl, rfl, rfl⟩⟩
    | postpone _ _ _ _ _ headed => exact .inl headed.releases
    | conclude _ _ _ _ _ headed updates =>
      obtain ⟨releases, drafts⟩ := headed.releases
      exact .inl ⟨releases.trans (Scopes.update_eq_ok updates).2.releases, drafts⟩

/-- Nobody but drafts wait for names, and nobody but the heads of functions for result types. -/
structure Manned (scopes : Scopes (Deferral Empty)) : Prop where
  names : ∀ place name, ∀ waiter ∈ scopes.waiters place name, ∃ id, waiter.work.errand = .draft id name
  results : ∀ body, ∀ work ∈ scopes.resultWaiters body, ∃ k, work.errand = .head k

theorem Manned.releases (manned : Manned before) (releases : before.Releases after) :
    Manned after where
  names place name waiter mem := by
    rcases releases.names place name with ⟨nobody, -⟩ | ⟨same, -⟩
    · simp [nobody] at mem
    · exact manned.names place name waiter (same ▸ mem)
  results body work mem := (releases.results body work mem).elim (manned.results body work) id

theorem PutsOff.manned (puts : PutsOff id scope names got work s last t)
    (manned : Manned s.scopes) : Manned t.scopes := by
  induction puts with
  | done => exact manned
  | known _ _ ih => exact ih manned
  | wait _ _ defers _ ih =>
    obtain ⟨place, waiter, scopes, _, core, awaits, rfl⟩ := exists_of_defer defers
    have awaited := Scopes.await_eq_ok awaits
    refine ih ⟨fun spot name someone mem => ?_, fun body work mem =>
      manned.results body work (awaited.resultWaiters body ▸ mem)⟩
    have mem : someone ∈ scopes.waiters spot name := mem
    rw [awaited.waiters] at mem
    split at mem
    case isFalse => exact manned.names spot name someone mem
    case isTrue here =>
      rcases List.mem_append.1 mem with old | new
      · exact manned.names _ _ someone (here.1 ▸ here.2 ▸ old)
      · obtain rfl := List.mem_singleton.1 new
        exact ⟨id, by rw [← Deferral.errand_core, core, here.2]; rfl⟩

theorem CheckStep.manned (checkStep : CheckStep setting s t) (manned : Manned s.scopes) :
    Manned t.scopes := by
  rcases checkStep.looked with
    ⟨releases, -⟩ | ⟨_, _, _, _, _, _, _, _, ⟨_, _, _, _, _, puts⟩, releases, -⟩
  · exact manned.releases releases
  · exact (puts.manned manned).releases releases

theorem manned_initial (store : σ) (budget : Nat) :
    Manned (Checker.initial store budget : Checker Empty σ).scopes := by
  refine ⟨fun place name waiter mem => ?_, fun body work mem => ?_⟩
  · simp [show (Checker.initial store budget : Checker Empty σ).scopes.waiters place name = [] from
      Scopes.waiters_eq_nil rfl place name] at mem
  · cases body <;> cases mem

/-- Who waits for a name has a deferral. -/
theorem mem_live_of_waiter {place : ScopeId} {name : String} {waiter : Waiter (Deferral Empty)}
    (mem : waiter ∈ s.scopes.waiters place name) : waiter.work ∈ s.live := by
  obtain ⟨found, here, among⟩ : ∃ found, s.scopes.all[place]? = some found ∧
      waiter ∈ found.waitingOn name := by
    cases here : s.scopes.all[place]? with
    | none => simp [Scopes.waiters, here] at mem
    | some found => exact ⟨found, rfl, by simpa [Scopes.waiters, here] using mem⟩
  cases listed : found.waiting.find? name with
  | none => simp [Scope.waitingOn, listed] at among
  | some all =>
    have among : waiter ∈ all := by simpa [Scope.waitingOn, listed] using among
    exact List.mem_append_right _ (List.mem_flatMap.2 ⟨found, List.mem_of_getElem? here,
      List.mem_append_left _ (List.mem_flatMap.2 ⟨_, Table.mem_of_first? listed,
        List.mem_map_of_mem among⟩)⟩)

end Check

end Hoist
