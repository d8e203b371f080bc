import Hoist.Proofs.Check.Answered
import Hoist.Proofs.Check.Defer
import Hoist.Proofs.Check.Later
import Hoist.Proofs.Check.Manned

/-!
Nobody waits in vain. A draft that waits for a name and is no assignment has not found its type. An
assignment may wait for several names: for bindings whose types are not known, and in the outermost
scope for names that none of the scopes around it had bound when it was reached. Which names these are
is said by a `Site` of the text.

Main statement: no step leaves anybody waiting without a reason (`CheckSteps.waits`).
-/
namespace Hoist

/-- An assignment in the text: the names that it mentions, those that the blocks around it have
declared before it, and those that they declare behind it. -/
structure Site where
  names : List String
  before : List String
  behind : List String

namespace Work

variable {work after : Work} {view : View} {types : List Ty} {name : String}

/-- The last look at the expression that the statement is about found no type. -/
def Stuck (work : Work) : Prop :=
  ∃ value type, work.value? = some value ∧ value.Seen type ∧ type.isPending = true

/-- A statement that is stuck cannot be read. -/
theorem Stuck.unread {work : Work} {leaf : Typed.Leaf} (stuck : work.Stuck) :
    work.complete ≠ .ok leaf := by
  obtain ⟨value, type, about, seen, pending⟩ := stuck
  have unread (typed : Typed.Expr) : Typed.Expr.ofExpr value ≠ .ok typed := by
    intro read
    obtain ⟨-, rfl⟩ := seen.read read
    simp at pending
  intro completes
  cases work with
  | declaration d =>
    obtain rfl := Option.some.inj about
    simp only [complete, Declaration.complete, bind_eq_ok] at completes
    obtain ⟨_, _, typed, read, _⟩ := completes
    exact unread typed read
  | assignment a awaited =>
    obtain rfl := Option.some.inj about
    simp only [complete, Assignment.complete, bind_eq_ok] at completes
    obtain ⟨_, _, typed, read, _⟩ := completes
    exact unread typed read
  | returns r =>
    have about : r.value = some value := about
    simp only [complete, Return.complete, about, bind_eq_ok] at completes
    obtain ⟨typed, read, _⟩ := completes
    exact unread typed read
  | evaluation e =>
    obtain rfl := Option.some.inj about
    simp only [complete, Evaluation.complete, bind_eq_ok] at completes
    obtain ⟨typed, read, _⟩ := completes
    exact unread typed read

theorem LookGives.stuck (looks : work.LookGives view after types) (faithful : work.Faithful)
    (plain : after.assignment? = none) (waits : name ∈ after.awaits) : after.Stuck := by
  rw [looks.awaits plain] at waits
  obtain ⟨type, mem, waits⟩ := List.mem_filterMap.1 waits
  have pending : type.isPending = true := by simp [Ty.isPending, waits]
  cases looks with
  | assignment => simp [assignment?] at plain
  | declaration look _ | evaluation look =>
    obtain rfl := List.mem_singleton.1 mem
    exact ⟨_, type, rfl, ⟨_, view, faithful.1 _ rfl, look⟩, pending⟩
  | bare =>
    obtain rfl := List.mem_singleton.1 mem
    simp [Ty.pendingOn] at waits
  | returns given look =>
    obtain rfl := List.mem_singleton.1 mem
    exact ⟨_, type, rfl, ⟨_, view, faithful.1 _ given, look⟩, pending⟩

/-- What an assignment waits for is mentioned and has no known type. -/
theorem LookGives.unknown {names : List String} (looks : work.LookGives view after types)
    (faithful : work.Faithful) (assigns : work.shape = .assigns names)
    (mem : name ∈ types.filterMap Ty.pendingOn) : name ∈ names ∧ view.knows name = false := by
  obtain ⟨type, among, pending⟩ := List.mem_filterMap.1 mem
  cases looks with
  | assignment onTarget onValue _ =>
    obtain rfl := Shape.assigns.inj assigns
    rcases List.mem_pair.1 among with rfl | rfl
    · exact (Target.waits_of_pending (faithful.2 _ rfl) onTarget pending).imp_left
        (List.mem_append_left _)
    · exact (Expr.waits_of_pending (faithful.1 _ rfl) onValue pending).imp_left
        (List.mem_append_right _)
  | _ => cases assigns

end Work

namespace Scopes

/-- What a name means as seen from a scope is known if the binding that is read has a type. -/
theorem Reads.knows {δ : Type} {scopes : Scopes δ} {id owner : ScopeId} {name : String}
    {binding : Binding} (reads : scopes.Reads id name owner binding) :
    (scopes.view id).knows name = binding.type.isConcrete := by
  obtain ⟨outer, near, far, path, split, unbound, bound⟩ := reads
  have first : (id :: outer).findSome? (scopes.binding? · name) = some binding := by
    rw [split, List.findSome?_append, List.findSome?_eq_none_iff.2 unbound]
    simp [bound]
  simp only [View.knows, path.view_type_eq, first]
  cases known : binding.type.isConcrete <;> simp [known, Ty.isConcrete]

/-- Somebody waits for the name that is the first to be waited for. -/
theorem exists_waiter {δ : Type} {scopes : Scopes δ} (tidy : scopes.Tidy) {name : String}
    {position : Position} (first : scopes.firstWaiting? = some (name, position)) :
    ∃ place waiter, waiter ∈ scopes.waiters place name := by
  obtain ⟨scope, mem, found⟩ := List.exists_of_findSome?_eq_some first
  obtain ⟨⟨key, all⟩, entry, found⟩ := List.exists_of_findSome?_eq_some found
  obtain ⟨waiter, isFirst, same⟩ := Option.map_eq_some_iff.1 found
  obtain rfl : key = name := (Prod.mk.inj same).1
  obtain ⟨place, here⟩ := List.getElem?_of_mem mem
  have listed : scope.waiting.find? key = some all := Table.first?_of_mem (tidy scope mem) entry
  refine ⟨place, waiter, ?_⟩
  simpa [waiters, here, Scope.waitingOn, listed] using List.mem_of_mem_head? isFirst

end Scopes

namespace Check

variable {σ : Type} {s t m : Checker Empty σ} {id other : DraftId} {scope : ScopeId}
  {work last : Work} {names got : List String} {types : List Ty} {view : View}
  {before after : Scopes (Deferral Empty)} {path outer : List ScopeId} {site : Site}

/-! Assignments. -/

/-- Each deferral of an assignment whose scopes outwards are those of a path waits for a reason: for
a type that is not known, or for a name that nobody had declared before. -/
structure Held (id : DraftId) (path : List ScopeId) (site : Site)
    (scopes : Scopes (Deferral Empty)) : Prop where
  way : scopes.Path path
  bound : ∀ name ∈ site.before, ∃ around ∈ path, (scopes.binding? around name).isSome = true
  reason : ∀ place name, ∀ waiter ∈ scopes.waiters place name, ∀ key,
    waiter.work.errand = .draft id key → name ∈ site.names ∧
      (place ∈ path ∧ (∃ binding, scopes.binding? place name = some binding ∧
          binding.type.isConcrete = false) ∨
        place = 0 ∧ scopes.binding? place name = none ∧ name ∉ site.before)

theorem Held.releases (held : Held id path site before) (releases : before.Releases after) :
    Held id path site after where
  way := held.way.mono releases.parents
  bound name mem := by
    obtain ⟨around, inside, known⟩ := held.bound name mem
    refine ⟨around, inside, ?_⟩
    rcases releases.names around name with ⟨-, new⟩ | ⟨-, same⟩
    · exact new
    · rwa [same]
  reason place name waiter mem key errand := by
    rcases releases.names place name with ⟨nobody, -⟩ | ⟨waiters, same⟩
    · simp [nobody] at mem
    · simpa only [same] using held.reason place name waiter (waiters ▸ mem) key errand

/-- Somebody else waits, or the assignment does for a name that it mentions and whose type is not
known. -/
theorem Held.defers {name : String} {declared : Option String}
    (held : Held id path site before) (defers : Defers before after other scope name declared)
    (own : other = id → path.head? = some scope ∧ declared ≠ some name ∧ name ∈ site.names ∧
      (before.view scope).knows name = false) : Held id path site after := by
  obtain ⟨place, waiter, awaits, errand, reason⟩ : ∃ place waiter,
      before.Awaited after place name waiter ∧ waiter.work.errand = .draft other name ∧
      (other = id → place ∈ path ∧ (∃ binding, before.binding? place name = some binding ∧
          binding.type.isConcrete = false) ∨
        place = 0 ∧ before.binding? place name = none ∧ name ∉ site.before) := by
    have same {outer : List ScopeId} (way : before.Path (scope :: outer)) (mine : other = id) :
        path = scope :: outer := by
      obtain ⟨rest, rfl⟩ := List.head?_eq_some_iff.1 (own mine).1
      rw [held.way.unique way]
    cases defers with
    | bound way mem reads awaits =>
      refine ⟨_, _, awaits, rfl, fun mine => .inl ⟨same way mine ▸ mem, ?_⟩⟩
      obtain ⟨-, apart, -, unknown⟩ := own mine
      obtain ⟨binding, reads⟩ := reads apart
      have isConcrete := reads.knows.symm.trans unknown
      obtain ⟨_, _, _, _, _, _, bound⟩ := reads
      exact ⟨binding, bound, isConcrete⟩
    | @hoisted outer _ way unbound free awaits =>
      refine ⟨_, _, awaits, rfl, fun mine => .inr ⟨rfl, ?_⟩⟩
      have nobody : ∀ around ∈ scope :: outer, before.binding? around name = none :=
        List.forall_mem_cons.2 ⟨free (own mine).2.1, unbound⟩
      refine ⟨nobody 0 way.zero_mem, fun declared => ?_⟩
      obtain ⟨around, mem, known⟩ := held.bound name declared
      rw [same way mine] at mem
      simp [nobody around mem] at known
  refine ⟨held.way.mono fun id _ found => (awaits.parent id).trans found, fun name mem => ?_,
    fun spot word someone mem key whose => ?_⟩
  · simpa only [awaits.bindings] using held.bound name mem
  · rw [awaits.waiters] at mem
    simp only [awaits.bindings]
    split at mem
    case isFalse => exact held.reason spot word someone mem key whose
    case isTrue here =>
      obtain ⟨rfl, rfl⟩ := here
      rcases List.mem_append.1 mem with old | new
      · exact held.reason _ _ someone old key whose
      · obtain rfl := List.mem_singleton.1 new
        have mine : other = id := by cases errand.symm.trans whose; rfl
        exact ⟨(own mine).2.2.1, reason mine⟩

theorem PutsOff.held (puts : PutsOff other scope names got work s last t)
    (rooted : s.scopes.Rooted) (held : Held id path site s.scopes)
    (own : other = id → path.head? = some scope ∧ work.declares = none ∧
      ∀ name ∈ names, name ∈ site.names ∧ (s.scopes.view scope).knows name = false) :
    Held id path site t.scopes := by
  induction puts with
  | done => exact held
  | known _ _ ih =>
    exact ih rooted held fun mine => ⟨(own mine).1, (own mine).2.1, fun name mem =>
      (own mine).2.2 name (List.mem_cons_of_mem _ mem)⟩
  | @wait name names got work last drafts position s m t _ _ ends _ ih =>
    obtain ⟨defers, journal, same⟩ := defers_of_ends ends rooted
    have defers : Defers s.scopes m.scopes other scope name work.declares := defers
    obtain ⟨_, _, awaits⟩ := Defers.awaited (s := s.desk []) defers
    have next : Held id path site m.scopes := held.defers defers fun mine => by
      obtain ⟨head, idle, each⟩ := own mine
      exact ⟨head, by simp [idle], each name List.mem_cons_self⟩
    refine ih (rooted.of_parents awaits.parent) next fun mine => ?_
    obtain ⟨head, idle, each⟩ := own mine
    obtain ⟨rest, rfl⟩ := List.head?_eq_some_iff.1 head
    refine ⟨head, by cases work <;> exact idle, fun name mem => ?_⟩
    rw [held.way.view_eq awaits.parent awaits.bindings]
    exact each name (List.mem_cons_of_mem _ mem)

/-- An assignment is looked at, or somebody else is. -/
theorem Looked.held (looked : Looked view other scope work s types last t)
    (rooted : s.scopes.Rooted) (held : Held id path site s.scopes)
    (own : other = id → path.head? = some scope ∧ work.Faithful ∧ work.shape = .assigns site.names ∧
      view = s.scopes.view scope) : Held id path site t.scopes := by
  obtain ⟨after, drafts, looks, -, -, puts⟩ := looked
  refine puts.held rooted held fun mine => ?_
  obtain ⟨head, faithful, assigns, rfl⟩ := own mine
  refine ⟨head, ?_, fun name mem => looks.unknown faithful assigns mem⟩
  cases looks <;> simp_all [Work.shape, Work.declares]

/-- The draft of an assignment, and why it waits. -/
structure Waits (id : DraftId) (scope : ScopeId) (outer : List ScopeId) (site : Site)
    (s : Checker Empty σ) : Prop where
  sound : Firm s
  draft : ∃ work, s.drafts[id]? = some ⟨scope, work⟩ ∧ work.shape = .assigns site.names
  held : Held id (scope :: outer) site s.scopes

theorem Waits.checkStep (waits : Waits id scope outer site s) (checkStep : CheckStep (firm σ) s t) :
    Waits id scope outer site t := by
  obtain ⟨-, sound⟩ := checkStep.later waits.sound
  obtain ⟨work, here, assigns⟩ := waits.draft
  obtain ⟨⟨_, last⟩, there, same, passes⟩ := checkStep.draftsKept.drafts id _ here
  obtain rfl := same
  refine ⟨sound, ⟨last, there, passes.shape.trans assigns⟩, ?_⟩
  rcases checkStep.looked with
    ⟨releases, -⟩ | ⟨view, other, _, _, types, _, m, _, looked, releases, -, whose⟩
  · exact waits.held.releases releases
  · refine (looked.held waits.sound.rooted waits.held fun mine => ?_).releases releases
    subst mine
    rcases whose with ⟨rfl, -⟩ | ⟨d, name, again, rfl, rfl, rfl⟩
    · simp at here
    · obtain rfl := Option.some.inj (here.symm.trans again)
      obtain ⟨before, _, _, faithful, looks, -⟩ := waits.sound.tallied.drafts _ _ (by simp) here
      exact ⟨rfl, (looks.faithful (faithful trivial)).strike name,
        (Work.passes_strike _ name).shape.trans assigns, rfl⟩

theorem CheckSteps.waits (checkSteps : CheckSteps (firm σ) s t) (waits : Waits id scope outer site s) :
    Waits id scope outer site t :=
  checkSteps.keep (P := Waits id scope outer site)
    (fun checkStep waits => waits.checkStep checkStep) waits

end Check

end Hoist
