import Hoist.Proofs.Check.BindsNames
import Hoist.Proofs.Check.DraftsKept
import Hoist.Proofs.Check.Tally

/-!
What stays while a file is checked, from any state of a run to any later one. Known types of names
and known result types stay, and a known type that has been written on a symbol is the type of some
binding from its scope outwards.

Main statements: this is so for each step (`CheckStep.later`), and so for the states of a run
(`CheckSteps.later`).
-/
namespace Hoist

namespace Scopes

variable {δ : Type} {before after : Scopes δ} {scope : ScopeId} {name : String} {type : Ty}

/-- Somewhere from this scope outwards the name is bound with this type. -/
def Offers (scopes : Scopes δ) (scope : ScopeId) (name : String) (type : Ty) : Prop :=
  ∃ outer, scopes.Path (scope :: outer) ∧ ∃ owner ∈ scope :: outer, ∃ binding,
    scopes.binding? owner name = some binding ∧ binding.type = type

theorem Offers.mono (offers : before.Offers scope name type) (concrete : type.isConcrete = true)
    (parents : ∀ id parent, before.parent? id = some parent → after.parent? id = some parent)
    (bindings : ∀ id name old, before.binding? id name = some old → old.type.isConcrete = true →
      ∃ new, after.binding? id name = some new ∧ new.type = old.type) :
    after.Offers scope name type := by
  obtain ⟨outer, path, owner, mem, binding, bound, rfl⟩ := offers
  obtain ⟨new, bound, same⟩ := bindings owner name binding bound concrete
  exact ⟨outer, path.mono parents, owner, mem, new, bound, same⟩

/-- These known types are those of bindings around a scope. -/
def OffersAll (scopes : Scopes δ) (scope : ScopeId) (symbols : List (String × Ty)) : Prop :=
  ∀ symbol ∈ symbols, symbol.2.isConcrete = true → scopes.Offers scope symbol.1 symbol.2

/-- What a look writes on symbols are types of bindings from its scope outwards. -/
theorem OffersAll.fills {scopes : Scopes δ} (rooted : scopes.Rooted) {old new : List (String × Ty)}
    (offers : scopes.OffersAll scope old)
    (fills : List.Forall₂ (scopes.view scope).Fills old new) : scopes.OffersAll scope new := by
  intro symbol mem concrete
  obtain ⟨before, inside, same, slot⟩ := exists_of_forall₂ fills mem
  rcases slot with kept | ⟨-, -, found⟩
  · rw [kept] at concrete ⊢
    exact same ▸ offers before inside concrete
  · obtain ⟨owner, binding, ⟨outer, near, far, path, split, -, bound⟩, type⟩ :=
      reads_of_view rooted found concrete
    exact same ▸ ⟨outer, path, owner, by simp [split], binding, bound, type⟩

end Scopes

/-- The known types on the symbols of a draft are those of bindings around it. -/
def Checker.Vouches {κ σ : Type} (s : Checker κ σ) (d : Draft) : Prop :=
  ∀ symbol ∈ d.work.symbols, symbol.2.isConcrete = true →
    s.scopes.Offers d.scope symbol.1 symbol.2

/-- No known types stand on the symbols of a statement yet. -/
theorem Work.Fresh.offers {work : Work} (fresh : work.Fresh) {δ : Type} (scopes : Scopes δ)
    (scope : ScopeId) : scopes.OffersAll scope work.symbols := by
  intro symbol mem concrete
  have empty : symbol.2.isConcrete = false := by
    rcases List.mem_append.1 mem with mem | mem
    · cases work with
      | assignment a _ => exact Target.empty_of_isFresh (fresh.2 a rfl) symbol mem
      | _ => simp [Work.targetSymbols] at mem
    · cases given : work.value? with
      | none => simp [Work.valueSymbols, given] at mem
      | some value =>
        simp only [Work.valueSymbols, given, Option.map_some, Option.getD_some] at mem
        exact Expr.empty_of_isFresh (fresh.1 value given) symbol mem
  simp [empty] at concrete

/-- A look fills the symbols of a statement. -/
theorem Work.LookGives.fills {before after : Work} {view : View} {types : List Ty}
    (looks : before.LookGives view after types) :
    List.Forall₂ view.Fills before.symbols after.symbols := by
  have seen {value looked : Expr} {result : Except Fault Ty}
      (look : value.resolve view = (result, looked)) :
      List.Forall₂ view.Fills value.symbols looked.symbols := by
    simpa only [look] using Expr.resolve_keeps view value
  cases looks with
  | declaration look _ => exact seen look
  | @assignment a _ _ _ _ _ _ onTarget onValue _ =>
    have filled := Target.resolve_keeps view a.target
    rw [onTarget] at filled
    exact List.rel_append filled (seen onValue)
  | @bare r bare =>
    simp [Work.symbols, Work.targetSymbols, Work.valueSymbols, Work.value?, bare]
  | returns given look =>
    simpa [Work.symbols, Work.targetSymbols, Work.valueSymbols, Work.value?, given] using seen look
  | evaluation look => exact seen look

theorem Work.symbols_strike (work : Work) (name : String) :
    (work.strike name).symbols = work.symbols := by
  cases work <;> rfl

namespace Check

open Desk

variable {σ : Type} {s m t : Checker Empty σ} {id : DraftId} {scope : ScopeId} {work : Work}
  {handed : List (Deferral Empty)}

structure Later (s t : Checker Empty σ) : Prop where
  parents : ∀ id parent, s.scopes.parent? id = some parent → t.scopes.parent? id = some parent
  bindings : ∀ scope name before, s.scopes.binding? scope name = some before →
    before.type.isConcrete = true →
    ∃ after, t.scopes.binding? scope name = some after ∧ after.type = before.type
  results : ∀ body type, s.scopes.result? body = some type → type.isConcrete = true →
    t.scopes.result? body = some type

theorem Later.refl (s : Checker Empty σ) : Later s s :=
  ⟨fun _ _ => id, fun _ _ before bound _ => ⟨before, bound, rfl⟩, fun _ _ kept _ => kept⟩

theorem Later.trans (first : Later s m) (second : Later m t) : Later s t where
  parents id parent found := second.parents id parent (first.parents id parent found)
  bindings scope name before bound concrete := by
    obtain ⟨between, bound, same⟩ := first.bindings scope name before bound concrete
    obtain ⟨after, bound, same'⟩ := second.bindings scope name between bound (same ▸ concrete)
    exact ⟨after, bound, same'.trans same⟩
  results body type kept concrete :=
    second.results body type (first.results body type kept concrete) concrete

theorem Later.offers (later : Later s t) {symbols : List (String × Ty)}
    (offers : s.scopes.OffersAll scope symbols) : t.scopes.OffersAll scope symbols :=
  fun symbol mem concrete =>
    (offers symbol mem concrete).mono concrete later.parents later.bindings

/-- At most one name is bound anew, and its type was not known. -/
theorem Later.of_bindings (keeps : DraftsKept s t)
    (parents : ∀ id parent, s.scopes.parent? id = some parent → t.scopes.parent? id = some parent)
    {place : ScopeId} {key : String} {new : Option Binding}
    (bindings : ∀ scope name, t.scopes.binding? scope name =
      if scope = place ∧ name = key then new else s.scopes.binding? scope name)
    (unknown : ∀ before, s.scopes.binding? place key = some before →
      before.type.isConcrete = false) : Later s t where
  parents := parents
  results := keeps.results
  bindings scope name before bound concrete := by
    refine ⟨before, ?_, rfl⟩
    rw [bindings, if_neg ?_]
    · exact bound
    · rintro ⟨rfl, rfl⟩
      simp [unknown before bound] at concrete

theorem Later.of_same (keeps : DraftsKept s t)
    (parents : ∀ id parent, s.scopes.parent? id = some parent → t.scopes.parent? id = some parent)
    (bindings : ∀ scope name, t.scopes.binding? scope name = s.scopes.binding? scope name) :
    Later s t :=
  ⟨parents, fun _ _ before bound _ => ⟨before, (bindings ..).trans bound, rfl⟩, keeps.results⟩

/-- The states of a run over a text without leftovers. -/
structure Firm (s : Checker Empty σ) : Prop where
  rooted : s.scopes.Rooted
  owned : (s.desk []).Owned
  tallied : Tallied True none s
  /-- The name of a function has no known type while the head waits for its result type. -/
  heads : ∀ (k : SignatureId) h, s.signatures[k]? = some h → h.signature.result.isPending = true →
    ∀ binding, s.scopes.binding? h.scope h.signature.name = some binding →
      binding.type.isConcrete = false
  vouched : ∀ (id : DraftId) d, s.drafts[id]? = some d → s.scopes.OffersAll d.scope d.work.symbols

theorem Firm.vouched_putAt (firm : Firm s) (later : Later s t) {d : Draft}
    (put : PutAt s.drafts id d t.drafts) (own : t.scopes.OffersAll d.scope d.work.symbols) :
    ∀ (other : DraftId) e, t.drafts[other]? = some e →
      t.scopes.OffersAll e.scope e.work.symbols := by
  intro other e there
  rw [put other] at there
  split at there
  · exact Option.some.inj there ▸ own
  · exact later.offers (firm.vouched other e there)

/-- Heads keep the binding of their names. -/
theorem Firm.heads_of_same (firm : Firm s) (signatures : t.signatures = s.signatures)
    (bindings : ∀ (k : SignatureId) h, s.signatures[k]? = some h →
      t.scopes.binding? h.scope h.signature.name = s.scopes.binding? h.scope h.signature.name) :
    ∀ (k : SignatureId) h, t.signatures[k]? = some h → h.signature.result.isPending = true →
      ∀ binding, t.scopes.binding? h.scope h.signature.name = some binding →
        binding.type.isConcrete = false := fun k h here pending binding bound =>
  firm.heads k h (signatures ▸ here) pending binding
    ((bindings k h (signatures ▸ here)).symm.trans bound)

/-! Statements. -/

/-- What is bound after a look, and where the draft is. -/
theorem Reviewed.summary (reviewed : Reviewed id scope work s handed t) :
    ∃ last types, work.LookGives (s.scopes.view scope) last types ∧
      PutAt s.drafts id ⟨scope, last⟩ t.drafts ∧ t.signatures = s.signatures ∧
      (∀ id, t.scopes.parent? id = s.scopes.parent? id) ∧
      ((∀ place name, t.scopes.binding? place name = s.scopes.binding? place name) ∨
        ∃ d new, work = .declaration d ∧ ∀ place name, t.scopes.binding? place name =
          if place = scope ∧ name = d.name then new else s.scopes.binding? place name) := by
  obtain ⟨types, last, m, looked, answers⟩ := reviewed
  have looks := looked.looks
  have put := looked.putAt
  have calm := looked.calm
  have signatures := looked.signatures
  refine ⟨last, types, looks, ?_⟩
  cases answers with
  | assignment | evaluation | agrees =>
    exact ⟨put, signatures, calm.parent, .inl calm.bindings⟩
  | sets _ _ ends =>
    obtain ⟨_, sets, rfl⟩ := ends_setResult.1 ends
    obtain ⟨_, _, _, _, changes⟩ := Scopes.setResult_eq_ok sets
    exact ⟨put, signatures, fun id => (changes.parent id).trans (calm.parent id),
      .inl fun place name => (changes.bindings place name).trans (calm.bindings place name)⟩
  | binds ends =>
    obtain ⟨_, updates, rfl⟩ := ends_update.1 ends
    have bound := (Scopes.update_eq_ok updates).2
    cases looks with
    | @declaration d type value _ _ =>
      refine ⟨put, signatures, fun id => (bound.parent id).trans (calm.parent id),
        .inr ⟨d, some { d with value, type }.binding, rfl, fun place name => ?_⟩⟩
      rw [← calm.bindings]
      exact bound.bindings place name

/-- A draft is looked at again. -/
theorem Firm.resume {name : String} {d : Draft} {rest queue : List (Deferral Empty)} (firm : Firm s)
    (here : s.drafts[id]? = some d) (waits : name ∈ d.work.awaits)
    (reviewed : Reviewed id d.scope (d.work.strike name) { s with queue := rest } handed t)
    (keeps : DraftsKept s { t with queue }) (owned : (Checker.desk { t with queue } []).Owned)
    (tallied : Tallied True none { t with queue }) :
    Later s { t with queue } ∧ Firm { t with queue } := by
  obtain ⟨last, types, looks, put, signatures, parents, bindings⟩ := reviewed.summary
  have mono (id : ScopeId) (parent : Option ScopeId) (found : s.scopes.parent? id = some parent) :=
    (parents id).trans found
  obtain ⟨later, heads⟩ : Later s { t with queue } ∧ ∀ (k : SignatureId) h,
      s.signatures[k]? = some h → t.scopes.binding? h.scope h.signature.name =
        s.scopes.binding? h.scope h.signature.name := by
    rcases bindings with same | ⟨e, new, own, changed⟩
    · exact ⟨.of_same keeps mono same, fun _ _ _ => same ..⟩
    · -- The declaration was pending, and nobody else owns its name.
      have work : d.work = .declaration e := by
        cases given : d.work <;> simp_all [Work.strike]
      have found : s.drafts[id]? = some ⟨d.scope, .declaration e⟩ := by rw [here, ← work]
      rw [work] at waits
      have waits : name ∈ e.type.pendingOn.toList := waits
      refine ⟨.of_bindings keeps mono changed fun before bound => ?_, fun k h there => ?_⟩
      · obtain rfl := Option.some.inj ((firm.owned.declared id _ e found).symm.trans bound)
        refine Bool.eq_false_iff.2 fun concrete => ?_
        rw [show e.type.pendingOn = none from Ty.pendingOn_eq_none_of_isConcrete concrete] at waits
        simp at waits
      · rw [changed, if_neg]
        rintro ⟨place, same⟩
        have mine : (s.desk []).key? (.draft id) = some (d.scope, e.name) :=
          key?_draft_iff.2 ⟨e, found, rfl⟩
        have theirs : (s.desk []).key? (.head k) = some (d.scope, e.name) :=
          key?_head_iff.2 ⟨h, there, place, same⟩
        cases firm.owned.distinct _ _ _ mine theirs
  have before : s.scopes.OffersAll d.scope (d.work.strike name).symbols := by
    rw [Work.symbols_strike]
    exact firm.vouched id d here
  exact ⟨later, firm.rooted.of_parents parents, owned, tallied, firm.heads_of_same signatures heads,
    firm.vouched_putAt later put (later.offers (before.fills firm.rooted looks.fills))⟩

/-! Heads. -/

/-- The result type of a head is looked up again, and its name is bound anew if it is known now. -/
theorem Firm.reheads {k : SignatureId} {h : SignatureDraft} {result : Ty} {new : Option Binding}
    (firm : Firm s) (here : s.signatures[k]? = some h) (waits : h.signature.result.isPending = true)
    (put : PutAt s.signatures k { h with signature := { h.signature with result } } t.signatures)
    (drafts : t.drafts = s.drafts) (parents : ∀ id, t.scopes.parent? id = s.scopes.parent? id)
    (bindings : ∀ place name, t.scopes.binding? place name =
      if place = h.scope ∧ name = h.signature.name then new else s.scopes.binding? place name)
    (kept : result.isPending = true → new = s.scopes.binding? h.scope h.signature.name)
    (keeps : DraftsKept s t) (owned : (t.desk []).Owned) (tallied : Tallied True none t) :
    Later s t ∧ Firm t := by
  have later : Later s t := .of_bindings keeps (fun id _ found => (parents id).trans found) bindings
    (firm.heads k h here waits)
  refine ⟨later, firm.rooted.of_parents parents, owned, tallied, fun j g there pending => ?_,
    fun id d there => later.offers (firm.vouched id d (drafts ▸ there))⟩
  rw [put j] at there
  split at there
  case isTrue =>
    obtain rfl := Option.some.inj there
    simp only [bindings, and_self, ↓reduceIte, kept pending]
    exact firm.heads k h here waits
  case isFalse other =>
    rw [bindings, if_neg]
    · exact firm.heads j g there pending
    · rintro ⟨place, same⟩
      have mine : (s.desk []).key? (.head k) = some (h.scope, h.signature.name) :=
        key?_head_iff.2 ⟨h, here, rfl, rfl⟩
      have theirs : (s.desk []).key? (.head j) = some (h.scope, h.signature.name) :=
        key?_head_iff.2 ⟨g, there, place, same⟩
      cases firm.owned.distinct _ _ _ mine theirs
      exact other rfl

theorem QueueStep.later (queueStep : QueueStep s t) (firm : Firm s) : Later s t ∧ Firm t := by
  have keeps := queueStep.draftsKept
  have owned := queueStep.ownersKept.owned firm.owned
  have tallied := firm.tallied.queueStep queueStep
  cases queueStep with
  | resume queue core here reviewed =>
    exact firm.resume here (firm.tallied.awaits_of_queue queue core here) reviewed keeps owned tallied
  | postpone queue core here _ _ headed =>
    obtain ⟨idle, drafts, put⟩ := headed.idle
    refine firm.reheads here (firm.tallied.pending_of_queue queue core here) put drafts idle.parent
      (fun place name => ?_) (fun _ => rfl) keeps owned tallied
    split
    case isTrue same => rw [same.1, same.2]; exact idle.bindings _ _
    case isFalse => exact idle.bindings _ _
  | conclude queue core here _ known headed changes =>
    obtain ⟨idle, drafts, put⟩ := headed.idle
    obtain ⟨-, bound⟩ := Scopes.update_eq_ok changes
    have bindings (place : ScopeId) (name : String) := bound.bindings place name
    simp only [idle.bindings] at bindings
    exact firm.reheads here (firm.tallied.pending_of_queue queue core here) put drafts
      (fun id => (bound.parent id).trans (idle.parent id)) bindings
      (fun pending => by simp [known] at pending) keeps owned tallied

theorem QueueSteps.later (queueSteps : QueueSteps s t) (firm : Firm s) : Later s t ∧ Firm t := by
  induction queueSteps with
  | refl => exact ⟨.refl s, firm⟩
  | tail _ queueStep ih =>
    obtain ⟨first, firm⟩ := ih
    rcases queueStep with queueStep | ⟨_, _, _, rfl⟩
    · obtain ⟨second, firm⟩ := queueStep.later firm
      exact ⟨first.trans second, firm⟩
    · obtain ⟨rooted, owned, ⟨tidy, count, drafts⟩, heads, vouched⟩ := firm
      exact ⟨first.trans (.of_same (.of_scopes rfl rfl fun _ => rfl) (fun _ _ => id) fun _ _ => rfl),
        rooted, owned, ⟨tidy, count, drafts⟩, heads, vouched⟩

/-! Steps. -/

/-- A text without leftovers, in a scope that exists. -/
def firm (σ : Type) : Setting σ where
  fresh := True
  plain := False
  fit scope s := (∃ outer, s.scopes.parent? scope = some outer) ∧ Firm s

theorem suits_firm {importer : Importer σ} {program : List Stmt}
    (fresh : Stmt.areFresh program = true) : (firm σ).Suits importer program :=
  ⟨fun _ => fresh, False.elim, fun _ _ => trivial, False.elim⟩

theorem Firm.create {kind : ScopeKind} (firm : Firm s)
    (inside : ∃ outer, s.scopes.parent? scope = some outer)
    (keeps : DraftsKept s { s with scopes := s.scopes.create (some scope) kind })
    (tallied : Tallied True none { s with scopes := s.scopes.create (some scope) kind }) :
    Later s { s with scopes := s.scopes.create (some scope) kind } ∧
      Firm { s with scopes := s.scopes.create (some scope) kind } := by
  have created := s.scopes.created_create scope kind
  obtain ⟨outer, found⟩ := inside
  have later : Later s { s with scopes := s.scopes.create (some scope) kind } :=
    .of_same keeps created.parent_mono created.bindings
  exact ⟨later, created.rooted firm.rooted (Scopes.lt_size_of_parent? found),
    firm.owned.of_same created.bindings (fun _ _ _ => .rfl) rfl, tallied,
    firm.heads_of_same rfl fun _ _ _ => created.bindings .., fun id d there =>
      later.offers (firm.vouched id d there)⟩

theorem Firm.define {binding : Binding} {scopes : Scopes (Deferral Empty)}
    {queue : List (Deferral Empty)} (firm : Firm s)
    (done : s.scopes.define scope binding = .ok (handed, scopes))
    (keeps : DraftsKept s { s with scopes, queue })
    (tallied : Tallied True none { s with scopes, queue }) :
    Later s { s with scopes, queue } ∧ Firm { s with scopes, queue } := by
  obtain ⟨unbound, bound⟩ := Scopes.define_eq_ok done
  have later : Later s { s with scopes, queue } :=
    .of_bindings keeps (fun id _ found => (bound.parent id).trans found) bound.bindings
      fun before there => by simp [unbound] at there
  refine ⟨later, firm.rooted.of_parents bound.parent, firm.owned.define unbound bound rfl rfl,
    tallied, firm.heads_of_same rfl fun k h there => ?_,
    fun id d there => later.offers (firm.vouched id d there)⟩
  rw [bound.bindings, if_neg]
  rintro ⟨place, same⟩
  exact firm.owned.free unbound (.head k) (key?_head_iff.2 ⟨h, there, place, same⟩)

/-- A statement is kept at the end of the drafts. -/
theorem Firm.append {last : Work} (firm : Firm s)
    (put : PutAt s.drafts s.drafts.length ⟨scope, last⟩ t.drafts)
    (signatures : t.signatures = s.signatures)
    (parents : ∀ id, t.scopes.parent? id = s.scopes.parent? id)
    (bindings : ∀ place name, t.scopes.binding? place name = s.scopes.binding? place name)
    (own : s.scopes.OffersAll scope last.symbols) (keeps : DraftsKept s t) (owned : (t.desk []).Owned)
    (tallied : Tallied True none t) : Later s t ∧ Firm t := by
  have later : Later s t := .of_same keeps (fun id _ found => (parents id).trans found) bindings
  exact ⟨later, firm.rooted.of_parents parents, owned, tallied,
    firm.heads_of_same signatures fun _ _ _ => bindings .., firm.vouched_putAt later put
      (later.offers own)⟩

theorem CheckStep.later (checkStep : CheckStep (firm σ) s t) (holds : Firm s) :
    Later s t ∧ Firm t := by
  have keeps := checkStep.draftsKept
  have tallied : Tallied True none t := holds.tallied.checkStep checkStep
  cases checkStep with
  | idle => exact ⟨.of_same keeps (fun _ _ => id) fun _ _ => rfl,
      holds.rooted, holds.owned, tallied, holds.heads, holds.vouched⟩
  | create fit => exact holds.create fit.1 keeps tallied
  | define done => exact holds.define done keeps tallied
  | @declare origin _ _ scope d e types handed scopes fresh _ fit done queueSteps looked =>
    -- The look was at the state before the name was bound, and all that it found is there still.
    have before : origin.scopes.OffersAll scope (Work.declaration d).symbols :=
      Work.Fresh.offers ⟨by simpa [Work.value?] using fresh trivial, by simp [Work.assignment?]⟩ _ _
    have found := before.fills fit.2.rooted looked.looks.fills
    have defined : CheckStep (firm σ) origin { origin with scopes, queue := origin.queue ++ handed } :=
      .define done
    obtain ⟨first, starts⟩ := fit.2.define done defined.draftsKept (fit.2.tallied.checkStep defined)
    have later := first.trans (queueSteps.later starts).1
    obtain ⟨free, bound⟩ := unclaimed_of_ownersKept fit.2.owned done queueSteps.ownersKept
    have added := holds.owned.addDeclaration free bound
    have put := looked.putAt
    have calm := looked.calm
    refine holds.append put looked.signatures calm.parent calm.bindings (later.offers found) keeps
      (added.of_same calm.bindings (fun _ _ _ => ?_) looked.signatures) tallied
    simp only [Checker.desk, put.eq_append]
  | @reach _ _ scope work _ fresh idle _ reviewed =>
    obtain ⟨last, types, looks, put, signatures, parents, bindings⟩ := reviewed.summary
    have found := ((fresh trivial).offers s.scopes scope).fills holds.rooted looks.fills
    have same : ∀ place name, _ := bindings.resolve_right (by
      rintro ⟨d, _, own, _⟩
      simp [own, Work.declares] at idle)
    have idle : last.declares = none := by cases looks <;> simp_all [Work.declares]
    have added : Owned { s.desk [] with drafts := s.drafts ++ [⟨scope, last⟩] } :=
      holds.owned.addIdle idle
    refine holds.append put signatures parents same found keeps
      (added.of_same same (fun _ _ _ => ?_) signatures) tallied
    simp only [Checker.desk, put.eq_append]
  | @head _ _ scope _ signature _ _ _ _ _ _ headed done =>
    obtain ⟨idle, drafts, put⟩ := headed.idle
    obtain ⟨distinct, declared, headed⟩ := owned_of_head headed holds.owned done
    obtain ⟨unbound, bound⟩ := Scopes.define_eq_ok done
    have same (place : ScopeId) (name : String) := idle.bindings place name
    have bindings (place : ScopeId) (name : String) := bound.bindings place name
    simp only [same] at bindings unbound
    have parents (id : ScopeId) := (bound.parent id).trans (idle.parent id)
    have later : Later s _ := .of_bindings keeps (fun id _ found => (parents id).trans found) bindings
      fun before there => by cases unbound.symm.trans there
    refine ⟨later, holds.rooted.of_parents parents, ⟨distinct, declared, headed⟩, tallied,
      fun k h there pending => ?_,
      fun id d there => later.offers (holds.vouched id d (drafts ▸ there))⟩
    rw [put k] at there
    split at there
    case isTrue =>
      obtain rfl := Option.some.inj there
      rintro binding found
      obtain rfl : signature.binding = binding := by simpa [bound.bindings, Signature.binding] using found
      exact Bool.eq_false_iff.2 fun concrete => by
        simp only [Signature.binding, Signature.type, Ty.isConcrete, Bool.and_eq_true] at concrete
        simp [Ty.isPending_of_isConcrete concrete.2] at pending
    case isFalse =>
      rw [bindings, if_neg]
      · exact holds.heads k h there pending
      · rintro ⟨place, same⟩
        exact holds.owned.free unbound (.head k) (key?_head_iff.2 ⟨h, there, place, same⟩)
  | queueStep queueStep => exact queueStep.later holds

theorem CheckSteps.later (checkSteps : CheckSteps (firm σ) s t) (holds : Firm s) :
    Later s t ∧ Firm t := by
  induction checkSteps with
  | refl => exact ⟨.refl s, holds⟩
  | tail _ checkStep ih =>
    obtain ⟨first, holds⟩ := ih
    obtain ⟨second, holds⟩ := checkStep.later holds
    exact ⟨first.trans second, holds⟩

instance : Closed (firm σ) where
  checkStep checkStep fit := by
    obtain ⟨⟨outer, found⟩, holds⟩ := fit
    obtain ⟨later, holds⟩ := checkStep.later holds
    exact ⟨⟨outer, later.parents _ _ found⟩, holds⟩
  inside {scope s} kind fit :=
    have creates : CheckStep (firm σ) s { s with scopes := s.scopes.create (some scope) kind } :=
      .create fit fun plain => plain.elim
    ⟨⟨some scope, by simp [(s.scopes.created_create scope kind).parent]⟩, (creates.later fit.2).2⟩
  abates := False.elim

theorem firm_initial (store : σ) (budget : Nat) : Firm (Checker.initial store budget) :=
  ⟨Scopes.rooted_first, owned_initial store budget, tallied_initial store budget,
    fun _ _ here => by simp [Checker.initial] at here,
    fun _ _ here => by simp [Checker.initial] at here⟩

end Check

end Hoist
