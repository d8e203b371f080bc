import Hoist.Proofs.Check.CheckSteps
import Hoist.Proofs.Check.Operation
import Hoist.Proofs.Typing.Lasting

/-!
Counting deferrals. Each is on an errand for somebody: for a draft, because of the name it waited for,
or for the head of a function. It is alive while it waits in some scope or in the queue.

Main statement: between any two steps a draft has one deferral for each name that it waits for, a head
has one as long as its result type is not known, and there are no others (`Tallied.checkStep`).
-/
namespace Hoist

/-! What a statement waits for. -/

/-- The name that an expression waits for since it was last looked at. -/
def Expr.waitsFor (value : Expr) : Option String :=
  match (value.resolve .blank).1 with
  | .ok type => type.pendingOn
  | .error _ => none

theorem Expr.waitsFor_of_look {before value : Expr} {view : View} {type : Ty}
    (look : before.resolve view = (.ok type, value)) : value.waitsFor = type.pendingOn := by
  have lasts := Expr.resolve_lasts view before type (by rw [look])
  rw [look] at lasts
  simp only [waitsFor, lasts]

namespace Work

/-- The names that a statement waits for. -/
def awaits : Work → List String
  | .declaration d => d.type.pendingOn.toList
  | .assignment _ awaited => awaited
  | .returns r => (r.value.bind Expr.waitsFor).toList
  | .evaluation e => e.value.waitsFor.toList

variable {work after : Work} {view : View} {types : List Ty} {name : String}

theorem LookGives.awaits (looks : work.LookGives view after types) (plain : after.assignment? = none) :
    after.awaits = types.filterMap Ty.pendingOn := by
  have one (type : Ty) : [type].filterMap Ty.pendingOn = type.pendingOn.toList := by
    cases pending : type.pendingOn <;> simp [pending]
  cases looks with
  | assignment => simp [assignment?] at plain
  | declaration look _ => rw [one, Work.awaits]
  | bare bare => rw [one, Work.awaits, bare]; rfl
  | returns _ look => rw [one, Work.awaits, Option.bind_some, Expr.waitsFor_of_look look]
  | evaluation look => rw [one, Work.awaits, Expr.waitsFor_of_look look]

/-- A look keeps a faithful statement faithful. -/
theorem LookGives.faithful (looks : work.LookGives view after types) (faithful : work.Faithful) :
    after.Faithful := by
  have seen {value : Expr} (mem : value ∈ work.value?) : (value.resolve view).2.Faithful :=
    (Expr.resolve_sound view (faithful.1 value mem)).faithful
  cases looks with
  | declaration look _ | evaluation look =>
    refine ⟨fun _ same => ?_, by simp [assignment?]⟩
    cases same
    simpa [look] using seen rfl
  | assignment onTarget onValue _ =>
    refine ⟨fun _ same => ?_, fun _ same => ?_⟩ <;> cases same
    · simpa [onValue] using seen rfl
    · simpa [onTarget] using Target.resolve_faithful view (faithful.2 _ rfl)
  | bare => exact faithful
  | returns given look =>
    refine ⟨fun _ same => ?_, by simp [assignment?]⟩
    cases same
    simpa [look] using seen given

theorem Faithful.strike (faithful : work.Faithful) (name : String) :
    (work.strike name).Faithful := by
  cases work with
  | assignment a awaited => exact ⟨faithful.1, fun b same => faithful.2 b same⟩
  | _ => exact faithful

/-- What a statement other than an assignment waits for is one name at most. -/
theorem mem_awaited_strike (waits : name ∈ work.awaits) (other : String) :
    other ∈ (work.strike name).awaited ↔ other ∈ work.awaits ∧ other ≠ name := by
  cases work with
  | assignment a awaited => simp [strike, Work.awaited, Work.awaits]
  | declaration d | returns r | evaluation e =>
    simp only [Work.awaits, Option.mem_toList] at waits
    simp [strike, Work.awaited, Work.awaits, waits, eq_comm]

end Work

namespace Check

variable {σ : Type} {s t m : Checker Empty σ} {id : DraftId} {scope : ScopeId} {work last : Work}
  {names got : List String} {types : List Ty} {view : View}

/-- After a look a statement waits for the names whose types were not found, and an assignment for
those besides that it had waited for before. -/
theorem Looked.awaits (looked : Looked view id scope work s types last t) (name : String) :
    name ∈ last.awaits ↔ name ∈ work.awaited ∨ name ∈ types.filterMap Ty.pendingOn := by
  obtain ⟨after, drafts, looks, same, -, puts⟩ := looked
  cases plain : after.assignment? with
  | none =>
    rw [puts.plain plain, looks.awaits plain]
    have nothing : work.awaited = [] := by
      cases looks <;> simp_all [Work.awaited, Work.assignment?]
    simp [nothing]
  | some a =>
    cases after with
    | assignment b awaited =>
      obtain rfl : awaited = work.awaited := same
      obtain ⟨later, rfl, each⟩ := puts.assigned rfl
      exact each name
    | _ => simp [Work.assignment?] at plain

end Check

/-! Deferrals that are kept in scopes. -/

section Kept

variable {δ : Type} (p : δ → Bool)

/-- All the work that waits in a scope. -/
def Scope.kept (scope : Scope δ) : List δ :=
  (scope.waiting.entries.flatMap fun entry => entry.2.map (·.work)) ++ scope.role.waiting

def Scopes.kept (scopes : Scopes δ) : List δ :=
  scopes.all.flatMap Scope.kept

/-- No name is listed twice. -/
def Scopes.Tidy (scopes : Scopes δ) : Prop :=
  ∀ scope ∈ scopes.all, scope.waiting.names.Nodup

theorem Table.countP_erase (name : String) {entries : List (String × List (Waiter δ))}
    (tidy : (entries.map (·.1)).Nodup) :
    (((Table.first? name entries).getD []).map (·.work)).countP p +
        ((entries.filter (·.1 ≠ name)).flatMap fun entry => entry.2.map (·.work)).countP p =
      (entries.flatMap fun entry => entry.2.map (·.work)).countP p := by
  induction entries with
  | nil => rfl
  | cons entry rest ih =>
    obtain ⟨key, list⟩ := entry
    obtain ⟨fresh, tidy⟩ := List.nodup_cons.1 tidy
    by_cases same : key = name
    · subst same
      have others : rest.filter (·.1 ≠ key) = rest := by
        refine List.filter_eq_self.2 fun other mem => ?_
        simpa using fun again : other.1 = key => fresh (List.mem_map.2 ⟨other, mem, again⟩)
      rw [List.filter_cons_of_neg (by simp), others]
      simp [Table.first?]
    · have onRest := ih tidy
      rw [List.filter_cons_of_pos (by simpa using same)]
      simp only [Table.first?, same, ↓reduceIte, List.flatMap_cons, List.countP_append]
      omega

theorem Table.countP_put (name : String) (waiter : Waiter δ)
    (entries : List (String × List (Waiter δ))) :
    ((Table.put name (((Table.first? name entries).getD []) ++ [waiter]) entries).flatMap
        fun entry => entry.2.map (·.work)).countP p =
      (entries.flatMap fun entry => entry.2.map (·.work)).countP p +
        [waiter.work].countP p := by
  induction entries with
  | nil => simp [Table.put, Table.first?]
  | cons entry rest ih =>
    obtain ⟨key, list⟩ := entry
    by_cases same : key = name
    · simp only [Table.put, Table.first?, same, ↓reduceIte, Option.getD_some, List.flatMap_cons,
        List.countP_append, List.map_append, List.map_cons, List.map_nil]
      omega
    · simp only [Table.put, Table.first?, same, ↓reduceIte, List.flatMap_cons, List.countP_append, ih]
      omega

theorem Scope.countP_bind {scope : Scope δ} (tidy : scope.waiting.names.Nodup) (binding : Binding) :
    (scope.bind binding).1.countP p + (scope.bind binding).2.kept.countP p =
      scope.kept.countP p := by
  have erased := Table.countP_erase p binding.name tidy
  simp only [Scope.bind, Scope.kept, Scope.waitingOn, Table.find?, Table.erase, List.countP_append]
  omega

theorem Scope.countP_role (scope : Scope δ) (role : Role δ) :
    { scope with role }.kept.countP p + scope.role.waiting.countP p =
      scope.kept.countP p + role.waiting.countP p := by
  simp only [Scope.kept, List.countP_append]
  omega

theorem Scope.countP_await (scope : Scope δ) (name : String) (waiter : Waiter δ) :
    (scope.await name waiter).kept.countP p = scope.kept.countP p + [waiter.work].countP p := by
  have put := Table.countP_put p name waiter scope.waiting.entries
  simp only [Scope.await, Scope.kept, Scope.waitingOn, Table.find?, Table.insert, List.countP_append]
  omega

namespace Scopes

variable {scopes : Scopes δ} {place : ScopeId} {found : Scope δ}

theorem countP_set (here : scopes.all[place]? = some found) (next : Scope δ) :
    (scopes.set place next).kept.countP p + found.kept.countP p =
      scopes.kept.countP p + next.kept.countP p := by
  obtain ⟨all⟩ := scopes
  simp only [set, kept] at *
  induction all generalizing place with
  | nil => simp at here
  | cons first rest ih =>
    cases place with
    | zero =>
      obtain rfl : first = found := by simpa using here
      simp only [List.set_cons_zero, List.flatMap_cons, List.countP_append]
      omega
    | succ place =>
      have onRest := ih (by simpa using here)
      simp only [List.set_cons_succ, List.flatMap_cons, List.countP_append]
      omega

theorem Tidy.set (tidy : scopes.Tidy) {next : Scope δ} (own : next.waiting.names.Nodup) :
    (scopes.set place next).Tidy := fun other mem =>
  (List.mem_or_eq_of_mem_set mem).elim (tidy other) fun same => same ▸ own

end Scopes

end Kept

/-! Errands. -/

/-- What a deferral is for: a draft that waits for a name, or the head of a function. -/
inductive Errand
  | draft (id : DraftId) (name : String)
  | head (id : SignatureId)
deriving DecidableEq

/-- Whom an errand serves. -/
def Errand.owner : Errand → DraftId ⊕ SignatureId
  | .draft id _ => .inl id
  | .head k => .inr k

def Deferral.errand : Deferral Empty → Errand
  | .resume id name => .draft id name
  | .conclude k => .head k
  | .hoisted _ _ _ rest => rest.errand
  | .client task => task.elim

theorem Deferral.errand_core (work : Deferral Empty) : work.core.errand = work.errand := by
  induction work with
  | hoisted _ _ _ rest ih => exact ih
  | client task => exact task.elim
  | _ => rfl

/-- The deferrals that are in the queue or wait in some scope. -/
def Checker.live {σ : Type} (s : Checker Empty σ) : List (Deferral Empty) :=
  s.queue ++ s.scopes.kept

/-- How many deferrals there are on an errand. -/
def Checker.tally {σ : Type} (s : Checker Empty σ) (errand : Errand) : Nat :=
  s.live.countP (·.errand = errand)

/-- How many deferrals there should be on an errand. -/
def Checker.due {σ : Type} (s : Checker Empty σ) : Errand → Nat
  | .draft id name => if name ∈ (s.drafts[id]?.map (·.work.awaits)).getD [] then 1 else 0
  | .head k => if (s.signatures[k]?.map (·.signature.result.isPending)).getD false then 1 else 0

namespace Check

variable {σ : Type} {s t m : Checker Empty σ} {id : DraftId} {scope : ScopeId} {work last : Work}
  {names got : List String} {types : List Ty} {view : View} {fresh : Prop}

/-- Every count is right, but for those of the draft or head that is being served. -/
structure Tallied (fresh : Prop) (served : Option (DraftId ⊕ SignatureId)) (s : Checker Empty σ) :
    Prop where
  tidy : s.scopes.Tidy
  count : ∀ errand : Errand, served ≠ some (errand.owner) →
    s.tally errand = s.due errand
  /-- Every draft has been looked at, and waits for what was not found. -/
  drafts : ∀ (id : DraftId) d, served ≠ some (.inl id) → s.drafts[id]? = some d →
    ∃ (before : Work) (view : View) (types : List Ty),
      (fresh → before.Faithful) ∧ before.LookGives view d.work types ∧
        ∀ name ∈ types.filterMap Ty.pendingOn, name ∈ d.work.awaits

theorem Tallied.but (tallied : Tallied fresh none s) (served : Option (DraftId ⊕ SignatureId)) :
    Tallied fresh served s :=
  ⟨tallied.tidy, fun _ _ => tallied.count _ (by simp), fun _ _ _ => tallied.drafts _ _ (by simp)⟩

/-- Deferrals may move. -/
theorem Tallied.moved (tallied : Tallied fresh none s) (tidy : t.scopes.Tidy)
    (same : t.drafts = s.drafts ∧ t.signatures = s.signatures)
    (live : ∀ p, t.live.countP p = s.live.countP p) : Tallied fresh none t := by
  refine ⟨tidy, fun errand _ => ?_, fun _ _ _ => same.1 ▸ tallied.drafts _ _ (by simp)⟩
  have due : t.due errand = s.due errand := by cases errand <;> simp only [Checker.due, same]
  rw [due, ← tallied.count errand (by simp), Checker.tally, live, Checker.tally]

/-- The first deferral is taken from the queue. -/
theorem Tallied.pop {next : Deferral Empty} {rest : List (Deferral Empty)}
    (tallied : Tallied fresh none s) (queue : s.queue = next :: rest) :
    Tallied fresh (some next.errand.owner) { s with queue := rest } ∧
      ∀ errand, { s with queue := rest }.tally errand +
        (if next.errand = errand then 1 else 0) = s.due errand := by
  have counts (errand : Errand) : { s with queue := rest }.tally errand +
      (if next.errand = errand then 1 else 0) = s.due errand := by
    rw [← tallied.count errand (by simp)]
    simp only [Checker.tally, Checker.live, queue, List.cons_append, List.countP_cons,
      decide_eq_true_eq]
  refine ⟨⟨tallied.tidy, fun errand apart => ?_, (tallied.but _).drafts⟩, counts⟩
  have count := counts errand
  rw [if_neg (by rintro rfl; exact apart rfl), Nat.add_zero] at count
  exact count

/-- A head for which something is queued has a result type to wait for. -/
theorem Tallied.pending_of_queue {next : Deferral Empty} {rest : List (Deferral Empty)}
    {k : SignatureId} {h : SignatureDraft} (tallied : Tallied fresh none s)
    (queue : s.queue = next :: rest) (core : next.core = .conclude k)
    (here : s.signatures[k]? = some h) : h.signature.result.isPending = true := by
  have errand : next.errand = .head k := by rw [← next.errand_core, core]; rfl
  have own := (tallied.pop queue).2 (.head k)
  simp only [Checker.due, here, errand, Option.map_some, Option.getD_some, ↓reduceIte] at own
  by_contra known
  simp [known] at own

/-- A draft that has a deferral is there, and awaits something. -/
theorem Tallied.awaits_of_live {deferral : Deferral Empty} {name : String}
    (tallied : Tallied fresh none s) (live : deferral ∈ s.live)
    (errand : deferral.errand = .draft id name) :
    ∃ d, s.drafts[id]? = some d ∧ name ∈ d.work.awaits := by
  have count := tallied.count (.draft id name) (by simp)
  have some_here : 0 < s.tally (.draft id name) :=
    List.countP_pos_iff.2 ⟨_, live, by simpa using errand⟩
  rw [count, Checker.due] at some_here
  cases here : s.drafts[id]? with
  | none => simp [here] at some_here
  | some d =>
    refine ⟨d, rfl, ?_⟩
    by_contra apart
    simp [here, apart] at some_here

/-- A draft that something is queued for awaits the name. -/
theorem Tallied.awaits_of_queue {next : Deferral Empty} {rest : List (Deferral Empty)}
    {name : String} {d : Draft} (tallied : Tallied fresh none s)
    (queue : s.queue = next :: rest) (core : next.core = .resume id name)
    (here : s.drafts[id]? = some d) : name ∈ d.work.awaits := by
  have live : next ∈ s.live := by simp [Checker.live, queue]
  obtain ⟨_, there, awaits⟩ := tallied.awaits_of_live live
    (by rw [← next.errand_core, core]; rfl : next.errand = .draft id name)
  obtain rfl := Option.some.inj (here.symm.trans there)
  exact awaits

/-- Nobody waits yet for a draft that is still to come. -/
theorem Tallied.nothing_new (tallied : Tallied fresh none s) (name : String) :
    s.tally (.draft s.drafts.length name) = 0 := by
  rw [tallied.count _ (by simp)]
  simp [Checker.due]

theorem tally_defer {name : String} {declared : Option String} {position : Position} {done : Unit}
    (ends : Ends (defer scope name declared (.resume id name) position) s done t)
    (errand : Errand) :
    t.tally errand = s.tally errand + if .draft id name = errand then 1 else 0 := by
  obtain ⟨place, waiter, scopes, _, core, awaits, rfl⟩ := exists_of_defer ends
  simp only [Scopes.await, bind_eq_ok, pure_eq_ok, Scopes.get_eq_ok] at awaits
  obtain ⟨found, here, rfl⟩ := awaits
  have own : waiter.work.errand = .draft id name := by rw [← waiter.work.errand_core, core]; rfl
  have set := Scopes.countP_set (·.errand = errand) here (found.await name waiter)
  have awaited := found.countP_await (·.errand = errand) name waiter
  simp only [List.countP_singleton, own, decide_eq_true_eq] at awaited
  simp only [Checker.tally, Checker.live, List.countP_append]
  omega

theorem tidy_defer {name : String} {declared : Option String} {position : Position} {done : Unit}
    (ends : Ends (defer scope name declared (.resume id name) position) s done t)
    (tidy : s.scopes.Tidy) : t.scopes.Tidy := by
  obtain ⟨place, waiter, scopes, _, core, awaits, rfl⟩ := exists_of_defer ends
  simp only [Scopes.await, bind_eq_ok, pure_eq_ok, Scopes.get_eq_ok] at awaits
  obtain ⟨found, here, rfl⟩ := awaits
  exact tidy.set (Table.nodup_insert (tidy found (List.mem_of_getElem? here)) _ _)

theorem PutsOff.tidy (puts : PutsOff id scope names got work s last t) (tidy : s.scopes.Tidy) :
    t.scopes.Tidy := by
  induction puts with
  | done => exact tidy
  | known _ _ ih => exact ih tidy
  | wait _ _ defers _ ih => exact ih (tidy_defer defers tidy)

theorem PutsOff.tally_other (puts : PutsOff id scope names got work s last t)
    {errand : Errand} (other : errand.owner ≠ .inl id) :
    t.tally errand = s.tally errand := by
  induction puts with
  | done => rfl
  | known _ _ ih => exact ih
  | wait _ _ defers _ ih =>
    rw [ih, tally_defer defers, if_neg (by rintro rfl; exact other rfl), Nat.add_zero]
    rfl

theorem PutsOff.tally_own (puts : PutsOff id scope names got work s last t)
    (own : ∀ name, s.tally (.draft id name) = if name ∈ got then 1 else 0) (name : String) :
    t.tally (.draft id name) = if name ∈ got ∨ name ∈ names then 1 else 0 := by
  induction puts with
  | done => simpa using own name
  | known already _ ih =>
    rw [ih own]
    congr 1
    grind
  | @wait first names got _ _ drafts _ s _ _ missing _ defers _ ih =>
    rw [ih fun other => ?_]
    · congr 1
      grind
    · have before : Checker.tally { s with drafts } (.draft id other) = _ := own other
      rw [tally_defer defers, before]
      grind

/-- A look makes the counts right. -/
theorem Looked.tallied (looked : Looked view id scope work s types last t)
    (tallied : Tallied fresh (some (.inl id)) s) (faithful : fresh → work.Faithful)
    (own : ∀ name, s.tally (.draft id name) = if name ∈ work.awaited then 1 else 0) :
    Tallied fresh none t := by
  have put := looked.putAt
  obtain ⟨_, _, _, same⟩ := looked.redraws
  have awaits := looked.awaits
  have looks := looked.looks
  obtain ⟨after, drafts, -, -, -, puts⟩ := looked
  refine ⟨puts.tidy tallied.tidy, fun errand _ => ?_, fun other d _ there => ?_⟩
  · cases errand with
    | draft other name =>
      by_cases mine : other = id
      · subst mine
        have served : t.tally (.draft other name) = _ := puts.tally_own own name
        simp only [served, Checker.due, put.here, Option.map_some, Option.getD_some, awaits]
      · have elsewhere : t.drafts[other]? = s.drafts[other]? := (put other).trans (if_neg mine)
        rw [puts.tally_other (by simpa [Errand.owner] using mine), Checker.due, elsewhere]
        exact tallied.count (.draft other name) (by simpa [Errand.owner] using Ne.symm mine)
    | head k =>
      rw [puts.tally_other (by simp [Errand.owner]), Checker.due, same]
      exact tallied.count (.head k) (by simp [Errand.owner])
  · by_cases mine : other = id
    · subst mine
      obtain rfl := Option.some.inj (put.here.symm.trans there)
      exact ⟨work, view, types, faithful, looks, fun name mem => (awaits name).2 (.inr mem)⟩
    · rw [put other, if_neg mine] at there
      exact tallied.drafts other d (by simpa using Ne.symm mine) there

theorem Tallied.bound {found : Scope (Deferral Empty)} (tallied : Tallied fresh none s)
    (here : s.scopes.all[scope]? = some found) (binding : Binding) :
    Tallied fresh none { s with
      scopes := s.scopes.set scope (found.bind binding).2
      queue := s.queue ++ (found.bind binding).1 } := by
  have tidy := tallied.tidy found (List.mem_of_getElem? here)
  refine tallied.moved (tallied.tidy.set (Table.nodup_erase tidy _)) ⟨rfl, rfl⟩ fun p => ?_
  have set := Scopes.countP_set p here (found.bind binding).2
  have bind := Scope.countP_bind p tidy binding
  simp only [Checker.live, List.countP_append]
  omega

theorem Tallied.define {binding : Binding} {handed : List (Deferral Empty)}
    {scopes : Scopes (Deferral Empty)} (tallied : Tallied fresh none s)
    (done : s.scopes.define scope binding = .ok (handed, scopes)) :
    Tallied fresh none { s with scopes, queue := s.queue ++ handed } := by
  obtain ⟨found, here, -, rfl, rfl⟩ := Scopes.exists_of_define done
  exact tallied.bound here binding

theorem Tallied.update {binding : Binding} {handed : List (Deferral Empty)}
    {scopes : Scopes (Deferral Empty)} (tallied : Tallied fresh none s)
    (done : s.scopes.update scope binding = .ok (handed, scopes)) :
    Tallied fresh none { s with scopes, queue := s.queue ++ handed } := by
  obtain ⟨found, here, -, rfl, rfl⟩ := Scopes.exists_of_update done
  exact tallied.bound here binding

theorem Tallied.answered {before : Scopes (Deferral Empty)} {handed : List (Deferral Empty)}
    (tallied : Tallied fresh none m) (answers : Answers scope before last types m handed t) :
    Tallied fresh none { t with queue := t.queue ++ handed } := by
  cases answers with
  | assignment | evaluation | agrees => simpa using tallied
  | binds ends =>
    obtain ⟨_, changes, rfl⟩ := ends_update.1 ends
    obtain ⟨tidy, count, drafts⟩ := tallied.update changes
    exact ⟨tidy, count, drafts⟩
  | @sets _ type _ _ _ _ _ _ _ ends =>
    obtain ⟨_, changes, rfl⟩ := ends_setResult.1 ends
    obtain ⟨body, found, _, here, same⟩ := Scopes.exists_of_changeFunction changes
    obtain ⟨rfl, rfl⟩ := Prod.mk.inj same
    have tidy := tallied.tidy found (List.mem_of_getElem? here)
    refine tallied.moved (tallied.tidy.set tidy) ⟨rfl, rfl⟩ fun p => ?_
    have set := Scopes.countP_set p here { found with role := .function type [] }
    have role := found.countP_role p (.function type [])
    have none : (Role.function type []).waiting.countP p = 0 := rfl
    simp only [Checker.live, List.countP_append]
    omega

theorem Headed.tallied {k : SignatureId} {h : SignatureDraft} (headed : Headed k h s t)
    (tallied : Tallied fresh (some (.inr k)) s) (own : s.tally (.head k) = 0) :
    Tallied fresh none t := by
  obtain ⟨signatures, scopes, put, rfl, waits⟩ := headed
  have kept : scopes.Tidy ∧ ∀ p, scopes.kept.countP p = s.scopes.kept.countP p +
      if h.signature.result.isPending && p (.conclude k) then 1 else 0 := by
    split at waits
    case isTrue pending =>
      simp only [Scopes.awaitResult, bind_eq_ok, pure_eq_ok] at waits
      obtain ⟨⟨_, after⟩, changes, rfl⟩ := waits
      obtain ⟨body, found, result, here, same⟩ := Scopes.exists_of_changeFunction changes
      obtain ⟨-, rfl⟩ := Prod.mk.inj same
      refine ⟨tallied.tidy.set (tallied.tidy found (List.mem_of_getElem? here)), fun p => ?_⟩
      have set := Scopes.countP_set p here
        { found with role := .function result (found.role.waiting ++ [.conclude k]) }
      have role := found.countP_role p (.function result (found.role.waiting ++ [.conclude k]))
      have one : (Role.function result (found.role.waiting ++ [.conclude k])).waiting.countP p =
          found.role.waiting.countP p + if p (.conclude k) then 1 else 0 := by
        rw [Role.waiting, List.countP_append, List.countP_singleton]
      simp only [pending, Bool.true_and]
      omega
    case isFalse known => exact ⟨waits ▸ tallied.tidy, fun p => by simp [waits, known]⟩
  refine ⟨kept.1, fun errand _ => ?_, fun _ _ _ => tallied.drafts _ _ (by simp)⟩
  have counted : Checker.tally { s with signatures, scopes } errand = s.tally errand +
      if h.signature.result.isPending ∧ (Deferral.conclude k).errand = errand then 1 else 0 := by
    simp [Checker.tally, Checker.live, kept.2, Nat.add_assoc]
  rw [counted]
  cases errand with
  | draft other name =>
    rw [if_neg (by simp [Deferral.errand]), tallied.count _ (by simp [Errand.owner])]
    rfl
  | head other =>
    by_cases mine : other = k
    · subst mine
      simp [own, Checker.due, put.here, Deferral.errand]
    · rw [if_neg (by simpa [Deferral.errand] using fun _ => Ne.symm mine),
        tallied.count _ (by simpa [Errand.owner] using Ne.symm mine)]
      simp only [Checker.due, put other, if_neg mine, Nat.add_zero]

/-- The head of a function that waited is served. -/
theorem Tallied.serve {next : Deferral Empty} {rest : List (Deferral Empty)} {k : SignatureId}
    {h : SignatureDraft} (tallied : Tallied fresh none s) (queue : s.queue = next :: rest)
    (core : next.core = .conclude k) (headed : Headed k h { s with queue := rest } t) :
    Tallied fresh none t := by
  have errand : next.errand = .head k := by rw [← next.errand_core, core]; rfl
  obtain ⟨served, pop⟩ := tallied.pop queue
  rw [errand] at served pop
  refine headed.tallied served ?_
  have own := pop (.head k)
  simp only [Checker.due] at own
  grind

theorem Tallied.queueStep (queueStep : QueueStep s t) (tallied : Tallied fresh none s) :
    Tallied fresh none t := by
  cases queueStep with
  | @resume _ next rest _ id name d queue core here reviewed =>
    obtain ⟨_, _, m, looked, answers⟩ := reviewed
    have errand : next.errand = .draft id name := by rw [← next.errand_core, core]; rfl
    obtain ⟨before, view, types, faithful, looks, -⟩ := tallied.drafts id d (by simp) here
    obtain ⟨served, pop⟩ := tallied.pop queue
    rw [errand] at served pop
    refine (looked.tallied served (fun text => (looks.faithful (faithful text)).strike name)
      fun other => ?_).answered answers
    have count := pop (.draft id other)
    simp only [Checker.due, here, Option.map_some, Option.getD_some] at count
    have struck := d.work.mem_awaited_strike (tallied.awaits_of_queue queue core here) other
    grind
  | postpone queue core _ _ _ headed => exact tallied.serve queue core headed
  | conclude queue core _ _ _ headed changes => exact (tallied.serve queue core headed).update changes

/-- One step keeps every count right. -/
theorem Tallied.checkStep {setting : Setting σ} (checkStep : CheckStep setting s t)
    (tallied : Tallied setting.fresh none s) : Tallied setting.fresh none t := by
  cases checkStep with
  | idle firing budget store journal =>
    obtain ⟨tidy, count, drafts⟩ := tallied
    exact ⟨tidy, count, drafts⟩
  | @create _ parent kind _ _ =>
    refine tallied.moved ?_ ⟨rfl, rfl⟩ fun p => ?_
    · intro scope mem
      rw [Scopes.create, List.mem_append, List.mem_singleton] at mem
      rcases mem with mem | rfl
      · exact tallied.tidy scope mem
      · simp [Table.names, Table.empty]
    · cases kind <;> simp [Checker.live, Scopes.kept, Scopes.create, Scope.kept, ScopeKind.role,
        Role.waiting, Table.empty]
  | define done => exact tallied.define done
  | declare fresh _ _ _ _ looked =>
    refine looked.tallied (tallied.but _) (fun text => ⟨fun _ same => ?_, by simp [Work.assignment?]⟩)
      fun name => by simp [tallied.nothing_new, Work.awaited]
    obtain rfl := Option.some.inj same
    exact Expr.faithful_of_isFresh (fresh text)
  | reach fresh _ nothing reviewed =>
    obtain ⟨_, _, m, looked, answers⟩ := reviewed
    refine (looked.tallied (tallied.but _) (fun text => (fresh text).faithful) fun name => ?_).answered
      answers
    simp [tallied.nothing_new, nothing]
  | head _ _ _ headed done =>
    refine Tallied.define (headed.tallied (tallied.but _) ?_) done
    rw [tallied.count _ (by simp)]
    simp [Checker.due]
  | queueStep queueStep => exact tallied.queueStep queueStep

theorem tallied_initial (store : σ) (budget : Nat) :
    Tallied fresh none (Checker.initial store budget) := by
  refine ⟨?_, fun errand _ => ?_, fun _ _ _ there => by simp [Checker.initial] at there⟩
  · intro scope mem
    obtain rfl := List.mem_singleton.1 mem
    simp [Table.names, Table.empty]
  · cases errand <;> simp [Checker.tally, Checker.live, Checker.due, Checker.initial, Scopes.kept,
      Scopes.create, Scopes.empty, Scope.kept, ScopeKind.role, Role.waiting, Table.empty]

end Check

end Hoist
