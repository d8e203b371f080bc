import Hoist.Module.Registry
import Hoist.Proofs.Check.Finished
import Hoist.Proofs.Check.Parts
import Hoist.Proofs.Typing.Filled
import Hoist.Proofs.Typing.Refusals

/-!
A checker in which nothing is open: every name has its type, every function its result type, and
nobody waits. It stays so while statements are checked that have all their types in them, and if it
halts, it has not put anything off before.

Main statements: what comes of binding a name (`Quiet.binds`), of making a scope (`Quiet.enter`) and
of taking a step (`Quiet.ticks`).
-/
namespace Hoist

/-- A note that tells of nothing put off: nobody waits, nothing is queued, and names are bound to
types that are known. -/
def Note.isQuiet : Note → Bool
  | .awaited _ _ | .resultAwaited _ | .queued _ => false
  | .defined _ type _ | .updated _ type _ => type.isConcrete
  | _ => true

/-- The causes that are found when somebody has waited for a name. -/
def Cause.isLate : Cause → Bool
  | .unresolvedReference _ | .invalidForwardReference _ => true
  | _ => false

def Halt.isLate : Halt → Bool
  | .rejected diagnostic => diagnostic.cause.isLate
  | _ => false

theorem Cause.isLate_of_isLawful {cause : Cause} (lawful : cause.isLawful = true) :
    cause.isLate = false := by
  cases cause <;> simp_all [Cause.isLawful, Cause.isLate]

theorem Fault.isLate_haltAt {fault : Fault} (lawful : fault.isLawful = true)
    (position : Position) : (fault.haltAt position).isLate = false := by
  cases fault with
  | dangling => rfl
  | refused cause => exact Cause.isLate_of_isLawful lawful

theorem Fault.haltAt_ne_exhausted (fault : Fault) (position : Position) :
    fault.haltAt position ≠ .exhausted := by
  cases fault <;> simp [Fault.haltAt]

/-- The importer has its answers ready: it changes nothing, and the types it gives are known. -/
def Importer.Prepared {σ : Type} (importer : Importer σ) (store : σ) : Prop :=
  ∀ name source position,
    (∃ type : ConcreteTy,
      importer.typeOf name source position store = (.ok type.toTy, store, [])) ∨
    importer.typeOf name source position store =
      (.error (.rejected ⟨.unresolvedImport name source, position⟩), store, [])

/-! The modules that come with the language. -/

theorem Registry.load_builtin (fuel : Nat) (source : String) (position : Position) :
    Registry.load fuel source position .builtin = (.ok (), .builtin, []) := by
  have ready : Registry.builtin.request source position = (.ready, .builtin) := by
    rw [Registry.request]
    split
    · rfl
    · rfl
  rw [Registry.load]
  simp [ready]

/-- The types that come with the language are known. -/
theorem Registry.exported_builtin (name source : String) (position : Position) :
    (∃ type : ConcreteTy, Registry.builtin.exported name source position = .ok type.toTy) ∨
      Registry.builtin.exported name source position =
        .error (.rejected ⟨.unresolvedImport name source, position⟩) := by
  have exit : (Ty.function [("status", .number)] .boolean) =
      (ConcreteTy.function [("status", .number)] .boolean).toTy := rfl
  by_cases module : "internal" = source <;> by_cases known : "syscallExit" = name <;>
    simp [Registry.exported, Registry.builtin, Registry.builtinModules, Registry.registerAll,
      Registry.register, Registry.empty, Table.find?_insert, Table.find?_empty, Table.ofList,
      module, known, exit]

theorem Registry.prepared_builtin (fuel : Nat) :
    (Registry.importer fuel).Prepared Registry.builtin := by
  intro name source position
  have answers : (Registry.importer fuel).typeOf name source position Registry.builtin =
      (Registry.builtin.exported name source position, .builtin, []) := by
    simp only [Registry.importer, Registry.typeOf, Registry.load_builtin, Registry.answer]
  rw [answers]
  obtain ⟨type, known⟩ | refused := Registry.exported_builtin name source position
  · exact .inl ⟨type, by rw [known]⟩
  · exact .inr (by rw [refused])

namespace Scopes

variable {δ : Type} {scopes : Scopes δ}

/-! Nobody waits. -/

theorem firstWaiting?_eq_none :
    scopes.firstWaiting? = none ↔ ∀ scope ∈ scopes.all, scope.firstWaiting? = none :=
  List.findSome?_eq_none_iff

theorem firstWaiting?_create (nobody : scopes.firstWaiting? = none) (parent : Option ScopeId)
    (kind : ScopeKind) : (scopes.create parent kind).firstWaiting? = none := by
  rw [firstWaiting?_eq_none] at nobody ⊢
  intro scope mem
  rcases List.mem_append.1 mem with old | new
  · exact nobody scope old
  · obtain rfl := List.mem_singleton.1 new
    rfl

/-- Who binds a name adds nobody who waits. -/
theorem firstWaiting?_define {after : Scopes δ} {id : ScopeId} {binding : Binding} {work : List δ}
    (nobody : scopes.firstWaiting? = none)
    (defined : scopes.define id binding = .ok (work, after)) : after.firstWaiting? = none := by
  simp only [define, bind_eq_ok, get_eq_ok] at defined
  obtain ⟨here, found, defined⟩ := defined
  split at defined
  · simp at defined
  · obtain ⟨_, rfl⟩ : (here.bind binding).1 = work ∧ scopes.set id (here.bind binding).2 = after := by
      simpa using defined
    rw [firstWaiting?_eq_none] at nobody ⊢
    intro scope mem
    rcases List.mem_or_eq_of_mem_set mem with old | rfl
    · exact nobody scope old
    · have idle := List.findSome?_eq_none_iff.1 (nobody here (List.mem_of_getElem? found))
      refine List.findSome?_eq_none_iff.2 fun entry mem => idle entry ?_
      exact (List.mem_filter.1 mem).1

theorem define_eq_error {id : ScopeId} {binding : Binding} {fault : Fault}
    (fails : scopes.define id binding = .error fault) :
    fault = .dangling ∨ fault = .refused (.duplicateSymbol binding.name) := by
  cases here : scopes.all[id]? with
  | none =>
    simp only [define, get, here, bind, Except.bind, Except.error.injEq] at fails
    exact .inl fails.symm
  | some scope =>
    by_cases bound : scope.binds binding.name
    · simp only [define, get, here, bind, Except.bind, bound, ↓reduceIte, throw, throwThe,
        MonadExceptOf.throw, Except.error.injEq] at fails
      exact .inr fails.symm
    · simp [define, get, here, bind, Except.bind, bound, pure, Except.pure] at fails

end Scopes

namespace Check

variable {σ : Type} {s t : Checker Empty σ}

/-- Drafts only come, at the end, and functions keep their result types. -/
structure Appends (s t : Checker Empty σ) : Prop where
  drafts : s.drafts <+: t.drafts
  signatures : s.signatures <+: t.signatures
  results : ∀ id type, s.scopes.result? id = some type → t.scopes.result? id = some type

theorem Appends.refl (s : Checker Empty σ) : Appends s s :=
  ⟨List.prefix_refl _, List.prefix_refl _, fun _ _ kept => kept⟩

theorem Appends.trans {m : Checker Empty σ} (first : Appends s m) (second : Appends m t) :
    Appends s t :=
  ⟨first.drafts.trans second.drafts, first.signatures.trans second.signatures,
    fun id type kept => second.results id type (first.results id type kept)⟩

theorem getElem?_of_appended {α : Type} {before after : List α} (isPrefix : before <+: after)
    {id : Nat} {found : α} (here : before[id]? = some found) : after[id]? = some found := by
  obtain ⟨more, rfl⟩ := isPrefix
  rw [List.getElem?_append_left (List.getElem?_eq_some_iff.1 here).1, here]

theorem Appends.completeLeaf {id : DraftId} {d : Draft} {typed : Typed.Leaf}
    (appends : Appends s t) (found : s.drafts[id]? = some d) :
    t.completeLeaf (.draft id) = .ok typed ↔ d.work.complete = .ok typed := by
  exact completeLeaf_draft (getElem?_of_appended appends.drafts found)

theorem Appends.completeHead {id : SignatureId} {h : SignatureDraft} {typed : Typed.Signature}
    (appends : Appends s t) (found : s.signatures[id]? = some h) :
    t.completeHead id = .ok typed ↔ h.signature.complete = .ok typed := by
  have later := getElem?_of_appended appends.signatures found
  simp [Checker.completeHead, later, atPosition_eq_ok]

/-- Nothing is open in the scopes `ids`, and unless the budget is `short` it pays for what is
`ahead`. -/
structure Quiet (store : σ) (short : Prop) (ahead : Nat) (ids : List ScopeId)
    (s : Checker Empty σ) : Prop where
  path : s.scopes.Path ids
  known : ∀ id name binding, s.scopes.binding? id name = some binding →
    binding.type.isConcrete = true
  results : ∀ id type, s.scopes.result? id = some type → type.isConcrete = true
  nobody : s.scopes.firstWaiting? = none
  queue : s.queue = []
  idle : s.firing = false
  store : s.store = store
  journal : ∀ note ∈ s.journal, note.isQuiet = true
  budget : s.budget < ahead → short

/-- A run that halts has not put anything off, and was not cut short. -/
structure Spares (short : Prop) (halt : Halt) (t : Checker Empty σ) : Prop where
  journal : ∀ note ∈ t.journal, note.isQuiet = true
  prompt : halt.isLate = false
  budget : halt = .exhausted → short

variable {store : σ} {short : Prop} {ahead : Nat} {ids : List ScopeId}

/-! Questions. -/

theorem Quiet.refuses (quiet : Quiet store short ahead ids s) {cause : Cause} {position : Position}
    (prompt : cause.isLate = false) : Spares short (.rejected ⟨cause, position⟩) s :=
  ⟨quiet.journal, prompt, by simp⟩

theorem Quiet.fails (quiet : Quiet store short ahead ids s) {fault : Fault} {position : Position}
    (lawful : fault.isLawful = true) : Spares short (fault.haltAt position) s :=
  ⟨quiet.journal, fault.isLate_haltAt lawful position,
    fun same => absurd same (fault.haltAt_ne_exhausted position)⟩

variable {scope : ScopeId} {outer : List ScopeId}

/-- A name that can be looked up has a type. -/
theorem Quiet.view_eq (quiet : Quiet store short ahead (scope :: outer) s) {name : String}
    {binding : Binding} (found : s.scopes.lookup scope name = .ok (some binding)) :
    (s.scopes.view scope).type name = .ok binding.type ∧ binding.type.isConcrete = true := by
  rw [quiet.path.lookup_eq, Except.ok.injEq] at found
  obtain ⟨owner, _, bound⟩ := List.exists_of_findSome?_eq_some found
  have known := quiet.known owner name binding bound
  rw [quiet.path.view_type_eq, found]
  simp [known]

theorem Quiet.resultType_eq (quiet : Quiet store short ahead (scope :: outer) s) :
    s.scopes.resultType scope = .ok none ∨ ∃ type : ConcreteTy,
      s.scopes.resultType scope = .ok (some type.toTy) := by
  rw [quiet.path.resultType_eq]
  rcases around : ((scope :: outer).find? fun at_ => s.scopes.kind? at_ = some .function).bind
    s.scopes.result? with _ | type
  · exact .inl rfl
  · obtain ⟨body, _, kept⟩ := Option.bind_eq_some_iff.1 around
    obtain ⟨known, rfl⟩ := Ty.isConcrete_iff.1 (quiet.results body type kept)
    exact .inr ⟨known, rfl⟩

/-- A question about the place has an answer, and nobody waits for it. -/
theorem Quiet.demands (quiet : Quiet store short ahead ids s)
    {holds : Scopes (Deferral Empty) → Except Fault Bool} {answer : Bool}
    (known : holds s.scopes = .ok answer) {cause : Cause} (prompt : cause.isLate = false)
    {position : Position} {good : Unit → Checker Empty σ → Prop} (next : good () s) :
    Yields (demand holds cause position) s good (Spares short) := by
  rw [yields_demand known]
  exact ⟨fun _ => next, fun _ => quiet.refuses prompt⟩

/-- A look at an expression with all its types in it ends with a known type, or is refused. -/
theorem Quiet.looks (quiet : Quiet store short ahead ids s) (typed : Typed.Expr) (view : View)
    (position : Position) {good : Ty → Checker Empty σ → Prop}
    (next : ∀ type, typed.toExpr.resolve view = (.ok type, typed.toExpr) →
      type.isConcrete = true → good type s) :
    Yields (ofFault position (typed.toExpr.resolve view).1) s good (Spares short) := by
  have lawful := Expr.resolve_lawful view typed.toExpr
  have firm := typed.firm_toExpr view
  rw [yields_ofFault]
  refine ⟨fun type look => ?_, fun fault look => quiet.fails (lawful fault look)⟩
  exact next type (Prod.ext look firm.same) (firm.known type look)

/-! Changes. -/

/-- Drafts do not matter. -/
theorem Quiet.redraft (quiet : Quiet store short ahead ids s) (drafts : List Draft)
    (signatures : List SignatureDraft) : Quiet store short ahead ids { s with drafts, signatures } :=
  ⟨quiet.path, quiet.known, quiet.results, quiet.nobody, quiet.queue, quiet.idle, quiet.store,
    quiet.journal, quiet.budget⟩

theorem Quiet.notes (quiet : Quiet store short ahead ids s) {note : Note}
    (isQuiet : note.isQuiet = true) :
    Quiet store short ahead ids { s with journal := note :: s.journal } :=
  ⟨quiet.path, quiet.known, quiet.results, quiet.nobody, quiet.queue, quiet.idle, quiet.store,
    List.forall_mem_cons.2 ⟨isQuiet, quiet.journal⟩, quiet.budget⟩

theorem Quiet.ticks (quiet : Quiet store short (ahead + 1) ids s)
    {good : Unit → Checker Empty σ → Prop}
    (next : ∀ m, Ends tick s () m → Appends s m → Quiet store short ahead ids m → good () m) :
    Yields tick s good (Spares short) := by
  rw [yields_tick]
  refine ⟨fun spent => ⟨quiet.journal, rfl, fun _ => quiet.budget (by omega)⟩, fun left here => ?_⟩
  refine next _ (ends_tick.2 ⟨left, here, rfl⟩) ⟨List.prefix_refl _, List.prefix_refl _,
    fun _ _ kept => kept⟩ ⟨quiet.path, quiet.known, quiet.results, quiet.nobody, quiet.queue,
    quiet.idle, quiet.store, quiet.journal, fun short' => quiet.budget ?_⟩
  have paid : left < ahead := short'
  omega

/-- A wave with nothing to perform. -/
theorem Quiet.settles (quiet : Quiet store short ahead ids s)
    (client : Empty → Check Empty σ Unit) {good : Unit → Checker Empty σ → Prop}
    {bad : Halt → Checker Empty σ → Prop} :
    Yields (runWave client []) s good bad ↔ good () s := by
  obtain ⟨scopes, drafts, signatures, _, _, budget, kept, journal⟩ := s
  obtain rfl : [] = _ := quiet.queue.symm
  obtain rfl : false = _ := quiet.idle.symm
  cases budget <;> simp [runWave, enqueue, drain, endWave]

/-- Binding a name to a type that is known hands back nothing. -/
theorem Quiet.binds (quiet : Quiet store short ahead (scope :: outer) s)
    (client : Empty → Check Empty σ Unit) {binding : Binding} (position : Position)
    (known : binding.type.isConcrete = true) {good : Unit → Checker Empty σ → Prop}
    (next : ∀ scopes journal, Quiet store short ahead (scope :: outer) { s with scopes, journal } →
      (∀ id, scopes.result? id = s.scopes.result? id) → good () { s with scopes, journal }) :
    Yields (define scope binding position) s
      (fun work t => Yields (runWave client work) t good (Spares short)) (Spares short) := by
  rw [yields_define]
  constructor
  · intro work scopes defined
    obtain ⟨_, bound⟩ := Scopes.define_eq_ok defined
    obtain rfl : [] = work := by simp [bound.work, Scopes.waiters_eq_nil quiet.nobody]
    have later : Quiet store short ahead (scope :: outer) { s with
        scopes
        journal := .defined binding.name binding.type scope :: s.journal } := by
      refine ⟨quiet.path.mono fun id parent found => (bound.parent id).trans found, ?_, ?_,
        Scopes.firstWaiting?_define quiet.nobody defined, quiet.queue, quiet.idle, quiet.store,
        List.forall_mem_cons.2 ⟨known, quiet.journal⟩, quiet.budget⟩
      · intro id name other found
        rw [bound.bindings] at found
        split at found
        · exact Option.some.inj found ▸ known
        · exact quiet.known id name other found
      · intro id type kept
        exact quiet.results id type (bound.result id ▸ kept)
    exact (later.settles client).2 (next _ _ later bound.result)
  · intro fault fails
    rcases Scopes.define_eq_error fails with rfl | rfl
    · exact ⟨quiet.journal, rfl, by simp [Fault.haltAt]⟩
    · exact quiet.refuses rfl

/-- The state in which the body of a statement begins. -/
def entered (s : Checker Empty σ) (scope : ScopeId) (kind : ScopeKind) : Checker Empty σ :=
  { s with
    scopes := s.scopes.create (some scope) kind
    journal := .scopeCreated s.scopes.size (some scope) :: s.journal }

theorem appends_entered (s : Checker Empty σ) (scope : ScopeId) (kind : ScopeKind) :
    Appends s (entered s scope kind) := by
  refine ⟨List.prefix_refl _, List.prefix_refl _, fun id type kept => ?_⟩
  have created := s.scopes.created_create scope kind
  obtain ⟨here, found, _⟩ := Option.bind_eq_some_iff.1 kept
  exact (created.result id (Nat.ne_of_lt (Scopes.lt_size_of_get found))).trans kept

theorem Quiet.enter (quiet : Quiet store short ahead (scope :: outer) s) (kind : ScopeKind)
    (known : ∀ result, kind = .function result → result.isConcrete = true) :
    Quiet store short ahead (s.scopes.size :: scope :: outer) (entered s scope kind) := by
  have created := s.scopes.created_create scope kind
  refine ⟨created.path quiet.path, ?_, ?_, Scopes.firstWaiting?_create quiet.nobody _ _,
    quiet.queue, quiet.idle, quiet.store, List.forall_mem_cons.2 ⟨rfl, quiet.journal⟩,
    quiet.budget⟩
  · intro id name binding found
    exact quiet.known id name binding (created.bindings id name ▸ found)
  · intro id type kept
    have kept : (s.scopes.create (some scope) kind).result? id = some type := kept
    by_cases here : id = s.scopes.size
    · subst here
      rw [created.own] at kept
      cases kind with
      | block | loop => simp [ScopeKind.role, Role.result?] at kept
      | function result => exact Option.some.inj kept ▸ known result rfl
    · exact quiet.results id type (created.result id here ▸ kept)

theorem Quiet.leave {inner : ScopeId} (quiet : Quiet store short ahead (inner :: scope :: outer) s) :
    Quiet store short ahead (scope :: outer) s :=
  ⟨quiet.path.tail, quiet.known, quiet.results, quiet.nobody, quiet.queue, quiet.idle, quiet.store,
    quiet.journal, quiet.budget⟩

end Check

end Hoist
