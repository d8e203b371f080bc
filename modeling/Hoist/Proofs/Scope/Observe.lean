import Hoist.Proofs.Typing.Conversion
import Hoist.Scope.Change

/-!
What can be seen of scopes, and what each operation changes of it. The parts are the parent of a
scope, its kind, its bindings, the work that waits for its names, and for the body of a function
the result type and the work that waits for that.

Main statements: one for each operation, which says what every part is afterwards (`define_eq_ok`,
`update_eq_ok`, `await_eq_ok`, `setResult_eq_ok`, `awaitResult_eq_ok`).
-/
namespace Hoist

inductive BlockKind
  | block
  | loop
  | function
  deriving DecidableEq, Repr

def Role.kind {δ : Type} : Role δ → BlockKind
  | .block => .block
  | .loop => .loop
  | .function _ _ => .function

def ScopeKind.kind : ScopeKind → BlockKind
  | .block => .block
  | .loop => .loop
  | .function _ => .function

def Role.result? {δ : Type} : Role δ → Option Ty
  | .function result _ => some result
  | _ => none

def Role.waiting {δ : Type} : Role δ → List δ
  | .function _ waiting => waiting
  | _ => []

theorem Table.mem_names {α : Type} {table : Table α} {name : String} :
    name ∈ table.names ↔ (table.find? name).isSome = true := by
  obtain ⟨entries⟩ := table
  simp only [Table.names, Table.find?]
  induction entries with
  | nil => simp [Table.first?]
  | cons entry rest ih =>
    obtain ⟨other, value⟩ := entry
    by_cases same : other = name
    · simp [Table.first?, same]
    · have different : name ≠ other := fun eq => same eq.symm
      simp [Table.first?, same, different, ih]

theorem Table.not_mem_names {α : Type} {table : Table α} {name : String} :
    name ∉ table.names ↔ table.find? name = none := by
  rw [Table.mem_names, Bool.not_eq_true, Option.isSome_eq_false_iff, Option.isNone_iff_eq_none]

theorem Table.nodup_insert {α : Type} {table : Table α} (distinct : table.names.Nodup)
    (name : String) (value : α) : (table.insert name value).names.Nodup := by
  rw [names_insert]
  split
  · exact distinct
  case isFalse absent =>
    have fresh : name ∉ table.names := fun mem => absent (mem_names.1 mem)
    refine List.nodup_append.2 ⟨distinct, by simp, ?_⟩
    rintro other mem _ (_ | _) rfl
    · exact fresh mem
    · contradiction

theorem Table.nodup_erase {α : Type} {table : Table α} (distinct : table.names.Nodup)
    (name : String) : (table.erase name).names.Nodup :=
  distinct.sublist (List.filter_sublist.map _)

theorem Table.mem_of_first? {α : Type} {name : String} {entries : List (String × α)} {value : α}
    (found : Table.first? name entries = some value) : (name, value) ∈ entries := by
  induction entries with
  | nil => simp [Table.first?] at found
  | cons entry rest ih =>
    obtain ⟨other, here⟩ := entry
    by_cases same : other = name
    · obtain rfl : here = value := by simpa [Table.first?, same] using found
      simp [same]
    · exact List.mem_cons_of_mem _ (ih (by simpa [Table.first?, same] using found))

namespace Scopes

variable {δ : Type}

def parent? (scopes : Scopes δ) (id : ScopeId) : Option (Option ScopeId) :=
  scopes.all[id]?.map (·.parent)

def kind? (scopes : Scopes δ) (id : ScopeId) : Option BlockKind :=
  scopes.all[id]?.map (·.role.kind)

def binding? (scopes : Scopes δ) (id : ScopeId) (name : String) : Option Binding :=
  scopes.all[id]?.bind (·.bindings.find? name)

def waiters (scopes : Scopes δ) (id : ScopeId) (name : String) : List (Waiter δ) :=
  (scopes.all[id]?.map (·.waitingOn name)).getD []

/-- The result type that a scope keeps, if it is the body of a function. -/
def result? (scopes : Scopes δ) (id : ScopeId) : Option Ty :=
  scopes.all[id]?.bind (·.role.result?)

def resultWaiters (scopes : Scopes δ) (id : ScopeId) : List δ :=
  (scopes.all[id]?.map (·.role.waiting)).getD []

theorem get_eq_ok {scopes : Scopes δ} {id : ScopeId} {scope : Scope δ} :
    scopes.get id = .ok scope ↔ scopes.all[id]? = some scope := by
  unfold get
  cases scopes.all[id]? <;> simp

theorem lt_size_of_get {scopes : Scopes δ} {id : ScopeId} {scope : Scope δ}
    (here : scopes.all[id]? = some scope) : id < scopes.size :=
  (List.getElem?_eq_some_iff.1 here).1

theorem exists_of_lt {scopes : Scopes δ} {id : ScopeId} (bound : id < scopes.size) :
    ∃ scope, scopes.all[id]? = some scope :=
  ⟨_, List.getElem?_eq_getElem bound⟩

theorem lt_size_of_binding? {scopes : Scopes δ} {id : ScopeId} {name : String} {binding : Binding}
    (bound : scopes.binding? id name = some binding) : id < scopes.size := by
  obtain ⟨scope, here, _⟩ := Option.bind_eq_some_iff.1 bound
  exact lt_size_of_get here

theorem lt_size_of_parent? {scopes : Scopes δ} {id : ScopeId} {parent : Option ScopeId}
    (found : scopes.parent? id = some parent) : id < scopes.size := by
  obtain ⟨scope, here, _⟩ := Option.map_eq_some_iff.1 found
  exact lt_size_of_get here

theorem all_set {scopes : Scopes δ} {id : ScopeId} {scope : Scope δ} (bound : id < scopes.size)
    (other : ScopeId) :
    (scopes.set id scope).all[other]? = if id = other then some scope else scopes.all[other]? := by
  by_cases same : id = other
  · subst same
    simp_all [set, size]
  · simp [set, same]

/-- A name was bound, anew or again, and `work` is what waited for it. -/
structure Bound (before after : Scopes δ) (id : ScopeId) (binding : Binding) (work : List δ) :
    Prop where
  inside : id < before.size
  size : after.size = before.size
  parent : ∀ other, after.parent? other = before.parent? other
  kind : ∀ other, after.kind? other = before.kind? other
  result : ∀ other, after.result? other = before.result? other
  resultWaiters : ∀ other, after.resultWaiters other = before.resultWaiters other
  bindings : ∀ other name, after.binding? other name =
    if other = id ∧ name = binding.name then some binding else before.binding? other name
  waiters : ∀ other name, after.waiters other name =
    if other = id ∧ name = binding.name then [] else before.waiters other name
  work : work = (before.waiters id binding.name).map (·.work)

theorem bound_bind {scopes : Scopes δ} {id : ScopeId} {scope : Scope δ} (binding : Binding)
    (here : scopes.all[id]? = some scope) :
    Bound scopes (scopes.set id (scope.bind binding).2) id binding (scope.bind binding).1 := by
  have inside := lt_size_of_get here
  constructor
  case inside => exact inside
  case size => simp
  case parent | kind | result | resultWaiters =>
    intro other
    by_cases same : id = other
    · subst same
      simp [parent?, kind?, result?, resultWaiters, all_set inside, here, Scope.bind]
    · simp [parent?, kind?, result?, resultWaiters, all_set inside, same]
  case bindings =>
    intro other name
    by_cases same : id = other
    · subst same
      simp only [binding?, all_set inside, ↓reduceIte, Option.bind_some, Scope.bind,
        Table.find?_insert, true_and, here, eq_comm]
    · simp [binding?, all_set inside, same, Ne.symm same]
  case waiters =>
    intro other name
    by_cases same : id = other
    · subst same
      simp only [waiters, all_set inside, ↓reduceIte, Option.map_some, Option.getD_some,
        Scope.bind, Scope.waitingOn, Table.find?_erase, true_and, here, eq_comm]
      split <;> rfl
    · simp [waiters, all_set inside, same, Ne.symm same]
  case work => simp [Scope.bind, waiters, here]

theorem binds_eq {scopes : Scopes δ} {id : ScopeId} {scope : Scope δ} (name : String)
    (here : scopes.all[id]? = some scope) :
    scope.binds name = (scopes.binding? id name).isSome := by
  simp [binding?, here, Scope.binds, Table.contains]

theorem exists_of_define {before after : Scopes δ} {id : ScopeId} {binding : Binding}
    {work : List δ} (done : before.define id binding = .ok (work, after)) :
    ∃ scope, before.all[id]? = some scope ∧ scope.binds binding.name = false ∧
      work = (scope.bind binding).1 ∧ after = before.set id (scope.bind binding).2 := by
  simp only [define, bind_eq_ok, get_eq_ok] at done
  obtain ⟨scope, here, done⟩ := done
  split at done
  · simp at done
  · rename_i unbound
    obtain ⟨rfl, rfl⟩ : (scope.bind binding).1 = work ∧
        before.set id (scope.bind binding).2 = after := by simpa using done
    exact ⟨scope, here, by simpa using unbound, rfl, rfl⟩

theorem define_eq_ok {before after : Scopes δ} {id : ScopeId} {binding : Binding} {work : List δ}
    (done : before.define id binding = .ok (work, after)) :
    before.binding? id binding.name = none ∧ Bound before after id binding work := by
  obtain ⟨scope, here, unbound, rfl, rfl⟩ := exists_of_define done
  refine ⟨?_, bound_bind binding here⟩
  simpa [binds_eq binding.name here] using unbound

theorem exists_define {before : Scopes δ} {id : ScopeId} {binding : Binding}
    (inside : id < before.size) (unbound : before.binding? id binding.name = none) :
    ∃ work after, before.define id binding = .ok (work, after) := by
  obtain ⟨scope, here⟩ := exists_of_lt inside
  have known := binds_eq binding.name here
  refine ⟨(scope.bind binding).1, before.set id (scope.bind binding).2, ?_⟩
  simp [define, get_eq_ok.2 here, known, unbound]

theorem exists_of_update {before after : Scopes δ} {id : ScopeId} {binding : Binding}
    {work : List δ} (done : before.update id binding = .ok (work, after)) :
    ∃ scope, before.all[id]? = some scope ∧ scope.binds binding.name = true ∧
      work = (scope.bind binding).1 ∧ after = before.set id (scope.bind binding).2 := by
  simp only [update, bind_eq_ok, get_eq_ok] at done
  obtain ⟨scope, here, done⟩ := done
  split at done
  · simp at done
  · rename_i bound
    obtain ⟨rfl, rfl⟩ : (scope.bind binding).1 = work ∧
        before.set id (scope.bind binding).2 = after := by simpa using done
    exact ⟨scope, here, by simpa using bound, rfl, rfl⟩

theorem update_eq_ok {before after : Scopes δ} {id : ScopeId} {binding : Binding} {work : List δ}
    (done : before.update id binding = .ok (work, after)) :
    (before.binding? id binding.name).isSome = true ∧ Bound before after id binding work := by
  obtain ⟨scope, here, bound, rfl, rfl⟩ := exists_of_update done
  exact ⟨by rw [← binds_eq binding.name here, bound], bound_bind binding here⟩

/-- A waiter was added, and nothing else changed. -/
structure Awaited (before after : Scopes δ) (id : ScopeId) (name : String) (waiter : Waiter δ) :
    Prop where
  inside : id < before.size
  size : after.size = before.size
  parent : ∀ other, after.parent? other = before.parent? other
  kind : ∀ other, after.kind? other = before.kind? other
  result : ∀ other, after.result? other = before.result? other
  resultWaiters : ∀ other, after.resultWaiters other = before.resultWaiters other
  bindings : ∀ other name, after.binding? other name = before.binding? other name
  waiters : ∀ other others, after.waiters other others =
    if other = id ∧ others = name then before.waiters id name ++ [waiter]
    else before.waiters other others

theorem await_eq_ok {before after : Scopes δ} {id : ScopeId} {name : String} {waiter : Waiter δ}
    (done : before.await id name waiter = .ok after) : Awaited before after id name waiter := by
  simp only [await, bind_eq_ok, pure_eq_ok, get_eq_ok] at done
  obtain ⟨scope, here, rfl⟩ := done
  have inside := lt_size_of_get here
  constructor
  case inside => exact inside
  case size => simp
  case parent | kind | result | resultWaiters =>
    intro other
    by_cases same : id = other
    · subst same
      simp [parent?, kind?, result?, resultWaiters, all_set inside, here, Scope.await]
    · simp [parent?, kind?, result?, resultWaiters, all_set inside, same]
  case bindings =>
    intro other others
    by_cases same : id = other
    · subst same
      simp [binding?, all_set inside, here, Scope.await]
    · simp [binding?, all_set inside, same]
  case waiters =>
    intro other others
    by_cases same : id = other
    · subst same
      simp only [waiters, all_set inside, ↓reduceIte, Option.map_some, Option.getD_some,
        Scope.await, Scope.waitingOn, Table.find?_insert, true_and, here, eq_comm]
      split <;> rfl
    · simp [waiters, all_set inside, same, Ne.symm same]

/-- The result type of a function's body, or what waits for it, was changed. -/
structure Changed (before after : Scopes δ) (body : ScopeId) (result : Ty) (waiting : List δ) :
    Prop where
  inside : body < before.size
  size : after.size = before.size
  parent : ∀ other, after.parent? other = before.parent? other
  kind : ∀ other, after.kind? other = before.kind? other
  bindings : ∀ other name, after.binding? other name = before.binding? other name
  waiters : ∀ other name, after.waiters other name = before.waiters other name
  result : ∀ other, after.result? other =
    if other = body then some result else before.result? other
  resultWaiters : ∀ other, after.resultWaiters other =
    if other = body then waiting else before.resultWaiters other

theorem changeFunction_eq_ok {α : Type} {before after : Scopes δ} {id : ScopeId} {answer : α}
    {change : Ty → List δ → α × Role δ}
    (done : before.changeFunction id change = .ok (answer, after)) :
    ∃ body result waiting, before.functionBody id = .ok (some body) ∧
      before.result? body = some result ∧ before.resultWaiters body = waiting ∧
      answer = (change result waiting).1 ∧
      ∀ newResult newWaiting, (change result waiting).2 = .function newResult newWaiting →
        Changed before after body newResult newWaiting := by
  simp only [changeFunction, bind_eq_ok] at done
  obtain ⟨found, around, done⟩ := done
  cases found with
  | none => simp at done
  | some body =>
    simp only [bind_eq_ok, get_eq_ok] at done
    obtain ⟨scope, here, done⟩ := done
    have inside := lt_size_of_get here
    cases role : scope.role with
    | block | loop => simp [role] at done
    | function result waiting =>
      simp only [role, pure_eq_ok, Prod.mk.injEq] at done
      obtain ⟨rfl, rfl⟩ := done
      refine ⟨body, result, waiting, around, ?_, ?_, rfl, ?_⟩
      · simp [result?, here, role, Role.result?]
      · simp [resultWaiters, here, role, Role.waiting]
      · intro newResult newWaiting changed
        constructor
        case inside => exact inside
        case size => simp
        case parent =>
          intro other
          by_cases same : body = other
          · subst same
            simp [parent?, all_set inside, here]
          · simp [parent?, all_set inside, same]
        case kind =>
          intro other
          by_cases same : body = other
          · subst same
            simp [kind?, all_set inside, here, changed, role, Role.kind]
          · simp [kind?, all_set inside, same]
        case bindings | waiters =>
          intro other name
          by_cases same : body = other
          · subst same
            simp [binding?, waiters, all_set inside, here, Scope.waitingOn]
          · simp [binding?, waiters, all_set inside, same]
        case result | resultWaiters =>
          intro other
          by_cases same : body = other
          · subst same
            simp [result?, resultWaiters, all_set inside, changed, Role.result?, Role.waiting]
          · simp [result?, resultWaiters, all_set inside, same, Ne.symm same]

theorem setResult_eq_ok {before after : Scopes δ} {id : ScopeId} {result : Ty} {work : List δ}
    (done : before.setResult id result = .ok (work, after)) :
    ∃ body, before.functionBody id = .ok (some body) ∧ work = before.resultWaiters body ∧
      (before.result? body).isSome = true ∧ Changed before after body result [] := by
  obtain ⟨body, old, waiting, around, found, rfl, rfl, changed⟩ := changeFunction_eq_ok done
  exact ⟨body, around, rfl, by simp [found], changed result [] rfl⟩

theorem awaitResult_eq_ok {before after : Scopes δ} {id : ScopeId} {work : δ}
    (done : before.awaitResult id work = .ok after) :
    ∃ body result, before.functionBody id = .ok (some body) ∧ before.result? body = some result ∧
      Changed before after body result (before.resultWaiters body ++ [work]) := by
  simp only [awaitResult, bind_eq_ok, pure_eq_ok] at done
  obtain ⟨⟨_, scopes⟩, done, rfl⟩ := done
  obtain ⟨body, result, waiting, around, found, rfl, _, changed⟩ := changeFunction_eq_ok done
  exact ⟨body, result, around, found, changed result _ rfl⟩

/-- If nobody is the first who waits, nobody waits. -/
theorem waiters_eq_nil {scopes : Scopes δ} (nobody : scopes.firstWaiting? = none) (id : ScopeId)
    (name : String) : scopes.waiters id name = [] := by
  cases here : scopes.all[id]? with
  | none => simp [waiters, here]
  | some scope =>
    have idle : scope.firstWaiting? = none :=
      List.findSome?_eq_none_iff.1 nobody scope (List.mem_of_getElem? here)
    simp only [waiters, here, Option.map_some, Option.getD_some, Scope.waitingOn]
    cases found : scope.waiting.find? name with
    | none => rfl
    | some waiting =>
      have mem := Table.mem_of_first? found
      have none_first := List.findSome?_eq_none_iff.1 idle (name, waiting) mem
      simpa using none_first

/-! A new scope. -/

theorem all_create (scopes : Scopes δ) (parent : Option ScopeId) (kind : ScopeKind)
    (id : ScopeId) : (scopes.create parent kind).all[id]? =
      if id = scopes.size then some ⟨parent, kind.role, .empty, .empty⟩ else scopes.all[id]? := by
  have length : scopes.all.length = scopes.size := rfl
  simp only [create, List.getElem?_append, List.getElem?_singleton, length]
  rcases Nat.lt_trichotomy id scopes.size with before | same | after
  · rw [if_pos before, if_neg (Nat.ne_of_lt before)]
  · simp [same]
  · rw [if_neg (by omega), if_neg (by omega), if_neg (Nat.ne_of_gt after),
      List.getElem?_eq_none (Nat.le_of_lt after)]

end Scopes

end Hoist
