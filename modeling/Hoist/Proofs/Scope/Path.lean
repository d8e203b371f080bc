import Mathlib.Data.List.Find
import Hoist.Proofs.Scope.Observe
import Hoist.Typing.View

/-!
The way outwards from a scope. Parents are older than their children, so every walk ends at the
outermost scope, and the fuel of a walk is always enough.

Main statements: what a walk finds is the first scope on the way that has the property
(`Path.nearest_eq`), so a look-up is decided by the bindings on the way (`Path.lookup_eq`).
-/
namespace Hoist.Scopes

variable {δ : Type} {scopes : Scopes δ}

/-- The scopes from the first one outwards, each followed by its parent. -/
def Path (scopes : Scopes δ) : List ScopeId → Prop
  | [] => False
  | [id] => id = 0 ∧ scopes.parent? id = some none
  | id :: next :: rest =>
    scopes.parent? id = some (some next) ∧ next < id ∧ scopes.Path (next :: rest)

/-- Every scope has a way outwards. -/
def Rooted (scopes : Scopes δ) : Prop :=
  ∀ id, id < scopes.size → ∃ outer, scopes.Path (id :: outer)

namespace Path

theorem inside {id : ScopeId} {outer : List ScopeId} (path : scopes.Path (id :: outer)) :
    id < scopes.size := by
  cases outer with
  | nil => exact lt_size_of_parent? path.2
  | cons next rest => exact lt_size_of_parent? path.1

theorem length_le {id : ScopeId} {outer : List ScopeId} (path : scopes.Path (id :: outer)) :
    outer.length ≤ id := by
  induction outer generalizing id with
  | nil => exact Nat.zero_le id
  | cons next rest ih =>
    obtain ⟨_, older, path⟩ := path
    exact Nat.lt_of_le_of_lt (ih path) older

theorem tail {id next : ScopeId} {rest : List ScopeId} (path : scopes.Path (id :: next :: rest)) :
    scopes.Path (next :: rest) :=
  path.2.2

theorem parent?_eq {id : ScopeId} {outer : List ScopeId} (path : scopes.Path (id :: outer)) :
    scopes.parent? id = some outer.head? := by
  cases outer with
  | nil => exact path.2
  | cons next rest => exact path.1

/-- A scope has only one way outwards. -/
theorem unique {id : ScopeId} {outer other : List ScopeId} (path : scopes.Path (id :: outer))
    (another : scopes.Path (id :: other)) : outer = other := by
  induction outer generalizing id other with
  | nil =>
    have same := path.parent?_eq.symm.trans another.parent?_eq
    cases other with
    | nil => rfl
    | cons next rest => simp at same
  | cons next rest ih =>
    have same := path.parent?_eq.symm.trans another.parent?_eq
    cases other with
    | nil => simp at same
    | cons next' rest' =>
      obtain rfl : next = next' := by simpa using same
      rw [ih path.tail another.tail]

theorem mem_inside {path : List ScopeId} (way : scopes.Path path) {id : ScopeId}
    (mem : id ∈ path) : id < scopes.size := by
  induction path with
  | nil => simp at mem
  | cons first rest ih =>
    rcases List.mem_cons.1 mem with rfl | later
    · exact way.inside
    · cases rest with
      | nil => simp at later
      | cons next rest => exact ih way.tail later

theorem isSome_parent? {path : List ScopeId} (way : scopes.Path path) {id : ScopeId}
    (mem : id ∈ path) : (scopes.parent? id).isSome = true := by
  have inside := way.mem_inside mem
  simpa [Scopes.parent?, Scopes.size] using inside

/-- Scopes around a scope are older. -/
theorem lt_of_mem {id : ScopeId} {outer : List ScopeId} (path : scopes.Path (id :: outer))
    {around : ScopeId} (mem : around ∈ outer) : around < id := by
  induction outer generalizing id with
  | nil => simp at mem
  | cons next rest ih =>
    obtain ⟨_, older, path⟩ := path
    rcases List.mem_cons.1 mem with rfl | farther
    · exact older
    · exact Nat.lt_trans (ih path farther) older

theorem zero_mem {path : List ScopeId} (way : scopes.Path path) : 0 ∈ path := by
  induction path with
  | nil => exact way.elim
  | cons first rest ih =>
    cases rest with
    | nil => simp [way.1]
    | cons next rest => exact List.mem_cons_of_mem _ (ih way.tail)

theorem getLast? {path : List ScopeId} (way : scopes.Path path) : path.getLast? = some 0 := by
  induction path with
  | nil => exact way.elim
  | cons first rest ih =>
    cases rest with
    | nil => simp [way.1]
    | cons next rest => simpa [List.getLast?_cons_cons] using ih way.tail

/-- The path is all that matters of the parents. -/
theorem mono {other : Scopes δ} {path : List ScopeId}
    (parents : ∀ id parent, scopes.parent? id = some parent → other.parent? id = some parent)
    (way : scopes.Path path) : other.Path path := by
  induction path with
  | nil => exact way
  | cons first rest ih =>
    cases rest with
    | nil => exact ⟨way.1, parents _ _ way.2⟩
    | cons next rest => exact ⟨parents _ _ way.1, way.2.1, ih way.tail⟩

theorem climb_eq (found : Scope δ → Bool) {id : ScopeId} {outer : List ScopeId}
    (path : scopes.Path (id :: outer)) {fuel : Nat} (enough : outer.length < fuel) :
    scopes.climb found fuel id =
      .ok ((id :: outer).find? fun at_ => (scopes.all[at_]?).any found) := by
  induction outer generalizing id fuel with
  | nil =>
    obtain ⟨fuel, rfl⟩ := Nat.exists_eq_succ_of_ne_zero (by simp at enough; omega : fuel ≠ 0)
    obtain ⟨scope, here, parent⟩ := Option.map_eq_some_iff.1 path.parent?_eq
    simp only [climb, get_eq_ok.2 here]
    cases holds : found scope <;> simp_all
  | cons next rest ih =>
    obtain ⟨fuel, rfl⟩ := Nat.exists_eq_succ_of_ne_zero (by simp at enough; omega : fuel ≠ 0)
    obtain ⟨scope, here, parent⟩ := Option.map_eq_some_iff.1 path.parent?_eq
    have onwards := ih path.tail (by simpa using enough : rest.length < fuel)
    simp only [climb, get_eq_ok.2 here]
    cases holds : found scope <;> simp_all

/-- A walk finds the first scope on its way that has the property. -/
theorem nearest_eq (found : Scope δ → Bool) {id : ScopeId} {outer : List ScopeId}
    (path : scopes.Path (id :: outer)) :
    scopes.nearest found id =
      .ok ((id :: outer).find? fun at_ => (scopes.all[at_]?).any found) := by
  have shorter : outer.length < scopes.size := Nat.lt_of_le_of_lt path.length_le path.inside
  exact path.climb_eq found (Nat.lt_succ_of_lt shorter)

theorem owner_eq (name : String) {id : ScopeId} {outer : List ScopeId}
    (path : scopes.Path (id :: outer)) :
    scopes.owner id name = .ok ((id :: outer).find? fun at_ => (scopes.binding? at_ name).isSome) := by
  rw [owner, path.nearest_eq]
  congr 2
  funext at_
  cases here : scopes.all[at_]? with
  | none => simp [binding?, here]
  | some scope => simp [binds_eq name here]

theorem functionBody_eq {id : ScopeId} {outer : List ScopeId} (path : scopes.Path (id :: outer)) :
    scopes.functionBody id =
      .ok ((id :: outer).find? fun at_ => scopes.kind? at_ = some .function) := by
  rw [functionBody, path.nearest_eq]
  congr 2
  funext at_
  cases here : scopes.all[at_]? with
  | none => simp [kind?, here]
  | some scope => cases role : scope.role <;> simp [kind?, here, Scope.isFunction, role, Role.kind]

theorem isInsideLoop_eq {id : ScopeId} {outer : List ScopeId} (path : scopes.Path (id :: outer)) :
    scopes.isInsideLoop id = .ok ((id :: outer).any fun at_ => scopes.kind? at_ = some .loop) := by
  rw [isInsideLoop, path.nearest_eq]
  have same : (fun at_ => (scopes.all[at_]?).any Scope.isLoop) =
      fun at_ => decide (scopes.kind? at_ = some .loop) := by
    funext at_
    cases here : scopes.all[at_]? with
    | none => simp [kind?, here]
    | some scope => cases role : scope.role <;> simp [kind?, here, Scope.isLoop, role, Role.kind]
  rw [same]
  exact congrArg Except.ok (Bool.eq_iff_iff.2 (List.find?_isSome.trans List.any_eq_true.symm))

theorem chainFrom_eq {id : ScopeId} {outer : List ScopeId} (path : scopes.Path (id :: outer))
    {fuel : Nat} (enough : outer.length < fuel) :
    scopes.chainFrom fuel id = .ok (id :: outer) := by
  induction outer generalizing id fuel with
  | nil =>
    obtain ⟨fuel, rfl⟩ := Nat.exists_eq_succ_of_ne_zero (by simp at enough; omega : fuel ≠ 0)
    obtain ⟨scope, here, parent⟩ := Option.map_eq_some_iff.1 path.parent?_eq
    simp_all [chainFrom, get_eq_ok.2 here]
  | cons next rest ih =>
    obtain ⟨fuel, rfl⟩ := Nat.exists_eq_succ_of_ne_zero (by simp at enough; omega : fuel ≠ 0)
    obtain ⟨scope, here, parent⟩ := Option.map_eq_some_iff.1 path.parent?_eq
    have onwards := ih path.tail (by simpa using enough : rest.length < fuel)
    simp_all [chainFrom, get_eq_ok.2 here]

theorem top_eq {id : ScopeId} {outer : List ScopeId} (path : scopes.Path (id :: outer)) :
    scopes.top id = .ok 0 := by
  have shorter : outer.length < scopes.size := Nat.lt_of_le_of_lt path.length_le path.inside
  simp [top, chain, path.chainFrom_eq (Nat.lt_succ_of_lt shorter), path.getLast?]

theorem parent_eq {id : ScopeId} {outer : List ScopeId} (path : scopes.Path (id :: outer)) :
    scopes.parent id = .ok outer.head? := by
  obtain ⟨scope, here, parent⟩ := Option.map_eq_some_iff.1 path.parent?_eq
  simp [Scopes.parent, get_eq_ok.2 here, parent]

theorem isTopLevel_eq {id : ScopeId} {outer : List ScopeId} (path : scopes.Path (id :: outer)) :
    scopes.isTopLevel id = .ok outer.isEmpty := by
  cases outer <;> simp [isTopLevel, path.parent_eq]

/-- A look-up finds the first binding on the way. -/
theorem lookup_eq (name : String) {id : ScopeId} {outer : List ScopeId}
    (path : scopes.Path (id :: outer)) :
    scopes.lookup id name = .ok ((id :: outer).findSome? (scopes.binding? · name)) := by
  simp only [lookup, path.owner_eq]
  cases found : (id :: outer).find? fun at_ => (scopes.binding? at_ name).isSome with
  | none =>
    have unbound : (id :: outer).findSome? (scopes.binding? · name) = none := by
      simpa [List.findSome?_eq_none_iff] using found
    simp [unbound]
  | some owner =>
    obtain ⟨bound, near, far, split, unbound⟩ := List.find?_eq_some_iff_append.1 found
    obtain ⟨binding, bound⟩ := Option.isSome_iff_exists.1 bound
    obtain ⟨scope, here, inScope⟩ := Option.bind_eq_some_iff.1 bound
    have first : (id :: outer).findSome? (scopes.binding? · name) = some binding := by
      have none_near : near.findSome? (scopes.binding? · name) = none := by
        simpa [List.findSome?_eq_none_iff] using unbound
      rw [split, List.findSome?_append, none_near]
      simp [bound]
    simp [first, lookupLocal, get_eq_ok.2 here, inScope]

/-- What a name means as seen from a scope is decided by the first binding on the way. -/
theorem view_type_eq (name : String) {id : ScopeId} {outer : List ScopeId}
    (path : scopes.Path (id :: outer)) :
    (scopes.view id).type name =
      match (id :: outer).findSome? (scopes.binding? · name) with
      | some binding => .ok (if binding.type.isConcrete then binding.type else .pending name)
      | none => .ok (.pending name) := by
  simp only [View.type, view, path.lookup_eq]
  cases (id :: outer).findSome? (scopes.binding? · name) <;> rfl

theorem view_eq {other : Scopes δ} {id : ScopeId} {outer : List ScopeId}
    (path : scopes.Path (id :: outer)) (parents : ∀ id, other.parent? id = scopes.parent? id)
    (bindings : ∀ id name, other.binding? id name = scopes.binding? id name) :
    other.view id = scopes.view id := by
  funext name
  have path' := path.mono fun id _ found => (parents id).trans found
  simp only [view, path.lookup_eq, path'.lookup_eq, bindings]

theorem resultType_eq {id : ScopeId} {outer : List ScopeId} (path : scopes.Path (id :: outer)) :
    scopes.resultType id = .ok (((id :: outer).find?
      fun at_ => scopes.kind? at_ = some .function).bind scopes.result?) := by
  simp only [resultType, path.functionBody_eq]
  cases found : (id :: outer).find? fun at_ => decide (scopes.kind? at_ = some .function) with
  | none => rfl
  | some body =>
    have isBody := List.find?_some found
    obtain ⟨scope, here, kind⟩ := Option.map_eq_some_iff.1 (of_decide_eq_true isBody)
    cases role : scope.role with
    | block | loop => simp [role, Role.kind] at kind
    | function result waiting => simp [get_eq_ok.2 here, result?, here, role, Role.result?]

end Path

/-- The binding of a name that is read from a scope: the first one on the way outwards. -/
def Reads (scopes : Scopes δ) (id : ScopeId) (name : String) (owner : ScopeId)
    (binding : Binding) : Prop :=
  ∃ outer near far, scopes.Path (id :: outer) ∧ id :: outer = near ++ owner :: far ∧
    (∀ nearer ∈ near, scopes.binding? nearer name = none) ∧
    scopes.binding? owner name = some binding

theorem Reads.mono {other : Scopes δ} {id owner : ScopeId} {name : String} {binding : Binding}
    (reads : scopes.Reads id name owner binding)
    (parents : ∀ id, other.parent? id = scopes.parent? id)
    (bindings : ∀ id name, other.binding? id name = scopes.binding? id name) :
    other.Reads id name owner binding := by
  obtain ⟨outer, near, far, path, split, unbound, bound⟩ := reads
  refine ⟨outer, near, far, path.mono fun id _ found => (parents id).trans found, split, ?_, ?_⟩
  · exact fun nearer mem => (bindings nearer name).trans (unbound nearer mem)
  · exact (bindings owner name).trans bound

theorem Rooted.of_parents {other : Scopes δ} (rooted : scopes.Rooted)
    (parents : ∀ id, other.parent? id = scopes.parent? id) : other.Rooted := by
  intro id inside
  obtain ⟨scope, here⟩ := exists_of_lt inside
  have found : scopes.parent? id = some scope.parent := by
    rw [← parents id]
    simp [parent?, here]
  obtain ⟨outer, path⟩ := rooted id (lt_size_of_parent? found)
  exact ⟨outer, path.mono fun id parent found => (parents id).trans found⟩

theorem lt_size_of_climb {found : Scope δ → Bool} {fuel : Nat} {id : ScopeId}
    {owner : Option ScopeId} (climbs : scopes.climb found (fuel + 1) id = .ok owner) :
    id < scopes.size := by
  simp only [climb, bind_eq_ok, get_eq_ok] at climbs
  obtain ⟨scope, here, _⟩ := climbs
  exact lt_size_of_get here

theorem lt_size_of_lookup {id : ScopeId} {name : String} {binding : Option Binding}
    (found : scopes.lookup id name = .ok binding) : id < scopes.size := by
  obtain ⟨owner, climbs, _⟩ := bind_eq_ok.1 found
  exact lt_size_of_climb climbs

theorem lt_size_of_view {id : ScopeId} {name : String} {type : Ty}
    (found : (scopes.view id).type name = .ok type) : id < scopes.size := by
  simp only [View.type, view] at found
  cases looked : scopes.lookup id name with
  | error fault => simp [looked] at found
  | ok binding => exact lt_size_of_lookup looked

theorem lt_size_of_functionBody {id : ScopeId} {body : Option ScopeId}
    (found : scopes.functionBody id = .ok body) : id < scopes.size :=
  lt_size_of_climb found

theorem functionBody_mono {other : Scopes δ} {id : ScopeId} {body : Option ScopeId}
    (rooted : scopes.Rooted)
    (parents : ∀ id parent, scopes.parent? id = some parent → other.parent? id = some parent)
    (kinds : ∀ id kind, scopes.kind? id = some kind → other.kind? id = some kind)
    (found : scopes.functionBody id = .ok body) : other.functionBody id = .ok body := by
  obtain ⟨outer, path⟩ := rooted id (lt_size_of_functionBody found)
  rw [path.functionBody_eq] at found
  rw [(path.mono parents).functionBody_eq, ← found]
  congr 1
  apply List.find?_congr
  intro around mem
  obtain ⟨scope, here⟩ := exists_of_lt (path.mem_inside mem)
  have kind : scopes.kind? around = some scope.role.kind := by simp [kind?, here]
  simp [kind, kinds around _ kind]

theorem reads_of_findSome? {id : ScopeId} {outer : List ScopeId} {name : String}
    {binding : Binding} (path : scopes.Path (id :: outer))
    (found : (id :: outer).findSome? (scopes.binding? · name) = some binding) :
    ∃ owner, scopes.Reads id name owner binding := by
  obtain ⟨near, owner, far, split, bound, unbound⟩ := List.findSome?_eq_some_iff.1 found
  exact ⟨owner, outer, near, far, path, split, unbound, bound⟩

theorem reads_of_view {id : ScopeId} {name : String} {type : Ty} (rooted : scopes.Rooted)
    (found : (scopes.view id).type name = .ok type) (concrete : type.isConcrete = true) :
    ∃ owner binding, scopes.Reads id name owner binding ∧ binding.type = type := by
  obtain ⟨outer, path⟩ := rooted id (lt_size_of_view found)
  rw [path.view_type_eq] at found
  split at found
  · rename_i binding first
    obtain ⟨owner, reads⟩ := reads_of_findSome? path first
    refine ⟨owner, binding, reads, ?_⟩
    split at found
    · exact Except.ok.inj found
    · obtain rfl := Except.ok.inj found
      simp [Ty.isConcrete] at concrete
  · obtain rfl := Except.ok.inj found
    simp [Ty.isConcrete] at concrete

/-- Work waits with the binding that is read, or in the outermost scope if none is. A statement
that declares the name itself is not read from its own scope. -/
theorem Path.anchor_cases {id : ScopeId} {outer : List ScopeId} (path : scopes.Path (id :: outer))
    (name : String) (declared : Option String) :
    (∃ owner, scopes.anchor id name declared = .ok (.bound owner) ∧ owner ∈ id :: outer ∧
        (declared ≠ some name → ∃ binding, scopes.Reads id name owner binding)) ∨
      scopes.anchor id name declared = .ok (.root 0) ∧
        (∀ around ∈ outer, scopes.binding? around name = none) ∧
        (declared ≠ some name → scopes.binding? id name = none) := by
  by_cases own : declared = some name
  · cases outer with
    | nil =>
      exact .inr ⟨by simp [Scopes.anchor, own, path.parent_eq, path.top_eq], by simp,
        fun other => absurd own other⟩
    | cons next rest =>
      cases search : (next :: rest).find? fun at_ => (scopes.binding? at_ name).isSome with
      | some owner =>
        exact .inl ⟨owner, by simp [Scopes.anchor, own, path.parent_eq, path.tail.owner_eq, search],
          List.mem_cons_of_mem _ (List.mem_of_find?_eq_some search), fun other => absurd own other⟩
      | none =>
        exact .inr ⟨by simp [Scopes.anchor, own, path.parent_eq, path.tail.owner_eq, search,
          path.top_eq], by simpa [List.find?_eq_none] using search, fun other => absurd own other⟩
  · cases search : (id :: outer).find? fun at_ => (scopes.binding? at_ name).isSome with
    | some owner =>
      obtain ⟨bound, near, far, split, unbound⟩ := List.find?_eq_some_iff_append.1 search
      obtain ⟨binding, binds⟩ := Option.isSome_iff_exists.1 bound
      exact .inl ⟨owner, by simp [Scopes.anchor, own, path.owner_eq, search],
        List.mem_of_find?_eq_some search, fun _ =>
          ⟨binding, outer, near, far, path, split, by simpa using unbound, binds⟩⟩
    | none =>
      have unbound : scopes.binding? id name = none ∧
          ∀ around ∈ outer, scopes.binding? around name = none := by
        simpa [List.find?_eq_none] using search
      exact .inr ⟨by simp [Scopes.anchor, own, path.owner_eq, search, path.top_eq], unbound.2,
        fun _ => unbound.1⟩

/-! A new scope. -/

/-- A scope was made inside another one. -/
structure Created (before after : Scopes δ) (outer : ScopeId) (made : ScopeKind) : Prop where
  size : after.size = before.size + 1
  parent : ∀ id, after.parent? id =
    if id = before.size then some (some outer) else before.parent? id
  kind : ∀ id, after.kind? id = if id = before.size then some made.kind else before.kind? id
  result : ∀ id, id ≠ before.size → after.result? id = before.result? id
  own : after.result? before.size = (made.role : Role δ).result?
  resultWaiters : ∀ id, after.resultWaiters id = before.resultWaiters id
  bindings : ∀ id name, after.binding? id name = before.binding? id name
  waiters : ∀ id name, after.waiters id name = before.waiters id name

theorem created_create (scopes : Scopes δ) (outer : ScopeId) (kind : ScopeKind) :
    scopes.Created (scopes.create (some outer) kind) outer kind := by
  have nothing : scopes.all[scopes.size]? = none := by simp [size]
  constructor
  case size => simp [create, size]
  case own => simp [result?, all_create]
  case parent | kind =>
    intro id
    by_cases new : id = scopes.size
    · subst new
      cases kind <;> simp [parent?, kind?, all_create, ScopeKind.kind, ScopeKind.role, Role.kind]
    · simp [parent?, kind?, all_create, new]
  case result =>
    intro id old
    simp [result?, all_create, old]
  case resultWaiters =>
    intro id
    by_cases new : id = scopes.size
    · subst new
      cases kind <;> simp [resultWaiters, all_create, nothing, ScopeKind.role, Role.waiting]
    · simp [resultWaiters, all_create, new]
  case bindings | waiters =>
    intro id name
    by_cases new : id = scopes.size
    · subst new
      simp [binding?, waiters, all_create, nothing, Scope.waitingOn]
    · simp [binding?, waiters, all_create, new]

theorem Created.parent_mono {before after : Scopes δ} {outer : ScopeId} {kind : ScopeKind}
    (created : before.Created after outer kind) (id : ScopeId) (parent : Option ScopeId)
    (found : before.parent? id = some parent) : after.parent? id = some parent := by
  rw [created.parent, if_neg (Nat.ne_of_lt (lt_size_of_parent? found)), found]

theorem Created.path {before after : Scopes δ} {outer : ScopeId} {kind : ScopeKind}
    (created : before.Created after outer kind) {rest : List ScopeId}
    (path : before.Path (outer :: rest)) : after.Path (before.size :: outer :: rest) :=
  ⟨by simp [created.parent], path.inside, path.mono created.parent_mono⟩

/-- The scope of a file alone. -/
theorem rooted_first : (Scopes.empty.create none .block : Scopes δ).Rooted := by
  intro id inside
  obtain rfl : id = 0 := Nat.lt_one_iff.1 inside
  exact ⟨[], rfl, rfl⟩

theorem Created.rooted {before after : Scopes δ} {outer : ScopeId} {kind : ScopeKind}
    (created : before.Created after outer kind) (rooted : before.Rooted)
    (inside : outer < before.size) : after.Rooted := by
  intro id known
  rw [created.size] at known
  rcases Nat.lt_succ_iff_lt_or_eq.1 known with old | rfl
  · obtain ⟨rest, path⟩ := rooted id old
    exact ⟨rest, path.mono created.parent_mono⟩
  · obtain ⟨rest, path⟩ := rooted outer inside
    exact ⟨_, created.path path⟩

end Hoist.Scopes
