import Hoist.Proofs.Apart.Matching

/-!
Changes that keep two runs matched. Both runs bind a name, let work wait or make a scope, a draft or
the head of a function, or only the full run does, with what is its own.
-/
namespace Hoist

/-! Lists. -/

section Lists

variable {α β : Type} {R : α → β → Prop} {xs : List α} {ys : List β} {x : α} {y : β} {k : Nat}

theorem rel_getElem? (alike : List.Forall₂ R xs ys) (here : xs[k]? = some x) :
    ∃ y, ys[k]? = some y ∧ R x y := by
  induction alike generalizing k with
  | nil => simp at here
  | @cons x' y' _ _ same _ ih =>
    cases k with
    | zero =>
      obtain rfl : x' = x := by simpa using here
      exact ⟨y', rfl, same⟩
    | succ k => exact ih here

theorem rel_set (alike : List.Forall₂ R xs ys) (same : R x y) :
    List.Forall₂ R (xs.set k x) (ys.set k y) := by
  induction alike generalizing k with
  | nil => exact .nil
  | cons first rest ih =>
    cases k with
    | zero => exact .cons same rest
    | succ k => exact .cons first ih

end Lists

/-! Scopes. -/

namespace Scope

variable {δ : Type}

theorem waitingOn_bind (scope : Scope δ) (binding : Binding) (name : String) :
    (scope.bind binding).2.waitingOn name =
      if binding.name = name then [] else scope.waitingOn name := by
  simp only [bind, waitingOn, Table.find?_erase]
  split <;> rfl

theorem waitingOn_await (scope : Scope δ) (name other : String) (waiter : Waiter δ) :
    (scope.await name waiter).waitingOn other =
      if name = other then scope.waitingOn name ++ [waiter] else scope.waitingOn other := by
  simp only [await, waitingOn, Table.find?_insert]
  split <;> rfl

end Scope

namespace Scopes

variable {δ : Type} {scopes : Scopes δ} {id : ScopeId} {scope : Scope δ}

theorem define_of_get (here : scopes.all[id]? = some scope) (binding : Binding) :
    scopes.define id binding =
      if scope.binds binding.name then .error (.refused (.duplicateSymbol binding.name))
      else .ok ((scope.bind binding).1, scopes.set id (scope.bind binding).2) := by
  simp only [define, get_eq_ok.2 here, bind, Except.bind]
  split <;> rfl

theorem update_of_get (here : scopes.all[id]? = some scope) (binding : Binding) :
    scopes.update id binding =
      if scope.binds binding.name then
        .ok ((scope.bind binding).1, scopes.set id (scope.bind binding).2)
      else .error (.refused (.unknownSymbol binding.name)) := by
  simp only [update, get_eq_ok.2 here, bind, Except.bind]
  cases scope.binds binding.name <;> rfl

theorem await_of_get (here : scopes.all[id]? = some scope) (name : String) (waiter : Waiter δ) :
    scopes.await id name waiter = .ok (scopes.set id (scope.await name waiter)) := by
  simp [await, get_eq_ok.2 here]

theorem all_create_of_get (here : scopes.all[id]? = some scope) (parent : Option ScopeId)
    (kind : ScopeKind) : (scopes.create parent kind).all[id]? = some scope := by
  rw [all_create, if_neg (Nat.ne_of_lt (lt_size_of_get here))]
  exact here

theorem all_create_size (parent : Option ScopeId) (kind : ScopeKind) :
    (scopes.create parent kind).all[scopes.size]? = some ⟨parent, kind.role, .empty, .empty⟩ := by
  rw [all_create, if_pos rfl]

end Scopes

namespace Matching

variable {m n : Matching} {full bare : Hoist.Scope (Deferral Empty)}

theorem SameScope.bind (same : m.SameScope full bare) (binding : Binding) :
    m.SameScope (full.bind binding).2 (bare.bind binding).2 where
  parent := same.parent
  role := same.role
  bindings := congrArg (·.insert binding.name binding) same.bindings
  waiting name := by
    rw [Scope.waitingOn_bind, Scope.waitingOn_bind]
    split
    · exact .nil
    · exact same.waiting name
  distinct := Table.nodup_erase same.distinct binding.name

theorem SameScope.handed (same : m.SameScope full bare) (binding : Binding) :
    m.Tasks (full.bind binding).1 (bare.bind binding).1 :=
  (same.waiting binding.name).map (fun _ _ waiting => waiting.1) fun _ own => own

theorem SameScope.await (same : m.SameScope full bare) {waiter waiter' : Waiter (Deferral Empty)}
    (name : String) (waiting : m.Waiting waiter waiter') :
    m.SameScope (full.await name waiter) (bare.await name waiter') where
  parent := same.parent
  role := same.role
  bindings := same.bindings
  waiting other := by
    rw [Scope.waitingOn_await, Scope.waitingOn_await]
    split
    · exact (same.waiting name).append (.of_same waiting)
    · exact same.waiting other
  distinct := Table.nodup_insert same.distinct name _

theorem SameScope.awaitFull (same : m.SameScope full bare) {waiter : Waiter (Deferral Empty)}
    (name : String) (own : m.OwnWaiter waiter) : m.SameScope (full.await name waiter) bare where
  parent := same.parent
  role := same.role
  bindings := same.bindings
  waiting other := by
    rw [Scope.waitingOn_await]
    split
    case isTrue here =>
      subst here
      simpa using (same.waiting name).append (.of_own (by simpa using own))
    case isFalse => exact same.waiting other
  distinct := same.distinct

theorem Encloses.bind (encloses : m.Encloses full) (binding : Binding) :
    m.Encloses (full.bind binding).2 where
  parent := encloses.parent
  waiting name waiter mem := by
    rw [Scope.waitingOn_bind] at mem
    split at mem
    · simp at mem
    · exact encloses.waiting name waiter mem

theorem Encloses.handed (encloses : m.Encloses full) (binding : Binding) :
    m.Tasks (full.bind binding).1 [] := by
  refine .of_own fun task mem => ?_
  obtain ⟨waiter, waits, rfl⟩ := List.mem_map.1 mem
  exact encloses.waiting binding.name waiter waits

theorem Encloses.await (encloses : m.Encloses full) {waiter : Waiter (Deferral Empty)}
    (name : String) (own : m.OwnWaiter waiter) : m.Encloses (full.await name waiter) where
  parent := encloses.parent
  waiting other waiter' mem := by
    rw [Scope.waitingOn_await] at mem
    split at mem
    · rcases List.mem_append.1 mem with old | new
      · exact encloses.waiting name waiter' old
      · obtain rfl := List.mem_singleton.1 new
        exact own
    · exact encloses.waiting other waiter' mem

/-! What is matched when more is made. -/

def withScope (m : Matching) (j i : ScopeId) : Matching :=
  { m with Scope := fun k l => m.Scope k l ∨ k = j ∧ l = i }

def withOwnScope (m : Matching) (j : ScopeId) : Matching :=
  { m with OwnScope := fun k => m.OwnScope k ∨ k = j }

def withDraft (m : Matching) (j i : DraftId) : Matching :=
  { m with Draft := fun k l => m.Draft k l ∨ k = j ∧ l = i }

def withOwnDraft (m : Matching) (j : DraftId) : Matching :=
  { m with OwnDraft := fun k => m.OwnDraft k ∨ k = j }

theorem within_withScope (m : Matching) (j i : ScopeId) : m.Within (m.withScope j i) :=
  ⟨.inl, id, id, id⟩

theorem within_withOwnScope (m : Matching) (j : ScopeId) : m.Within (m.withOwnScope j) :=
  ⟨id, id, .inl, id⟩

theorem within_withDraft (m : Matching) (j i : DraftId) : m.Within (m.withDraft j i) :=
  ⟨id, .inl, id, id⟩

theorem within_withOwnDraft (m : Matching) (j : DraftId) : m.Within (m.withOwnDraft j) :=
  ⟨id, id, id, .inl⟩

theorem SameHead.mono {full bare : SignatureDraft} (within : m.Within n)
    (same : m.SameHead full bare) : n.SameHead full bare :=
  ⟨within.scope same.scope, within.scope same.body, same.signature⟩

theorem SameDraft.mono {full bare : Hoist.Draft} (within : m.Within n)
    (same : m.SameDraft full bare) : n.SameDraft full bare :=
  ⟨within.scope same.scope, same.work⟩

end Matching

namespace Check

variable {σ : Type} {m : Matching} {busy : Bool} {s a : Checker Empty σ} {j i : ScopeId}

theorem Matches.lt_size (matched : Matches m busy s a) (pair : m.Scope j i) :
    j < s.scopes.size ∧ i < a.scopes.size := by
  obtain ⟨full, bare, here, here', -⟩ := matched.scope pair
  exact ⟨Scopes.lt_size_of_get here, Scopes.lt_size_of_get here'⟩

theorem Matches.lt_length (matched : Matches m busy s a) {j i : DraftId} (pair : m.Draft j i) :
    j < s.drafts.length ∧ i < a.drafts.length := by
  obtain ⟨full, bare, here, here', -⟩ := matched.draft pair
  exact ⟨(List.getElem?_eq_some_iff.1 here).1, (List.getElem?_eq_some_iff.1 here').1⟩

theorem Matches.requeue (matched : Matches m busy s a) {queue queue' : List (Deferral Empty)}
    {now : Bool} (tasks : m.Tasks queue queue') (idle : now = false → queue' = [])
    (journal journal' : List Note) :
    Matches m now { s with queue, firing := now, journal }
      { a with queue := queue', firing := now, journal := journal' } :=
  { matched with queue := tasks, firing := rfl, firing' := rfl, idle }

theorem Matches.noted (matched : Matches m busy s a) (journal journal' : List Note) :
    Matches m busy { s with journal } { a with journal := journal' } :=
  { matched with }

/-! More is matched. -/

section Within

variable {n : Matching} (matched : Matches m busy s a) (within : m.Within n)
include matched within

theorem Matches.scope_mono (pair : m.Scope j i) : ∃ full bare, s.scopes.all[j]? = some full ∧
    a.scopes.all[i]? = some bare ∧ n.SameScope full bare := by
  obtain ⟨full, bare, here, here', same⟩ := matched.scope pair
  exact ⟨full, bare, here, here', same.mono within⟩

theorem Matches.ownScope_mono (own : m.OwnScope j) :
    ∃ full, s.scopes.all[j]? = some full ∧ n.Encloses full := by
  obtain ⟨-, full, here, encloses⟩ := matched.ownScope own
  exact ⟨full, here, encloses.mono within⟩

theorem Matches.draft_mono {j i : DraftId} (pair : m.Draft j i) : ∃ full bare,
    s.drafts[j]? = some full ∧ a.drafts[i]? = some bare ∧ n.SameDraft full bare := by
  obtain ⟨full, bare, here, here', same⟩ := matched.draft pair
  exact ⟨full, bare, here, here', same.mono within⟩

theorem Matches.ownDraft_mono {j : DraftId} (own : m.OwnDraft j) : ∃ full,
    s.drafts[j]? = some full ∧ n.OwnScope full.scope ∧ full.work.isReturn = false := by
  obtain ⟨-, full, here, inside, simple⟩ := matched.ownDraft own
  exact ⟨full, here, within.ownScope inside, simple⟩

end Within

theorem Matches.pairScopes (matched : Matches m busy s a) {full bare : Scope (Deferral Empty)}
    (here : s.scopes.all[j]? = some full) (here' : a.scopes.all[i]? = some bare)
    (free : ∀ l, ¬m.Scope j l) (free' : ∀ k, ¬m.Scope k i) (shared : ¬m.OwnScope j)
    (same : m.SameScope full bare) : Matches (m.withScope j i) busy s a := by
  have within := m.within_withScope j i
  refine { matched with
    scope := ?scope, scopeOnce := ?scopeOnce, scopeOne := ?scopeOne, ownScope := ?ownScope
    emptied := fun unmatched => matched.emptied fun k old => unmatched k (.inl old)
    draft := matched.draft_mono within
    ownDraft := fun own => ⟨(matched.ownDraft own).1, matched.ownDraft_mono within own⟩
    heads := matched.heads.imp fun _ _ => .mono within
    queue := Matching.tasks_mono within matched.queue }
  case scope =>
    rintro k l (old | ⟨rfl, rfl⟩)
    · exact matched.scope_mono within old
    · exact ⟨full, bare, here, here', same.mono within⟩
  case scopeOnce =>
    rintro k l l' (old | ⟨new, rfl⟩) (old' | ⟨new', rfl⟩)
    · exact matched.scopeOnce old old'
    · exact absurd (new' ▸ old) (free l)
    · exact absurd (new ▸ old') (free l')
    · rfl
  case scopeOne =>
    rintro k k' l (old | ⟨rfl, new⟩) (old' | ⟨rfl, new'⟩)
    · exact matched.scopeOne old old'
    · exact absurd (new' ▸ old) (free' k)
    · exact absurd (new ▸ old') (free' k')
    · rfl
  case ownScope =>
    intro k own
    refine ⟨?_, matched.ownScope_mono within own⟩
    rintro l (old | ⟨rfl, rfl⟩)
    · exact (matched.ownScope own).1 l old
    · exact shared own

theorem Matches.takeScope (matched : Matches m busy s a) {full : Scope (Deferral Empty)}
    (here : s.scopes.all[j]? = some full) (free : ∀ l, ¬m.Scope j l) (encloses : m.Encloses full) :
    Matches (m.withOwnScope j) busy s a := by
  have within := m.within_withOwnScope j
  refine { matched with
    scope := matched.scope_mono within
    ownScope := ?ownScope
    draft := matched.draft_mono within
    ownDraft := fun own => ⟨(matched.ownDraft own).1, matched.ownDraft_mono within own⟩
    heads := matched.heads.imp fun _ _ => .mono within
    queue := Matching.tasks_mono within matched.queue }
  rintro k (own | rfl)
  · exact ⟨(matched.ownScope own).1, matched.ownScope_mono within own⟩
  · exact ⟨free, full, here, encloses.mono within⟩

theorem Matches.pairDrafts (matched : Matches m busy s a) {j i : DraftId} {full bare : Draft}
    (here : s.drafts[j]? = some full) (here' : a.drafts[i]? = some bare)
    (free : ∀ l, ¬m.Draft j l) (free' : ∀ k, ¬m.Draft k i) (shared : ¬m.OwnDraft j)
    (same : m.SameDraft full bare) : Matches (m.withDraft j i) busy s a := by
  have within := m.within_withDraft j i
  refine { matched with
    scope := matched.scope_mono within
    ownScope := fun own => ⟨(matched.ownScope own).1, matched.ownScope_mono within own⟩
    draft := ?draft, draftOnce := ?draftOnce, draftOne := ?draftOne, ownDraft := ?ownDraft
    heads := matched.heads.imp fun _ _ => .mono within
    queue := Matching.tasks_mono within matched.queue }
  case draft =>
    rintro k l (old | ⟨rfl, rfl⟩)
    · exact matched.draft_mono within old
    · exact ⟨full, bare, here, here', same.mono within⟩
  case draftOnce =>
    rintro k l l' (old | ⟨new, rfl⟩) (old' | ⟨new', rfl⟩)
    · exact matched.draftOnce old old'
    · exact absurd (new' ▸ old) (free l)
    · exact absurd (new ▸ old') (free l')
    · rfl
  case draftOne =>
    rintro k k' l (old | ⟨rfl, new⟩) (old' | ⟨rfl, new'⟩)
    · exact matched.draftOne old old'
    · exact absurd (new' ▸ old) (free' k)
    · exact absurd (new ▸ old') (free' k')
    · rfl
  case ownDraft =>
    intro k own
    refine ⟨?_, matched.ownDraft_mono within own⟩
    rintro l (old | ⟨rfl, rfl⟩)
    · exact (matched.ownDraft own).1 l old
    · exact shared own

theorem Matches.takeDraft (matched : Matches m busy s a) {j : DraftId} {full : Draft}
    (here : s.drafts[j]? = some full) (free : ∀ l, ¬m.Draft j l) (own : m.OwnScope full.scope)
    (simple : full.work.isReturn = false) : Matches (m.withOwnDraft j) busy s a := by
  have within := m.within_withOwnDraft j
  refine { matched with
    scope := matched.scope_mono within
    ownScope := fun own => ⟨(matched.ownScope own).1, matched.ownScope_mono within own⟩
    draft := matched.draft_mono within
    ownDraft := ?ownDraft
    heads := matched.heads.imp fun _ _ => .mono within
    queue := Matching.tasks_mono within matched.queue }
  rintro k (mine | rfl)
  · exact ⟨(matched.ownDraft mine).1, matched.ownDraft_mono within mine⟩
  · exact ⟨free, full, here, own, simple⟩

/-! Scopes that are made, and not matched yet. -/

theorem Matches.createFull (matched : Matches m busy s a) (inside : j < s.scopes.size)
    (kind : ScopeKind) (journal : List Note) :
    Matches m busy { s with scopes := s.scopes.create (some j) kind, journal } a := by
  refine { matched with
    scope := ?scope, ownScope := ?ownScope,
    rooted := (s.scopes.created_create j kind).rooted matched.rooted inside }
  case scope =>
    intro k l pair
    obtain ⟨full, bare, here, here', same⟩ := matched.scope pair
    exact ⟨full, bare, Scopes.all_create_of_get here _ _, here', same⟩
  case ownScope =>
    intro k own
    obtain ⟨unmatched, full, here, encloses⟩ := matched.ownScope own
    exact ⟨unmatched, full, Scopes.all_create_of_get here _ _, encloses⟩

theorem Matches.createBare (matched : Matches m busy s a) (inside : i < a.scopes.size)
    (kind : ScopeKind) (journal' : List Note) :
    Matches m busy s
      { a with scopes := a.scopes.create (some i) kind, journal := journal' } := by
  refine { matched with
    scope := ?scope, emptied := ?emptied,
    rooted' := (a.scopes.created_create i kind).rooted matched.rooted' inside }
  case scope =>
    intro k l pair
    obtain ⟨full, bare, here, here', same⟩ := matched.scope pair
    exact ⟨full, bare, here, Scopes.all_create_of_get here' _ _, same⟩
  case emptied =>
    intro l bare unmatched found
    rw [Scopes.all_create] at found
    split at found
    · obtain rfl := Option.some.inj found
      rfl
    · exact matched.emptied unmatched found

theorem Matches.createBoth (matched : Matches m busy s a) (pair : m.Scope j i) (kind : ScopeKind)
    (journal journal' : List Note) :
    Matches (m.withScope s.scopes.size a.scopes.size) busy
      { s with scopes := s.scopes.create (some j) kind, journal }
      { a with scopes := a.scopes.create (some i) kind, journal := journal' } := by
  obtain ⟨inside, inside'⟩ := matched.lt_size pair
  have made := (matched.createFull inside kind journal).createBare inside' kind journal'
  refine made.pairScopes (Scopes.all_create_size _ _) (Scopes.all_create_size _ _)
    (fun l old => Nat.lt_irrefl _ (matched.lt_size old).1)
    (fun k old => Nat.lt_irrefl _ (matched.lt_size old).2) ?shared ?same
  case shared =>
    intro own
    obtain ⟨-, full, here, -⟩ := matched.ownScope own
    exact Nat.lt_irrefl _ (Scopes.lt_size_of_get here)
  case same =>
    exact { parent := .some pair
            role := by cases kind <;> simp [ScopeKind.role, Matching.SameRole, Thins.nil]
            bindings := rfl
            waiting := fun _ => .nil
            distinct := List.nodup_nil }

/-- Only the full run has the new scope, in which nobody waits yet. -/
theorem Matches.createOwn (matched : Matches m busy s a) (inside : j < s.scopes.size)
    (kind : ScopeKind) (journal : List Note) :
    Matches (m.withOwnScope s.scopes.size) busy
      { s with scopes := s.scopes.create (some j) kind, journal } a := by
  refine (matched.createFull inside kind journal).takeScope (Scopes.all_create_size _ _)
    (fun l old => Nat.lt_irrefl _ (matched.lt_size old).1) ⟨rfl, fun name waiter mem => ?_⟩
  simp [Scope.waitingOn] at mem

/-! Drafts. -/

theorem Matches.addBoth (matched : Matches m busy s a) (pair : m.Scope j i) (work : Work) :
    Matches (m.withDraft s.drafts.length a.drafts.length) busy
      { s with drafts := s.drafts ++ [⟨j, work⟩] }
      { a with drafts := a.drafts ++ [⟨i, work⟩] } := by
  have added : Matches m busy { s with drafts := s.drafts ++ [⟨j, work⟩] }
      { a with drafts := a.drafts ++ [⟨i, work⟩] } := by
    refine { matched with draft := ?draft, ownDraft := ?ownDraft }
    case draft =>
      intro k l old
      obtain ⟨full, bare, here, here', same⟩ := matched.draft old
      exact ⟨full, bare, Desk.getElem?_append_old here, Desk.getElem?_append_old here', same⟩
    case ownDraft =>
      intro k own
      obtain ⟨unmatched, full, here, inside⟩ := matched.ownDraft own
      exact ⟨unmatched, full, Desk.getElem?_append_old here, inside⟩
  refine added.pairDrafts List.getElem?_concat_length List.getElem?_concat_length
    (fun l old => Nat.lt_irrefl _ (matched.lt_length old).1)
    (fun k old => Nat.lt_irrefl _ (matched.lt_length old).2) ?_ ⟨pair, rfl⟩
  intro own
  obtain ⟨-, full, here, -⟩ := matched.ownDraft own
  exact Nat.lt_irrefl _ (List.getElem?_eq_some_iff.1 here).1

theorem Matches.addOwn (matched : Matches m busy s a) (own : m.OwnScope j) {work : Work}
    (simple : work.isReturn = false) :
    Matches (m.withOwnDraft s.drafts.length) busy
      { s with drafts := s.drafts ++ [⟨j, work⟩] } a := by
  have added : Matches m busy { s with drafts := s.drafts ++ [⟨j, work⟩] } a := by
    refine { matched with draft := ?draft, ownDraft := ?ownDraft }
    case draft =>
      intro k l old
      obtain ⟨full, bare, here, here', same⟩ := matched.draft old
      exact ⟨full, bare, Desk.getElem?_append_old here, here', same⟩
    case ownDraft =>
      intro k own
      obtain ⟨unmatched, full, here, inside⟩ := matched.ownDraft own
      exact ⟨unmatched, full, Desk.getElem?_append_old here, inside⟩
  exact added.takeDraft List.getElem?_concat_length
    (fun l old => Nat.lt_irrefl _ (matched.lt_length old).1) own simple

theorem getElem?_set_of_some {α : Type} {xs : List α} {k l : Nat} {old new : α}
    (here : xs[k]? = some old) : (xs.set k new)[l]? = if k = l then some new else xs[l]? := by
  rw [List.getElem?_set]
  split
  · rw [if_pos (List.getElem?_eq_some_iff.1 here).1]
  · rfl

theorem Matches.redraftBoth (matched : Matches m busy s a) {k l : DraftId} (drafts : m.Draft k l)
    (pair : m.Scope j i) (work : Work) :
    Matches m busy { s with drafts := s.drafts.set k ⟨j, work⟩ }
      { a with drafts := a.drafts.set l ⟨i, work⟩ } := by
  obtain ⟨full, bare, here, here', -⟩ := matched.draft drafts
  refine { matched with draft := ?draft, ownDraft := ?ownDraft }
  case draft =>
    intro k' l' other
    rw [getElem?_set_of_some here, getElem?_set_of_some here']
    by_cases first : k = k'
    · subst first
      obtain rfl := matched.draftOnce drafts other
      exact ⟨_, _, if_pos rfl, if_pos rfl, pair, rfl⟩
    · have second : l ≠ l' := fun clash => first (matched.draftOne drafts (clash ▸ other))
      rw [if_neg first, if_neg second]
      exact matched.draft other
  case ownDraft =>
    intro k' own
    obtain ⟨unmatched, found⟩ := matched.ownDraft own
    have other : k ≠ k' := by
      rintro rfl
      exact unmatched l drafts
    rw [getElem?_set_of_some here, if_neg other]
    exact ⟨unmatched, found⟩

theorem Matches.redraftOwn (matched : Matches m busy s a) {k : DraftId} (mine : m.OwnDraft k)
    (own : m.OwnScope j) {work : Work} (simple : work.isReturn = false) :
    Matches m busy { s with drafts := s.drafts.set k ⟨j, work⟩ } a := by
  obtain ⟨unmatched, full, here, -⟩ := matched.ownDraft mine
  refine { matched with draft := ?draft, ownDraft := ?ownDraft }
  case draft =>
    intro k' l' other
    have apart : k ≠ k' := by
      rintro rfl
      exact unmatched l' other
    rw [getElem?_set_of_some here, if_neg apart]
    exact matched.draft other
  case ownDraft =>
    intro k' another
    rw [getElem?_set_of_some here]
    by_cases same : k = k'
    · subst same
      exact ⟨unmatched, _, if_pos rfl, own, simple⟩
    · rw [if_neg same]
      exact matched.ownDraft another

/-! The result types of functions. -/

theorem Matches.changeFunction {α : Type} (matched : Matches m busy s a) (pair : m.Scope j i)
    {change : Ty → List (Deferral Empty) → α × Role (Deferral Empty)} {answer : α}
    {after : Scopes (Deferral Empty)}
    (done : s.scopes.changeFunction j change = .ok (answer, after))
    (change' : Ty → List (Deferral Empty) → α × Role (Deferral Empty)) (same : α → α → Prop)
    (alike : ∀ result waiting waiting', m.Tasks waiting waiting' →
      same (change result waiting).1 (change' result waiting').1 ∧
        m.SameRole (change result waiting).2 (change' result waiting').2)
    (journal journal' : List Note) :
    ∃ answer' after', a.scopes.changeFunction i change' = .ok (answer', after') ∧
      same answer answer' ∧
      Matches m busy { s with scopes := after, journal }
        { a with scopes := after', journal := journal' } := by
  obtain ⟨body, body', around, around', found⟩ := matched.functionBody pair
  simp only [Scopes.changeFunction, around, around', bind, Except.bind] at done ⊢
  cases found with
  | none => simp at done
  | some bodies =>
    obtain ⟨full, bare, here, here', alikes⟩ := matched.scope bodies
    have role := alikes.role
    simp only [Scopes.get_eq_ok.2 here, Scopes.get_eq_ok.2 here'] at done ⊢
    cases isRole : full.role with
    | block | loop => simp [isRole] at done
    | function result waiting =>
      cases isRole' : bare.role with
      | block | loop => simp [isRole, isRole', Matching.SameRole] at role
      | function result' waiting' =>
        simp only [isRole, isRole', Matching.SameRole] at role
        obtain ⟨rfl, tasks⟩ := role
        obtain ⟨answers, roles⟩ := alike result waiting waiting' tasks
        simp only [isRole, pure_eq_ok, Prod.mk.injEq] at done
        obtain ⟨rfl, rfl⟩ := done
        refine ⟨_, _, rfl, answers, ?_⟩
        have changed : m.SameScope { full with role := (change result waiting).2 }
            { bare with role := (change' result waiting').2 } :=
          ⟨alikes.parent, roles, alikes.bindings, alikes.waiting, alikes.distinct⟩
        exact matched.setBoth bodies here here' (by rfl) (by rfl) changed journal journal'

end Check

end Hoist
