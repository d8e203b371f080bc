import Mathlib.Data.List.Forall2
import Mathlib.Data.Option.Defs
import Hoist.Proofs.Check.Ends
import Hoist.Proofs.Check.Extend
import Hoist.Proofs.Scope.Path

/-!
Two runs side by side: the full run, over a file as it is, and the bare run, over the file with the
body of one block emptied. A `Matching` says which scopes and drafts of the one are which of the
other, and which belong to the body, so that only the full run has them.

Main statements: two states that match give the same answers from scopes that match
(`Matches.view_eq`, `Matches.anchor`), and still match when both change a scope alike
(`Matches.setBoth`), or when the full run changes what only it has (`Matches.setFull`).
-/
namespace Hoist

/-- The second list is what is left of the first one without what is its own. -/
inductive Thins {α : Type} (same : α → α → Prop) (own : α → Prop) : List α → List α → Prop
  | nil : Thins same own [] []
  | keep {x y : α} {xs ys : List α} : same x y → Thins same own xs ys →
    Thins same own (x :: xs) (y :: ys)
  | skip {x : α} {xs ys : List α} : own x → Thins same own xs ys → Thins same own (x :: xs) ys

namespace Thins

variable {α β : Type} {same more : α → α → Prop} {own others : α → Prop} {xs ys : List α}

theorem append {xs' ys' : List α} (first : Thins same own xs ys)
    (second : Thins same own xs' ys') : Thins same own (xs ++ xs') (ys ++ ys') := by
  induction first with
  | nil => exact second
  | keep here _ ih => exact .keep here ih
  | skip here _ ih => exact .skip here ih

theorem mono (sames : ∀ x y, same x y → more x y) (owns : ∀ x, own x → others x)
    (thins : Thins same own xs ys) : Thins more others xs ys := by
  induction thins with
  | nil => exact .nil
  | keep here _ ih => exact .keep (sames _ _ here) ih
  | skip here _ ih => exact .skip (owns _ here) ih

theorem map {same' : β → β → Prop} {own' : β → Prop} {f : α → β}
    (sames : ∀ x y, same x y → same' (f x) (f y)) (owns : ∀ x, own x → own' (f x))
    (thins : Thins same own xs ys) : Thins same' own' (xs.map f) (ys.map f) := by
  induction thins with
  | nil => exact .nil
  | keep here _ ih => exact .keep (sames _ _ here) ih
  | skip here _ ih => exact .skip (owns _ here) ih

theorem of_own (owns : ∀ x ∈ xs, own x) : Thins same own xs [] := by
  induction xs with
  | nil => exact .nil
  | cons x rest ih =>
    exact .skip (owns x List.mem_cons_self) (ih fun y mem => owns y (List.mem_cons_of_mem _ mem))

theorem of_same {x y : α} (here : same x y) : Thins same own [x] [y] :=
  .keep here .nil

theorem eq_nil (thins : Thins same own [] ys) : ys = [] := by
  cases thins
  rfl

end Thins

structure Matching where
  /-- A scope of the full run is this scope of the bare run. -/
  Scope : ScopeId → ScopeId → Prop
  Draft : DraftId → DraftId → Prop
  /-- A scope only the full run has. -/
  OwnScope : ScopeId → Prop
  OwnDraft : DraftId → Prop

namespace Matching

variable {m n k : Matching}

/-- More is matched, and what was matched still is. -/
structure Within (m n : Matching) : Prop where
  scope : ∀ {j i}, m.Scope j i → n.Scope j i
  draft : ∀ {j i}, m.Draft j i → n.Draft j i
  ownScope : ∀ {j}, m.OwnScope j → n.OwnScope j
  ownDraft : ∀ {j}, m.OwnDraft j → n.OwnDraft j

theorem Within.refl (m : Matching) : m.Within m :=
  ⟨id, id, id, id⟩

theorem Within.trans (first : m.Within n) (second : n.Within k) : m.Within k :=
  ⟨fun h => second.scope (first.scope h), fun h => second.draft (first.draft h),
    fun h => second.ownScope (first.ownScope h), fun h => second.ownDraft (first.ownDraft h)⟩

/-! Work that was put off. -/

inductive Task (m : Matching) : Deferral Empty → Deferral Empty → Prop
  | resume {j i : DraftId} (name : String) : m.Draft j i → Task m (.resume j name) (.resume i name)
  | conclude (id : SignatureId) : Task m (.conclude id) (.conclude id)
  | hoisted {j i : ScopeId} {rest rest' : Deferral Empty} (name : String) (position : Position) :
    m.Scope j i → Task m rest rest' →
    Task m (.hoisted j name position rest) (.hoisted i name position rest')

inductive OwnTask (m : Matching) : Deferral Empty → Prop
  | resume {j : DraftId} (name : String) : m.OwnDraft j → OwnTask m (.resume j name)
  | hoisted {rest : Deferral Empty} (j : ScopeId) (name : String) (position : Position) :
    OwnTask m rest → OwnTask m (.hoisted j name position rest)

def Waiting (m : Matching) (full bare : Waiter (Deferral Empty)) : Prop :=
  m.Task full.work bare.work ∧ full.position = bare.position

def OwnWaiter (m : Matching) (full : Waiter (Deferral Empty)) : Prop :=
  m.OwnTask full.work

theorem Task.mono {full bare : Deferral Empty} (within : m.Within n) (task : m.Task full bare) :
    n.Task full bare := by
  induction task with
  | resume name draft => exact .resume name (within.draft draft)
  | conclude id => exact .conclude id
  | hoisted name position scope _ ih => exact .hoisted name position (within.scope scope) ih

theorem OwnTask.mono {full : Deferral Empty} (within : m.Within n) (task : m.OwnTask full) :
    n.OwnTask full := by
  induction task with
  | resume name draft => exact .resume name (within.ownDraft draft)
  | hoisted j name position _ ih => exact .hoisted j name position ih

/-- The same work, but for what only the full run has to do. -/
abbrev Tasks (m : Matching) : List (Deferral Empty) → List (Deferral Empty) → Prop :=
  Thins m.Task m.OwnTask

theorem tasks_mono {full bare : List (Deferral Empty)} (within : m.Within n)
    (tasks : m.Tasks full bare) : n.Tasks full bare :=
  tasks.mono (fun _ _ => .mono within) fun _ => .mono within

/-! Scopes. -/

def SameRole (m : Matching) : Role (Deferral Empty) → Role (Deferral Empty) → Prop
  | .block, .block | .loop, .loop => True
  | .function result waiting, .function result' waiting' =>
    result = result' ∧ m.Tasks waiting waiting'
  | _, _ => False

/-- The same scope, but for those who wait in it. -/
structure SameScope (m : Matching) (full bare : Hoist.Scope (Deferral Empty)) : Prop where
  parent : Option.Rel m.Scope full.parent bare.parent
  role : m.SameRole full.role bare.role
  bindings : full.bindings = bare.bindings
  waiting : ∀ name, Thins m.Waiting m.OwnWaiter (full.waitingOn name) (bare.waitingOn name)
  distinct : bare.waiting.names.Nodup

/-- A scope inside another one, in which nobody waits who is not there in the full run only. -/
structure Encloses (m : Matching) (full : Hoist.Scope (Deferral Empty)) : Prop where
  parent : full.parent.isSome = true
  waiting : ∀ name, ∀ waiter ∈ full.waitingOn name, m.OwnWaiter waiter

theorem SameRole.mono {full bare : Role (Deferral Empty)} (within : m.Within n)
    (role : m.SameRole full bare) : n.SameRole full bare := by
  cases full <;> cases bare <;> simp only [SameRole] at role ⊢
  exact ⟨role.1, tasks_mono within role.2⟩

theorem parent_mono {full bare : Option ScopeId} (within : m.Within n)
    (parent : Option.Rel m.Scope full bare) : Option.Rel n.Scope full bare := by
  cases parent with
  | some scope => exact .some (within.scope scope)
  | none => exact .none

theorem SameScope.mono {full bare : Hoist.Scope (Deferral Empty)} (within : m.Within n)
    (same : m.SameScope full bare) : n.SameScope full bare where
  parent := parent_mono within same.parent
  role := same.role.mono within
  bindings := same.bindings
  waiting name := (same.waiting name).mono (fun _ _ ⟨task, here⟩ => ⟨task.mono within, here⟩)
    fun _ task => OwnTask.mono within task
  distinct := same.distinct

theorem Encloses.mono {full : Hoist.Scope (Deferral Empty)} (within : m.Within n)
    (encloses : m.Encloses full) : n.Encloses full :=
  ⟨encloses.parent, fun name waiter mem => OwnTask.mono within (encloses.waiting name waiter mem)⟩

/-- Work waits in the same place. -/
def SameAnchor (m : Matching) : Anchor → Anchor → Prop
  | .bound owner, .bound owner' | .root owner, .root owner' => m.Scope owner owner'
  | _, _ => False

/-! Drafts. -/

structure SameDraft (m : Matching) (full bare : Hoist.Draft) : Prop where
  scope : m.Scope full.scope bare.scope
  work : full.work = bare.work

structure SameHead (m : Matching) (full bare : SignatureDraft) : Prop where
  scope : m.Scope full.scope bare.scope
  body : m.Scope full.body bare.body
  signature : full.signature = bare.signature

end Matching

/-- Returns reach out of a block: they decide the result type of the function around it. -/
def Work.isReturn : Work → Bool
  | .returns _ => true
  | _ => false

/-- Where work waits is decided by the bindings on the way outwards. -/
theorem Scopes.Path.anchor_eq {δ : Type} {scopes : Scopes δ} {id : ScopeId} {outer : List ScopeId}
    (path : scopes.Path (id :: outer)) (name : String) (declared : Option String) :
    scopes.anchor id name declared =
      .ok (match (if declared = some name then outer else id :: outer).find?
          fun at_ => (scopes.binding? at_ name).isSome with
        | some owner => .bound owner
        | none => .root 0) := by
  have top := path.top_eq
  by_cases own : declared = some name
  · cases outer with
    | nil => simp [Scopes.anchor, own, path.parent_eq, top, bind, Except.bind, pure, Except.pure]
    | cons next rest =>
      simp only [Scopes.anchor, own, ↓reduceIte, path.parent_eq, List.head?_cons, top,
        path.tail.owner_eq name, bind, Except.bind, pure, Except.pure]
      cases (next :: rest).find? fun at_ => (scopes.binding? at_ name).isSome <;> rfl
  · simp only [Scopes.anchor, own, ↓reduceIte, top, path.owner_eq name, bind, Except.bind, pure,
      Except.pure]
    cases (id :: outer).find? fun at_ => (scopes.binding? at_ name).isSome <;> rfl

namespace Check

variable {σ : Type}

/-- The two runs stand at the same place; `busy` says whether a wave is going on there. -/
structure Matches (m : Matching) (busy : Bool) (s a : Checker Empty σ) : Prop where
  scope : ∀ {j i}, m.Scope j i → ∃ full bare, s.scopes.all[j]? = some full ∧
    a.scopes.all[i]? = some bare ∧ m.SameScope full bare
  scopeOnce : ∀ {j i i'}, m.Scope j i → m.Scope j i' → i = i'
  scopeOne : ∀ {j j' i}, m.Scope j i → m.Scope j' i → j = j'
  ownScope : ∀ {j}, m.OwnScope j → (∀ i, ¬m.Scope j i) ∧
    ∃ full, s.scopes.all[j]? = some full ∧ m.Encloses full
  /-- Nobody waits in the block that was emptied. -/
  emptied : ∀ {i bare}, (∀ j, ¬m.Scope j i) → a.scopes.all[i]? = some bare → bare.waiting = .empty
  draft : ∀ {j i}, m.Draft j i → ∃ full bare, s.drafts[j]? = some full ∧
    a.drafts[i]? = some bare ∧ m.SameDraft full bare
  draftOnce : ∀ {j i i'}, m.Draft j i → m.Draft j i' → i = i'
  draftOne : ∀ {j j' i}, m.Draft j i → m.Draft j' i → j = j'
  ownDraft : ∀ {j}, m.OwnDraft j → (∀ i, ¬m.Draft j i) ∧
    ∃ full, s.drafts[j]? = some full ∧ m.OwnScope full.scope ∧ full.work.isReturn = false
  heads : List.Forall₂ m.SameHead s.signatures a.signatures
  queue : m.Tasks s.queue a.queue
  firing : s.firing = busy
  firing' : a.firing = busy
  idle : busy = false → a.queue = []
  store : s.store = a.store
  /-- The bare run has less to pay for. -/
  budget : s.budget ≤ a.budget
  rooted : s.scopes.Rooted
  rooted' : a.scopes.Rooted

variable {m : Matching} {busy : Bool} {s a : Checker Empty σ} {j i : ScopeId}
  {full bare full' bare' : Scope (Deferral Empty)}

/-! Changes of scopes. -/

theorem parent?_set {scopes : Scopes (Deferral Empty)} (here : scopes.all[j]? = some full)
    (parent : full'.parent = full.parent) (other : ScopeId) :
    (scopes.set j full').parent? other = scopes.parent? other := by
  rw [Scopes.parent?, Scopes.parent?, Scopes.all_set (Scopes.lt_size_of_get here)]
  split
  case isTrue same =>
    subst same
    simp [here, parent]
  case isFalse => rfl

/-- Both runs change the same scope, and alike. -/
theorem Matches.setBoth (matched : Matches m busy s a) (pair : m.Scope j i)
    (here : s.scopes.all[j]? = some full) (here' : a.scopes.all[i]? = some bare)
    (parent : full'.parent = full.parent) (parent' : bare'.parent = bare.parent)
    (same : m.SameScope full' bare') (journal journal' : List Note) :
    Matches m busy { s with scopes := s.scopes.set j full', journal }
      { a with scopes := a.scopes.set i bare', journal := journal' } where
  scope {k l} other := by
    rw [Scopes.all_set (Scopes.lt_size_of_get here), Scopes.all_set (Scopes.lt_size_of_get here')]
    by_cases first : j = k
    · subst first
      obtain rfl := matched.scopeOnce pair other
      exact ⟨full', bare', if_pos rfl, if_pos rfl, same⟩
    · have second : i ≠ l := fun clash => first (matched.scopeOne pair (clash ▸ other))
      rw [if_neg first, if_neg second]
      exact matched.scope other
  scopeOnce := matched.scopeOnce
  scopeOne := matched.scopeOne
  ownScope {k} own := by
    obtain ⟨unmatched, found⟩ := matched.ownScope own
    have other : j ≠ k := by
      rintro rfl
      exact unmatched i pair
    rw [Scopes.all_set (Scopes.lt_size_of_get here), if_neg other]
    exact ⟨unmatched, found⟩
  emptied {l} _ unmatched found := by
    have other : i ≠ l := by
      rintro rfl
      exact unmatched j pair
    rw [Scopes.all_set (Scopes.lt_size_of_get here'), if_neg other] at found
    exact matched.emptied unmatched found
  draft := matched.draft
  draftOnce := matched.draftOnce
  draftOne := matched.draftOne
  ownDraft := matched.ownDraft
  heads := matched.heads
  queue := matched.queue
  firing := matched.firing
  firing' := matched.firing'
  idle := matched.idle
  store := matched.store
  budget := matched.budget
  rooted := matched.rooted.of_parents (parent?_set here parent)
  rooted' := matched.rooted'.of_parents (parent?_set here' parent')

/-- Only the full run changes a scope, and nothing that the bare run has of it. -/
theorem Matches.setFull (matched : Matches m busy s a) (here : s.scopes.all[j]? = some full)
    (parent : full'.parent = full.parent)
    (same : ∀ i bare, m.Scope j i → m.SameScope full bare → m.SameScope full' bare)
    (own : m.OwnScope j → m.Encloses full → m.Encloses full') (journal : List Note) :
    Matches m busy { s with scopes := s.scopes.set j full', journal } a where
  scope {k l} other := by
    rw [Scopes.all_set (Scopes.lt_size_of_get here)]
    obtain ⟨old, bare, found, found', alike⟩ := matched.scope other
    by_cases first : j = k
    · subst first
      obtain rfl : full = old := Option.some.inj (here.symm.trans found)
      exact ⟨full', bare, if_pos rfl, found', same l bare other alike⟩
    · exact ⟨old, bare, (if_neg first).trans found, found', alike⟩
  scopeOnce := matched.scopeOnce
  scopeOne := matched.scopeOne
  ownScope {k} mine := by
    rw [Scopes.all_set (Scopes.lt_size_of_get here)]
    obtain ⟨unmatched, old, found, encloses⟩ := matched.ownScope mine
    refine ⟨unmatched, ?_⟩
    by_cases first : j = k
    · subst first
      obtain rfl : full = old := Option.some.inj (here.symm.trans found)
      exact ⟨full', if_pos rfl, own mine encloses⟩
    · exact ⟨old, (if_neg first).trans found, encloses⟩
  emptied := matched.emptied
  draft := matched.draft
  draftOnce := matched.draftOnce
  draftOne := matched.draftOne
  ownDraft := matched.ownDraft
  heads := matched.heads
  queue := matched.queue
  firing := matched.firing
  firing' := matched.firing'
  idle := matched.idle
  store := matched.store
  budget := matched.budget
  rooted := matched.rooted.of_parents (parent?_set here parent)
  rooted' := matched.rooted'

/-! The way outwards. -/

theorem parent?_eq_some {scopes : Scopes (Deferral Empty)} {parent : Option ScopeId}
    (here : scopes.all[j]? = some full) (found : scopes.parent? j = some parent) :
    full.parent = parent := by
  simpa [Scopes.parent?, here] using found

theorem Matches.path_of_paths (matched : Matches m busy s a) {outer outer' : List ScopeId}
    (pair : m.Scope j i) (path : s.scopes.Path (j :: outer)) (path' : a.scopes.Path (i :: outer')) :
    List.Forall₂ m.Scope (j :: outer) (i :: outer') := by
  induction outer generalizing j i outer' with
  | nil =>
    obtain ⟨full, bare, here, here', same⟩ := matched.scope pair
    have parent := same.parent
    rw [parent?_eq_some here path.parent?_eq, parent?_eq_some here' path'.parent?_eq] at parent
    cases outer' with
    | nil => exact .cons pair .nil
    | cons next' rest' => nomatch parent
  | cons next rest ih =>
    obtain ⟨full, bare, here, here', same⟩ := matched.scope pair
    have parent := same.parent
    rw [parent?_eq_some here path.parent?_eq, parent?_eq_some here' path'.parent?_eq] at parent
    cases outer' with
    | nil => nomatch parent
    | cons next' rest' =>
      obtain ⟨around⟩ := parent
      exact .cons pair (ih around path.tail path'.tail)

theorem Matches.path (matched : Matches m busy s a) (pair : m.Scope j i) : ∃ outer outer',
    s.scopes.Path (j :: outer) ∧ a.scopes.Path (i :: outer') ∧
      List.Forall₂ m.Scope (j :: outer) (i :: outer') := by
  obtain ⟨full, bare, here, here', -⟩ := matched.scope pair
  obtain ⟨outer, path⟩ := matched.rooted j (Scopes.lt_size_of_get here)
  obtain ⟨outer', path'⟩ := matched.rooted' i (Scopes.lt_size_of_get here')
  exact ⟨outer, outer', path, path', matched.path_of_paths pair path path'⟩

theorem Matches.binding?_eq (matched : Matches m busy s a) (pair : m.Scope j i) (name : String) :
    s.scopes.binding? j name = a.scopes.binding? i name := by
  obtain ⟨full, bare, here, here', same⟩ := matched.scope pair
  simp [Scopes.binding?, here, here', same.bindings]

theorem Matches.kind?_eq (matched : Matches m busy s a) (pair : m.Scope j i) :
    s.scopes.kind? j = a.scopes.kind? i := by
  obtain ⟨full, bare, here, here', same⟩ := matched.scope pair
  have role := same.role
  cases isRole : full.role <;> cases isRole' : bare.role <;>
    simp_all [Scopes.kind?, Role.kind, Matching.SameRole]

theorem Matches.result?_eq (matched : Matches m busy s a) (pair : m.Scope j i) :
    s.scopes.result? j = a.scopes.result? i := by
  obtain ⟨full, bare, here, here', same⟩ := matched.scope pair
  have role := same.role
  cases isRole : full.role <;> cases isRole' : bare.role <;>
    simp_all [Scopes.result?, Role.result?, Matching.SameRole]

/-! Questions that are asked of scopes. -/

theorem rel_getLast {α β : Type} {R : α → β → Prop} {x : α} {y : β} {xs : List α} {ys : List β}
    (alike : List.Forall₂ R xs ys) (last : xs.getLast? = some x) (last' : ys.getLast? = some y) :
    R x y := by
  induction alike with
  | nil => simp at last
  | @cons _ _ _ _ here rest ih =>
    cases rest with
    | nil =>
      obtain rfl := Option.some.inj last
      obtain rfl := Option.some.inj last'
      exact here
    | cons _ _ => exact ih last last'

theorem rel_find? {α β : Type} {R : α → β → Prop} {p : α → Bool} {q : β → Bool} {xs : List α}
    {ys : List β} (alike : List.Forall₂ R xs ys) (same : ∀ x y, R x y → p x = q y) :
    Option.Rel R (xs.find? p) (ys.find? q) := by
  induction alike with
  | nil => exact .none
  | @cons x y xs ys here _ ih =>
    rw [List.find?_cons, List.find?_cons, same x y here]
    cases q y with
    | true => exact .some here
    | false => exact ih

theorem findSome?_congr₂ {α β γ : Type} {R : α → β → Prop} {f : α → Option γ} {g : β → Option γ}
    {xs : List α} {ys : List β} (alike : List.Forall₂ R xs ys)
    (same : ∀ x y, R x y → f x = g y) : xs.findSome? f = ys.findSome? g := by
  induction alike with
  | nil => rfl
  | @cons x y xs ys here _ ih => rw [List.findSome?_cons, List.findSome?_cons, same x y here, ih]

section Questions

variable (matched : Matches m busy s a) (pair : m.Scope j i)
include matched pair

theorem Matches.lookup_eq (name : String) :
    s.scopes.lookup j name = a.scopes.lookup i name := by
  obtain ⟨outer, outer', path, path', alike⟩ := matched.path pair
  rw [path.lookup_eq, path'.lookup_eq,
    findSome?_congr₂ alike fun _ _ pair => matched.binding?_eq pair name]

theorem Matches.view_eq : s.scopes.view j = a.scopes.view i := by
  funext name
  rw [Scopes.view, Scopes.view, matched.lookup_eq pair name]

theorem Matches.isTopLevel_eq : s.scopes.isTopLevel j = a.scopes.isTopLevel i := by
  obtain ⟨outer, outer', path, path', alike⟩ := matched.path pair
  rw [path.isTopLevel_eq, path'.isTopLevel_eq]
  cases alike with
  | cons _ rest => cases rest <;> rfl

theorem Matches.isInsideLoop_eq : s.scopes.isInsideLoop j = a.scopes.isInsideLoop i := by
  obtain ⟨outer, outer', path, path', alike⟩ := matched.path pair
  have same {xs ys : List ScopeId} (alike : List.Forall₂ m.Scope xs ys) :
      (xs.any fun id => s.scopes.kind? id = some .loop) =
        ys.any fun id => a.scopes.kind? id = some .loop := by
    induction alike with
    | nil => rfl
    | cons pair _ ih => simp only [List.any_cons, matched.kind?_eq pair, ih]
  rw [path.isInsideLoop_eq, path'.isInsideLoop_eq, same alike]

theorem Matches.functionBody : ∃ body body', s.scopes.functionBody j = .ok body ∧
    a.scopes.functionBody i = .ok body' ∧ Option.Rel m.Scope body body' := by
  obtain ⟨outer, outer', path, path', alike⟩ := matched.path pair
  refine ⟨_, _, path.functionBody_eq, path'.functionBody_eq, rel_find? alike fun _ _ pair => ?_⟩
  rw [matched.kind?_eq pair]

theorem Matches.resultType_eq : s.scopes.resultType j = a.scopes.resultType i := by
  obtain ⟨outer, outer', path, path', alike⟩ := matched.path pair
  rw [path.resultType_eq, path'.resultType_eq]
  have found : Option.Rel m.Scope ((j :: outer).find? fun id => s.scopes.kind? id = some .function)
      ((i :: outer').find? fun id => a.scopes.kind? id = some .function) :=
    rel_find? alike fun _ _ pair => by rw [matched.kind?_eq pair]
  generalize (j :: outer).find? _ = body at found ⊢
  generalize (i :: outer').find? _ = body' at found ⊢
  cases found with
  | none => rfl
  | some pair => simp [matched.result?_eq pair]

theorem Matches.root : m.Scope 0 0 := by
  obtain ⟨outer, outer', path, path', alike⟩ := matched.path pair
  exact rel_getLast alike path.getLast? path'.getLast?

theorem Matches.anchor (name : String) (declared : Option String) : ∃ anchor anchor',
    s.scopes.anchor j name declared = .ok anchor ∧
    a.scopes.anchor i name declared = .ok anchor' ∧ m.SameAnchor anchor anchor' := by
  obtain ⟨outer, outer', path, path', alike⟩ := matched.path pair
  refine ⟨_, _, path.anchor_eq name declared, path'.anchor_eq name declared, ?_⟩
  have starts : List.Forall₂ m.Scope (if declared = some name then outer else j :: outer)
      (if declared = some name then outer' else i :: outer') := by
    split
    · exact (List.forall₂_cons.1 alike).2
    · exact alike
  have found := rel_find? starts (p := fun id => (s.scopes.binding? id name).isSome)
    (q := fun id => (a.scopes.binding? id name).isSome)
    fun _ _ pair => by rw [matched.binding?_eq pair]
  generalize List.find? _ (if declared = some name then outer else j :: outer) = owner at found ⊢
  generalize List.find? _ (if declared = some name then outer' else i :: outer') = owner' at found ⊢
  cases found with
  | none => exact matched.root pair
  | some pair => exact pair

end Questions

end Check

end Hoist
