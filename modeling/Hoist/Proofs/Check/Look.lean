import Hoist.Proofs.Check.Desk
import Hoist.Proofs.Check.Parts

/-!
Looking at a simple statement, for the first time or again. A look finds the types that the statement
is about (`Work.LookGives`). The draft is put in its place and waits for each name whose type was not
found, unless it does so already (`PutsOff`, `Looked`). What a return then does to the result type of
its function is said by `Answers`.

Main statements: the check of a statement is a look (`looked_checkAssignment`, `reviewed_judgeReturn`,
`looked_checkEvaluation`, `reviewed_resumeDeclaration`), and so is what a deferral does for a draft
(`reviewed_resume`).
-/
namespace Hoist

/-- One element was put in its place, or at the end. -/
def PutAt {α : Type} (before : List α) (id : Nat) (value : α) (after : List α) : Prop :=
  ∀ other, after[other]? = if other = id then some value else before[other]?

section PutAt

variable {α : Type} {before between after : List α} {id : Nat} {old value : α}

theorem putAt_set (inside : id < before.length) : PutAt before id value (before.set id value) := by
  intro other
  rw [List.getElem?_set]
  by_cases same : id = other
  · subst same
    simp [inside]
  · simp [same, Ne.symm same]

theorem putAt_append (before : List α) (value : α) :
    PutAt before before.length value (before ++ [value]) := by
  intro other
  rw [List.getElem?_append, List.getElem?_singleton]
  rcases Nat.lt_trichotomy other before.length with inside | same | outside
  · rw [if_pos inside, if_neg (by omega)]
  · simp [same]
  · rw [if_neg (by omega), if_neg (by omega), if_neg (by omega),
      List.getElem?_eq_none (by omega)]

theorem putAt_self (here : before[id]? = some value) : PutAt before id value before := by
  intro other
  split
  · rename_i same
    rw [same, here]
  · rfl

theorem PutAt.eq_append (put : PutAt before before.length value after) : after = before ++ [value] :=
  List.ext_getElem? fun other => (put other).trans (putAt_append before value other).symm

theorem PutAt.here (put : PutAt before id value after) : after[id]? = some value := by
  simp [put id]

theorem PutAt.trans (first : PutAt before id old between) (second : PutAt between id value after) :
    PutAt before id value after := by
  intro other
  rw [second other]
  split
  · rfl
  · rename_i apart
    rw [first other, if_neg apart]

end PutAt

/-- All that can be seen of the scopes is the same, but for those who wait for a name. -/
structure Scopes.Calm {δ : Type} (before after : Scopes δ) : Prop where
  size : after.size = before.size
  parent : ∀ id, after.parent? id = before.parent? id
  kind : ∀ id, after.kind? id = before.kind? id
  result : ∀ id, after.result? id = before.result? id
  resultWaiters : ∀ id, after.resultWaiters id = before.resultWaiters id
  bindings : ∀ id name, after.binding? id name = before.binding? id name

namespace Scopes

variable {δ : Type} {before between after : Scopes δ}

theorem Calm.refl (scopes : Scopes δ) : scopes.Calm scopes :=
  ⟨rfl, fun _ => rfl, fun _ => rfl, fun _ => rfl, fun _ => rfl, fun _ _ => rfl⟩

theorem Calm.trans (first : before.Calm between) (second : between.Calm after) :
    before.Calm after where
  size := second.size.trans first.size
  parent id := (second.parent id).trans (first.parent id)
  kind id := (second.kind id).trans (first.kind id)
  result id := (second.result id).trans (first.result id)
  resultWaiters id := (second.resultWaiters id).trans (first.resultWaiters id)
  bindings id name := (second.bindings id name).trans (first.bindings id name)

theorem Awaited.calm {place : ScopeId} {name : String} {waiter : Waiter δ}
    (awaited : before.Awaited after place name waiter) : before.Calm after :=
  ⟨awaited.size, awaited.parent, awaited.kind, awaited.result, awaited.resultWaiters,
    awaited.bindings⟩

end Scopes

namespace Work

def assignment? : Work → Option Assignment
  | .assignment a _ => some a
  | _ => none

def Faithful (work : Work) : Prop :=
  (∀ value ∈ work.value?, value.Faithful) ∧ ∀ a ∈ work.assignment?, a.target.Faithful

/-- The names that an assignment has a deferral waiting for. -/
def awaited : Work → List String
  | .assignment _ awaited => awaited
  | _ => []

/-- An assignment has one more name to wait for. -/
def awaiting (name : String) : Work → Work
  | .assignment a awaited => .assignment a (name :: awaited)
  | work => work

/-- A name has changed, and an assignment does not wait for it any more. -/
def strike (name : String) : Work → Work
  | .assignment a awaited => .assignment a (awaited.filter (· ≠ name))
  | work => work

/-- A look at a statement, the statement as it is afterwards, and the types that were found. Which
names an assignment waits for is another matter. -/
inductive LookGives (view : View) : Work → Work → List Ty → Prop
  | declaration {d : Declaration} {type : Ty} {value : Expr} :
      d.value.resolve view = (.ok type, value) →
      (d.written.isConcrete = true → type.isPending = true ∨ d.written = type) →
      LookGives view (.declaration d) (.declaration { d with value, type }) [type]
  | assignment {a : Assignment} {awaited later : List String} {targetType valueType : Ty}
      {target : Target} {value : Expr} :
      a.target.resolve view = (.ok targetType, target) →
      a.value.resolve view = (.ok valueType, value) →
      Check.assignable a.op targetType valueType = .ok () →
      LookGives view (.assignment a awaited) (.assignment { a with target, value } later)
        [targetType, valueType]
  | bare {r : Return} : r.value = none → LookGives view (.returns r) (.returns r) [.void]
  | returns {r : Return} {before value : Expr} {type : Ty} : r.value = some before →
      before.resolve view = (.ok type, value) →
      LookGives view (.returns r) (.returns { r with value := some value }) [type]
  | evaluation {e : Evaluation} {value : Expr} {type : Ty} :
      e.value.resolve view = (.ok type, value) →
      LookGives view (.evaluation e) (.evaluation { e with value }) [type]

theorem awaiting_of_none {work : Work} (plain : work.assignment? = none) (name : String) :
    work.awaiting name = work := by
  cases work <;> simp_all [awaiting, assignment?]

@[simp] theorem assignment?_awaiting (work : Work) (name : String) :
    (work.awaiting name).assignment? = work.assignment? := by
  cases work <;> rfl

end Work

namespace Check

variable {σ : Type} {s t m : Checker Empty σ} {id : DraftId} {scope : ScopeId} {work last : Work}
  {names got : List String} {types : List Ty} {view : View} {done : Unit}

/-- A draft waits for each of the names that it has not got yet. -/
inductive PutsOff (id : DraftId) (scope : ScopeId) :
    List String → List String → Work → Checker Empty σ → Work → Checker Empty σ → Prop
  | done {got : List String} {work : Work} {s : Checker Empty σ} :
      PutsOff id scope [] got work s work s
  | known {name : String} {names got : List String} {work last : Work} {s t : Checker Empty σ} :
      name ∈ got → PutsOff id scope names got work s last t →
      PutsOff id scope (name :: names) got work s last t
  | wait {name : String} {names got : List String} {work last : Work} {drafts : List Draft}
      {position : Position} {s m t : Checker Empty σ} : name ∉ got →
      PutAt s.drafts id ⟨scope, work.awaiting name⟩ drafts →
      Ends (defer scope name work.declares (.resume id name) position) { s with drafts } () m →
      PutsOff id scope names (name :: got) (work.awaiting name) m last t →
      PutsOff id scope (name :: names) got work s last t

/-- A draft was looked at and put in its place, and waits for the names whose types were not found. -/
def Looked (view : View) (id : DraftId) (scope : ScopeId) (work : Work) (s : Checker Empty σ)
    (types : List Ty) (last : Work) (t : Checker Empty σ) : Prop :=
  ∃ after drafts, work.LookGives view after types ∧ after.awaited = work.awaited ∧
    PutAt s.drafts id ⟨scope, after⟩ drafts ∧
    PutsOff id scope (types.filterMap Ty.pendingOn) work.awaited after { s with drafts } last t

/-- What else a look leads to: a declaration is bound again, and a return has its say in the result
type of its function, which was looked up before. The work that is handed back is still to be
settled. -/
inductive Answers (scope : ScopeId) (before : Scopes (Deferral Empty)) :
    Work → List Ty → Checker Empty σ → List (Deferral Empty) → Checker Empty σ → Prop
  | assignment {a : Assignment} {awaited : List String} {types : List Ty} {m : Checker Empty σ} :
      Answers scope before (.assignment a awaited) types m [] m
  | evaluation {e : Evaluation} {types : List Ty} {m : Checker Empty σ} :
      Answers scope before (.evaluation e) types m [] m
  | binds {d : Declaration} {types : List Ty} {position : Position} {m t : Checker Empty σ}
      {handed : List (Deferral Empty)} : Ends (update scope d.binding position) m handed t →
      Answers scope before (.declaration d) types m handed t
  | agrees {r : Return} {type result : Ty} {m : Checker Empty σ} :
      before.resultType scope = .ok (some result) → result.isConcrete = true →
      type.isPending = true ∨ result = type → Answers scope before (.returns r) [type] m [] m
  | sets {r : Return} {type result : Ty} {position : Position} {m t : Checker Empty σ}
      {handed : List (Deferral Empty)} : before.resultType scope = .ok (some result) →
      result.isConcrete = false → Ends (setResult scope type position) m handed t →
      Answers scope before (.returns r) [type] m handed t

/-! Putting off. -/

theorem exists_of_defer {name : String} {declared : Option String} {position : Position}
    (ends : Ends (defer scope name declared (.resume id name) position) s done t) :
    ∃ place waiter scopes journal, waiter.work.core = .resume id name ∧
      s.scopes.await place name waiter = .ok scopes ∧ t = { s with scopes, journal } := by
  simp only [defer, ends_bind, ends_scopes, ends_ofFault, and_assoc, exists_and_left,
    exists_eq_left] at ends
  obtain ⟨anchor, -, ends⟩ := ends
  cases anchor with
  | bound owner =>
    obtain ⟨scopes, awaits, rfl⟩ := ends_await.1 ends
    exact ⟨owner, _, scopes, _, rfl, awaits, rfl⟩
  | root root =>
    obtain ⟨scopes, awaits, rfl⟩ := ends_await.1 ends
    exact ⟨root, _, scopes, _, rfl, awaits, rfl⟩

/-- A draft that is no assignment waits for one name, if at all. -/
theorem putsOff_one {type : Ty} {position : Position} (here : s.drafts[id]? = some ⟨scope, work⟩)
    (plain : work.assignment? = none)
    (ends : Ends (match type.pendingOn with
      | none => pure ()
      | some name => defer scope name work.declares (.resume id name) position) s done t) :
    PutsOff id scope ([type].filterMap Ty.pendingOn) [] work s work t := by
  rw [List.filterMap_cons, List.filterMap_nil]
  cases pending : type.pendingOn with
  | none =>
    simp only [pending, ends_pure] at ends
    exact ends.2 ▸ .done
  | some name =>
    simp only [pending] at ends
    have same := work.awaiting_of_none plain name
    refine .wait (by simp) (putAt_self (same.symm ▸ here)) ends ?_
    rw [same]
    exact .done

theorem putsOff_awaitEach {a : Assignment} {awaited names : List String}
    (inside : id < s.drafts.length) (ends : Ends (awaitEach id scope a awaited names) s done t) :
    ∃ later, PutsOff id scope names awaited (.assignment a awaited) s (.assignment a later) t := by
  induction names generalizing s awaited with
  | nil =>
    obtain ⟨-, rfl⟩ := ends_pure.1 ends
    exact ⟨_, .done⟩
  | cons name rest ih =>
    rw [awaitEach] at ends
    split at ends
    case isTrue already =>
      obtain ⟨later, puts⟩ := ih inside ends
      exact ⟨later, .known (by simpa using already) puts⟩
    case isFalse missing =>
      simp only [ends_bind, ends_setDraft, exists_eq_left] at ends
      obtain ⟨_, _, m, defers, ends⟩ := ends
      obtain ⟨_, _, _, _, -, -, rfl⟩ := exists_of_defer defers
      obtain ⟨later, puts⟩ := ih (by simpa using inside) ends
      exact ⟨later, .wait (by simpa using missing) (putAt_set inside) defers puts⟩

/-! Looking. -/

theorem looked_checkAssignment {a : Assignment} {awaited : List String}
    (inside : id < s.drafts.length) (ends : Ends (checkAssignment id scope a awaited) s done t) :
    ∃ types b later, Looked (s.scopes.view scope) id scope (.assignment a awaited) s types
      (.assignment b later) t := by
  simp only [checkAssignment, ends_bind, ends_view, ends_setDraft, ends_ofFault, ends_ofCause,
    List.set_set, and_assoc, exists_and_left, exists_eq_left] at ends
  obtain ⟨_, m, onRoot, ends⟩ := ends
  obtain rfl := (ends_checkRoot.1 onRoot).1
  obtain ⟨_, targetType, onTarget, _, valueType, onValue, _, agree, ends⟩ := ends
  obtain ⟨later, puts⟩ := putsOff_awaitEach (by simpa using inside) ends
  exact ⟨_, _, later, _, _, .assignment (Prod.ext onTarget rfl) (Prod.ext onValue rfl) agree, rfl,
    putAt_set inside, puts⟩

theorem looked_checkEvaluation {e : Evaluation} (inside : id < s.drafts.length)
    (ends : Ends (checkEvaluation id scope e) s done t) :
    ∃ types f, Looked (s.scopes.view scope) id scope (.evaluation e) s types (.evaluation f) t := by
  simp only [checkEvaluation, ends_bind, ends_view, ends_setDraft, ends_ofFault,
    and_assoc, exists_and_left, exists_eq_left] at ends
  obtain ⟨_, type, look, ends⟩ := ends
  exact ⟨_, _, _, _, .evaluation (Prod.ext look rfl), rfl, putAt_set inside,
    putsOff_one (List.getElem?_set_self inside) rfl ends⟩

/-- A declaration is kept that was looked at before its name was bound. -/
theorem looked_declare {d : Declaration} {type : Ty} {value : Expr}
    (look : d.value.resolve view = (.ok type, value))
    (agrees : d.written.isConcrete = true → type.isPending = true ∨ d.written = type)
    (ends : Ends (deferDeclaration s.drafts.length scope { d with value, type } type)
      { s with drafts := s.drafts ++ [⟨scope, .declaration { d with value, type }⟩] } done t) :
    Looked view s.drafts.length scope (.declaration d) s [type]
      (.declaration { d with value, type }) t := by
  have here : (s.drafts ++ [(⟨scope, .declaration { d with value, type }⟩ : Draft)])[s.drafts.length]? =
      some ⟨scope, .declaration { d with value, type }⟩ := List.getElem?_concat_length
  exact ⟨_, _, .declaration look agrees, rfl, putAt_append s.drafts _, putsOff_one here rfl ends⟩

/-- What was found of a return is compared with the result type of its function. -/
theorem answers_judgeResult {r : Return} {result type : Ty} {position : Position}
    {handed : Option (List (Deferral Empty))} {before : Scopes (Deferral Empty)}
    (current : before.resultType scope = .ok (some result))
    (here : s.drafts[id]? = some ⟨scope, .returns r⟩)
    (ends : Ends (judgeResult id scope position result type) s handed t) :
    ∃ m, PutsOff id scope ([type].filterMap Ty.pendingOn) [] (.returns r) s (.returns r) m ∧
      Answers scope before (.returns r) [type] m (handed.getD []) t := by
  unfold judgeResult at ends
  split at ends
  case h_1 name waits =>
    obtain ⟨_, m, defers, ends⟩ := ends_bind.1 ends
    refine ⟨m, putsOff_one here rfl (by simpa [waits, Work.declares] using defers), ?_⟩
    split at ends
    case isTrue unknown =>
      obtain ⟨found, sets, rfl⟩ := ends_map.1 ends
      exact .sets current (by simpa using unknown) sets
    case isFalse known =>
      obtain ⟨rfl, rfl⟩ := ends_pure.1 ends
      exact .agrees current (by simpa using known) (.inl (by simp [Ty.isPending, waits]))
  case h_2 settled =>
    refine ⟨s, by simpa [settled] using PutsOff.done, ?_⟩
    split at ends
    case isTrue unknown =>
      obtain ⟨found, sets, rfl⟩ := ends_map.1 ends
      exact .sets current (by simpa using unknown) sets
    case isFalse known =>
      split at ends
      · simp at ends
      · rename_i same
        obtain ⟨rfl, rfl⟩ := ends_pure.1 ends
        exact .agrees current (by simpa using known) (.inr (Decidable.of_not_not same))

/-- A look, and what it leads to. -/
def Reviewed (id : DraftId) (scope : ScopeId) (work : Work) (s : Checker Empty σ)
    (handed : List (Deferral Empty)) (t : Checker Empty σ) : Prop :=
  ∃ types last m, Looked (s.scopes.view scope) id scope work s types last m ∧
    Answers scope s.scopes last types m handed t

theorem reviewed_judgeReturn {r : Return} {handed : Option (List (Deferral Empty))}
    (here : s.drafts[id]? = some ⟨scope, .returns r⟩)
    (ends : Ends (judgeReturn id scope r) s handed t) :
    Reviewed id scope (.returns r) s (handed.getD []) t := by
  simp only [judgeReturn, ends_bind, ends_scopes, ends_ofFault, and_assoc, exists_and_left,
    exists_eq_left] at ends
  obtain ⟨result?, current, ends⟩ := ends
  cases result? with
  | none => simp at ends
  | some result =>
    obtain ⟨type, m, looks, judges⟩ := ends_bind.1 ends
    unfold lookAtReturn at looks
    split at looks
    case h_1 bare =>
      obtain ⟨rfl, rfl⟩ := ends_pure.1 looks
      obtain ⟨m, puts, answers⟩ := answers_judgeResult current here judges
      exact ⟨_, _, m, ⟨_, _, .bare bare, rfl, putAt_self here, puts⟩, answers⟩
    case h_2 value given =>
      simp only [ends_bind, ends_view, ends_setDraft, ends_ofFault, and_assoc, exists_and_left,
        exists_eq_left] at looks
      obtain ⟨look, -, rfl⟩ := looks
      have inside := (List.getElem?_eq_some_iff.1 here).1
      obtain ⟨m, puts, answers⟩ :=
        answers_judgeResult current (List.getElem?_set_self inside) judges
      exact ⟨_, _, m, ⟨_, _, .returns given (Prod.ext look rfl), rfl, putAt_set inside, puts⟩,
        answers⟩

section Settle

variable {settle : List (Deferral Empty) → Check Empty σ Unit}

theorem reviewed_resumeDeclaration {d : Declaration} (inside : id < s.drafts.length)
    (ends : Ends (resumeDeclaration settle id scope d) s done t) :
    ∃ handed m, Reviewed id scope (.declaration d) s handed m ∧ Ends (settle handed) m done t := by
  simp only [resumeDeclaration, ends_bind, ends_view, ends_setDraft, ends_ofFault, ends_ofCause,
    List.set_set, and_assoc, exists_and_left, exists_eq_left] at ends
  obtain ⟨_, type, look, after, typed, _, _, m, defers, handed, n, updates, settled⟩ := ends
  obtain ⟨rfl, agrees⟩ := Declaration.withType_eq_ok typed
  refine ⟨handed, n, ⟨_, _, m, ⟨_, _, .declaration (Prod.ext look rfl) agrees, rfl,
    putAt_set inside, ?_⟩, .binds updates⟩, settled⟩
  exact putsOff_one (List.getElem?_set_self inside) rfl defers

/-- What a deferral does for a draft. -/
theorem reviewed_resume {name : String} (ends : Ends (resume settle id name) s done t) :
    ∃ d handed m, s.drafts[id]? = some d ∧
      Reviewed id d.scope (d.work.strike name) s (handed.getD []) m ∧
      Ends (settleHanded settle handed) m done t := by
  simp only [resume, ends_bind, ends_getDraft, and_assoc, exists_and_left] at ends
  obtain ⟨⟨scope, work⟩, here, ends⟩ := ends
  simp only [exists_eq_left] at ends
  have inside := (List.getElem?_eq_some_iff.1 here).1
  cases work with
  | declaration d =>
    obtain ⟨handed, m, reviewed, settled⟩ := reviewed_resumeDeclaration inside ends
    exact ⟨_, some handed, m, here, reviewed, settled⟩
  | assignment a names =>
    simp only [ends_bind, ends_setDraft, exists_eq_left] at ends
    obtain ⟨_, ends⟩ := ends
    obtain ⟨types, b, later, after, drafts, looks, same, put, puts⟩ :=
      looked_checkAssignment (by simpa using inside) ends
    exact ⟨_, none, t, here, ⟨types, _, t, ⟨after, drafts, looks, same,
      (putAt_set inside).trans put, puts⟩, .assignment⟩, ends_pure.2 ⟨rfl, rfl⟩⟩
  | returns r =>
    simp only [checkReturn_judge, ends_bind] at ends
    obtain ⟨handed, m, judges, settled⟩ := ends
    exact ⟨_, handed, m, here, reviewed_judgeReturn here judges, settled⟩
  | evaluation e =>
    obtain ⟨types, f, looked⟩ := looked_checkEvaluation inside ends
    exact ⟨_, none, t, here, ⟨types, _, t, looked, .evaluation⟩, ends_pure.2 ⟨rfl, rfl⟩⟩

end Settle

/-! What stays while a draft is put off. -/

/-- Only the scopes, the drafts and the journal have changed. -/
def Redraws (s t : Checker Empty σ) : Prop :=
  ∃ scopes drafts journal, t = { s with scopes, drafts, journal }

theorem PutsOff.redraws (puts : PutsOff id scope names got work s last t) : Redraws s t := by
  induction puts with
  | done => exact ⟨_, _, _, rfl⟩
  | known _ _ ih => exact ih
  | wait _ _ defers _ ih =>
    obtain ⟨_, _, _, _, -, -, rfl⟩ := exists_of_defer defers
    obtain ⟨scopes, drafts, journal, rfl⟩ := ih
    exact ⟨scopes, drafts, journal, rfl⟩

theorem PutsOff.putAt (puts : PutsOff id scope names got work s last t)
    (here : s.drafts[id]? = some ⟨scope, work⟩) : PutAt s.drafts id ⟨scope, last⟩ t.drafts := by
  induction puts with
  | done => exact putAt_self here
  | known _ _ ih => exact ih here
  | wait _ put defers _ ih =>
    obtain ⟨_, _, _, _, -, -, rfl⟩ := exists_of_defer defers
    exact put.trans (ih put.here)

theorem PutsOff.calm (puts : PutsOff id scope names got work s last t) :
    s.scopes.Calm t.scopes := by
  induction puts with
  | done => exact .refl _
  | known _ _ ih => exact ih
  | wait _ _ defers _ ih =>
    obtain ⟨_, _, _, _, -, awaits, rfl⟩ := exists_of_defer defers
    exact (Scopes.await_eq_ok awaits).calm.trans ih

theorem Looked.redraws (looked : Looked view id scope work s types last t) : Redraws s t := by
  obtain ⟨_, _, -, -, -, puts⟩ := looked
  obtain ⟨scopes, drafts, journal, rfl⟩ := puts.redraws
  exact ⟨scopes, drafts, journal, rfl⟩

theorem Looked.signatures (looked : Looked view id scope work s types last t) :
    t.signatures = s.signatures := by
  obtain ⟨_, _, _, rfl⟩ := looked.redraws
  rfl

theorem Looked.putAt (looked : Looked view id scope work s types last t) :
    PutAt s.drafts id ⟨scope, last⟩ t.drafts := by
  obtain ⟨_, _, -, -, put, puts⟩ := looked
  exact put.trans (puts.putAt put.here)

theorem Looked.calm (looked : Looked view id scope work s types last t) :
    s.scopes.Calm t.scopes := by
  obtain ⟨_, _, -, -, -, puts⟩ := looked
  exact puts.calm

theorem PutsOff.plain (puts : PutsOff id scope names got work s last t)
    (plain : work.assignment? = none) : last = work := by
  induction puts with
  | done => rfl
  | known _ _ ih => exact ih plain
  | wait _ _ _ _ ih => rw [ih (by simpa using plain), Work.awaiting_of_none plain]

theorem PutsOff.assigned (puts : PutsOff id scope names got work s last t) {a : Assignment}
    (own : work = .assignment a got) :
    ∃ later, last = .assignment a later ∧ ∀ name, name ∈ later ↔ name ∈ got ∨ name ∈ names := by
  induction puts with
  | done => exact ⟨_, own, by simp⟩
  | known already _ ih =>
    obtain ⟨later, same, each⟩ := ih own
    refine ⟨later, same, fun name => ?_⟩
    rw [each, List.mem_cons]
    constructor
    · exact Or.imp_right .inr
    · rintro (mem | rfl | mem)
      · exact .inl mem
      · exact .inl already
      · exact .inr mem
  | wait _ _ _ _ ih =>
    obtain ⟨later, same, each⟩ := ih (by rw [own]; rfl)
    exact ⟨later, same, fun name => by rw [each]; simp [or_assoc, or_left_comm]⟩

theorem Looked.looks (looked : Looked view id scope work s types last t) :
    work.LookGives view last types := by
  obtain ⟨after, drafts, looks, same, -, puts⟩ := looked
  cases plain : after.assignment? with
  | none => rwa [puts.plain plain]
  | some a =>
    cases looks with
    | assignment onTarget onValue agree =>
      obtain ⟨later, rfl, -⟩ := puts.assigned (congrArg _ same)
      exact .assignment onTarget onValue agree
    | _ => simp [Work.assignment?] at plain

end Check

end Hoist
