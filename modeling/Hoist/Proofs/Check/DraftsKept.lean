import Hoist.Proofs.Check.CheckSteps

/-!
What checking never changes. A draft goes on standing for the statement it was made of, however
often it is checked again, and so does the head of a function; a result type that is known stays.

Main statement: every step keeps all of this (`CheckStep.draftsKept`), and so does every check that is
made of steps (`MadeOfSteps.draftsKept`).
-/
namespace Hoist

/-! Names. -/

/-- The names that an expression mentions. -/
def Expr.names (value : Expr) : List String :=
  value.symbols.map (·.1)

def Target.names (target : Target) : List String :=
  target.root :: target.symbols.map (·.1)

def Assignment.names (a : Assignment) : List String :=
  a.target.names ++ a.value.names

theorem View.Fills.names_eq {view : View} {before after : List (String × Ty)}
    (fills : List.Forall₂ view.Fills before after) : after.map (·.1) = before.map (·.1) := by
  induction fills with
  | nil => rfl
  | cons head _ ih => rw [List.map_cons, List.map_cons, ih, head.1]

@[simp] theorem Expr.names_resolve (view : View) (value : Expr) :
    (value.resolve view).2.names = value.names :=
  View.Fills.names_eq (Expr.resolve_keeps view value)

@[simp] theorem Target.names_resolve (view : View) (target : Target) :
    (target.resolve view).2.names = target.names := by
  simp only [Target.names, Target.resolve_root,
    View.Fills.names_eq (Target.resolve_keeps view target)]

/-! Statements. -/

/-- The kind of a statement, and the names in it that matter for what waits for what. -/
inductive Shape
  | declares (name : String) (mentions : List String)
  | assigns (mentions : List String)
  | returns
  | evaluates

def Work.shape : Work → Shape
  | .declaration d => .declares d.name d.value.names
  | .assignment a _ => .assigns a.names
  | .returns _ => .returns
  | .evaluation _ => .evaluates

/-- The draft stands for a statement: nothing is different but what was found out, and a type that
was written is the one that is found. -/
def Work.StandsFor : Work → Leaf → Prop
  | .declaration d, .declare e => d.erase = e.erase ∧ d.written = e.written ∧
      (e.written.isConcrete = true → d.type.isPending = true ∨ d.type = e.written)
  | .assignment a _, .assign b => a.erase = b.erase
  | .returns r, .returns q => r.erase = q.erase
  | .evaluation e, .evaluate f => e.erase = f.erase
  | _, _ => False

/-- The head of a function stands for what was written. A result type that was written is also kept
by the scope of the body. -/
def SignatureDraft.StandsFor {δ : Type} (scopes : Scopes δ) (draft : SignatureDraft)
    (signature : Signature) : Prop :=
  draft.signature.erase = signature.erase ∧
    (signature.result.isConcrete = true → draft.signature.result = signature.result ∧
      scopes.result? draft.body = some signature.result)

theorem SignatureDraft.StandsFor.mono {δ : Type} {before after : Scopes δ} {draft : SignatureDraft}
    {signature : Signature} (stands : draft.StandsFor before signature)
    (results : ∀ body type, before.result? body = some type → type.isConcrete = true →
      after.result? body = some type) : draft.StandsFor after signature :=
  ⟨stands.1, fun concrete =>
    ⟨(stands.2 concrete).1, results _ _ (stands.2 concrete).2 concrete⟩⟩

/-- Whatever the one draft stands for, the other one stands for, too. -/
structure Work.Passes (before after : Work) : Prop where
  stands : ∀ leaf, before.StandsFor leaf → after.StandsFor leaf
  shape : after.shape = before.shape

theorem Work.Passes.refl (work : Work) : work.Passes work :=
  ⟨fun _ => id, rfl⟩

theorem Work.Passes.trans {a b c : Work} (first : a.Passes b) (second : b.Passes c) : a.Passes c :=
  ⟨fun leaf stands => second.stands leaf (first.stands leaf stands),
    second.shape.trans first.shape⟩

theorem Work.passes_strike (work : Work) (name : String) : work.Passes (work.strike name) := by
  refine ⟨fun leaf stands => ?_, by cases work <;> rfl⟩
  cases work with
  | assignment a awaited => cases leaf <;> exact stands
  | _ => exact stands

/-- A look changes nothing but what was found out. -/
theorem Work.LookGives.passes {work after : Work} {view : View} {types : List Ty}
    (looks : work.LookGives view after types) : work.Passes after := by
  have erased {value looked : Expr} {type : Ty} (look : value.resolve view = (.ok type, looked)) :
      looked.erase = value.erase := by
    rw [← value.erase_resolve view, look]
  refine ⟨fun leaf stands => ?_, ?_⟩
  case refine_2 =>
    have named {value looked : Expr} {type : Ty} (look : value.resolve view = (.ok type, looked)) :
        looked.names = value.names := by
      rw [← value.names_resolve view, look]
    cases looks with
    | declaration look _ => simp [shape, named look]
    | @assignment a _ _ _ _ _ _ onTarget onValue _ =>
      have sameTarget := a.target.names_resolve view
      rw [onTarget] at sameTarget
      simp [shape, Assignment.names, sameTarget, named onValue]
    | _ => rfl
  cases looks with
  | declaration look agrees =>
    cases leaf with
    | declare e =>
      obtain ⟨same, written, -⟩ := stands
      refine ⟨?_, written, fun concrete => ?_⟩
      · simpa [Declaration.erase, erased look] using same
      · rw [← written] at concrete ⊢
        exact (agrees concrete).imp_right Eq.symm
    | _ => exact stands
  | @assignment a _ _ _ _ target _ onTarget onValue _ =>
    have sameTarget : target.erase = a.target.erase := by
      rw [← a.target.erase_resolve view, onTarget]
    cases leaf with
    | assign b => simpa [StandsFor, Assignment.erase, sameTarget, erased onValue] using stands
    | _ => exact stands
  | bare => exact stands
  | returns given look =>
    cases leaf with
    | returns q => simpa [StandsFor, Return.erase, given, erased look] using stands
    | _ => exact stands
  | evaluation look =>
    cases leaf with
    | evaluate f => simpa [StandsFor, Evaluation.erase, erased look] using stands
    | _ => exact stands

namespace Scopes

variable {δ : Type} {scopes : Scopes δ} {scope body : ScopeId} {type : Ty}

theorem resultType_eq_some (found : scopes.resultType scope = .ok (some type)) :
    ∃ body, scopes.functionBody scope = .ok (some body) ∧ scopes.result? body = some type := by
  obtain ⟨body?, around, found⟩ := bind_eq_ok.1 found
  cases body? with
  | none => simp at found
  | some body =>
    obtain ⟨inner, here, found⟩ := bind_eq_ok.1 found
    refine ⟨body, around, ?_⟩
    cases role : inner.role with
    | block | loop => simp [role] at found
    | function result waiting =>
      obtain rfl : result = type := by simpa [role] using found
      simp [result?, get_eq_ok.1 here, role, Role.result?]

/-- Which function is around a scope depends on nothing but the parents and the kinds of scopes. -/
theorem functionBody_congr {after : Scopes δ} (size : after.size = scopes.size)
    (parent : ∀ id, after.parent? id = scopes.parent? id)
    (kind : ∀ id, after.kind? id = scopes.kind? id) (id : ScopeId) :
    after.functionBody id = scopes.functionBody id := by
  rw [functionBody, functionBody, nearest, nearest, size]
  generalize scopes.size + 1 = fuel
  induction fuel generalizing id with
  | zero => rfl
  | succ fuel ih =>
    have sameParent := parent id
    have sameKind := kind id
    simp only [parent?, kind?] at sameParent sameKind
    cases here : scopes.all[id]? with
    | none =>
      have gone : after.all[id]? = none := by simpa [here] using sameParent
      simp [climb, get, here, gone, bind, Except.bind]
    | some scope =>
      obtain ⟨later, there, isParent⟩ := Option.map_eq_some_iff.1 (sameParent.trans (by rw [here]; rfl))
      obtain isKind : later.role.kind = scope.role.kind := by simpa [here, there] using sameKind
      have isFunction : later.isFunction = scope.isFunction := by
        cases first : later.role <;> cases second : scope.role <;>
          simp_all [Scope.isFunction, Role.kind]
      simp [climb, get_eq_ok.2 here, get_eq_ok.2 there, isFunction, isParent, ih, bind, Except.bind]

/-- The body of a function is around itself. -/
theorem functionBody_of_result? (kept : scopes.result? body = some type) :
    scopes.functionBody body = .ok (some body) := by
  obtain ⟨inner, here, kept⟩ := Option.bind_eq_some_iff.1 kept
  have isFunction : inner.isFunction = true := by
    cases role : inner.role <;> simp_all [Role.result?, Scope.isFunction]
  simp [functionBody, nearest, climb, get_eq_ok.2 here, isFunction, bind, Except.bind, pure,
    Except.pure]

theorem resultType_of_result? (kept : scopes.result? body = some type) :
    scopes.resultType body = .ok (some type) := by
  obtain ⟨inner, here, role⟩ := Option.bind_eq_some_iff.1 kept
  cases isRole : inner.role with
  | block | loop => simp [isRole, Role.result?] at role
  | function result waiting =>
    obtain rfl : result = type := by simpa [isRole, Role.result?] using role
    simp [resultType, functionBody_of_result? kept, get_eq_ok.2 here, isRole, bind, Except.bind,
      pure, Except.pure]

end Scopes

namespace Check

variable {σ : Type} {s t m : Checker Empty σ}

/-- Drafts and heads stay and stand for what they stood for, and known result types stay. -/
structure DraftsKept (s t : Checker Empty σ) : Prop where
  drafts : ∀ (id : DraftId) d, s.drafts[id]? = some d →
    ∃ e, t.drafts[id]? = some e ∧ e.scope = d.scope ∧ d.work.Passes e.work
  heads : ∀ (id : SignatureId) h, s.signatures[id]? = some h →
    ∃ g, t.signatures[id]? = some g ∧
      ∀ signature, h.StandsFor s.scopes signature → g.StandsFor t.scopes signature
  results : ∀ body type, s.scopes.result? body = some type → type.isConcrete = true →
    t.scopes.result? body = some type

theorem DraftsKept.trans (first : DraftsKept s m) (second : DraftsKept m t) : DraftsKept s t where
  drafts id d found := by
    obtain ⟨e, found, here, passes⟩ := first.drafts id d found
    obtain ⟨f, found, there, again⟩ := second.drafts id e found
    exact ⟨f, found, there.trans here, passes.trans again⟩
  heads id h found := by
    obtain ⟨g, found, stands⟩ := first.heads id h found
    obtain ⟨k, found, again⟩ := second.heads id g found
    exact ⟨k, found, fun signature before => again signature (stands signature before)⟩
  results body type found concrete :=
    second.results body type (first.results body type found concrete) concrete

theorem DraftsKept.of_same (drafts : t.drafts = s.drafts) (signatures : t.signatures = s.signatures)
    (results : ∀ body type, s.scopes.result? body = some type → type.isConcrete = true →
      t.scopes.result? body = some type) : DraftsKept s t where
  drafts _ d found := ⟨d, drafts ▸ found, rfl, .refl _⟩
  heads _ h found := ⟨h, signatures ▸ found, fun _ stands => stands.mono results⟩
  results := results

theorem DraftsKept.of_scopes (drafts : t.drafts = s.drafts) (signatures : t.signatures = s.signatures)
    (results : ∀ body, t.scopes.result? body = s.scopes.result? body) : DraftsKept s t :=
  .of_same drafts signatures fun body _ found _ => (results body).trans found

theorem DraftsKept.refl (s : Checker Empty σ) : DraftsKept s s :=
  .of_scopes rfl rfl fun _ => rfl

/-- The queue, the budget, the store and the journal do not matter. -/
theorem DraftsKept.since (keeps : DraftsKept m t) (drafts : m.drafts = s.drafts)
    (signatures : m.signatures = s.signatures) (scopes : m.scopes = s.scopes) : DraftsKept s t :=
  (DraftsKept.of_scopes drafts signatures fun _ => by rw [scopes]).trans keeps

theorem DraftsKept.until (keeps : DraftsKept s m) (drafts : t.drafts = m.drafts)
    (signatures : t.signatures = m.signatures) (scopes : t.scopes = m.scopes) : DraftsKept s t :=
  keeps.trans (.of_scopes drafts signatures fun _ => by rw [scopes])

theorem DraftsKept.of_drafts {id : DraftId} {draft : Draft} (put : PutAt s.drafts id draft t.drafts)
    (signatures : t.signatures = s.signatures)
    (results : ∀ body, t.scopes.result? body = s.scopes.result? body)
    (old : ∀ d, s.drafts[id]? = some d → draft.scope = d.scope ∧ d.work.Passes draft.work) :
    DraftsKept s t where
  drafts other d found := by
    rw [put other]
    split
    case isTrue same => exact ⟨draft, rfl, old d (same ▸ found)⟩
    case isFalse => exact ⟨d, found, rfl, .refl _⟩
  heads _ h found := ⟨h, signatures ▸ found, fun _ stands => stands.mono fun body _ kept _ =>
    (results body).trans kept⟩
  results body _ kept _ := (results body).trans kept

/-! The steps. -/

variable {scope : ScopeId} {id : DraftId} {handed : List (Deferral Empty)} {work : Work}

/-- A result type is only set while it is not known. -/
theorem keeps_setResult {before : Scopes (Deferral Empty)} {result type : Ty} {position : Position}
    (found : before.resultType scope = .ok (some result)) (unknown : result.isConcrete = false)
    (calm : before.Calm m.scopes) (ends : Ends (setResult scope type position) m handed t) :
    DraftsKept m t := by
  obtain ⟨changed, sets, rfl⟩ := ends_setResult.1 ends
  obtain ⟨body, around, -, -, changed⟩ := Scopes.setResult_eq_ok sets
  obtain ⟨other, again, kept⟩ := Scopes.resultType_eq_some found
  obtain rfl : body = other := by
    rw [Scopes.functionBody_congr calm.size calm.parent calm.kind, again] at around
    simpa using around.symm
  refine .of_same rfl rfl fun other type before concrete => ?_
  rw [changed.result]
  split
  case isTrue isBody =>
    rw [isBody, calm.result, kept, Option.some.injEq] at before
    simp [← before, unknown] at concrete
  case isFalse => exact before

theorem Answers.draftsKept {before : Scopes (Deferral Empty)} {types : List Ty}
    (answers : Answers scope before work types m handed t) (calm : before.Calm m.scopes) :
    DraftsKept m t := by
  cases answers with
  | assignment | evaluation | agrees => exact .refl _
  | binds ends =>
    obtain ⟨_, updates, rfl⟩ := ends_update.1 ends
    exact .of_scopes rfl rfl (Scopes.update_eq_ok updates).2.result
  | sets found unknown ends => exact keeps_setResult found unknown calm ends

theorem Reviewed.draftsKept (reviewed : Reviewed id scope work s handed t)
    (old : ∀ d, s.drafts[id]? = some d → scope = d.scope ∧ d.work.Passes work) : DraftsKept s t := by
  obtain ⟨types, last, m, looked, answers⟩ := reviewed
  have first : DraftsKept s m := by
    obtain ⟨_, _, _, same⟩ := looked.redraws
    exact .of_drafts looked.putAt (congrArg (·.signatures) same) looked.calm.result
      fun d found => (old d found).imp_right fun passes => passes.trans looked.looks.passes
  exact first.trans (answers.draftsKept looked.calm)

theorem Headed.draftsKept {k : SignatureId} {h : SignatureDraft} (headed : Headed k h s t)
    (stands : ∀ g, s.signatures[k]? = some g → ∀ signature, g.StandsFor s.scopes signature →
      h.StandsFor s.scopes signature) : DraftsKept s t := by
  obtain ⟨signatures, scopes, put, rfl, waits⟩ := headed
  have results (body : ScopeId) : scopes.result? body = s.scopes.result? body := by
    split at waits
    · obtain ⟨place, result, -, kept, changed⟩ := Scopes.awaitResult_eq_ok waits
      rw [changed.result]
      split
      case isTrue same => rw [same, kept]
      case isFalse => rfl
    · rw [waits]
  refine ⟨fun _ d found => ⟨d, found, rfl, .refl _⟩, fun other g found => ?_,
    fun body _ kept _ => (results body).trans kept⟩
  have later {draft : SignatureDraft} {signature : Signature}
      (before : draft.StandsFor s.scopes signature) : draft.StandsFor scopes signature :=
    before.mono fun body _ kept _ => (results body).trans kept
  simp only [put other]
  split
  case isTrue same => exact ⟨h, rfl, fun _ before => later (stands g (same ▸ found) _ before)⟩
  case isFalse => exact ⟨g, found, fun _ => later⟩

/-- A head whose result type is looked up again stands for what it stood for. -/
theorem Headed.keeps_again {k : SignatureId} {h : SignatureDraft} {result? : Option Ty}
    {queue : List (Deferral Empty)} (here : s.signatures[k]? = some h)
    (found : s.scopes.resultType h.body = .ok result?)
    (headed : Headed k { h with signature := { h.signature with result := result?.getD .void } }
      { s with queue } t) : DraftsKept s t := by
  refine (headed.draftsKept fun g there signature stands => ?_).since rfl rfl rfl
  obtain rfl : h = g := Option.some.inj (here.symm.trans there)
  refine ⟨stands.1, fun concrete => ?_⟩
  have kept := (stands.2 concrete).2
  obtain rfl : result? = some signature.result := by
    simpa using found.symm.trans (Scopes.resultType_of_result? kept)
  exact ⟨rfl, kept⟩

theorem QueueStep.draftsKept (queueStep : QueueStep s t) : DraftsKept s t := by
  cases queueStep with
  | resume _ _ here reviewed =>
    have kept := reviewed.draftsKept fun d there => by
      obtain rfl := Option.some.inj (here.symm.trans there)
      exact ⟨rfl, Work.passes_strike _ _⟩
    exact ⟨kept.drafts, kept.heads, kept.results⟩
  | postpone _ _ here found _ headed => exact headed.keeps_again here found
  | conclude _ _ here found _ headed updates =>
    exact (headed.keeps_again here found).trans
      (.of_scopes rfl rfl (Scopes.update_eq_ok updates).2.result)

theorem QueueSteps.draftsKept (queueSteps : QueueSteps s t) : DraftsKept s t := by
  induction queueSteps with
  | refl => exact .refl s
  | tail _ queueStep ih =>
    rcases queueStep with queueStep | ⟨_, _, _, rfl⟩
    · exact ih.trans queueStep.draftsKept
    · exact ih.until rfl rfl rfl

theorem draftsKept_runWave {client : Empty → Check Empty σ Unit} {done : Unit}
    (ends : Ends (runWave client handed) s done t) : DraftsKept s t :=
  ((continues_runWave client handed s).of_ends ends).draftsKept.since rfl rfl rfl

variable {setting : Setting σ}

theorem CheckStep.draftsKept (checkStep : CheckStep setting s t) : DraftsKept s t := by
  have fresh {d : Draft} {P : Prop} (found : s.drafts[s.drafts.length]? = some d) : P := by
    simp at found
  cases checkStep with
  | idle => exact .of_scopes rfl rfl fun _ => rfl
  | create _ _ =>
    refine .of_same rfl rfl fun body type found _ => ?_
    obtain ⟨_, here, _⟩ := Option.bind_eq_some_iff.1 found
    exact ((s.scopes.created_create _ _).result body
      (Nat.ne_of_lt (Scopes.lt_size_of_get here))).trans found
  | define done => exact .of_scopes rfl rfl (Scopes.define_eq_ok done).2.result
  | declare _ _ _ _ _ looked =>
    obtain ⟨_, _, _, same⟩ := looked.redraws
    exact .of_drafts looked.putAt (congrArg (·.signatures) same) looked.calm.result fun _ => fresh
  | reach _ _ _ reviewed => exact (reviewed.draftsKept fun _ => fresh).until rfl rfl rfl
  | head _ _ _ headed done =>
    refine (headed.draftsKept fun g found => ?_).trans
      (.of_scopes rfl rfl (Scopes.define_eq_ok done).2.result)
    simp at found
  | queueStep queueStep => exact queueStep.draftsKept

theorem CheckSteps.draftsKept (checkSteps : CheckSteps setting s t) : DraftsKept s t := by
  induction checkSteps with
  | refl => exact .refl s
  | tail _ checkStep ih => exact ih.trans checkStep.draftsKept

theorem MadeOfSteps.draftsKept {α : Type} {step : Check Empty σ α} {scope : ScopeId} {value : α}
    (madeOfSteps : MadeOfSteps (.loose σ) scope step) (ends : Ends step s value t) : DraftsKept s t :=
  ((madeOfSteps s trivial).of_ends ends).draftsKept

end Check

end Hoist
