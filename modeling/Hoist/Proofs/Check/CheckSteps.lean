import Hoist.Proofs.Check.QueueSteps
import Hoist.Proofs.Typing.Erase

/-!
Runs as sequences of steps. Whatever a checker does between two payments is one of a few steps: a scope
is made, a name is bound, a statement or a function head is looked at for the first time, or a deferral
of the queue is performed. Work that is handed back goes to the end of the queue at once.

Main statement: the statements of a block are checked by such steps only, whether the check ends well
or stops for want of a budget, and some budget is large enough if waves come to an end
(`madeOfSteps_checkBlock`). So what every step preserves holds between any two steps of a run
(`CheckSteps.keep`).
-/
namespace Hoist

/-- What is written about types is a type or nothing. -/
def Plainly (annotations : List Ty) : Prop :=
  ∀ type ∈ annotations, type = .unannotated ∨ type.isConcrete = true

/-- Nothing stands in the slots of a statement. -/
def Work.Fresh (work : Work) : Prop :=
  (∀ value ∈ work.value?, value.isFresh = true) ∧ ∀ a ∈ work.assignment?, a.target.isFresh = true

theorem Work.Fresh.faithful {work : Work} (fresh : work.Fresh) : work.Faithful :=
  ⟨fun value mem => Expr.faithful_of_isFresh (fresh.1 value mem),
    fun a mem => Target.faithful_of_isFresh (fresh.2 a mem)⟩

/-- The statements inside of a statement. -/
def Stmt.body : Stmt → List Stmt
  | .leaf _ => []
  | .branch _ body _ | .elseIf _ body _ | .otherwise body _ | .loop _ body _
  | .function _ body => body

def Halt.IsRefusal (halt : Halt) : Prop :=
  ∃ diagnostic, halt = .rejected diagnostic

/-- Whatever is asked of the importer, it gives a type or refuses. -/
def Importer.Prompt {σ : Type} (importer : Importer σ) : Prop :=
  ∀ name source position store,
    Fails Halt.IsRefusal (importer.typeOf name source position store).1

/-- What is taken for granted of a text, and of the states in which a statement of a scope is
reached. -/
structure Setting (σ : Type) where
  fresh : Prop
  plain : Prop
  /-- Waves come to an end. -/
  finite : Prop := False
  declared : Declaration → Prop := fun _ => True
  fit : ScopeId → Checker Empty σ → Prop

namespace Setting

/-- Any text in any state. -/
def loose (σ : Type) : Setting σ where
  fresh := False
  plain := False
  fit _ _ := True

/-- A tame text in any state. -/
def tame (σ : Type) : Setting σ where
  fresh := True
  plain := True
  fit _ _ := True

variable {σ : Type} {setting : Setting σ} {importer : Importer σ} {program rest : List Stmt}
  {stmt : Stmt}

/-- All that is taken for granted is true of the text. -/
structure Suits (setting : Setting σ) (importer : Importer σ) (program : List Stmt) : Prop where
  fresh : setting.fresh → Stmt.areFresh program = true
  plain : setting.plain → Plainly (Stmt.allAnnotations program)
  declared : ∀ d, .declare d ∈ Stmt.allLeaves program → setting.declared d
  prompt : setting.finite → importer.Prompt

theorem suits_loose : (loose σ).Suits importer program :=
  ⟨False.elim, False.elim, fun _ _ => trivial, False.elim⟩

theorem Suits.head (suits : setting.Suits importer (stmt :: rest)) :
    setting.Suits importer [stmt] where
  fresh own := by simpa [Stmt.areFresh] using (Bool.and_eq_true _ _ ▸ suits.fresh own).1
  plain own type mem := suits.plain own type
    (List.mem_append_left _ (by simpa [Stmt.allAnnotations] using mem))
  declared d mem := suits.declared d (List.mem_append_left _ (by simpa [Stmt.allLeaves] using mem))
  prompt := suits.prompt

theorem Suits.tail (suits : setting.Suits importer (stmt :: rest)) :
    setting.Suits importer rest where
  fresh own := (Bool.and_eq_true _ _ ▸ suits.fresh own).2
  plain own type mem := suits.plain own type (List.mem_append_right _ mem)
  declared d mem := suits.declared d (List.mem_append_right _ mem)
  prompt := suits.prompt

theorem Suits.inside (suits : setting.Suits importer [stmt]) :
    setting.Suits importer stmt.body where
  fresh own := by
    have fresh := suits.fresh own
    cases stmt <;> simp_all [Stmt.areFresh, Stmt.isFresh, Stmt.body]
  plain own type mem := by
    refine suits.plain own type ?_
    cases stmt <;> simp_all [Stmt.allAnnotations, Stmt.annotations, Stmt.body]
  declared d mem := by
    refine suits.declared d ?_
    cases stmt <;> simp_all [Stmt.allLeaves, Stmt.leaves, Stmt.body]
  prompt := suits.prompt

end Setting

namespace Check

variable {σ α β : Type} {s t m : Checker Empty σ} {setting : Setting σ} {scope : ScopeId}

/-- What a checker does at a time. -/
inductive CheckStep (setting : Setting σ) : Checker Empty σ → Checker Empty σ → Prop
  | idle (s : Checker Empty σ) (firing : Bool) (budget : Nat) (store : σ) (journal : List Note) :
      CheckStep setting s { s with firing, budget, store, journal }
  | create {s : Checker Empty σ} {parent : ScopeId} {kind : ScopeKind} : setting.fit parent s →
      (setting.plain → ∀ result, kind = .function result →
        result = .unannotated ∨ result.isConcrete = true) →
      CheckStep setting s { s with scopes := s.scopes.create (some parent) kind }
  | define {s : Checker Empty σ} {scope : ScopeId} {binding : Binding}
      {handed : List (Deferral Empty)} {scopes : Scopes (Deferral Empty)} :
      s.scopes.define scope binding = .ok (handed, scopes) →
      CheckStep setting s { s with scopes, queue := s.queue ++ handed }
  /-- A declaration is kept whose name has been bound since it was looked at. -/
  | declare {origin s t : Checker Empty σ} {scope : ScopeId} {d e : Declaration} {types : List Ty}
      {handed : List (Deferral Empty)} {scopes : Scopes (Deferral Empty)} :
      (setting.fresh → d.value.isFresh = true) → setting.declared d → setting.fit scope origin →
      origin.scopes.define scope e.binding = .ok (handed, scopes) →
      QueueSteps { origin with scopes, queue := origin.queue ++ handed } s →
      Looked (origin.scopes.view scope) s.drafts.length scope (.declaration d) s types
        (.declaration e) t → CheckStep setting s t
  /-- A statement other than a declaration is reached. -/
  | reach {s t : Checker Empty σ} {scope : ScopeId} {work : Work}
      {handed : List (Deferral Empty)} : (setting.fresh → work.Fresh) → work.declares = none →
      work.awaited = [] → Reviewed s.drafts.length scope work s handed t →
      CheckStep setting s { t with queue := t.queue ++ handed }
  /-- The head of a function is kept and its name is bound. -/
  | head {s m : Checker Empty σ} {scope inner : ScopeId} {signature : Signature}
      {result? : Option Ty} {handed : List (Deferral Empty)} {scopes : Scopes (Deferral Empty)} :
      Ty.areConcrete signature.parameters = true → s.scopes.resultType inner = .ok result? →
      signature.result = (result?.map resultOf).getD .void →
      Headed s.signatures.length ⟨scope, inner, signature⟩ s m →
      m.scopes.define scope signature.binding = .ok (handed, scopes) →
      CheckStep setting s { m with scopes, queue := m.queue ++ handed }
  | queueStep {s t : Checker Empty σ} : QueueStep s t → CheckStep setting s t

def CheckSteps (setting : Setting σ) : Checker Empty σ → Checker Empty σ → Prop :=
  Relation.ReflTransGen (CheckStep setting)

theorem CheckStep.checkSteps (checkStep : CheckStep setting s t) : CheckSteps setting s t :=
  .single checkStep

theorem CheckSteps.then (checkSteps : CheckSteps setting s m) (checkStep : CheckStep setting m t) :
    CheckSteps setting s t :=
  .tail checkSteps checkStep

/-- What every step preserves. -/
theorem CheckSteps.keep {P : Checker Empty σ → Prop}
    (step : ∀ {s t}, CheckStep setting s t → P s → P t)
    (checkSteps : CheckSteps setting s t) (start : P s) : P t := by
  induction checkSteps with
  | refl => exact start
  | tail _ checkStep ih => exact step checkStep ih

theorem CheckSteps.idle (checkSteps : CheckSteps setting s t) (firing : Bool) (budget : Nat)
    (store : σ) (journal : List Note) : CheckSteps setting s { t with firing, budget, store, journal } :=
  checkSteps.then (.idle t firing budget store journal)

theorem QueueSteps.checkSteps (queueSteps : QueueSteps s t) : CheckSteps setting s t := by
  induction queueSteps with
  | refl => exact .refl
  | tail _ queueStep checkSteps =>
    rcases queueStep with queueStep | ⟨_, _, _, rfl⟩
    · exact checkSteps.then (.queueStep queueStep)
    · exact checkSteps.idle _ _ _ _

instance : Course (CheckSteps setting) where
  trans := .trans
  funded s budget := CheckSteps.idle .refl s.firing budget s.store s.journal

/-- What is taken for granted stays so, in each scope and in those that are made inside. -/
class Closed (setting : Setting σ) : Prop where
  checkStep {scope : ScopeId} {s t : Checker Empty σ} : CheckStep setting s t → setting.fit scope s →
    setting.fit scope t
  inside {scope : ScopeId} {s : Checker Empty σ} (kind : ScopeKind) : setting.fit scope s →
    setting.fit s.scopes.size { s with scopes := s.scopes.create (some scope) kind }
  abates {scope : ScopeId} {s : Checker Empty σ} : setting.finite → setting.fit scope s → Abates s

instance : Closed (.loose σ) :=
  ⟨fun _ _ => trivial, fun _ _ => trivial, False.elim⟩

instance : Closed (.tame σ) :=
  ⟨fun _ _ => trivial, fun _ _ => trivial, False.elim⟩

variable [Closed setting]

theorem CheckSteps.fit (checkSteps : CheckSteps setting s t) (fit : setting.fit scope s) :
    setting.fit scope t :=
  checkSteps.keep (P := setting.fit scope) Closed.checkStep fit

/-! Steps. -/

/-- The check is made of steps, if it ends well or stops for want of a budget. -/
def MadeOfSteps (setting : Setting σ) (scope : ScopeId) (step : Check Empty σ α) : Prop :=
  ∀ s, setting.fit scope s → Continues setting.finite (CheckSteps setting) step s s

theorem MadeOfSteps.bind {first : Check Empty σ α} {next : α → Check Empty σ β}
    (isFirst : MadeOfSteps setting scope first)
    (isNext : ∀ value, MadeOfSteps setting scope (next value)) :
    MadeOfSteps setting scope (first >>= next) := fun s fit =>
  (isFirst s fit).bind fun _ value m _ checkSteps => isNext value m (checkSteps.fit fit)

omit [Closed setting] in
theorem madeOfSteps_pure (value : α) : MadeOfSteps setting scope (pure value : Check Empty σ α) :=
  fun _ _ => continues_pure value .refl

omit [Closed setting] in
theorem madeOfSteps_throw {halt : Halt} (clear : halt ≠ .exhausted) :
    MadeOfSteps setting scope (throw halt : Check Empty σ α) :=
  fun _ _ => continues_throw .refl clear

omit [Closed setting] in
theorem Unmetered.madeOfSteps {step : Check Empty σ α} (unmetered : Unmetered step)
    (ends : ∀ {s value t}, Ends step s value t → CheckSteps setting s t) :
    MadeOfSteps setting scope step :=
  fun _ _ => unmetered.continues_end fun _ _ => ends

omit [Closed setting] in
/-- A step that leaves the state as it is, and costs nothing. -/
theorem Unmetered.madeOfSteps_of_same {step : Check Empty σ α} (unmetered : Unmetered step)
    (same : ∀ {s value t}, Ends step s value t → t = s) : MadeOfSteps setting scope step :=
  unmetered.madeOfSteps fun ends => same ends ▸ .refl

omit [Closed setting] in
theorem madeOfSteps_ofCause (position : Position) (outcome : Except Cause α) :
    MadeOfSteps setting scope (ofCause position outcome : Check Empty σ α) := by
  cases outcome with
  | ok value => exact madeOfSteps_pure value
  | error cause => exact madeOfSteps_throw (by simp)

/-- A scope is made, and something is done in it first. -/
theorem madeOfSteps_inside {kind : ScopeKind} {body : ScopeId → Check Empty σ α}
    {next : ScopeId → α → Check Empty σ β}
    (plain : setting.plain → ∀ result, kind = .function result →
      result = .unannotated ∨ result.isConcrete = true)
    (inside : ∀ inner, MadeOfSteps setting inner (body inner))
    (isNext : ∀ inner value, MadeOfSteps setting scope (next inner value)) :
    MadeOfSteps setting scope (do
      let inner ← createScope (some scope) kind
      let value ← body inner
      next inner value) := by
  refine fun s fit => (unmetered_createScope _ _).continues fun inner m creates => ?_
  obtain ⟨rfl, rfl⟩ := ends_createScope.1 creates
  have made (journal : List Note) : CheckSteps setting s
      { s with scopes := s.scopes.create (some scope) kind, journal } :=
    (CheckStep.checkSteps (.create fit plain)).idle _ _ _ _
  have within (journal : List Note) : setting.fit s.scopes.size
      { s with scopes := s.scopes.create (some scope) kind, journal } :=
    Closed.checkStep (.idle _ s.firing s.budget s.store journal) (Closed.inside kind fit)
  exact ((inside _ _ (within _)).bind fun _ value n _ checkSteps =>
    isNext _ value n (checkSteps.fit ((made _).fit fit))).mono id (made _).trans id

/-! Deferrals. -/

section Waves

variable {client : Empty → Check Empty σ Unit} {handed : List (Deferral Empty)}

theorem continues_settled (fit : setting.fit scope s)
    (checkSteps : CheckSteps setting s { m with queue := m.queue ++ handed }) :
    Continues setting.finite (CheckSteps setting) (runWave client handed) m s :=
  (continues_runWave client handed m).mono QueueSteps.checkSteps
    (fun queueSteps => checkSteps.trans queueSteps.checkSteps)
    fun own => Closed.abates own (checkSteps.fit fit)

theorem continues_settleHanded {handed : Option (List (Deferral Empty))} (fit : setting.fit scope s)
    (checkSteps : CheckSteps setting s { m with queue := m.queue ++ handed.getD [] }) :
    Continues setting.finite (CheckSteps setting) (settleHanded (runWave client) handed) m s := by
  cases handed with
  | none => exact continues_pure () (by simpa using checkSteps)
  | some handed => exact continues_settled fit checkSteps

omit [Closed setting] in
theorem checkSteps_define {binding : Binding} {position : Position}
    (ends : Ends (define scope binding position) s handed t) :
    CheckSteps setting s { t with queue := t.queue ++ handed } := by
  obtain ⟨_, changes, rfl⟩ := ends_define.1 ends
  exact (CheckStep.checkSteps (.define changes)).idle _ _ _ _

/-- A name is bound, and what waited for it is settled. -/
theorem madeOfSteps_define (place : ScopeId) (binding : Binding) (position : Position) :
    MadeOfSteps setting scope (define place binding position >>= runWave client) := fun _ fit =>
  (small_define place position binding).toUnmetered.continues fun _ _ ends =>
    continues_settled fit (checkSteps_define ends)

end Waves

/-! Simple statements. -/

section Leaves

variable {options : Options} {importer : Importer σ} {client : Empty → Check Empty σ Unit}

/-- A statement other than a declaration is kept, checked and settled. -/
theorem madeOfSteps_added {work : Work}
    {check : DraftId → Check Empty σ (Option (List (Deferral Empty)))}
    (fresh : setting.fresh → work.Fresh) (idle : work.declares = none) (first : work.awaited = [])
    (unmetered : ∀ id, Unmetered (check id))
    (reviews : ∀ {id s handed t}, s.drafts[id]? = some ⟨scope, work⟩ →
      Ends (check id) s handed t → Reviewed id scope work s (handed.getD []) t) :
    MadeOfSteps setting scope (do
      let id ← addDraft scope work
      check id >>= settleHanded (runWave client)
      return OutlineLeaf.draft id) := by
  refine fun s fit => (unmetered_addDraft scope work).continues fun id m adds => ?_
  rw [bind_assoc]
  refine (unmetered id).continues fun handed n checks => ?_
  have checkSteps : CheckSteps setting s { n with queue := n.queue ++ handed.getD [] } := by
    have reviewed := reviews (drafts_addDraft adds) checks
    obtain ⟨rfl, rfl⟩ := ends_addDraft.1 adds
    obtain ⟨types, last, o, ⟨after, drafts, looks, same, put, puts⟩, answers⟩ := reviewed
    exact CheckStep.checkSteps (.reach fresh idle first ⟨types, last, o,
      ⟨after, drafts, looks, same, (putAt_append s.drafts _).trans put, puts⟩, answers⟩)
  exact (continues_settleHanded fit checkSteps).bind fun _ _ _ _ _ => continues_pure _ .refl

/-- The same for a check that hands nothing back. -/
theorem madeOfSteps_kept {work : Work} {check : DraftId → Check Empty σ Unit}
    (fresh : setting.fresh → work.Fresh) (idle : work.declares = none) (first : work.awaited = [])
    (unmetered : ∀ id, Unmetered (check id))
    (reviews : ∀ {id s done t}, s.drafts[id]? = some ⟨scope, work⟩ →
      Ends (check id) s done t → Reviewed id scope work s [] t) :
    MadeOfSteps setting scope (do
      let id ← addDraft scope work
      check id
      return OutlineLeaf.draft id) := by
  have kept : MadeOfSteps setting scope (do
      let id ← addDraft scope work
      (do check id; return none) >>= settleHanded (runWave fun task => task.elim)
      return OutlineLeaf.draft id) := by
    refine madeOfSteps_added fresh idle first
      (fun id => (unmetered id).bind fun _ => (small_pure none).toUnmetered) fun here ends => ?_
    simp only [ends_bind, ends_pure] at ends
    obtain ⟨_, _, ends, rfl, rfl⟩ := ends
    exact reviews here ends
  simpa only [bind_assoc, pure_bind, settleHanded] using kept

theorem madeOfSteps_bindDeclaration {d : Declaration} (fresh : setting.fresh → d.value.isFresh = true)
    (declared : setting.declared d) :
    MadeOfSteps setting scope (bindDeclaration (runWave client) scope d) := by
  refine fun s fit => (small_view scope).toUnmetered.continues fun view s views => ?_
  obtain ⟨rfl, rfl⟩ := ends_view.1 views
  refine small_ofFault.toUnmetered.continues fun type s looks => ?_
  obtain ⟨look, rfl⟩ := ends_ofFault.1 looks
  refine small_ofCause.toUnmetered.continues fun after s types => ?_
  obtain ⟨typed, rfl⟩ := ends_ofCause.1 types
  obtain ⟨rfl, agrees⟩ := Declaration.withType_eq_ok typed
  refine (small_define scope _ _).toUnmetered.continues fun handed m defines => ?_
  refine (continues_settled fit (checkSteps_define defines)).bind fun budget _ n settled _ => ?_
  obtain ⟨scopes, changes, rfl⟩ := ends_define.1 defines
  refine (unmetered_addDraft scope _).continues fun id o adds => ?_
  obtain ⟨rfl, rfl⟩ := ends_addDraft.1 adds
  refine (small_deferDeclaration scope _ _ type).toUnmetered.continues fun _ t defers => ?_
  have queueSteps : QueueSteps { s with scopes, queue := s.queue ++ handed } n :=
    (QueueSteps.idle .refl _ _ _).trans ((continues_runWave client handed _).of_ends settled)
  exact continues_pure _ (CheckStep.checkSteps (.declare fresh declared fit changes queueSteps
    (looked_declare (Prod.ext look rfl) agrees defers)))

omit [Closed setting] in
theorem madeOfSteps_importType (prompt : setting.finite → importer.Prompt) (name source : String)
    (position : Position) :
    MadeOfSteps setting scope (importType (Env.plain options importer) name source position) := by
  intro s _
  rcases answer : importer.typeOf name source position s.store with ⟨halt | type, store, notes⟩
  · have clear (own : setting.finite) : (.error halt : Except Halt Ty) ≠ .error .exhausted := by
      obtain ⟨diagnostic, rfl⟩ := prompt own name source position s.store halt (by rw [answer])
      simp
    have even (budget : Nat) : (importType (Env.plain options importer) name source position).run
        (s.funded budget) = (.error halt, Checker.funded
          { s with store, journal := notes ++ s.journal } budget) := by
      simp only [importType, Env.plain, run_bind, run_get, Checker.funded, answer, run_set, run_throw]
    exact continues_of_even even (CheckSteps.idle .refl _ _ _ _) clear
  · have even (budget : Nat) : (importType (Env.plain options importer) name source position).run
        (s.funded budget) = (.ok type, Checker.funded
          { s with store, journal := notes ++ s.journal } budget) := by
      simp only [importType, Env.plain, run_bind, run_get, Checker.funded, answer, run_set, run_pure]
    exact continues_of_even even (CheckSteps.idle .refl _ _ _ _) fun _ => by simp

theorem madeOfSteps_importNames (prompt : setting.finite → importer.Prompt) (source : String)
    (position : Position) (names : List String) :
    MadeOfSteps setting scope
      (importNames (Env.plain options importer) scope source position names) := by
  induction names with
  | nil => exact madeOfSteps_pure _
  | cons name rest ih =>
    refine (madeOfSteps_importType prompt name source position).bind fun type =>
      (madeOfSteps_ofCause position _).bind fun imported => ?_
    rw [← bind_assoc]
    exact (madeOfSteps_define scope _ position).bind fun _ => ih.bind fun _ => madeOfSteps_pure _

theorem madeOfSteps_checkLeaf {content : Leaf} (suits : setting.Suits importer [.leaf content]) :
    MadeOfSteps setting scope (checkLeaf (Env.plain options importer) scope content) := by
  have fresh (own : setting.fresh) : content.isFresh = true := by
    simpa [Stmt.areFresh, Stmt.isFresh] using suits.fresh own
  cases content with
  | declare d =>
    rw [checkLeaf, checkDeclaration_eq]
    refine (MadeOfSteps.bind ?_ fun _ => madeOfSteps_bindDeclaration fresh
      (suits.declared d (by simp [Stmt.allLeaves, Stmt.leaves]))).bind fun _ => madeOfSteps_pure _
    exact (small_checkExport scope d).toUnmetered.madeOfSteps_of_same ends_checkExport
  | assign a =>
    refine madeOfSteps_kept (fun own => ?_) rfl rfl
      (fun id => (small_checkAssignment scope id a []).toUnmetered) fun here ends => ?_
    · have both := fresh own
      simp only [Leaf.isFresh, Bool.and_eq_true] at both
      exact ⟨by rintro _ ⟨rfl⟩; exact both.2, by rintro _ ⟨rfl⟩; exact both.1⟩
    · obtain ⟨types, b, later, looked⟩ :=
        looked_checkAssignment (List.getElem?_eq_some_iff.1 here).1 ends
      exact ⟨types, _, _, looked, .assignment⟩
  | returns r =>
    simp only [checkLeaf, checkReturn_judge]
    refine madeOfSteps_added (fun own => ⟨fun value given => ?_, by rintro _ ⟨⟩⟩) rfl rfl
      (fun id => (small_judgeReturn scope id r).toUnmetered) reviewed_judgeReturn
    have given : r.value = some value := given
    simpa [Leaf.isFresh, given] using fresh own
  | evaluate e =>
    refine madeOfSteps_kept (fun own => ⟨by rintro _ ⟨rfl⟩; exact fresh own, by rintro _ ⟨⟩⟩) rfl rfl
      (fun id => (small_checkEvaluation scope id e).toUnmetered) fun here ends => ?_
    obtain ⟨types, f, looked⟩ :=
      looked_checkEvaluation (List.getElem?_eq_some_iff.1 here).1 ends
    exact ⟨types, _, _, looked, .evaluation⟩
  | breakLoop span | continueLoop span =>
    exact ((small_checkInLoop scope _ span).toUnmetered.madeOfSteps_of_same ends_demand).bind
      fun _ => madeOfSteps_pure _
  | imports names source span =>
    rw [checkLeaf_imports, map_eq_pure_bind]
    exact (small_demand.toUnmetered.madeOfSteps_of_same ends_demand).bind
      fun _ => (madeOfSteps_importNames suits.prompt source span.start names).bind fun _ =>
        madeOfSteps_pure _
  | endOfFile => exact madeOfSteps_pure _

end Leaves

/-! Statements with a body, and blocks. -/

theorem areConcrete_of_checkParameters {seen : List String} {parameters : List (String × Ty)}
    (checked : checkParameters seen parameters = .ok ()) : Ty.areConcrete parameters = true := by
  induction parameters generalizing seen with
  | nil => rfl
  | cons parameter rest ih =>
    obtain ⟨name, type⟩ := parameter
    simp only [checkParameters] at checked
    split at checked
    · simp at checked
    · split at checked
      · simp at checked
      · rename_i known
        simpa [Ty.areConcrete, ih checked] using known

section Blocks

variable {options : Options} {importer : Importer σ}

theorem madeOfSteps_checkArm {condition : Expr} {span : Span}
    {body : ScopeId → Check Empty σ (List Outline)}
    (inside : ∀ inner, MadeOfSteps setting inner (body inner)) :
    MadeOfSteps setting scope (checkArm scope condition span body) := by
  refine ((small_checkCondition scope span.start condition).toUnmetered.madeOfSteps_of_same
    fun ends => (ends_checkCondition.1 ends).2).bind fun looked => ?_
  exact madeOfSteps_inside (by simp) inside fun _ _ => (madeOfSteps_ofCause _ _).bind fun _ =>
    madeOfSteps_pure _

theorem madeOfSteps_checkLoop {env : Env Empty σ} {condition : Expr} {span : Span}
    {body : ScopeId → Check Empty σ (List Outline)}
    (inside : ∀ inner, MadeOfSteps setting inner (body inner)) :
    MadeOfSteps setting scope (checkLoop env scope condition span body) := by
  refine ((small_checkLoopCondition scope span.start env condition).toUnmetered.madeOfSteps_of_same
    fun ends => (ends_checkLoopCondition ends).1).bind fun looked => ?_
  exact madeOfSteps_inside (by simp) inside fun _ _ => (madeOfSteps_ofCause _ _).bind fun _ =>
    madeOfSteps_pure _

theorem madeOfSteps_defineParameters {client : Empty → Check Empty σ Unit} (inner : ScopeId)
    (position : Position) (parameters : List (String × Ty)) :
    MadeOfSteps setting scope (defineParameters (runWave client) inner position parameters) := by
  induction parameters with
  | nil => exact madeOfSteps_pure _
  | cons parameter rest ih =>
    rw [defineParameters, ← bind_assoc]
    exact (madeOfSteps_define inner _ position).bind fun _ => ih

theorem madeOfSteps_closeFunction {place inner : ScopeId} {signature : Signature}
    (parameters : Ty.areConcrete signature.parameters = true) :
    MadeOfSteps setting place
      (closeFunction (Env.plain options importer).settle scope inner signature) := by
  intro s fit
  rw [closeFunction_eq]
  refine small_scopes.toUnmetered.continues fun _ s reads => ?_
  obtain ⟨rfl, rfl⟩ := ends_scopes.1 reads
  cases found : s.scopes.resultType inner with
  | error fault =>
    refine (continues_throw .refl (fault.haltAt_ne_exhausted signature.span.start)).congr fun _ => ?_
    simp [ofFault]
  | ok result? =>
    rw [ofFault, pure_bind, finishFunction_eq]
    refine (small_addHead scope inner _).toUnmetered.continues fun k m adds => ?_
    refine (small_define scope _ _).toUnmetered.continues fun handed n defines => ?_
    obtain ⟨rfl, o, _, headed, rfl⟩ := headed_addHead adds
    obtain ⟨scopes, changes, rfl⟩ := ends_define.1 defines
    have checkStep : CheckStep setting s { o with scopes, queue := o.queue ++ handed } := by
      refine .head ?_ found rfl headed changes
      exact parameters
    exact (continues_settled fit (checkStep.checkSteps.idle _ _ _ _)).bind fun _ _ _ _ _ =>
      continues_pure _ .refl

theorem madeOfSteps_checkFunction {signature : Signature}
    {body : ScopeId → Check Empty σ (List Outline)}
    (plain : setting.plain → signature.result = .unannotated ∨ signature.result.isConcrete = true)
    (inside : ∀ inner, MadeOfSteps setting inner (body inner)) :
    MadeOfSteps setting scope (checkFunction (Env.plain options importer) scope signature body) := by
  simp only [checkFunction, openFunction_eq, openBody, bind_assoc, pure_bind]
  refine (small_demand.toUnmetered.madeOfSteps_of_same
    ends_demand).bind fun _ s fit => ?_
  refine small_ofCause.toUnmetered.continues fun _ s checks => ?_
  obtain ⟨checked, rfl⟩ := ends_ofCause.1 checks
  simp only [← bind_assoc (defineParameters _ _ _ _)]
  refine madeOfSteps_inside ?_ (fun inner => (madeOfSteps_defineParameters inner _ _).bind fun _ =>
    inside inner) (fun inner _ => (madeOfSteps_closeFunction
      (areConcrete_of_checkParameters checked)).bind fun _ => madeOfSteps_pure _) s fit
  rintro own result ⟨rfl⟩
  exact plain own

omit [Closed setting] in
theorem madeOfSteps_foldChain (chain : OpenChain) (last : OutlineChain) :
    MadeOfSteps setting scope (foldChain chain last : Check Empty σ Outline) :=
  (small_foldChain chain last).toUnmetered.madeOfSteps fun ends => by
    obtain ⟨-, _, rfl⟩ := foldChain_of_ends ends
    exact CheckSteps.idle .refl _ _ _ _

theorem madeOfSteps_endChain : ∀ chain : Option OpenChain,
    MadeOfSteps setting scope (endChain chain : Check Empty σ (List Outline))
  | none => madeOfSteps_pure _
  | some chain => (madeOfSteps_foldChain chain .done).bind fun _ => madeOfSteps_pure _

theorem madeOfSteps_endChainBefore (stmt : Stmt) (chain : Option OpenChain) :
    MadeOfSteps setting scope (endChainBefore stmt chain :
      Check Empty σ (List Outline × Option OpenChain)) := by
  unfold endChainBefore
  split
  · exact madeOfSteps_pure _
  · exact (madeOfSteps_endChain chain).bind fun _ => madeOfSteps_pure _

omit [Closed setting] in
theorem madeOfSteps_tick : MadeOfSteps setting scope (tick : Check Empty σ Unit) :=
  fun _ _ => continues_tick .refl

mutual

theorem madeOfSteps_checkStmt : ∀ (stmt : Stmt) (scope : ScopeId) (chain : Option OpenChain),
    setting.Suits importer [stmt] →
    MadeOfSteps setting scope (checkStmt (Env.plain options importer) scope chain stmt)
  | .leaf content, _, _, suits => (madeOfSteps_checkLeaf suits).bind fun _ => madeOfSteps_pure _
  | .branch condition body span, _, _, suits =>
    (madeOfSteps_checkArm fun inner => madeOfSteps_checkBlock body inner none suits.inside).bind
      fun _ => madeOfSteps_pure _
  | .elseIf condition body span, _, none, _ => madeOfSteps_throw (by simp)
  | .elseIf condition body span, _, some chain, suits =>
    (madeOfSteps_checkArm fun inner => madeOfSteps_checkBlock body inner none suits.inside).bind
      fun _ => madeOfSteps_pure _
  | .otherwise body span, _, none, _ => madeOfSteps_throw (by simp)
  | .otherwise body span, _, some chain, suits =>
    madeOfSteps_inside (by simp) (fun inner => madeOfSteps_checkBlock body inner none suits.inside)
      fun _ _ => (madeOfSteps_foldChain chain _).bind fun _ => madeOfSteps_pure _
  | .loop condition body span, _, _, suits =>
    (madeOfSteps_checkLoop fun inner => madeOfSteps_checkBlock body inner none suits.inside).bind
      fun _ => madeOfSteps_pure _
  | .function signature body, _, _, suits =>
    (madeOfSteps_checkFunction (fun own => suits.plain own _ List.mem_cons_self) fun inner =>
      madeOfSteps_checkBlock body inner none suits.inside).bind fun _ => madeOfSteps_pure _

theorem madeOfSteps_checkBlock : ∀ (program : List Stmt) (scope : ScopeId) (chain : Option OpenChain),
    setting.Suits importer program →
    MadeOfSteps setting scope (checkBlock (Env.plain options importer) scope chain program)
  | [], _, chain, _ => madeOfSteps_endChain chain
  | stmt :: rest, scope, chain, suits => by
    rw [checkBlock]
    exact (madeOfSteps_endChainBefore stmt chain).bind fun found => madeOfSteps_tick.bind fun _ =>
      (madeOfSteps_checkStmt stmt scope found.2 suits.head).bind fun after =>
      (madeOfSteps_checkBlock rest scope after.2 suits.tail).bind fun _ => madeOfSteps_pure _

end

/-- A whole file. -/
theorem continues_analyze {program : List Stmt} (suits : setting.Suits importer program)
    (fit : setting.fit Checker.root s) :
    Continues setting.finite (CheckSteps setting) (analyze (Env.plain options importer) program)
      s s := by
  rw [analyze_eq]
  refine (madeOfSteps_checkBlock program Checker.root none suits s fit).bind fun _ outlines m _ _ =>
    (unmetered_finishFile _ outlines).continues_end fun _ t ends => ?_
  obtain ⟨-, rfl, -⟩ := ends_finishFile ends
  exact CheckSteps.idle .refl _ _ _ _

end Blocks

end Check

end Hoist
