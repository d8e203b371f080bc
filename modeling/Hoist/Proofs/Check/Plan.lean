import Mathlib.Tactic.Choose
import Hoist.Check.Wave
import Hoist.Proofs.Check.Operation
import Hoist.Proofs.Check.Parts

/-!
What pieces of work may do, written down as plans. A plan asks for operations on the scopes one
after the other, and goes on as it likes with what came of each, be it a failure. It may look at
everything, and keep whatever it wants; but what is in the queue, and whether a wave is going on, is
not in its hands.

Main statements: in a wave, what a plan's requests hand back comes to the end of the queue in this
order, and none of it is performed meanwhile (`Plan.queue_run`, `Plan.run_nested`); and the
checker's own deferrals are performed as by plans (`exists_plan`).
-/
namespace Hoist

inductive Plan (κ σ α : Type)
  | finish (outcome : Except Halt α)
  | look (next : Checker κ σ → Plan κ σ α)
  | record (change : Checker κ σ → Checker κ σ) (next : Plan κ σ α)
  | request (operation : Operation κ) (next : Except Halt Unit → Plan κ σ α)

/-- What the operation hands back; nothing if it fails. -/
def Operation.handed {κ σ : Type} (operation : Operation κ) (state : Checker κ σ) :
    List (Deferral κ) :=
  match (operation.carryOut.run state).1 with
  | .ok work => work
  | .error _ => []

/-- What a plan may change without asking. -/
def Checker.recording {κ σ : Type} (s changed : Checker κ σ) : Checker κ σ :=
  { changed with scopes := s.scopes, queue := s.queue, firing := s.firing }

@[simp] theorem Checker.queue_recording {κ σ : Type} (s changed : Checker κ σ) :
    (s.recording changed).queue = s.queue :=
  rfl

@[simp] theorem Checker.firing_recording {κ σ : Type} (s changed : Checker κ σ) :
    (s.recording changed).firing = s.firing :=
  rfl

namespace Check

variable {κ σ α β : Type}

/-- Goes on after a failure, too. -/
def observe (step : Check κ σ α) : Check κ σ (Except Halt α) :=
  ExceptT.mk fun state => (.ok (step.run state).1, (step.run state).2)

@[simp] theorem run_observe (step : Check κ σ α) (s : Checker κ σ) :
    (observe step).run s = (.ok (step.run s).1, (step.run s).2) :=
  rfl

/-- Carries out an operation and settles what it hands back. -/
def change (settle : List (Deferral κ) → Check κ σ Unit) (operation : Operation κ) :
    Check κ σ Unit := do
  settle (← operation.carryOut)

end Check

namespace Plan

open Check

variable {κ σ α β : Type} (settle : List (Deferral κ) → Check κ σ Unit)

def run : Plan κ σ α → Check κ σ α
  | finish (.ok value) => pure value
  | finish (.error halt) => throw halt
  | look next => do (next (← get)).run
  | record change next => do
    modify fun state => state.recording (change state)
    next.run
  | request operation next => do
    (next (← observe (change settle operation))).run

/-- All that the requests of a plan hand back, in order. -/
def handed : Plan κ σ α → Checker κ σ → List (Deferral κ)
  | finish _, _ => []
  | look next, state => (next state).handed state
  | record change next, state => next.handed (state.recording (change state))
  | request operation next, state =>
    operation.handed state ++
      (next ((change settle operation).run state).1).handed ((change settle operation).run state).2

def bind : Plan κ σ α → (α → Plan κ σ β) → Plan κ σ β
  | finish (.ok value), rest => rest value
  | finish (.error halt), _ => finish (.error halt)
  | look next, rest => look fun state => (next state).bind rest
  | record change next, rest => record change (next.bind rest)
  | request operation next, rest => request operation fun outcome => (next outcome).bind rest

theorem run_bind (plan : Plan κ σ α) (rest : α → Plan κ σ β) :
    (plan.bind rest).run settle = plan.run settle >>= fun value => (rest value).run settle := by
  induction plan with
  | finish outcome => cases outcome <;> rfl
  | look next ih => simp only [bind, run, ih, bind_assoc]
  | record change next ih => simp only [bind, run, ih, bind_assoc]
  | request operation next ih => simp only [bind, run, ih, bind_assoc]

/-! Plans in a wave. -/

theorem queue_change (operation : Operation κ) (s : Checker κ σ) :
    ((change enqueue operation).run s).2.queue = s.queue ++ operation.handed s ∧
      ((change enqueue operation).run s).2.firing = s.firing := by
  obtain ⟨scopes, journal, touched⟩ := operation.touches_carryOut s
  rw [change, Check.run_bind, Operation.handed]
  rcases ran : operation.carryOut.run s with ⟨halt | work, t⟩
  · obtain rfl : t = _ := by simpa [ran] using touched
    simp
  · obtain rfl : t = _ := by simpa [ran] using touched
    cases work <;> simp [enqueue, note]

theorem change_nested {s : Checker κ σ} (nested : κ → Check κ σ Unit) (operation : Operation κ)
    (firing : s.firing = true) :
    (change (runWave nested) operation).run s = (change enqueue operation).run s := by
  obtain ⟨scopes, journal, touched⟩ := operation.touches_carryOut s
  rw [change, change, Check.run_bind, Check.run_bind]
  rcases ran : operation.carryOut.run s with ⟨halt | work, t⟩
  · rfl
  · obtain rfl : t = _ := by simpa [ran] using touched
    exact runWave_of_firing nested work _ firing

/-- What a plan's requests hand back goes to the end of the queue. -/
theorem queue_run (plan : Plan κ σ α) (s : Checker κ σ) :
    ((plan.run enqueue).run s).2.queue = s.queue ++ plan.handed enqueue s ∧
      ((plan.run enqueue).run s).2.firing = s.firing := by
  induction plan generalizing s with
  | finish outcome => cases outcome <;> simp [run, handed]
  | look next ih => simpa [run, handed] using ih s s
  | record change next ih => simpa [run, handed] using ih (s.recording (change s))
  | request operation next ih =>
    obtain ⟨queue, firing⟩ := queue_change operation s
    obtain ⟨queue', firing'⟩ :=
      ih ((change enqueue operation).run s).1 ((change enqueue operation).run s).2
    simp only [run, handed, Check.run_bind, run_observe]
    exact ⟨by rw [queue', queue, List.append_assoc], firing'.trans firing⟩

/-- Waves that are started in a wave perform nothing, whatever they are to perform. -/
theorem run_nested (plan : Plan κ σ α) (nested : κ → Check κ σ Unit) {s : Checker κ σ}
    (firing : s.firing = true) :
    (plan.run (runWave nested)).run s = (plan.run enqueue).run s := by
  induction plan generalizing s with
  | finish outcome => cases outcome <;> rfl
  | look next ih => simpa [run] using ih s firing
  | record change next ih => simpa [run] using ih (s := s.recording (change s)) firing
  | request operation next ih =>
    simp only [run, Check.run_bind, run_observe, change_nested nested operation firing]
    exact ih _ ((queue_change operation s).2.trans firing)

end Plan

/-! The checker's own deferrals. -/

namespace Check

variable {κ σ α β : Type}

/-- The step is what some plan does. -/
def Planned (step : Check κ σ α) : Prop :=
  ∃ plan : Plan κ σ α, plan.run enqueue = step

theorem Planned.bind {first : Check κ σ α} {next : α → Check κ σ β} (isFirst : Planned first)
    (isNext : ∀ value, Planned (next value)) : Planned (first >>= next) := by
  obtain ⟨plan, rfl⟩ := isFirst
  choose rest same using isNext
  exact ⟨plan.bind rest, by simp only [Plan.run_bind, same]⟩

theorem planned_pure (value : α) : Planned (pure value : Check κ σ α) :=
  ⟨.finish (.ok value), rfl⟩

theorem planned_throw (halt : Halt) : Planned (throw halt : Check κ σ α) :=
  ⟨.finish (.error halt), rfl⟩

theorem planned_get {next : Checker κ σ → Check κ σ α} (isNext : ∀ s, Planned (next s)) :
    Planned (get >>= next) := by
  choose rest same using isNext
  exact ⟨.look rest, by simp only [Plan.run, same]⟩

theorem planned_modify {change : Checker κ σ → Checker κ σ}
    (kept : ∀ s, s.recording (change s) = change s) :
    Planned (modify change : Check κ σ PUnit) := by
  refine ⟨.record change (.finish (.ok ⟨⟩)), ExceptT.ext (funext fun s => ?_)⟩
  simp [Plan.run, kept]

/-- Asking for an operation and for nothing else. -/
theorem planned_change (operation : Operation κ) :
    Planned (change enqueue operation : Check κ σ Unit) := by
  refine ⟨.request operation .finish, ExceptT.ext (funext fun s => ?_)⟩
  simp only [Plan.run, run_bind, run_observe]
  rcases (change enqueue operation).run s with ⟨_ | _, t⟩ <;> rfl

/-- An operation that never hands back anything. -/
theorem planned_of_quiet {step : Check κ σ Unit} (operation : Operation κ)
    (quiet : operation.carryOut = do step; return []) : Planned step := by
  have same : change enqueue operation = step := by
    refine ExceptT.ext (funext fun s => ?_)
    simp only [change, quiet, run_bind]
    rcases step.run s with ⟨_ | _, t⟩ <;> simp [enqueue]
  exact same ▸ planned_change operation

theorem planned_ofFault (position : Position) (outcome : Except Fault α) :
    Planned (ofFault position outcome : Check κ σ α) := by
  cases outcome with
  | ok value => exact planned_pure value
  | error fault => exact planned_throw _

theorem planned_ofCause (position : Position) (outcome : Except Cause α) :
    Planned (ofCause position outcome : Check κ σ α) := by
  cases outcome with
  | ok value => exact planned_pure value
  | error cause => exact planned_throw _

theorem planned_scopes : Planned (scopes : Check κ σ (Scopes (Deferral κ))) :=
  planned_get fun _ => planned_pure _

theorem planned_view (scope : ScopeId) : Planned (view scope : Check κ σ View) :=
  planned_scopes.bind fun _ => planned_pure _

theorem planned_setDraft (id : DraftId) (scope : ScopeId) (work : Work) :
    Planned (setDraft id scope work : Check κ σ Unit) :=
  planned_modify fun _ => rfl

theorem planned_getDraft (id : DraftId) : Planned (getDraft id : Check κ σ Draft) := by
  refine planned_get fun s => ?_
  split
  · exact planned_pure _
  · exact planned_throw _

theorem planned_getSignature (id : SignatureId) :
    Planned (getSignature id : Check κ σ SignatureDraft) := by
  refine planned_get fun s => ?_
  split
  · exact planned_pure _
  · exact planned_throw _

theorem planned_defer (scope : ScopeId) (name : String) (declared : Option String)
    (work : Deferral κ) (position : Position) :
    Planned (defer scope name declared work position : Check κ σ Unit) := by
  refine planned_scopes.bind fun scopes => (planned_ofFault _ _).bind fun anchor => ?_
  cases anchor with
  | bound owner => exact planned_of_quiet (.await owner name work position) rfl
  | root root =>
    exact planned_of_quiet (.await root name (.hoisted root name position work) position) rfl

theorem planned_resumeDeclaration (id : DraftId) (scope : ScopeId) (declaration : Declaration) :
    Planned (resumeDeclaration enqueue id scope declaration : Check κ σ Unit) := by
  refine (planned_view scope).bind fun names => (planned_setDraft ..).bind fun _ =>
    (planned_ofFault _ _).bind fun type => (planned_ofCause _ _).bind fun typed =>
    (planned_setDraft ..).bind fun _ => Planned.bind ?_ fun _ =>
    planned_change (.update scope typed.binding declaration.span.start)
  unfold deferDeclaration
  split
  · exact planned_pure _
  · exact planned_defer ..

theorem planned_awaitEach (id : DraftId) (scope : ScopeId) (assignment : Assignment)
    (awaited names : List String) :
    Planned (awaitEach id scope assignment awaited names : Check κ σ Unit) := by
  induction names generalizing awaited with
  | nil => exact planned_pure _
  | cons name rest ih =>
    unfold awaitEach
    split
    · exact ih awaited
    · exact (planned_setDraft ..).bind fun _ => (planned_defer ..).bind fun _ => ih _

theorem planned_checkRoot (scope : ScopeId) (target : Target) (position : Position) :
    Planned (checkRoot scope target position : Check κ σ Unit) := by
  refine planned_scopes.bind fun scopes => (planned_ofFault _ _).bind fun found => ?_
  cases found with
  | none => exact planned_throw _
  | some binding =>
    dsimp only
    split
    · exact planned_throw _
    · exact planned_pure _

theorem planned_checkAssignment (id : DraftId) (scope : ScopeId) (assignment : Assignment)
    (awaited : List String) :
    Planned (checkAssignment id scope assignment awaited : Check κ σ Unit) :=
  (planned_checkRoot ..).bind fun _ => (planned_view scope).bind fun _ =>
    (planned_setDraft ..).bind fun _ => (planned_ofFault _ _).bind fun _ =>
    (planned_setDraft ..).bind fun _ => (planned_ofFault _ _).bind fun _ =>
    (planned_ofCause _ _).bind fun _ => planned_awaitEach ..

theorem planned_finishReturn (id : DraftId) (scope : ScopeId) (position : Position)
    (result type : Ty) :
    Planned (finishReturn enqueue id scope position result type : Check κ σ Unit) := by
  have sets : Planned (do enqueue (← setResult scope type position) : Check κ σ Unit) :=
    planned_change (.setResult scope type position)
  unfold finishReturn
  cases type.pendingOn with
  | some name =>
    refine (planned_defer ..).bind fun _ => ?_
    split
    · exact sets
    · exact planned_pure _
  | none =>
    dsimp only
    split
    · exact sets
    · split
      · exact planned_throw _
      · exact planned_pure _

theorem planned_checkReturn (id : DraftId) (scope : ScopeId) (statement : Return) :
    Planned (checkReturn enqueue id scope statement : Check κ σ Unit) := by
  rw [checkReturn_eq]
  refine planned_scopes.bind fun scopes => (planned_ofFault _ _).bind fun result => ?_
  cases result with
  | none => exact planned_throw _
  | some current =>
    refine Planned.bind ?_ fun type => planned_finishReturn ..
    unfold lookAtReturn
    cases statement.value with
    | none => exact planned_pure _
    | some value =>
      exact (planned_view scope).bind fun _ => (planned_setDraft ..).bind fun _ =>
        planned_ofFault _ _

theorem planned_checkEvaluation (id : DraftId) (scope : ScopeId) (statement : Evaluation) :
    Planned (checkEvaluation id scope statement : Check κ σ Unit) := by
  refine (planned_view scope).bind fun _ => (planned_setDraft ..).bind fun _ =>
    (planned_ofFault _ _).bind fun type => ?_
  cases type.pendingOn with
  | none => exact planned_pure _
  | some name => exact planned_defer ..

theorem planned_resume (id : DraftId) (awaited : String) :
    Planned (resume enqueue id awaited : Check κ σ Unit) := by
  refine (planned_getDraft id).bind fun draft => ?_
  cases draft.work with
  | declaration declaration => exact planned_resumeDeclaration ..
  | assignment assignment names =>
    exact (planned_setDraft ..).bind fun _ => planned_checkAssignment ..
  | returns statement => exact planned_checkReturn ..
  | evaluation statement => exact planned_checkEvaluation ..

theorem planned_conclude (id : SignatureId) :
    Planned (conclude enqueue id : Check κ σ Unit) := by
  refine (planned_getSignature id).bind fun draft => planned_scopes.bind fun scopes =>
    (planned_ofFault _ _).bind fun result =>
    Planned.bind (planned_modify fun _ => rfl) fun _ => ?_
  split
  · exact planned_of_quiet (.awaitResult ..) rfl
  · exact planned_change (.update ..)

theorem planned_checkHoisted (root : ScopeId) (name : String) (position : Position) :
    Planned (checkHoisted root name position : Check κ σ Unit) := by
  refine planned_scopes.bind fun scopes => (planned_ofFault _ _).bind fun found => ?_
  cases found with
  | none => exact planned_throw _
  | some binding =>
    dsimp only
    split
    · exact planned_throw _
    · exact planned_pure _

/-- Clients' tasks, given by plans. What a plan is handed back makes a wave of its own, in which
`nested` says how tasks are performed. -/
def plannedClient (tasks : κ → Plan κ σ Unit) (nested : κ → Check κ σ Unit) :
    κ → Check κ σ Unit :=
  fun task => (tasks task).run (runWave nested)

/-- In a wave the work is performed as the plan says. -/
def Enacts (tasks : κ → Plan κ σ Unit) (work : Deferral κ) (plan : Plan κ σ Unit) : Prop :=
  ∀ nested s, s.firing = true →
    (perform (plannedClient tasks nested) work).run s = (plan.run enqueue).run s

theorem exists_plan (tasks : κ → Plan κ σ Unit) (work : Deferral κ) :
    ∃ plan, Enacts tasks work plan := by
  induction work with
  | resume id awaited =>
    obtain ⟨plan, same⟩ := planned_resume id awaited
    exact ⟨plan, fun _ _ _ => by rw [same]; rfl⟩
  | conclude id =>
    obtain ⟨plan, same⟩ := planned_conclude id
    exact ⟨plan, fun _ _ _ => by rw [same]; rfl⟩
  | hoisted root name position rest ih =>
    obtain ⟨plan, same⟩ := planned_checkHoisted root name position
    obtain ⟨after, follows⟩ := ih
    refine ⟨plan.bind fun _ => after, fun nested s firing => ?_⟩
    have going := (plan.queue_run s).2.trans firing
    rw [perform, Plan.run_bind, ← same, run_bind, run_bind]
    rcases ran : (plan.run enqueue).run s with ⟨halt | done, t⟩
    · rfl
    · rw [ran] at going
      exact follows nested t going
  | client task => exact ⟨tasks task, fun nested s firing => (tasks task).run_nested nested firing⟩

end Check

end Hoist
