import Mathlib.Logic.Relation
import Hoist.Proofs.Check.Continues
import Hoist.Proofs.Check.Look

/-!
Waves as sequences of steps. A step takes the first deferral from the queue and performs it: a draft is
looked at again, or the head of a function is. What is handed back goes to the end of the queue.

Main statement: a wave is made of such steps only, whether it ends well or stops for want of a budget,
and some budget is large enough if they come to an end (`continues_runWave`).
-/
namespace Hoist.Check

variable {σ α : Type} {s t m : Checker Empty σ} {k : SignatureId} {h : SignatureDraft}

/-- The head of a function is put in its place, and waits for the result type if it is not known. -/
def Headed (k : SignatureId) (h : SignatureDraft) (s t : Checker Empty σ) : Prop :=
  ∃ signatures scopes, PutAt s.signatures k h signatures ∧ t = { s with signatures, scopes } ∧
    if h.signature.result.isPending then s.scopes.awaitResult h.body (.conclude k) = .ok scopes
    else scopes = s.scopes

theorem headed_addHead {scope inner : ScopeId} {signature : Signature} {k : SignatureId}
    (ends : Ends (addHead scope inner signature) s k t) :
    k = s.signatures.length ∧
      ∃ m journal, Headed k ⟨scope, inner, signature⟩ s m ∧ t = { m with journal } := by
  simp only [addHead, ends_bind, ends_addSignature] at ends
  obtain ⟨_, _, ⟨rfl, rfl⟩, ends⟩ := ends
  have put := putAt_append s.signatures ⟨scope, inner, signature⟩
  split at ends
  case isTrue pending =>
    simp only [ends_bind, ends_awaitResult, ends_pure] at ends
    obtain ⟨_, _, ⟨scopes, awaits, rfl⟩, rfl, rfl⟩ := ends
    exact ⟨rfl, _, _, ⟨_, scopes, put, rfl, by rwa [if_pos pending]⟩, rfl⟩
  case isFalse known =>
    obtain ⟨rfl, rfl⟩ := ends_pure.1 ends
    exact ⟨rfl, _, _, ⟨_, _, put, rfl, by rw [if_neg known]⟩, rfl⟩

/-- The first deferral of the queue is performed. -/
inductive QueueStep : Checker Empty σ → Checker Empty σ → Prop
  | resume {s t : Checker Empty σ} {next : Deferral Empty} {rest handed : List (Deferral Empty)}
      {id : DraftId} {name : String} {d : Draft} : s.queue = next :: rest →
      next.core = .resume id name → s.drafts[id]? = some d →
      Reviewed id d.scope (d.work.strike name) { s with queue := rest } handed t →
      QueueStep s { t with queue := t.queue ++ handed }
  /-- The result type has changed and is still not known. -/
  | postpone {s t : Checker Empty σ} {next : Deferral Empty} {rest : List (Deferral Empty)}
      {k : SignatureId} {h : SignatureDraft} {result? : Option Ty} : s.queue = next :: rest →
      next.core = .conclude k → s.signatures[k]? = some h →
      s.scopes.resultType h.body = .ok result? → (result?.getD .void).isPending = true →
      Headed k { h with signature := { h.signature with result := result?.getD .void } }
        { s with queue := rest } t → QueueStep s t
  | conclude {s m : Checker Empty σ} {next : Deferral Empty} {rest handed : List (Deferral Empty)}
      {k : SignatureId} {h : SignatureDraft} {result? : Option Ty}
      {scopes : Scopes (Deferral Empty)} : s.queue = next :: rest →
      next.core = .conclude k → s.signatures[k]? = some h →
      s.scopes.resultType h.body = .ok result? → (result?.getD .void).isPending = false →
      Headed k { h with signature := { h.signature with result := result?.getD .void } }
        { s with queue := rest } m →
      m.scopes.update h.scope { h.signature with result := result?.getD .void }.binding =
        .ok (handed, scopes) →
      QueueStep s { m with scopes, queue := m.queue ++ handed }

/-- One step after the other. The budget and the notes may change in between, and whether a wave is
going on. -/
def QueueSteps : Checker Empty σ → Checker Empty σ → Prop :=
  Relation.ReflTransGen fun s t =>
    QueueStep s t ∨ ∃ firing budget journal, t = { s with firing, budget, journal }

theorem QueueStep.queueSteps (queueStep : QueueStep s t) : QueueSteps s t :=
  .single (.inl queueStep)

theorem QueueSteps.idle (queueSteps : QueueSteps s t) (firing : Bool) (budget : Nat)
    (journal : List Note) :
    QueueSteps s { t with firing, budget, journal } :=
  .tail queueSteps (.inr ⟨firing, budget, journal, rfl⟩)

instance : Course (QueueSteps : Checker Empty σ → Checker Empty σ → Prop) where
  trans := .trans
  funded s budget := QueueSteps.idle .refl s.firing budget s.journal

/-- Every wave from here comes to an end. -/
def Abates (s : Checker Empty σ) : Prop :=
  Acc (fun t s => ∃ firing budget journal, QueueStep { s with firing, budget, journal } t) s

theorem Abates.idle (abates : Abates s) (firing : Bool) (budget : Nat) (journal : List Note) :
    Abates { s with firing, budget, journal } := by
  refine .intro _ ?_
  rintro t ⟨firing, budget, journal, queueStep⟩
  exact abates.inv ⟨firing, budget, journal, queueStep⟩

variable {client : Empty → Check Empty σ Unit}

/-- Performing what is inside of the first deferral of the queue. -/
theorem queueStep_perform {outer deferral : Deferral Empty} {rest : List (Deferral Empty)}
    {done : Unit}
    (core : deferral.core = outer.core) (queue : s.queue = outer :: rest)
    (ends : Ends (perform client deferral) { s with queue := rest } done t) :
    ∃ m journal, QueueStep s m ∧ t = { m with journal } := by
  induction deferral with
  | client task => cases task
  | hoisted root name position inside ih =>
    simp only [perform, ends_bind, ends_checkHoisted, and_assoc, exists_and_left,
      exists_eq_left] at ends
    obtain ⟨_, _, ends⟩ := ends
    exact ih core ends
  | resume id name =>
    obtain ⟨d, handed, m, here, reviewed, settled⟩ := reviewed_resume ends
    have queueStep : QueueStep s { m with queue := m.queue ++ handed.getD [] } :=
      .resume queue core.symm here reviewed
    cases handed with
    | none =>
      obtain ⟨-, rfl⟩ := ends_pure.1 settled
      rw [Option.getD_none, List.append_nil] at queueStep
      exact ⟨_, _, queueStep, rfl⟩
    | some handed =>
      obtain rfl := ends_enqueue.1 settled
      exact ⟨_, _, queueStep, rfl⟩
  | conclude k =>
    simp only [perform, conclude, ends_bind, ends_getSignature, ends_scopes, ends_ofFault,
      ends_setSignature, and_assoc, exists_and_left, exists_eq_left] at ends
    obtain ⟨h, here, result?, found, _, ends⟩ := ends
    have inside := (List.getElem?_eq_some_iff.1 here).1
    split at ends
    case isTrue pending =>
      obtain ⟨scopes, awaits, rfl⟩ := ends_awaitResult.1 ends
      exact ⟨_, _, .postpone queue core.symm here found pending
        ⟨_, scopes, putAt_set inside, rfl, by rwa [if_pos pending]⟩, rfl⟩
    case isFalse known =>
      obtain ⟨handed, _, updates, settled⟩ := ends_bind.1 ends
      obtain ⟨_, changes, rfl⟩ := ends_update.1 updates
      obtain rfl := ends_enqueue.1 settled
      exact ⟨_, _, .conclude queue core.symm here found (by simpa using known)
        ⟨_, _, putAt_set inside, rfl, by rw [if_neg known]⟩ changes, rfl⟩

/-- What is first in the queue is refused, or it is performed and the wave goes on. -/
theorem drainAll_cons (client : Empty → Check Empty σ Unit) {next : Deferral Empty}
    {rest : List (Deferral Empty)} (queue : s.queue = next :: rest) :
    (∃ halt m, halt ≠ .exhausted ∧ ∀ left, Concludes (drainAll client) (s.funded (left + 1))
        (.error halt) (Checker.funded m left)) ∨
      ∃ m journal, QueueStep s m ∧ ∀ left, (drainAll client).run (s.funded (left + 1)) =
        (drainAll client).run (Checker.funded { m with journal } left) := by
  have clients : ∀ task, Small (client task) := fun task => task.elim
  have runs := run_drainAll_cons clients queue
  rcases performs : (perform client next).run { s with queue := rest } with ⟨halt | done, m⟩
  · refine .inl ⟨halt, m, ?_, fun left => ?_⟩
    · rintro rfl
      exact (small_perform clients next).toUnmetered.paid _ _ performs
    · rw [Concludes, runs, performs]
  · obtain ⟨m, journal, queueStep, rfl⟩ := queueStep_perform rfl queue performs
    exact .inr ⟨m, journal, queueStep, fun left => by rw [runs, performs]⟩

theorem continues_drainAll_nil (queue : s.queue = []) :
    Continues True QueueSteps (drainAll client) s s :=
  (continues_pure () .refl).congr fun _ => (run_drainAll client _).trans (run_drain_nil queue)

theorem queueSteps_of_drains {budget : Nat} (leaves : Leaves (drainAll client) (s.funded budget) t) :
    QueueSteps s t := by
  induction budget generalizing s with
  | zero =>
    cases queue : s.queue with
    | nil => exact (continues_drainAll_nil queue).leaves 0 leaves
    | cons next rest =>
      rcases leaves with stops | ⟨_, ends⟩
      · cases (run_drainAll_broke queue).symm.trans stops
        exact Course.funded s 0
      · cases (run_drainAll_broke queue).symm.trans ends
  | succ left ih =>
    cases queue : s.queue with
    | nil => exact (continues_drainAll_nil queue).leaves _ leaves
    | cons next rest =>
      rcases drainAll_cons client queue with ⟨halt, m, clear, refused⟩ | ⟨m, _, queueStep, runs⟩
      · rcases leaves with stops | ⟨_, ends⟩
        · cases (refused left).symm.trans stops
          exact absurd rfl clear
        · cases (refused left).symm.trans ends
      · exact (queueStep.queueSteps.idle _ _ _).trans (ih (leaves.congr (runs left)))

theorem queueSteps_further {budget more : Nat} {u : Checker Empty σ}
    (stops : Stops (drainAll client) (s.funded budget) t)
    (leaves : Leaves (drainAll client) (s.funded (budget + more)) u) : QueueSteps t u := by
  induction budget generalizing s with
  | zero =>
    cases queue : s.queue with
    | nil => exact (continues_drainAll_nil queue).further 0 more stops leaves
    | cons next rest =>
      cases (run_drainAll_broke queue).symm.trans stops
      exact queueSteps_of_drains leaves
  | succ left ih =>
    cases queue : s.queue with
    | nil => exact (continues_drainAll_nil queue).further _ more stops leaves
    | cons next rest =>
      rcases drainAll_cons client queue with ⟨halt, m, clear, refused⟩ | ⟨m, _, -, runs⟩
      · cases (refused left).symm.trans stops
        exact absurd rfl clear
      · rw [Nat.add_right_comm] at leaves
        exact ih ((runs left).symm.trans stops) (leaves.congr (runs (left + more)))

theorem paid_drainAll {budget more : Nat} {outcome : Except Halt Unit}
    (clear : outcome ≠ .error .exhausted)
    (concludes : Concludes (drainAll client) (s.funded budget) outcome t) :
    Concludes (drainAll client) (s.funded (budget + more)) outcome (t.funded (t.budget + more)) := by
  induction budget generalizing s with
  | zero =>
    cases queue : s.queue with
    | nil => exact (continues_drainAll_nil queue).paid 0 more clear concludes
    | cons next rest =>
      cases (run_drainAll_broke queue).symm.trans concludes
      exact absurd rfl clear
  | succ left ih =>
    cases queue : s.queue with
    | nil => exact (continues_drainAll_nil queue).paid _ more clear concludes
    | cons next rest =>
      rw [Nat.add_right_comm]
      rcases drainAll_cons client queue with ⟨halt, m, -, refused⟩ | ⟨m, _, -, runs⟩
      · cases (refused left).symm.trans concludes
        exact refused (left + more)
      · exact (runs (left + more)).trans (ih ((runs left).symm.trans concludes))

theorem finishes_drainAll (client : Empty → Check Empty σ Unit) (abates : Abates s) (firing : Bool)
    (journal : List Note) : ∃ enough, ∀ budget, enough ≤ budget →
      ∀ t, ¬Stops (drainAll client) (Checker.funded { s with firing, journal } budget) t := by
  induction abates generalizing firing journal with
  | intro s _ ih =>
    by_cases queue : s.queue = []
    · exact (continues_drainAll_nil (s := { s with firing, journal }) queue).finishes trivial
    · obtain ⟨next, rest, queue⟩ := List.exists_cons_of_ne_nil queue
      rcases drainAll_cons client (s := { s with firing, journal }) queue with
        ⟨halt, m, clear, refused⟩ | ⟨m, _, queueStep, runs⟩
      · refine ⟨1, fun budget large t stops => ?_⟩
        obtain ⟨left, rfl⟩ := Nat.exists_eq_add_of_le' large
        cases (refused left).symm.trans stops
        exact clear rfl
      · obtain ⟨enough, finishes⟩ := ih m ⟨firing, s.budget, journal, queueStep⟩ m.firing _
        refine ⟨enough + 1, fun budget large t stops => ?_⟩
        obtain ⟨left, rfl⟩ := Nat.exists_eq_add_of_le' large
        exact finishes (left + enough) (Nat.le_add_left _ _) t ((runs _).symm.trans stops)

theorem continues_drainAll (client : Empty → Check Empty σ Unit) (s : Checker Empty σ) :
    Continues (Abates s) QueueSteps (drainAll client) s s :=
  ⟨fun _ _ => queueSteps_of_drains, fun _ _ _ _ => queueSteps_further, fun _ _ _ _ => paid_drainAll,
    fun abates => finishes_drainAll client abates s.firing s.journal⟩

/-- A wave that is cut short is left as it is. -/
theorem continues_finishWave (client : Empty → Check Empty σ Unit) (s : Checker Empty σ) :
    Continues (Abates s) QueueSteps (finishWave client) s s := by
  have drains := continues_drainAll client s
  have guarded : Continues (Abates s) QueueSteps (tryCatch (drainAll client) fun halt => do
      modify fun state => endWave state (some halt)
      throw halt) s s := by
    have caught {s t : Checker Empty σ} {outcome : Except Halt Unit} :
        Concludes (tryCatch (drainAll client) fun halt => do
          modify fun state => endWave state (some halt)
          throw halt) s outcome t ↔
        ∃ m, Concludes (drainAll client) s outcome m ∧
          t = match outcome with
            | .ok _ => m
            | .error halt => endWave m (some halt) := by
      unfold Concludes
      rw [run_tryCatch]
      rcases (drainAll client).run s with ⟨halt | done, m⟩ <;> constructor
      case error.mp | ok.mp => rintro ⟨⟩; exact ⟨_, rfl, rfl⟩
      case error.mpr | ok.mpr => rintro ⟨_, ⟨⟩, rfl⟩; rfl
    have left (s t : Checker Empty σ) : Leaves (tryCatch (drainAll client) fun halt => do
        modify fun state => endWave state (some halt)
        throw halt) s t → Leaves (drainAll client) s t := by
      rintro (stops | ⟨done, ends⟩)
      · obtain ⟨_, stops, rfl⟩ := caught.1 stops
        exact .inl stops
      · obtain ⟨_, ends, rfl⟩ := caught.1 ends
        exact .inr ⟨done, ends⟩
    refine ⟨fun budget _ leaves => drains.leaves budget (left _ _ leaves),
      fun budget more _ _ stops leaves => ?_, fun budget more outcome t clear concludes => ?_,
      fun abates => ?_⟩
    · obtain ⟨_, stops, rfl⟩ := caught.1 stops
      exact drains.further budget more stops (left _ _ leaves)
    · obtain ⟨m, drained, rfl⟩ := caught.1 concludes
      refine caught.2 ⟨_, drains.paid budget more clear drained, ?_⟩
      rcases outcome with (_ | _) | done <;> rfl
    · obtain ⟨enough, finishes⟩ := drains.finishes abates
      refine ⟨enough, fun budget large t stops => ?_⟩
      obtain ⟨m, stops, -⟩ := caught.1 stops
      exact finishes budget large m stops
  refine guarded.bind fun _ _ m _ _ =>
    (unmetered_modify fun _ _ _ _ => rfl).continues_end fun _ t ends => ?_
  obtain rfl := ends_modify.1 ends
  exact QueueSteps.idle .refl false m.budget m.journal

/-- A wave, which has all that it is given in the queue. -/
theorem continues_runWave (client : Empty → Check Empty σ Unit) (handed : List (Deferral Empty))
    (s : Checker Empty σ) :
    Continues (Abates { s with queue := s.queue ++ handed }) QueueSteps (runWave client handed) s
      { s with queue := s.queue ++ handed } := by
  refine (small_enqueue handed).toUnmetered.continues fun _ m ends => ?_
  have queued : QueueSteps { s with queue := s.queue ++ handed } m ∧
      (Abates { s with queue := s.queue ++ handed } → Abates m) := by
    obtain rfl := ends_enqueue.1 ends
    exact ⟨QueueSteps.idle .refl _ _ _, fun abates => abates.idle _ _ _⟩
  cases firing : m.firing with
  | true =>
    refine (continues_pure () queued.1).congr fun budget => ?_
    rw [run_bind, run_get]
    simp [Checker.funded, firing]
  | false =>
    have fires : Continues (Abates { s with queue := s.queue ++ handed }) QueueSteps (do
        modify fun state => { state with firing := true }
        finishWave client) m { s with queue := s.queue ++ handed } := by
      refine (unmetered_modify fun _ _ _ _ => rfl).continues fun _ n ends => ?_
      obtain rfl := ends_modify.1 ends
      exact (continues_finishWave client _).mono id (queued.1.idle true m.budget m.journal).trans
        fun abates => (queued.2 abates).idle true m.budget m.journal
    refine fires.congr fun budget => ?_
    rw [run_bind, run_get]
    simp only [Checker.funded, firing, Bool.false_eq_true, ↓reduceIte]
    rfl

end Hoist.Check
