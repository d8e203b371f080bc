import Mathlib
import Hoist.Proofs.Check.Continues
import Hoist.Proofs.Check.Plan

/-!
The order in which waves perform work. A wave goes in rounds: each takes the first piece of work from
the queue, and is over before the next one begins. All that is handed back meanwhile is performed
later, after everything that came before.

Main statement: a wave that starts with nothing in the queue performs what it was given, and then all
that was handed back in it, each once and in order; or a piece of work fails, and nothing behind it
is ever performed (`Check.runWave_flat`).
-/
namespace Hoist

/-- One piece of work is performed. -/
structure Round (κ σ : Type) where
  work : Deferral κ
  before : Checker κ σ
  /-- What the changes of the scopes hand back meanwhile. -/
  handed : List (Deferral κ)
  outcome : Except Halt Unit
  after : Checker κ σ

namespace Round

variable {κ σ : Type}

/-- The work is taken from the queue, and paid for. -/
def Starts (s : Checker κ σ) (round : Round κ σ) : Prop :=
  s.queue = round.work :: round.before.queue ∧ s.budget = round.before.budget + 1 ∧
    round.before = { s with queue := round.before.queue, budget := round.before.budget }

/-- The work is performed from start to end, and nothing else is. -/
def Performs (tasks : κ → Plan κ σ Unit) (round : Round κ σ) : Prop :=
  round.before.firing = true ∧ ∃ plan, Check.Enacts tasks round.work plan ∧
    (plan.run Check.enqueue).run round.before = (round.outcome, round.after) ∧
    round.handed = plan.handed Check.enqueue round.before

theorem Performs.queue {tasks : κ → Plan κ σ Unit} {round : Round κ σ} (goes : round.Performs tasks) :
    round.after.queue = round.before.queue ++ round.handed ∧ round.after.firing = true := by
  obtain ⟨firing, plan, -, ran, handed⟩ := goes
  have kept := plan.queue_run round.before
  rw [ran] at kept
  exact ⟨by rw [kept.1, handed], kept.2.trans firing⟩

theorem exists_performs (tasks : κ → Plan κ σ Unit) (nested : κ → Check κ σ Unit)
    (work : Deferral κ) {s t : Checker κ σ} {outcome : Except Halt Unit}
    (ran : (Check.perform (Check.plannedClient tasks nested) work).run s = (outcome, t))
    (firing : s.firing = true) :
    ∃ handed, Performs tasks ⟨work, s, handed, outcome, t⟩ := by
  obtain ⟨plan, follows⟩ := Check.exists_plan tasks work
  exact ⟨plan.handed Check.enqueue s, firing, plan, follows,
    (follows nested s firing).symm.trans ran, rfl⟩

end Round

/-- One round after the other, and none of them fails. -/
inductive Rounds {κ σ : Type} (tasks : κ → Plan κ σ Unit) :
    Checker κ σ → List (Round κ σ) → Checker κ σ → Prop
  | none (s : Checker κ σ) : Rounds tasks s [] s
  | next {s t : Checker κ σ} {round : Round κ σ} {rounds : List (Round κ σ)} :
      round.Starts s → round.Performs tasks → round.outcome = .ok () →
      Rounds tasks round.after rounds t → Rounds tasks s (round :: rounds) t

namespace Check

variable {κ σ : Type} {tasks : κ → Plan κ σ Unit}

/-- What has been in the queue is what was performed, and what still is there. -/
theorem queue_of_rounds {s t : Checker κ σ} {rounds : List (Round κ σ)}
    (goes : Rounds tasks s rounds t) :
    s.queue ++ rounds.flatMap (·.handed) = rounds.map (·.work) ++ t.queue := by
  induction goes with
  | none s => simp
  | @next s t round rounds starts goes _ _ ih =>
    rw [goes.queue.1] at ih
    simp [starts.1, ← ih]

/-- The rounds from a state with a wave going on to the end of the wave, or to a failure. -/
def Performed (tasks : κ → Plan κ σ Unit) (s : Checker κ σ) :
    Except Halt Unit → Checker κ σ → Prop
  | .ok _, t => ∃ rounds, Rounds tasks s rounds t ∧ t.queue = []
  | .error halt, t => ∃ rounds between, ∃ failed : Round κ σ, Rounds tasks s rounds between ∧
      failed.Starts between ∧ failed.Performs tasks ∧ failed.outcome = .error halt ∧ failed.after = t

theorem Performed.next {s t : Checker κ σ} {round : Round κ σ} {outcome : Except Halt Unit}
    (starts : round.Starts s) (goes : round.Performs tasks) (fine : round.outcome = .ok ())
    (rest : Performed tasks round.after outcome t) : Performed tasks s outcome t := by
  cases outcome with
  | ok done =>
    obtain ⟨rounds, more, empty⟩ := rest
    exact ⟨round :: rounds, .next starts goes fine more, empty⟩
  | error halt =>
    obtain ⟨rounds, between, failed, more, failing⟩ := rest
    exact ⟨round :: rounds, between, failed, .next starts goes fine more, failing⟩

theorem performed_drain {nested : κ → Check κ σ Unit} {fuel : Nat} {s t : Checker κ σ}
    {outcome : Except Halt Unit} (firing : s.firing = true)
    (ran : (drain (plannedClient tasks nested) fuel).run s = (outcome, t))
    (returned : outcome ≠ .error .exhausted) : Performed tasks s outcome t := by
  induction fuel generalizing s with
  | zero =>
    cases queue : s.queue with
    | nil =>
      rw [run_drain_nil queue] at ran
      obtain ⟨rfl, rfl⟩ := Prod.mk.inj ran
      exact ⟨[], .none s, queue⟩
    | cons work rest =>
      have unpaid : (drain (plannedClient tasks nested) 0).run s = (.error .exhausted, s) := by
        simp [drain, queue]
      rw [unpaid] at ran
      exact absurd (Prod.mk.inj ran).1.symm returned
  | succ fuel ih =>
    cases queue : s.queue with
    | nil =>
      rw [run_drain_nil queue] at ran
      obtain ⟨rfl, rfl⟩ := Prod.mk.inj ran
      exact ⟨[], .none s, queue⟩
    | cons work rest =>
      cases budget : s.budget with
      | zero =>
        rw [run_drain_broke queue budget] at ran
        exact absurd (Prod.mk.inj ran).1.symm returned
      | succ left =>
        rw [run_drain_cons queue budget, run_bind] at ran
        rcases performed : (perform (plannedClient tasks nested) work).run
            { s with queue := rest, budget := left } with ⟨halt | done, between⟩
        · obtain ⟨handed, goes⟩ := Round.exists_performs tasks nested work performed firing
          rw [performed] at ran
          obtain ⟨rfl, rfl⟩ := Prod.mk.inj ran
          exact ⟨[], s, _, .none s, ⟨queue, budget, rfl⟩, goes, rfl, rfl⟩
        · obtain ⟨handed, goes⟩ := Round.exists_performs tasks nested work performed firing
          rw [performed] at ran
          exact .next ⟨queue, budget, rfl⟩ goes rfl (ih goes.queue.2 ran)

/-- The state in which a wave begins its rounds. -/
def started (s : Checker κ σ) (work : List (Deferral κ)) : Checker κ σ :=
  { ((enqueue work).run s).2 with firing := true }

/-- What a wave that is given this work does. -/
def Flat (tasks : κ → Plan κ σ Unit) (s : Checker κ σ) (work : List (Deferral κ))
    (outcome : Except Halt Unit) (t : Checker κ σ) : Prop :=
  t.firing = false ∧ t.queue = [] ∧
    match outcome with
    | .ok _ => ∃ rounds last, Rounds tasks (started s work) rounds last ∧
        t = { last with firing := false } ∧
        rounds.map (·.work) = work ++ rounds.flatMap (·.handed)
    | .error halt => ∃ rounds between, ∃ failed : Round κ σ, ∃ abandoned,
        Rounds tasks (started s work) rounds between ∧ failed.Starts between ∧ failed.Performs tasks ∧
        failed.outcome = .error halt ∧ t = { failed.after with firing := false, queue := [] } ∧
        rounds.map (·.work) ++ failed.work :: abandoned =
          work ++ rounds.flatMap (·.handed) ++ failed.handed

theorem run_runWave (client : κ → Check κ σ Unit) (work : List (Deferral κ)) {s : Checker κ σ}
    (idle : s.firing = false) :
    (runWave client work).run s = match (drain client s.budget).run (started s work) with
      | (.ok done, t) => (.ok done, endWave t none)
      | (.error halt, t) => (.error halt, endWave t (some halt)) := by
  have same : (runWave client work).run s = (do
      try drain client s.budget
      catch halt =>
        modify fun state => endWave state (some halt)
        throw halt
      modify fun state => endWave state none : Check κ σ Unit).run (started s work) := by
    cases work <;> simp [runWave, enqueue, note, started, idle]
  rw [same, run_bind, run_tryCatch]
  rcases (drain client s.budget).run (started s work) with ⟨halt | done, t⟩ <;> rfl

theorem queue_started (s : Checker κ σ) (work : List (Deferral κ)) :
    (started s work).queue = s.queue ++ work := by
  cases work <;> simp [started, enqueue, note]

theorem flat_runWave {nested : κ → Check κ σ Unit} {work : List (Deferral κ)} {s : Checker κ σ}
    (idle : s.firing = false) (empty : s.queue = [])
    (returned : ((runWave (plannedClient tasks nested) work).run s).1 ≠ .error .exhausted) :
    Flat tasks s work ((runWave (plannedClient tasks nested) work).run s).1
      ((runWave (plannedClient tasks nested) work).run s).2 := by
  rw [run_runWave _ _ idle] at returned ⊢
  have given : (started s work).queue = work := by simp [queue_started, empty]
  rcases ran : (drain (plannedClient tasks nested) s.budget).run (started s work) with
    ⟨halt | done, t⟩
  · simp only [ran] at returned ⊢
    obtain ⟨rounds, between, failed, goes, starts, fails, halted, rfl⟩ :=
      performed_drain rfl ran returned
    have cleared : endWave failed.after (some halt) =
        { failed.after with firing := false, queue := [] } := by
      cases halt <;> simp_all [endWave]
    have order := queue_of_rounds goes
    rw [given, starts.1] at order
    refine ⟨by rw [cleared], by rw [cleared], rounds, between, failed,
      failed.before.queue ++ failed.handed, goes, starts, fails, halted, cleared, ?_⟩
    simp [order]
  · obtain ⟨rounds, goes, done⟩ := performed_drain rfl ran (by simp)
    have order := queue_of_rounds goes
    rw [given, done, List.append_nil] at order
    exact ⟨rfl, done, rounds, t, goes, rfl, order.symm⟩

/-- What holds of every wave that the plan starts, as long as the waves return. -/
def Calls (client : κ → Check κ σ Unit)
    (holds : Checker κ σ → List (Deferral κ) → Except Halt Unit → Checker κ σ → Prop) :
    Plan κ σ Unit → Checker κ σ → Prop
  | .finish _, _ => True
  | .look next, s => Calls client holds (next s) s
  | .record change next, s => Calls client holds next (s.recording (change s))
  | .request operation next, s =>
    match operation.carryOut.run s with
    | (.error halt, t) => Calls client holds (next (.error halt)) t
    | (.ok work, t) =>
      ((runWave client work).run t).1 ≠ .error .exhausted →
        holds t work ((runWave client work).run t).1 ((runWave client work).run t).2 ∧
          Calls client holds (next ((runWave client work).run t).1) ((runWave client work).run t).2

theorem calls_flat (nested : κ → Check κ σ Unit) (later : Plan κ σ Unit) {s : Checker κ σ}
    (idle : s.firing = false) (empty : s.queue = []) :
    Calls (plannedClient tasks nested) (Flat tasks) later s := by
  induction later generalizing s with
  | finish outcome => exact trivial
  | look next ih => exact ih s idle empty
  | record change next ih => exact ih idle empty
  | request operation next ih =>
    obtain ⟨scopes, journal, touched⟩ := operation.touches_carryOut s
    rw [Calls]
    rcases ran : operation.carryOut.run s with ⟨halt | work, t⟩
    · obtain rfl : t = _ := by simpa [ran] using touched
      exact ih _ idle empty
    · obtain ⟨idle, empty⟩ : t.firing = false ∧ t.queue = [] := by
        obtain rfl : t = _ := by simpa [ran] using touched
        exact ⟨idle, empty⟩
      intro returned
      have flat := flat_runWave idle empty returned
      exact ⟨flat, ih _ flat.1 flat.2.1⟩

/-- Tasks are plans, which may ask for any changes of the scopes; the waves that these start in
turn would perform tasks in any other way (`nested`), but perform nothing. -/
theorem runWave_flat (tasks : κ → Plan κ σ Unit) (nested : κ → Check κ σ Unit)
    (work : List (Deferral κ)) (s : Checker κ σ) (idle : s.firing = false) (empty : s.queue = [])
    (returned : ((runWave (plannedClient tasks nested) work).run s).1 ≠ .error .exhausted) :
    Flat tasks s work ((runWave (plannedClient tasks nested) work).run s).1
        ((runWave (plannedClient tasks nested) work).run s).2 ∧
      ∀ later, Calls (plannedClient tasks nested) (Flat tasks) later
        ((runWave (plannedClient tasks nested) work).run s).2 := by
  have flat := flat_runWave idle empty returned
  exact ⟨flat, fun later => calls_flat nested later flat.1 flat.2.1⟩

/-- One task binds `y` again, and another one waits for that and fails. -/
def cascade : Bool → Plan Bool Unit Unit
  | true => .request (.update 0 ⟨"y", .number, false, false⟩ .nowhere) .finish
  | false => .finish (.error .dangling)

/-- The name `y` is bound, and somebody waits for it. -/
def poised : Checker Bool Unit :=
  (Operation.carryOutAll [.define 0 ⟨"y", .pending "x", false, false⟩ .nowhere,
    .await 0 "y" (.client false) .nowhere] (Checker.initial () 5)).2

theorem cascade_flat :
    let ran := (runWave (plannedClient cascade fun _ => pure ())
      [.client true, .client false, .client true]).run poised
    poised.firing = false ∧ poised.queue = [] ∧ ran.1 = .error .dangling ∧
      Flat cascade poised [.client true, .client false, .client true] ran.1 ran.2 := by
  intro ran
  have failed : ran.1 = .error .dangling := by rfl
  exact ⟨rfl, rfl, failed, (runWave_flat cascade (fun _ => pure ())
    [.client true, .client false, .client true] poised rfl rfl (by simp [ran, failed])).1⟩

end Check

end Hoist
