import Hoist.Proofs.Check.Small

/-!
Runs that differ in their budget. A run whose budget is used up stops between two steps, and a run
with a larger budget comes through the state in which it has stopped. Where runs lead to is said by a
relation between states, their course. A step `Continues` along a course if all states in which it can
be left are on it, whatever the budget is, those with a smaller budget before those with a larger one.
Whether some budget is large enough may depend on what waves do.

Main statements: one step after the other continues if each of them does (`Continues.bind`), and so
do steps that cost nothing (`Unmetered.continues`).
-/
namespace Hoist

/-- The checker with another budget. -/
def Checker.funded {κ σ : Type} (s : Checker κ σ) (budget : Nat) : Checker κ σ :=
  { s with budget }

namespace Check

variable {κ σ α β : Type}

/-- What comes of the step, and the state in which the checker is left. -/
def Concludes (step : Check κ σ α) (s : Checker κ σ) (outcome : Except Halt α)
    (t : Checker κ σ) : Prop :=
  @Eq (Except Halt α × Checker κ σ) (step.run s) (outcome, t)

/-- The step stops because the budget is used up. -/
def Stops (step : Check κ σ α) (s t : Checker κ σ) : Prop :=
  @Eq (Except Halt α × Checker κ σ) (step.run s) (.error .exhausted, t)

/-- The step leaves the checker in this state, at its end or for want of a budget. -/
def Leaves (step : Check κ σ α) (s t : Checker κ σ) : Prop :=
  Stops step s t ∨ ∃ value, Ends step s value t

theorem stops_bind {first : Check κ σ α} {next : α → Check κ σ β} {s t : Checker κ σ} :
    Stops (first >>= next) s t ↔
      Stops first s t ∨ ∃ value m, Ends first s value m ∧ Stops (next value) m t := by
  unfold Stops Ends
  rw [run_bind]
  rcases first.run s with ⟨halt | value, m⟩ <;> simp

theorem leaves_bind {first : Check κ σ α} {next : α → Check κ σ β} {s t : Checker κ σ}
    (leaves : Leaves (first >>= next) s t) :
    Stops first s t ∨ ∃ value m, Ends first s value m ∧ Leaves (next value) m t := by
  rcases leaves with stops | ⟨result, ends⟩
  · rcases stops_bind.1 stops with stops | ⟨value, m, ends, stops⟩
    · exact .inl stops
    · exact .inr ⟨value, m, ends, .inl stops⟩
  · obtain ⟨value, m, ends, rest⟩ := ends_bind.1 ends
    exact .inr ⟨value, m, ends, .inr ⟨result, rest⟩⟩

theorem Ends.not_stops {step : Check κ σ α} {value : α} {s t u : Checker κ σ}
    (ends : Ends step s value t) : ¬Stops step s u := by
  intro stops
  cases ends.symm.trans stops

theorem stops_tick {s t : Checker κ σ} : Stops tick s t ↔ s.budget = 0 ∧ t = s := by
  unfold Stops tick
  rw [run_bind, run_get]
  cases budget : s.budget <;> simp [budget, eq_comm]

/-- A relation between states of a run, from earlier ones to later ones. -/
class Course (R : Checker κ σ → Checker κ σ → Prop) : Prop where
  trans {s m t : Checker κ σ} : R s m → R m t → R s t
  funded (s : Checker κ σ) (budget : Nat) : R s (s.funded budget)

variable {finite : Prop} {R : Checker κ σ → Checker κ σ → Prop} {s m t base : Checker κ σ}

/-- The step leads on from `base`, when it is done in the state `s`. -/
structure Continues (finite : Prop) (R : Checker κ σ → Checker κ σ → Prop) (step : Check κ σ α)
    (s base : Checker κ σ) : Prop where
  leaves : ∀ budget {t}, Leaves step (s.funded budget) t → R base t
  /-- A larger budget goes on from where a smaller one has stopped. -/
  further : ∀ budget more {t u}, Stops step (s.funded budget) t →
    Leaves step (s.funded (budget + more)) u → R t u
  /-- A larger budget makes no difference to a step that ends or is refused. -/
  paid : ∀ budget more {outcome t}, outcome ≠ .error .exhausted →
    Concludes step (s.funded budget) outcome t →
    Concludes step (s.funded (budget + more)) outcome (t.funded (t.budget + more))
  finishes : finite → ∃ enough, ∀ budget, enough ≤ budget → ∀ t, ¬Stops step (s.funded budget) t

theorem Continues.of_ends {step : Check κ σ α} {value : α}
    (continues : Continues finite R step s base) (ends : Ends step s value t) : R base t :=
  continues.leaves s.budget (.inr ⟨value, ends⟩)

theorem Continues.mono {S : Checker κ σ → Checker κ σ → Prop} {step : Check κ σ α}
    {start : Checker κ σ} {bounded : Prop} (continues : Continues finite R step s base)
    (mono : ∀ {t u}, R t u → S t u) (since : ∀ {t}, R base t → S start t)
    (limit : bounded → finite) : Continues bounded S step s start where
  leaves budget _ leaves := since (continues.leaves budget leaves)
  further budget more _ _ stops leaves := mono (continues.further budget more stops leaves)
  paid := continues.paid
  finishes limited := continues.finishes (limit limited)

theorem Leaves.congr {step other : Check κ σ α} {s s' t : Checker κ σ}
    (leaves : Leaves step s t) (same : step.run s = other.run s') : Leaves other s' t :=
  leaves.imp same.symm.trans fun ⟨value, ends⟩ => ⟨value, same.symm.trans ends⟩

/-- Steps that run alike from a state continue alike. -/
theorem Continues.congr {step other : Check κ σ α} (continues : Continues finite R other s base)
    (same : ∀ budget, step.run (s.funded budget) = other.run (s.funded budget)) :
    Continues finite R step s base where
  leaves budget _ leaves := continues.leaves budget (leaves.congr (same budget))
  further budget more _ _ stops leaves :=
    continues.further budget more ((same budget).symm.trans stops) (leaves.congr (same _))
  paid budget more _ _ clear concludes :=
    (same _).trans (continues.paid budget more clear ((same budget).symm.trans concludes))
  finishes limited := by
    obtain ⟨enough, finishes⟩ := continues.finishes limited
    exact ⟨enough, fun budget large t stops => finishes budget large t ((same budget).symm.trans stops)⟩

/-- What follows may rely on how the first step ended. -/
theorem Continues.bind [Course R] {first : Check κ σ α} {next : α → Check κ σ β}
    (isFirst : Continues finite R first s base)
    (isNext : ∀ budget value m, Ends first (s.funded budget) value m → R base m →
      Continues finite R (next value) m m) : Continues finite R (first >>= next) s base where
  leaves budget t leaves := by
    rcases leaves_bind leaves with stops | ⟨value, m, ends, rest⟩
    · exact isFirst.leaves budget (.inl stops)
    · have first := isFirst.leaves budget (.inr ⟨value, ends⟩)
      exact Course.trans first ((isNext budget value m ends first).leaves m.budget rest)
  further budget more t u stops leaves := by
    rcases stops_bind.1 stops with stops | ⟨value, m, ends, stops⟩
    · rcases leaves_bind leaves with stops' | ⟨value, m, ends, rest⟩
      · exact isFirst.further budget more stops (.inl stops')
      · have first := isFirst.leaves _ (.inr ⟨value, ends⟩)
        exact Course.trans (isFirst.further budget more stops (.inr ⟨value, ends⟩))
          ((isNext (budget + more) value m ends first).leaves m.budget rest)
    · -- The first step ends in both runs, with the difference between the budgets left over.
      have ends' : Ends first _ _ _ := isFirst.paid budget more (by simp) ends
      rcases leaves_bind leaves with stops' | ⟨other, m', ends'', rest⟩
      · exact absurd stops' ends'.not_stops
      · obtain ⟨rfl, rfl⟩ := ends'.unique ends''
        have first := isFirst.leaves budget (.inr ⟨value, ends⟩)
        exact (isNext budget value m ends first).further m.budget more stops rest
  paid budget more outcome t clear concludes := by
    unfold Concludes at concludes ⊢
    rw [run_bind] at concludes ⊢
    rcases isRun : first.run (s.funded budget) with ⟨halt | value, m⟩
    · rw [isRun] at concludes
      cases concludes
      rw [isFirst.paid budget more (by simpa using clear) isRun]
    · rw [isRun] at concludes
      rw [isFirst.paid budget more (by simp) isRun]
      have first := isFirst.leaves budget (.inr ⟨value, isRun⟩)
      exact (isNext budget value m isRun first).paid m.budget more clear concludes
  finishes limited := by
    obtain ⟨enough, finishes⟩ := isFirst.finishes limited
    rcases isRun : first.run (s.funded enough) with ⟨halt | value, m⟩
    · refine ⟨enough, fun budget large t stops => ?_⟩
      obtain ⟨more, rfl⟩ := Nat.exists_eq_add_of_le large
      rcases stops_bind.1 stops with stops | ⟨value, m', ends, -⟩
      · exact finishes _ large t stops
      · have clear : (.error halt : Except Halt α) ≠ .error .exhausted := fun same =>
          finishes enough le_rfl m (by rwa [same] at isRun)
        cases (isFirst.paid enough more clear isRun).symm.trans ends
    · have leads := isFirst.leaves enough (.inr ⟨value, isRun⟩)
      obtain ⟨rest, ends⟩ := (isNext enough value m isRun leads).finishes limited
      refine ⟨enough + rest, fun budget large t stops => ?_⟩
      obtain ⟨more, rfl⟩ := Nat.exists_eq_add_of_le (Nat.le_of_add_right_le large)
      have ends' : Ends first _ _ _ := isFirst.paid enough more (by simp) isRun
      rcases stops_bind.1 stops with stops | ⟨other, m', ends'', stops⟩
      · exact finishes _ (Nat.le_add_right _ _) t stops
      · obtain ⟨rfl, rfl⟩ := ends'.unique ends''
        exact ends _ (by omega) t stops

/-! Steps that cost nothing. -/

theorem Unmetered.run_funded {step : Check κ σ α} (unmetered : Unmetered step) (s : Checker κ σ)
    (budget : Nat) :
    step.run (s.funded budget) = ((step.run s).1, (step.run s).2.funded budget) := by
  have stored : (step.run s).2.store = s.store := by
    have even := unmetered.even s s.budget s.store []
    rw [Checker.over_same] at even
    exact congrArg (·.2.store) even
  have even := unmetered.even s budget s.store []
  rw [← stored] at even
  simpa [Checker.over, Checker.funded, stored] using even

theorem Unmetered.not_stops {step : Check κ σ α} (unmetered : Unmetered step)
    {s t : Checker κ σ} : ¬Stops step s t :=
  fun stops => unmetered.paid s t stops

theorem Unmetered.ends_funded {step : Check κ σ α} (unmetered : Unmetered step)
    {s t : Checker κ σ} {value : α} {budget : Nat} :
    Ends step (s.funded budget) value t ↔ ∃ m, Ends step s value m ∧ t = m.funded budget := by
  unfold Ends
  rw [unmetered.run_funded s budget]
  rcases step.run s with ⟨halt | found, m⟩
  · simp
  · simp [eq_comm]

/-- What comes after a step that costs nothing is looked at in the run from `s` itself. -/
theorem Unmetered.continues {first : Check κ σ α} {next : α → Check κ σ β}
    (unmetered : Unmetered first)
    (isNext : ∀ value m, Ends first s value m → Continues finite R (next value) m base) :
    Continues finite R (first >>= next) s base where
  leaves budget t leaves := by
    rcases leaves_bind leaves with stops | ⟨value, m, ends, rest⟩
    · exact absurd stops unmetered.not_stops
    · obtain ⟨m, here, rfl⟩ := unmetered.ends_funded.1 ends
      exact (isNext value m here).leaves budget rest
  further budget more t u stops leaves := by
    rcases stops_bind.1 stops with stops | ⟨value, m, ends, stops⟩
    · exact absurd stops unmetered.not_stops
    · obtain ⟨m, here, rfl⟩ := unmetered.ends_funded.1 ends
      rcases leaves_bind leaves with stops' | ⟨other, m', ends', rest⟩
      · exact absurd stops' unmetered.not_stops
      · obtain ⟨m', here', rfl⟩ := unmetered.ends_funded.1 ends'
        obtain ⟨rfl, rfl⟩ := here.unique here'
        exact (isNext value m here).further budget more stops rest
  paid budget more outcome t clear concludes := by
    unfold Concludes at concludes ⊢
    rw [run_bind, unmetered.run_funded] at concludes ⊢
    rcases isRun : first.run s with ⟨halt | value, m⟩
    · rw [isRun] at concludes
      cases concludes
      rfl
    · rw [isRun] at concludes
      exact (isNext value m isRun).paid budget more clear concludes
  finishes limited := by
    rcases isRun : first.run s with ⟨halt | value, m⟩
    · refine ⟨0, fun budget _ t stops => ?_⟩
      rcases stops_bind.1 stops with stops | ⟨value, m, ends, -⟩
      · exact unmetered.not_stops stops
      · obtain ⟨m, here, -⟩ := unmetered.ends_funded.1 ends
        cases isRun.symm.trans here
    · obtain ⟨enough, finishes⟩ := (isNext value m isRun).finishes limited
      refine ⟨enough, fun budget large t stops => ?_⟩
      rcases stops_bind.1 stops with stops | ⟨value, m, ends, stops⟩
      · exact unmetered.not_stops stops
      · obtain ⟨m, here, rfl⟩ := unmetered.ends_funded.1 ends
        cases isRun.symm.trans here
        exact finishes budget large t stops

/-- Whether a step ends is not for the budget to say. -/
theorem continues_of_even [Course R] {step : Check κ σ α} {outcome : Except Halt α}
    (even : ∀ budget, Concludes step (s.funded budget) outcome (t.funded budget)) (leads : R base t)
    (clear : finite → outcome ≠ .error .exhausted) : Continues finite R step s base where
  leaves budget u leaves := by
    rcases leaves with stops | ⟨value, ends⟩
    · cases (even budget).symm.trans stops
      exact Course.trans leads (Course.funded t budget)
    · cases (even budget).symm.trans ends
      exact Course.trans leads (Course.funded t budget)
  further budget more u v stops leaves := by
    cases (even budget).symm.trans stops
    rcases leaves with stops | ⟨value, ends⟩
    · cases (even _).symm.trans stops
      exact Course.funded (t.funded budget) (budget + more)
    · cases (even _).symm.trans ends
  paid budget more _ u _ concludes := by
    cases (even budget).symm.trans concludes
    exact even _
  finishes limited := ⟨0, fun budget _ u stops => by
    cases (even budget).symm.trans stops
    exact clear limited rfl⟩

theorem continues_pure [Course R] (value : α) (leads : R base s) :
    Continues finite R (pure value) s base :=
  continues_of_even (fun _ => run_pure _ _) leads fun _ => by simp

theorem continues_throw [Course R] {halt : Halt} (leads : R base s) (clear : halt ≠ .exhausted) :
    Continues finite R (throw halt : Check κ σ α) s base :=
  continues_of_even (fun _ => run_throw _ _) leads fun _ => by simpa using clear

theorem Unmetered.continues_end [Course R] {step : Check κ σ α} (unmetered : Unmetered step)
    (leads : ∀ value t, Ends step s value t → R base t) : Continues finite R step s base := by
  rw [← bind_pure step]
  exact unmetered.continues fun value t ends => continues_pure value (leads value t ends)

theorem continues_tick [Course R] (leads : R base s) : Continues finite R tick s base where
  leaves budget t leaves := by
    rcases leaves with stops | ⟨value, ends⟩
    · obtain ⟨-, rfl⟩ := stops_tick.1 stops
      exact Course.trans leads (Course.funded s budget)
    · obtain ⟨left, -, rfl⟩ := ends_tick.1 ends
      exact Course.trans leads (Course.funded s left)
  further budget more t u stops leaves := by
    obtain ⟨-, rfl⟩ := stops_tick.1 stops
    rcases leaves with stops' | ⟨value, ends⟩
    · obtain ⟨-, rfl⟩ := stops_tick.1 stops'
      exact Course.funded (s.funded budget) (budget + more)
    · obtain ⟨left, -, rfl⟩ := ends_tick.1 ends
      exact Course.funded (s.funded budget) left
  paid budget more outcome t clear concludes := by
    rcases outcome with halt | done
    · cases budget <;> simp_all [Concludes, tick, Checker.funded]
    · obtain ⟨left, budget, rfl⟩ := ends_tick.1 concludes
      refine ends_tick.2 ⟨left + more, ?_, rfl⟩
      simp only [Checker.funded] at budget ⊢
      omega
  finishes _ := ⟨1, fun budget large t stops => by
    have broke : budget = 0 := (stops_tick.1 stops).1
    omega⟩

/-! Waves, and what is left of them after each deferral. -/

section Drain

variable {client : κ → Check κ σ Unit} {s : Checker κ σ} {work : Deferral κ}
  {rest : List (Deferral κ)} {left fuel : Nat}

/-- Performs what is in the queue, as long as the budget lasts. -/
def drainAll (client : κ → Check κ σ Unit) : Check κ σ Unit := do
  drain client (← get).budget

theorem run_drain_nil (queue : s.queue = []) : (drain client fuel).run s = (.ok (), s) := by
  cases fuel <;> simp [drain, queue]

theorem run_drain_broke (queue : s.queue = work :: rest) (budget : s.budget = 0) :
    (drain client fuel).run s = (.error .exhausted, s) := by
  cases fuel <;> simp [drain, tick, queue, budget]

theorem run_drain_cons (queue : s.queue = work :: rest) (budget : s.budget = left + 1) :
    (drain client (fuel + 1)).run s = (perform client work >>= fun _ => drain client fuel).run
      { s with queue := rest, budget := left } := by
  simp [drain, tick, queue, budget]

theorem run_drainAll (client : κ → Check κ σ Unit) (s : Checker κ σ) :
    (drainAll client).run s = (drain client s.budget).run s := by
  rw [drainAll, run_bind, run_get]

/-- A wave goes on from where its first deferral ends, unless that is refused. -/
theorem run_drainAll_cons (clients : ∀ task, Small (client task)) (queue : s.queue = work :: rest)
    (left : Nat) : (drainAll client).run (s.funded (left + 1)) =
      match (perform client work).run { s with queue := rest } with
      | (.ok _, m) => (drainAll client).run (m.funded left)
      | (.error halt, m) => (.error halt, m.funded left) := by
  have performs := (small_perform clients work).toUnmetered.run_funded { s with queue := rest } left
  have starts : (drain client (left + 1)).run (s.funded (left + 1)) =
      (perform client work >>= fun _ => drain client left).run
        (Checker.funded { s with queue := rest } left) := run_drain_cons queue rfl
  refine (run_drainAll client _).trans (starts.trans ?_)
  rw [run_bind, performs]
  rcases (perform client work).run { s with queue := rest } with ⟨halt | done, m⟩
  · rfl
  · exact (run_drainAll client (m.funded left)).symm

theorem run_drainAll_broke (queue : s.queue = work :: rest) :
    (drainAll client).run (s.funded 0) = (.error .exhausted, s.funded 0) :=
  (run_drainAll client _).trans (run_drain_broke queue rfl)

/-- Performs the queue and puts an end to the wave. -/
def finishWave (client : κ → Check κ σ Unit) : Check κ σ Unit := do
  try drainAll client
  catch halt =>
    modify fun state => endWave state (some halt)
    throw halt
  modify fun state => endWave state none

end Drain

end Check

end Hoist
