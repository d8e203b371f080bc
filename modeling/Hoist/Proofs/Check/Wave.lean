import Hoist.Proofs.Check.Redo

/-!
Waves. Performing a deferral is made of moves, and so is a whole wave, which ends with an empty
queue.

Main statement: what a wave does to a sound desk (`movesTo_runWave`).
-/
namespace Hoist.Check

open Desk

variable {σ : Type} {s t : Checker Empty σ} {hand : List (Deferral Empty)} {id : DraftId}
  {scope : ScopeId} {done : Unit}

/-- What is not on the desk: the store stays, and steps have to be paid for. -/
structure Beside (s t : Checker Empty σ) : Prop where
  store : t.store = s.store
  firing : t.firing = s.firing
  budget : t.budget ≤ s.budget

theorem Beside.refl (s : Checker Empty σ) : Beside s s :=
  ⟨rfl, rfl, Nat.le_refl _⟩

theorem Beside.trans {m : Checker Empty σ} (first : Beside s m) (second : Beside m t) :
    Beside s t :=
  ⟨second.store.trans first.store, second.firing.trans first.firing,
    Nat.le_trans second.budget first.budget⟩

theorem Redraws.beside (redraws : Redraws s t) : Beside s t := by
  obtain ⟨_, _, _, rfl⟩ := redraws
  exact ⟨rfl, rfl, Nat.le_refl _⟩

theorem Redraws.queue (redraws : Redraws s t) : t.queue = s.queue := by
  obtain ⟨_, _, _, rfl⟩ := redraws
  rfl

/-- To settle work in a wave that is going on is to queue it. -/
theorem movesTo_enqueue {m : Checker Empty σ} {work : List (Deferral Empty)} {d : Desk}
    (moves : MovesTo d ((queued m work).desk hand))
    (settles : Ends (enqueue work) m done t ∨ work = [] ∧ t = m) :
    MovesTo d (t.desk hand) ∧ Beside m t ∧ t.drafts = m.drafts := by
  rcases settles with ends | ⟨rfl, rfl⟩
  · obtain rfl := ends_enqueue.1 ends
    exact ⟨moves, ⟨rfl, rfl, Nat.le_refl _⟩, rfl⟩
  · exact ⟨by simpa [queued] using moves, .refl t, rfl⟩

theorem Assignment.Checked.faithful {a : Assignment} {awaited : List String} {provided : Ty → Prop}
    (checked : a.Checked awaited provided) : a.target.Faithful ∧ a.value.Faithful := by
  obtain ⟨view, target, value, _, _, faithful, faithful', lookTarget, lookValue, _⟩ := checked
  have onTarget := Target.resolve_faithful view faithful
  rw [lookTarget] at onTarget
  exact ⟨onTarget, Expr.Seen.faithful ⟨value, view, faithful', lookValue⟩⟩

theorem movesTo_resume {name : String} (sound : (s.desk hand).Sound)
    (ends : Ends (resume enqueue id name) s done t) :
    MovesTo (s.desk hand) (t.desk hand) ∧ Beside s t ∧
      ∀ scope a awaited, t.drafts[id]? = some ⟨scope, .assignment a awaited⟩ →
        a.target.root = name → name ∈ awaited → (t.desk hand).Waiting id scope name := by
  simp only [resume, ends_bind, ends_getDraft, and_assoc, exists_and_left, exists_eq_left] at ends
  obtain ⟨⟨scope, work⟩, found, ends⟩ := ends
  have checked := sound.drafts id _ found
  -- Only an assignment can still have a name it waits for.
  have idle : ∀ {t : Checker Empty σ}, MovesTo (s.desk hand) (t.desk hand) →
      (∀ root bare op, work.head ≠ .assignment root bare op) →
      ∀ scope a awaited, t.drafts[id]? = some ⟨scope, .assignment a awaited⟩ →
        a.target.root = name → name ∈ awaited → (t.desk hand).Waiting id scope name := by
    intro t moves other scope a awaited later
    obtain ⟨after, found', redrafts⟩ := moves.evolves.draft id _ found
    obtain rfl : after = _ := Option.some.inj (found'.symm.trans later)
    exact absurd redrafts.head.symm (other _ _ _)
  cases work with
  | declaration e =>
    obtain ⟨m, work, moves, redraws, settles⟩ := movesTo_redeclare sound found ends
    obtain ⟨moves, beside, _⟩ := movesTo_enqueue moves (.inl settles)
    exact ⟨moves, redraws.beside.trans beside, idle moves (by simp [Work.head])⟩
  | evaluation e =>
    obtain ⟨type, seen⟩ := checked
    obtain ⟨_, _, _, moves, redraws, _⟩ := movesTo_evaluation sound (takes_of_found found)
      (fun draft here => (Option.some.inj (found.symm.trans here)).symm) seen.faithful ends
    exact ⟨moves, redraws.beside, idle moves (by simp [Work.head])⟩
  | returns r =>
    obtain ⟨body, result, around, kept, set, returned⟩ := checked
    have faithful : ∀ value, r.value = some value → value.Faithful := by
      intro value given
      rw [given] at returned
      obtain ⟨type, seen, _⟩ := returned
      exact seen.faithful
    have fresh : ∀ other, s.scopes.functionBody scope = .ok (some other) →
        s.scopes.result? other = some .unannotated → ∀ h ∈ s.signatures, h.body ≠ other := by
      intro other around' unset
      obtain rfl : body = other := by simpa using around.symm.trans around'
      exact absurd (Option.some.inj (kept.symm.trans unset)) set
    obtain ⟨_, _, _, m, work, _, _, moves, redraws, _, _, settles⟩ :=
      movesTo_return sound (takes_of_found found)
        (fun draft here => (Option.some.inj (found.symm.trans here)).symm) found faithful fresh ends
    obtain ⟨moves, beside, _⟩ := movesTo_enqueue moves settles
    exact ⟨moves, redraws.beside.trans beside, idle moves (by simp [Work.head])⟩
  | assignment a awaited =>
    simp only [ends_bind, ends_setDraft, exists_eq_left] at ends
    obtain ⟨_, ends⟩ := ends
    obtain ⟨faithful, faithful'⟩ := Assignment.Checked.faithful checked.1
    obtain ⟨_, _, target, _, _, later, _, _, look, _, moves, redraws, drafts, waits, _⟩ :=
      movesTo_assignment sound ((takes_of_found found).set _)
        (fun draft here => ⟨awaited, (Option.some.inj (found.symm.trans here)).symm⟩) faithful
        faithful' (fun other mem => ⟨awaited, found, (List.mem_filter.1 mem).1⟩) ends
    have beside := redraws.beside
    refine ⟨moves, ⟨beside.store, beside.firing, beside.budget⟩, ?_⟩
    intro scope' b later' found' root mem
    have inside := (List.getElem?_eq_some_iff.1 found).1
    rw [drafts, List.set_set, List.getElem?_set_self inside] at found'
    simp only [Option.some.injEq, Draft.mk.injEq, Work.assignment.injEq] at found'
    obtain ⟨rfl, rfl, rfl⟩ := found'
    have same : a.target.root = name := (target_of_look look).2.1.symm.trans root
    rw [same] at waits
    -- The name it was resumed for has been struck off the list, so it waits anew.
    rcases waits mem with struck | waits
    · simp at struck
    · exact waits

variable {client : Empty → Check Empty σ Unit}

/-- Performing what is inside of the work in hand. -/
theorem movesTo_perform_inside {outer work : Deferral Empty} (core : work.core = outer.core)
    (sound : (s.desk [outer]).Sound) (ends : Ends (perform client work) s done t) :
    MovesTo (s.desk [outer]) (t.desk [outer]) ∧ Beside s t ∧
      (∀ root name position rest, work = .hoisted root name position rest →
        ∃ binding, s.scopes.binding? root name = some binding ∧
          binding.type.isFunction = true) ∧
      ∀ id name scope a awaited, work = .resume id name →
        t.drafts[id]? = some ⟨scope, .assignment a awaited⟩ → a.target.root = name →
        name ∈ awaited → (t.desk [outer]).Waiting id scope name := by
  induction work generalizing s with
  | client task => exact task.elim
  | resume id name =>
    obtain ⟨moves, beside, spent⟩ := movesTo_resume sound ends
    refine ⟨moves, beside, by simp, ?_⟩
    intro _ _ scope a awaited same
    cases same
    exact spent scope a awaited
  | conclude k =>
    obtain ⟨m, work, moves, ⟨_, _, _, rfl⟩, settles⟩ :=
      movesTo_conclude sound (.inl (List.mem_cons_self)) core.symm ends
    obtain ⟨moves, beside, _⟩ := movesTo_enqueue moves settles
    exact ⟨moves, ⟨beside.store, beside.firing, beside.budget⟩, by simp, by simp⟩
  | hoisted root name position rest ih =>
    simp only [perform, ends_bind, ends_checkHoisted, and_assoc, exists_and_left,
      exists_eq_left] at ends
    obtain ⟨function, _, ends⟩ := ends
    obtain ⟨moves, beside, _, _⟩ := ih core sound ends
    refine ⟨moves, beside, ?_, by simp⟩
    intro _ _ _ _ same
    cases same
    exact function

theorem movesTo_perform {work : Deferral Empty} (sound : (s.desk [work]).Sound)
    (ends : Ends (perform client work) s done t) :
    MovesTo (s.desk [work]) (t.desk []) ∧ Beside s t := by
  obtain ⟨moves, beside, function, spent⟩ := movesTo_perform_inside rfl sound ends
  refine ⟨moves.trans ((Move.pop rfl ?_ ?_).movesTo moves.sound), beside⟩
  · rintro name id position rfl
    exact rootFunction_mono moves.evolves.binding name (function _ _ _ _ rfl)
  · intro id scope a awaited found same mem
    exact spent id _ scope a awaited same found rfl mem

theorem movesTo_drain {fuel : Nat} (ends : Ends (drain client fuel) s done t)
    (sound : (s.desk []).Sound) :
    MovesTo (s.desk []) (t.desk []) ∧ Beside s t ∧ t.queue = [] := by
  induction fuel generalizing s with
  | zero =>
    simp only [drain, ends_bind, ends_get, and_assoc, exists_and_left, exists_eq_left] at ends
    split at ends
    · simp at ends
    · rename_i empty
      obtain ⟨_, rfl⟩ := ends_pure.1 ends
      exact ⟨.refl sound, .refl t, by simpa using empty⟩
  | succ fuel ih =>
    simp only [drain, ends_bind, ends_get, and_assoc, exists_and_left, exists_eq_left] at ends
    cases queue : s.queue with
    | nil =>
      simp only [queue, ends_pure] at ends
      obtain ⟨_, rfl⟩ := ends
      exact ⟨.refl sound, .refl t, queue⟩
    | cons work rest =>
      simp only [queue, ends_bind, ends_tick, ends_modify, exists_eq_left] at ends
      obtain ⟨_, _, ⟨left, budget, rfl⟩, _, _, between, performs, ends⟩ := ends
      have same : s.desk [] = Checker.desk { s with budget := left, queue := rest } [work] := by
        simp [Checker.desk, queue]
      rw [same] at sound ⊢
      obtain ⟨moves, beside⟩ := movesTo_perform sound performs
      obtain ⟨moves', beside', empty⟩ := ih ends moves.sound
      have all := beside.trans beside'
      refine ⟨moves.trans moves', ⟨all.store, all.firing, ?_⟩, empty⟩
      have paid : t.budget ≤ left := all.budget
      omega

/-- A wave performs what it is given and all that follows from it. -/
theorem movesTo_runWave {work : List (Deferral Empty)} (ends : Ends (runWave client work) s done t)
    (idle : s.firing = false) (sound : ((queued s work).desk []).Sound) :
    MovesTo ((queued s work).desk []) (t.desk []) ∧ Beside s t ∧ t.queue = [] := by
  simp only [runWave, ends_bind, ends_enqueue, ends_get, idle, and_assoc, exists_and_left,
    exists_eq_left, Bool.false_eq_true, ↓reduceIte, ends_modify] at ends
  obtain ⟨_, _, _, between, drains, rfl⟩ := ends
  rw [ends_tryCatch_throw (by simp)] at drains
  simp only [ends_bind, ends_get, and_assoc, exists_and_left, exists_eq_left] at drains
  obtain ⟨moves, beside, empty⟩ := movesTo_drain drains sound
  exact ⟨moves, ⟨beside.store, idle.symm, beside.budget⟩, empty⟩

end Hoist.Check
