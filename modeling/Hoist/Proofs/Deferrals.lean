import Mathlib
import Hoist.Module.Registry
import Hoist.Proofs.Check.Tally

/-!
How many deferrals there are. Whoever waits has as many deferrals as there are names to wait for, in
the scopes and in the queue together: none is lost, and none is made twice.

Main statement: `deferrals_counted`, for every state between two deferrals or statements of a run.
-/
namespace Hoist

/-- A type that may have been found in the look which left the statement as it is. -/
def Work.Found (work : Work) (type : Ty) : Prop :=
  ∃ before view, Work.LookGives view before work [type]

theorem Work.LookGives.one {before after : Work} {view : View} {types : List Ty}
    (looks : before.LookGives view after types) (plain : after.assignment? = none) :
    ∃ type, types = [type] := by
  cases looks with
  | assignment => simp [Work.assignment?] at plain
  | _ => exact ⟨_, rfl⟩

namespace Check

variable {σ : Type} {s t : Checker Empty σ}

/-- A run of the statements of a file comes by a state, between two statements or deferrals. Each of
them is paid for first, so these are the states in which runs end well or, with less of a budget,
stop. -/
def ComesBy (importer : Importer σ) (options : Options) (store : σ) (program : List Stmt)
    (s : Checker Empty σ) : Prop :=
  ∃ budget, Leaves (checkBlock (Env.plain options importer) Checker.root none program)
    (Checker.initial store budget) s

theorem ComesBy.tallied {importer : Importer σ} {options : Options} {store : σ}
    {program : List Stmt} (comes : ComesBy importer options store program s) :
    Tallied False none s := by
  obtain ⟨budget, leaves⟩ := comes
  have madeOfSteps : MadeOfSteps (.loose σ) Checker.root
      (checkBlock (Env.plain options importer) Checker.root none program) :=
    madeOfSteps_checkBlock program Checker.root none Setting.suits_loose
  have checkSteps : CheckSteps (.loose σ) (Checker.initial store budget) s :=
    (madeOfSteps (Checker.initial store budget) trivial).leaves budget leaves
  exact checkSteps.keep (P := Tallied (Setting.loose σ).fresh none) Tallied.checkStep
    (tallied_initial store budget)

/-- How many deferrals serve a draft or the head of a function. -/
def deferralsFor (s : Checker Empty σ) (owner : DraftId ⊕ SignatureId) : Nat :=
  s.live.countP (·.errand.owner = owner)

/-- Everybody has the deferrals that they need, and no other ones. -/
structure Counted (s : Checker Empty σ) : Prop where
  assignments : ∀ (id : DraftId) scope a awaited,
    s.drafts[id]? = some ⟨scope, .assignment a awaited⟩ →
      ∀ name, s.tally (.draft id name) = if name ∈ awaited then 1 else 0
  statements : ∀ (id : DraftId) d, s.drafts[id]? = some d → d.work.assignment? = none →
    (∃ type, d.work.Found type) ∧
      ∀ type, d.work.Found type → deferralsFor s (.inl id) = if type.isPending then 1 else 0
  heads : ∀ (k : SignatureId) h, s.signatures[k]? = some h →
    deferralsFor s (.inr k) = if h.signature.result.isPending then 1 else 0

variable {fresh : Prop} {id : DraftId} {d : Draft}

theorem deferralsFor_head (s : Checker Empty σ) (k : SignatureId) :
    deferralsFor s (.inr k) = s.tally (.head k) := by
  refine List.countP_congr fun work _ => ?_
  cases work.errand <;> simp [Errand.owner]

/-- A statement that waits for one name at most has one deferral at most. -/
theorem Tallied.deferralsFor (tallied : Tallied fresh none s) (here : s.drafts[id]? = some d)
    {name? : Option String} (awaits : d.work.awaits = name?.toList) :
    deferralsFor s (.inl id) = if name?.isSome then 1 else 0 := by
  have counts (name : String) : s.tally (.draft id name) = if name? = some name then 1 else 0 := by
    rw [tallied.count _ (by simp)]
    simp [Checker.due, here, awaits]
  have named {work : Deferral Empty} (mem : work ∈ s.live) (own : work.errand.owner = .inl id) :
      ∃ name, work.errand = .draft id name ∧ name? = some name := by
    cases errand : work.errand with
    | head k => simp [errand, Errand.owner] at own
    | draft other name =>
      obtain rfl : other = id := by simpa [errand, Errand.owner] using own
      have some : 0 < s.tally (.draft other name) := List.countP_pos_iff.2 ⟨work, mem, by simpa⟩
      exact ⟨name, rfl, by grind⟩
  cases name? with
  | none =>
    refine List.countP_eq_zero.2 fun work mem own => ?_
    obtain ⟨_, -, impossible⟩ := named mem (by simpa using own)
    cases impossible
  | some name =>
    have same : Check.deferralsFor s (.inl id) = s.tally (.draft id name) := by
      refine List.countP_congr fun work mem => ?_
      simp only [decide_eq_true_eq]
      constructor
      · intro own
        obtain ⟨_, errand, same⟩ := named mem own
        rw [errand, Option.some.inj same]
      · intro errand
        rw [errand, Errand.owner]
    rw [same, counts]
    simp

/-- At every point of a run an assignment has one deferral for each name in its list and none for any
other name. Every other statement, and the head of every function, has one deferral if what was last
found of it is pending and none otherwise. -/
theorem deferrals_counted {importer : Importer σ} {options : Options} {store : σ}
    {program : List Stmt} (comes : ComesBy importer options store program s) : Counted s where
  assignments id scope a awaited here name := by
    rw [comes.tallied.count _ (by simp)]
    simp [Checker.due, here, Work.awaits]
  statements id d here plain := by
    obtain ⟨before, view, types, -, looks, -⟩ := comes.tallied.drafts id d (by simp) here
    obtain ⟨type, rfl⟩ := looks.one plain
    refine ⟨⟨type, before, view, looks⟩, ?_⟩
    rintro type ⟨before, view, looks⟩
    have one : [type].filterMap Ty.pendingOn = type.pendingOn.toList := by
      cases pending : type.pendingOn <;> simp [pending]
    exact comes.tallied.deferralsFor here ((looks.awaits plain).trans one)
  heads k h here := by
    rw [deferralsFor_head, comes.tallied.count _ (by simp)]
    simp [Checker.due, here]

/-- A name gets the result of a function that comes later. -/
def lateAssignment : List Stmt :=
  [.leaf (.declare ⟨"x", false, .number ⟨1⟩, .unannotated, .unannotated, false, .nowhere⟩),
    .leaf (.assign ⟨.symbol "x", .set, .call (.symbol "f" .unresolved) [.symbol "x" .unresolved],
      .nowhere⟩),
    .function ⟨"f", [("a", .number)], .unannotated, false, .nowhere⟩
      [.leaf (.returns ⟨some (.symbol "a" .unresolved), .nowhere⟩)]]

theorem lateAssignment_counted : ∃ s a, ComesBy (Registry.importer 20) .standard Registry.builtin
    lateAssignment s ∧ s.drafts[1]? = some ⟨0, .assignment a ["f"]⟩ ∧
      s.tally (.draft 1 "f") = 1 ∧ s.tally (.draft 1 "x") = 0 := by
  let run : Except Halt (List Outline) × Checker Empty Registry :=
    (checkBlock (Env.plain .standard (Registry.importer 20)) Checker.root none lateAssignment).run
      (Checker.initial Registry.builtin 2)
  have stops : run.1 = .error .exhausted := by cbv
  have comes : ComesBy (Registry.importer 20) .standard Registry.builtin lateAssignment run.2 :=
    ⟨2, .inl (Prod.ext stops rfl)⟩
  have counts := (deferrals_counted comes).assignments 1 0 _ ["f"] rfl
  exact ⟨run.2, _, comes, rfl, by simpa using counts "f", by simpa using counts "x"⟩

end Check

end Hoist
