import Mathlib.Data.Multiset.DershowitzManna
import Hoist.Proofs.Check.DraftsKept
import Hoist.Proofs.Check.Manned

/-!
What is still to be done in a wave: function heads wait for their result types, and deferrals are in
the queue. Names are given depths, such that declarations only mention names that lie deeper than
their own. The less deep its name, the earlier a declaration can be done with.

Main statement: a step of a wave leaves less to be done (`QueueStep.lighter`). Either a function head
is done with, or what is handed back is of a lower rank than what was taken from the queue. So waves
abate (`Graded.abates`).
-/
namespace Hoist

namespace Shape

/-- Declarations are ranked by the depth of their names, above returns, and these above all else. -/
def rank (depth : String → Nat) : Shape → Nat
  | declares name _ => depth name + 2
  | returns => 1
  | assigns _ | evaluates => 0

/-- A declaration mentions only names that lie deeper than its own. -/
def Graded (depth : String → Nat) : Shape → Prop
  | declares name mentions => ∀ mention ∈ mentions, depth name < depth mention
  | _ => True

end Shape

/-- Whoever awaits a name has a lower rank than who declares it. -/
theorem Work.LookGives.rank_lt {before work : Work} {view : View} {types : List Ty} {name : String}
    {depth : String → Nat} (looks : before.LookGives view work types) (faithful : before.Faithful)
    (graded : work.shape.Graded depth) (awaits : name ∈ work.awaits) :
    work.shape.rank depth < depth name + 2 := by
  cases looks with
  | @declaration d type value look _ =>
    have pending : type.pendingOn = some name := by simpa [Work.awaits] using awaits
    have same := d.value.names_resolve view
    rw [look] at same
    have mentioned : name ∈ value.names :=
      same ▸ (Expr.waits_of_pending (faithful.1 _ rfl) look pending).1
    have below : depth d.name < depth name := graded name mentioned
    simpa [Work.shape, Shape.rank] using below
  | _ => simp [Work.shape, Shape.rank]

theorem PutAt.countP {α : Type} {before after : List α} {id : Nat} {old value : α} (p : α → Bool)
    (put : PutAt before id value after) (here : before[id]? = some old) :
    after.countP p + (if p old then 1 else 0) = before.countP p + if p value then 1 else 0 := by
  obtain ⟨inside, rfl⟩ := List.getElem?_eq_some_iff.1 here
  obtain rfl : after = before.set id value :=
    List.ext_getElem? fun other => (put other).trans (putAt_set inside other).symm
  have counted : (if p before[id] then 1 else 0) ≤ before.countP p := by
    split
    · exact List.countP_pos_iff.2 ⟨_, List.getElem_mem inside, ‹_›⟩
    · exact Nat.zero_le _
  rw [List.countP_set inside]
  omega

namespace Check

variable {σ : Type} {s t : Checker Empty σ} {depth : String → Nat} {next : Deferral Empty}
  {rest handed : List (Deferral Empty)}

def rankIn (depth : String → Nat) (drafts : List Draft) (work : Deferral Empty) : Nat :=
  match work.errand with
  | .draft id _ => (drafts[id]?.map (·.work.shape.rank depth)).getD 0
  | .head _ => 0

theorem rankIn_putAt {before after : List Draft} {id : DraftId} {old new : Draft}
    (put : PutAt before id new after) (here : before[id]? = some old)
    (same : new.work.shape = old.work.shape) (work : Deferral Empty) :
    rankIn depth after work = rankIn depth before work := by
  unfold rankIn
  split
  case h_1 other _ _ =>
    rw [put other]
    split
    case isTrue mine => simp [mine, here, same]
    case isFalse => rfl
  case h_2 => rfl

/-- How much is still to be done. -/
def burden (depth : String → Nat) (s : Checker Empty σ) : Nat × Multiset Nat :=
  (s.signatures.countP (·.signature.result.isPending), s.queue.map (rankIn depth s.drafts))

def Lighter (a b : Nat × Multiset Nat) : Prop :=
  Prod.Lex (· < ·) Multiset.IsDershowitzMannaLT a b

theorem lighter_wellFounded : WellFounded Lighter :=
  (Prod.lex Nat.lt_wfRel ⟨_, Multiset.wellFounded_isDershowitzMannaLT⟩).wf

theorem lighter_of_lower (queue : s.queue = next :: rest) (after : t.queue = rest ++ handed)
    (heads : (burden depth t).1 = (burden depth s).1)
    (ranks : ∀ work, rankIn depth t.drafts work = rankIn depth s.drafts work)
    (lower : ∀ work ∈ handed, rankIn depth s.drafts work < rankIn depth s.drafts next) :
    Lighter (burden depth t) (burden depth s) := by
  rw [Lighter, Prod.lex_def]
  refine .inr ⟨heads, rest.map (rankIn depth s.drafts), handed.map (rankIn depth s.drafts),
    {rankIn depth s.drafts next}, by simp, ?_, ?_, fun rank mem => ?_⟩
  · simp only [burden, after, List.map_append, funext ranks]
    rfl
  · simp only [burden, queue, List.map_cons]
    rw [Multiset.add_comm]
    rfl
  · obtain ⟨work, isHanded, rfl⟩ := List.mem_map.1 mem
    exact ⟨_, Multiset.mem_singleton_self _, lower work isHanded⟩

/-- All deferrals are accounted for, and no declaration mentions a name that does not lie deeper. -/
structure Graded (depth : String → Nat) (s : Checker Empty σ) : Prop where
  tallied : Tallied True none s
  manned : Manned s.scopes
  shapes : ∀ d ∈ s.drafts, d.work.shape.Graded depth

/-- A text without leftovers whose declarations only mention what lies deeper. -/
def graded (σ : Type) (depth : String → Nat) : Setting σ where
  fresh := True
  plain := False
  finite := True
  declared d := ∀ mention ∈ d.value.names, depth d.name < depth mention
  fit _ s := Graded depth s

theorem CheckStep.graded (checkStep : CheckStep (graded σ depth) s t) (holds : Graded depth s) :
    Graded depth t where
  tallied := holds.tallied.checkStep checkStep
  manned := checkStep.manned holds.manned
  shapes := by
    rcases checkStep.looked with
      ⟨-, same⟩ | ⟨_, id, _, work, _, last, m, _, looked, -, same, whose⟩ <;> rw [same]
    · exact holds.shapes
    · intro d mem
      obtain ⟨other, here⟩ := List.mem_iff_getElem?.1 mem
      rw [looked.putAt other] at here
      split at here
      case isFalse => exact holds.shapes d (List.mem_of_getElem? here)
      case isTrue =>
        obtain rfl := Option.some.inj here
        rw [looked.looks.passes.shape]
        rcases whose with ⟨-, declared⟩ | ⟨old, name, there, -, rfl, -⟩
        · cases work with
          | declaration d => exact declared d rfl
          | _ => trivial
        · rw [(Work.passes_strike _ name).shape]
          exact holds.shapes old (List.mem_of_getElem? there)

/-- Who has waited for a name that is bound has a lower rank than who declares it. -/
theorem Graded.rank_lt {name : String} {id : DraftId} (holds : Graded depth s) (live : next ∈ s.live)
    (errand : next.errand = .draft id name) : rankIn depth s.drafts next < depth name + 2 := by
  obtain ⟨d, here, awaits⟩ := holds.tallied.awaits_of_live live errand
  obtain ⟨_, _, _, faithful, looks, -⟩ := holds.tallied.drafts id d (by simp) here
  have lower := looks.rank_lt (faithful trivial) (holds.shapes d (List.mem_of_getElem? here)) awaits
  simpa [rankIn, errand, here] using lower

/-- What is handed back has a lower rank than the draft that was looked at. -/
theorem Answers.lower {scope : ScopeId} {before : Scopes (Deferral Empty)} {last : Work}
    {types : List Ty} (answers : Answers scope before last types s handed t)
    (manned : Manned s.scopes) (later : Graded depth { t with queue := t.queue ++ handed }) :
    ∀ work ∈ handed, rankIn depth t.drafts work < last.shape.rank depth := by
  intro work mem
  have live : work ∈ Checker.live { t with queue := t.queue ++ handed } := by
    simp [Checker.live, mem]
  cases answers with
  | assignment | evaluation | agrees => simp at mem
  | binds ends =>
    obtain ⟨_, updates, rfl⟩ := ends_update.1 ends
    obtain ⟨waiter, waits, rfl⟩ := List.mem_map.1 ((Scopes.update_eq_ok updates).2.work ▸ mem)
    obtain ⟨id, errand⟩ := manned.names _ _ waiter waits
    exact later.rank_lt live errand
  | sets _ _ ends =>
    obtain ⟨_, sets, rfl⟩ := ends_setResult.1 ends
    obtain ⟨body, -, same, -, -⟩ := Scopes.setResult_eq_ok sets
    obtain ⟨k, errand⟩ := manned.results body work (same ▸ mem)
    simp [rankIn, errand, Work.shape, Shape.rank]

theorem QueueStep.lighter (queueStep : QueueStep s t) (holds : Graded depth s) :
    Lighter (burden depth t) (burden depth s) := by
  have later : Graded depth t := CheckStep.graded (.queueStep queueStep) holds
  cases queueStep with
  | @resume u next rest _ id name d queue core here reviewed =>
    obtain ⟨types, last, m, looked, answers⟩ := reviewed
    have shape : last.shape = d.work.shape :=
      looked.looks.passes.shape.trans (Work.passes_strike _ name).shape
    have manned : Manned m.scopes := by
      obtain ⟨_, _, _, _, _, puts⟩ := looked
      exact puts.manned holds.manned
    obtain ⟨_, _, _, drawn⟩ := looked.redraws
    obtain ⟨-, _, _, answered⟩ := answers.releases
    have drafts : u.drafts = m.drafts := congrArg (·.drafts) answered
    have taken : u.queue = rest :=
      (congrArg (·.queue) answered).trans (congrArg (·.queue) drawn)
    have heads : u.signatures = s.signatures :=
      (congrArg (·.signatures) answered).trans (congrArg (·.signatures) drawn)
    have ranks (work : Deferral Empty) : rankIn depth u.drafts work = rankIn depth s.drafts work :=
      drafts ▸ rankIn_putAt looked.putAt here shape work
    have errand : next.errand = .draft id name := by rw [← next.errand_core, core]; rfl
    have own : rankIn depth s.drafts next = last.shape.rank depth := by
      simp [rankIn, errand, here, shape]
    refine lighter_of_lower queue (congrArg (· ++ _) taken) (by simp [burden, heads]) ranks
      fun work mem => ?_
    rw [own, ← ranks]
    exact answers.lower manned later work mem
  | postpone queue core here _ pending headed =>
    have waited := holds.tallied.pending_of_queue queue core here
    obtain ⟨_, _, put, rfl, -⟩ := headed
    have counted := put.countP (·.signature.result.isPending) here
    refine lighter_of_lower queue (List.append_nil _).symm ?_ (fun _ => rfl) (by simp)
    simpa [burden, waited, pending] using counted
  | conclude queue core here _ known headed _ =>
    have waited := holds.tallied.pending_of_queue queue core here
    obtain ⟨_, _, put, rfl, -⟩ := headed
    have counted := put.countP (·.signature.result.isPending) here
    simp only [waited, known, ↓reduceIte, Bool.false_eq_true, Nat.add_zero] at counted
    exact .left _ _ (by simp only [← counted, Nat.lt_succ_self])

/-- Waves come to an end. -/
theorem Graded.abates (holds : Graded depth s) : Abates s := by
  -- On what is still to be done, which a step makes less.
  induction isBurden : burden depth s using lighter_wellFounded.induction generalizing s with
  | _ _ ih =>
    refine .intro _ ?_
    rintro t ⟨firing, budget, journal, queueStep⟩
    have here : Graded depth { s with firing, budget, journal } :=
      CheckStep.graded (.idle s firing budget s.store journal) holds
    exact ih _ (isBurden ▸ queueStep.lighter here) (CheckStep.graded (.queueStep queueStep) here) rfl

instance : Closed (graded σ depth) where
  checkStep := CheckStep.graded
  inside _ fit := CheckStep.graded (.create fit False.elim) fit
  abates _ := Graded.abates

end Check

end Hoist
