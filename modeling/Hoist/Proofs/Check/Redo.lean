import Hoist.Proofs.Check.Defer
import Hoist.Proofs.Check.Parts

/-!
Checking a draft, for the first time or again, is made of moves. The work that a change hands back
is left to the caller, so the statements serve both for the walk over a file and for a wave.

Main statements: one for each kind of draft (`movesTo_evaluation`, `movesTo_assignment`,
`movesTo_return`, `movesTo_declaration`) and one for function heads (`movesTo_conclude`).
-/
namespace Hoist.Check

open Desk

variable {σ : Type} {s t : Checker Empty σ} {d : Desk} {hand : List (Deferral Empty)}
  {id : DraftId} {scope : ScopeId} {done : Unit}

theorem Redraws.trans {m : Checker Empty σ} (first : Redraws s m) (second : Redraws m t) :
    Redraws s t := by
  obtain ⟨_, _, _, rfl⟩ := first
  obtain ⟨scopes, drafts, journal, rfl⟩ := second
  exact ⟨scopes, drafts, journal, rfl⟩

/-- A checker is about to put the draft `id` on the desk `d`, anew or again. -/
structure Takes (d : Desk) (hand : List (Deferral Empty)) (state : Checker Empty σ) (id : DraftId) :
    Prop where
  scopes : d.scopes = state.scopes
  signatures : d.signatures = state.signatures
  queue : d.queue = hand ++ state.queue
  place : ∀ draft, PutAt d.drafts id draft (state.drafts.set id draft)

theorem takes_of_found {draft : Draft} (found : s.drafts[id]? = some draft) :
    Takes (s.desk hand) hand s id :=
  ⟨rfl, rfl, rfl, fun _ => putAt_set (List.getElem?_eq_some_iff.1 found).1⟩

theorem takes_of_added (draft : Draft) :
    Takes (s.desk hand) hand { s with drafts := s.drafts ++ [draft] } s.drafts.length := by
  refine ⟨rfl, rfl, rfl, fun other => ?_⟩
  have same : (s.drafts ++ [draft]).set s.drafts.length other = s.drafts ++ [other] := by simp
  rw [same]
  exact putAt_append s.drafts other

theorem Takes.desk_eq (takes : Takes d hand s id) (drafts : List Draft) :
    { d with drafts } = Checker.desk { s with drafts } hand := by
  simp [Checker.desk, takes.scopes, takes.signatures, takes.queue]

theorem movesTo_defer {name : String} {declared : Option String} {position : Position}
    (sound : (s.desk hand).Sound)
    (own : declared = some name → (s.desk hand).key? (.draft id) = some (scope, name))
    (ends : Ends (defer scope name declared (.resume id name) position) s done t) :
    MovesTo (s.desk hand) (t.desk hand) ∧ Redraws s t ∧ t.drafts = s.drafts ∧
      (declared ≠ some name → t.scopes.Hangs id scope name) := by
  obtain ⟨defers, journal, same⟩ := defers_of_ends ends sound.rooted
  have after : t.desk hand = { s.desk hand with scopes := t.scopes } := by
    rw [same]
    rfl
  rw [after]
  exact ⟨(Defers.move (s := s.desk hand) defers own).movesTo sound, ⟨_, _, journal, same⟩,
    (congrArg Checker.drafts same).trans rfl, Defers.hangs (s := s.desk hand) defers⟩

/-! Expressions as statements. -/

theorem movesTo_evaluation {e : Evaluation} (sound : d.Sound) (takes : Takes d hand s id)
    (old : ∀ draft, d.drafts[id]? = some draft → draft = ⟨scope, .evaluation e⟩)
    (faithful : e.value.Faithful) (ends : Ends (checkEvaluation id scope e) s done t) :
    ∃ type value, e.value.resolve (s.scopes.view scope) = (.ok type, value) ∧
      MovesTo d (t.desk hand) ∧ Redraws s t ∧
      t.drafts = s.drafts.set id ⟨scope, .evaluation { e with value }⟩ ∧
      ∀ name, type.pendingOn = some name → t.scopes.Hangs id scope name := by
  simp only [checkEvaluation, ends_bind, ends_view, ends_setDraft, ends_ofFault, and_assoc,
    exists_and_left, exists_eq_left] at ends
  obtain ⟨_, type, found, rest⟩ := ends
  generalize look : e.value.resolve (s.scopes.view scope) = looked at found rest
  obtain ⟨result, value⟩ := looked
  obtain rfl : result = .ok type := found
  refine ⟨type, value, rfl, ?_⟩
  rw [← takes.scopes] at look
  have moved := (Move.evaluate old faithful look (takes.place _)).movesTo sound
  rw [takes.desk_eq] at moved
  cases pending : type.pendingOn with
  | none =>
    simp only [pending, ends_pure] at rest
    obtain ⟨_, rfl⟩ := rest
    exact ⟨moved, ⟨_, _, _, rfl⟩, rfl, by simp⟩
  | some name =>
    simp only [pending] at rest
    obtain ⟨waits, redraws, drafts, hangs⟩ := movesTo_defer moved.sound (by simp) rest
    refine ⟨moved.trans waits, .trans ⟨_, _, _, rfl⟩ redraws, drafts, ?_⟩
    intro _ same
    obtain rfl := Option.some.inj same
    exact hangs (by simp)

/-! Assignments. -/

theorem movesTo_awaitEach {a : Assignment} {awaited names : List String} {base : List Draft}
    (ends : Ends (awaitEach id scope a awaited names) s done t) (sound : d.Sound)
    (scopes : d.scopes = s.scopes)
    (drafts : s.drafts = base.set id ⟨scope, .assignment a awaited⟩) :
    ∃ later, MovesTo d { d with scopes := t.scopes } ∧ Redraws s t ∧
      t.drafts = base.set id ⟨scope, .assignment a later⟩ ∧
      (∀ place name, t.scopes.binding? place name = s.scopes.binding? place name) ∧
      (∀ name, d.scopes.Hangs id scope name → t.scopes.Hangs id scope name) ∧
      (∀ name, name ∈ awaited ∨ name ∈ names → name ∈ later) ∧
      ∀ name ∈ later, name ∈ awaited ∨
        name ∈ names ∧ t.scopes.Hangs id scope name := by
  induction names generalizing s d awaited with
  | nil =>
    obtain ⟨_, rfl⟩ := ends_pure.1 ends
    rw [← scopes]
    exact ⟨awaited, .refl sound, ⟨_, _, _, rfl⟩, drafts, fun _ _ => rfl, fun _ hangs => hangs,
      by simp, fun name mem => .inl mem⟩
  | cons first rest ih =>
    simp only [awaitEach] at ends
    split at ends
    · rename_i already
      obtain ⟨later, moves, redraws, drafts, bindings, keeps, all, each⟩ :=
        ih ends sound scopes drafts
      have known : first ∈ awaited := by simpa using already
      refine ⟨later, moves, redraws, drafts, bindings, keeps, fun name mem => all name ?_,
        fun name mem => ?_⟩
      · rcases mem with before | mem
        · exact .inl before
        · rcases List.mem_cons.1 mem with rfl | mem
          · exact .inl known
          · exact .inr mem
      · exact (each name mem).imp_right fun hangs => ⟨List.mem_cons_of_mem _ hangs.1, hangs.2⟩
    · simp only [ends_bind, ends_setDraft, exists_eq_left] at ends
      obtain ⟨_, _, between, waits, ends⟩ := ends
      have rooted : s.scopes.Rooted := scopes ▸ sound.rooted
      obtain ⟨defers, journal, same⟩ := defers_of_ends waits rooted
      have defers : Defers d.scopes between.scopes id scope first none := scopes ▸ defers
      have moved := (defers.move (by simp)).movesTo sound
      obtain ⟨place, waiter, onDesk⟩ := defers.awaited
      have placed : between.drafts = base.set id ⟨scope, .assignment a (first :: awaited)⟩ := by
        rw [same, drafts]
        simp
      obtain ⟨later, moves, redraws, drafts, bindings, keeps, all, each⟩ :=
        ih ends moved.sound rfl placed
      refine ⟨later, moved.trans moves, .trans ⟨_, _, journal, same⟩ redraws, drafts, ?_, ?_, ?_, ?_⟩
      · intro other name
        rw [bindings, onDesk.bindings, scopes]
      · exact fun name hangs => keeps name (hangs.await onDesk)
      · intro name mem
        refine all name ?_
        rcases mem with before | mem
        · exact .inl (List.mem_cons_of_mem _ before)
        · rcases List.mem_cons.1 mem with rfl | mem
          · exact .inl List.mem_cons_self
          · exact .inr mem
      · intro name mem
        rcases each name mem with before | ⟨mem, hangs⟩
        · rcases List.mem_cons.1 before with rfl | before
          · exact .inr ⟨List.mem_cons_self, keeps name (defers.hangs (by simp))⟩
          · exact .inl before
        · exact .inr ⟨List.mem_cons_of_mem _ mem, hangs⟩

/-- A name that a draft hangs on and that has no type yet keeps it waiting. -/
theorem waiting_of_hangs {name : String} {binding : Binding} (hangs : d.scopes.Hangs id scope name)
    (found : d.scopes.lookup scope name = .ok (some binding))
    (unknown : binding.type.isConcrete = false) : d.Waiting id scope name := by
  rcases hangs with ⟨owner, other, ⟨outer, near, far, path, split, unbound, bound⟩, waits⟩ |
    ⟨⟨outer, path, unbound⟩, _⟩
  · rw [path.lookup_eq, split, List.findSome?_append] at found
    have none_near : near.findSome? (d.scopes.binding? · name) = none := by
      simpa [List.findSome?_eq_none_iff] using unbound
    obtain rfl : other = binding := by simpa [none_near, bound] using found
    exact ⟨outer, owner, other, path, by simp [split], bound, unknown, waits⟩
  · rw [path.lookup_eq] at found
    have nowhere : (scope :: outer).findSome? (d.scopes.binding? · name) = none :=
      List.findSome?_eq_none_iff.2 unbound
    simp [nowhere] at found

theorem knows_of_lookup {scopes : Scopes (Deferral Empty)} {name : String} {binding : Binding}
    (found : scopes.lookup scope name = .ok (some binding)) :
    (scopes.view scope).knows name = binding.type.isConcrete := by
  simp only [View.knows, View.type, Scopes.view, found]
  cases known : binding.type.isConcrete <;> simp [known, Ty.isConcrete]

theorem Takes.redrawn (takes : Takes d hand s id) (redraws : Redraws s t) :
    { d with scopes := t.scopes, drafts := t.drafts } = t.desk hand := by
  obtain ⟨_, _, _, rfl⟩ := redraws
  simp [Checker.desk, takes.signatures, takes.queue]

theorem movesTo_assignment {a : Assignment} {awaited : List String} (sound : d.Sound)
    (takes : Takes d hand s id)
    (old : ∀ draft, d.drafts[id]? = some draft →
      ∃ before, draft = ⟨scope, .assignment a before⟩)
    (faithful : a.target.Faithful) (faithful' : a.value.Faithful)
    (waits : ∀ name ∈ awaited, ∃ before,
      d.drafts[id]? = some ⟨scope, .assignment a before⟩ ∧ name ∈ before)
    (ends : Ends (checkAssignment id scope a awaited) s done t) :
    ∃ binding targetType target valueType value later,
      s.scopes.lookup scope a.target.root = .ok (some binding) ∧
      (binding.constant && a.target.isSymbol) = false ∧
      a.target.resolve (s.scopes.view scope) = (.ok targetType, target) ∧
      a.value.resolve (s.scopes.view scope) = (.ok valueType, value) ∧
      MovesTo d (t.desk hand) ∧ Redraws s t ∧
      t.drafts = s.drafts.set id ⟨scope, .assignment { a with target, value } later⟩ ∧
      (a.target.root ∈ later → a.target.root ∈ awaited ∨
        (t.desk hand).Waiting id scope a.target.root) ∧
      ∀ name, valueType.pendingOn = some name →
        name ∈ awaited ∨ t.scopes.Hangs id scope name := by
  simp only [checkAssignment, ends_bind, ends_checkRoot, ends_view, ends_setDraft, ends_ofFault,
    ends_ofCause, and_assoc, exists_and_left, exists_eq_left] at ends
  obtain ⟨⟨binding, root, free⟩, _, _, targetType, onTarget, _, valueType, onValue, _,
    agrees, ends⟩ := ends
  generalize lookTarget : a.target.resolve (s.scopes.view scope) = looked at onTarget ends
  obtain ⟨result, target⟩ := looked
  obtain rfl : result = .ok targetType := onTarget
  generalize lookValue : a.value.resolve (s.scopes.view scope) = looked at onValue ends
  obtain ⟨result, value⟩ := looked
  obtain rfl : result = .ok valueType := onValue
  obtain ⟨later, moves, redraws, drafts, bindings, _, all, each⟩ :=
    movesTo_awaitEach ends sound takes.scopes (List.set_set ..)
  have redraws : Redraws s t := .trans ⟨_, _, _, rfl⟩ redraws
  have parents : ∀ id, t.scopes.parent? id = s.scopes.parent? id := fun id =>
    (moves.steady.parent id).trans (by rw [takes.scopes])
  obtain ⟨outer, path⟩ := sound.rooted scope (takes.scopes ▸ Scopes.lt_size_of_lookup root)
  rw [takes.scopes] at path
  have view : t.scopes.view scope = s.scopes.view scope := path.view_eq parents bindings
  have still : t.scopes.lookup scope a.target.root = .ok (some binding) := by
    rw [← root, path.lookup_eq,
      (path.mono fun id _ found => (parents id).trans found).lookup_eq]
    simp only [bindings]
  have blocked : ∀ name ∈ [targetType, valueType].filterMap Ty.pendingOn,
      (s.scopes.view scope).knows name = false := by
    intro name mem
    obtain ⟨type, mem, pending⟩ := List.mem_filterMap.1 mem
    rcases List.mem_cons.1 mem with rfl | mem
    · exact (Target.waits_of_pending faithful lookTarget pending).2
    · obtain rfl := List.mem_singleton.1 mem
      exact (Expr.waits_of_pending faithful' lookValue pending).2
  -- The bare name of a target that is not known yet is among those that are waited for.
  have bare : a.target.isSymbol = true → targetType.isPending = true → a.target.root ∈ later := by
    intro isSymbol pending
    refine all _ (.inr (List.mem_filterMap.2 ⟨targetType, by simp, ?_⟩))
    cases kind : a.target with
    | member | index => simp [kind, Target.isSymbol] at isSymbol
    | symbol name =>
      simp only [kind, Target.resolve, Prod.mk.injEq] at lookTarget
      obtain concrete | rfl := View.type_cases lookTarget.1
      · simp [Ty.isPending_of_isConcrete concrete] at pending
      · rfl
  have root_waits : a.target.root ∈ later → a.target.root ∈ awaited ∨
      Desk.Waiting { d with scopes := t.scopes } id scope a.target.root := by
    refine fun mem => (each _ mem).imp_right fun new => waiting_of_hangs new.2 still ?_
    rw [← knows_of_lookup root]
    exact blocked _ new.1
  have lives : a.target.root ∈ later → .resume id a.target.root ∈ d.queue ∨
      Desk.Waiting { d with scopes := t.scopes } id scope a.target.root := by
    intro mem
    rcases root_waits mem with before | new
    · obtain ⟨_, found, mem⟩ := waits _ before
      exact (moves.sound.drafts id _ found).2 mem
    · exact .inr new
  have moved := (Move.assign (s := { d with scopes := t.scopes }) old faithful faithful'
    (view ▸ lookTarget) (view ▸ lookValue) agrees bare lives (drafts ▸ takes.place _)).movesTo
      moves.sound
  rw [takes.redrawn redraws] at moved
  refine ⟨binding, targetType, target, valueType, value, later, root, free, rfl, rfl,
    moves.trans moved, redraws, drafts, root_waits, fun name pending => ?_⟩
  exact (each name (all name (.inr (List.mem_filterMap.2 ⟨valueType, by simp, pending⟩)))).imp_right
    And.right

/-! Returns. -/

/-- The state once work has been put into the queue. -/
def queued (state : Checker Empty σ) (work : List (Deferral Empty)) : Checker Empty σ :=
  { state with queue := state.queue ++ work }

theorem result_of_resultType {scopes : Scopes (Deferral Empty)} {result : Ty}
    (rooted : scopes.Rooted) (found : scopes.resultType scope = .ok (some result)) :
    ∃ body, scopes.functionBody scope = .ok (some body) ∧ scopes.result? body = some result := by
  obtain ⟨body?, around, _⟩ := bind_eq_ok.1 found
  obtain ⟨outer, path⟩ := rooted scope (Scopes.lt_size_of_functionBody around)
  rw [path.resultType_eq] at found
  obtain ⟨body, first, kept⟩ := Option.bind_eq_some_iff.1 (Except.ok.inj found)
  exact ⟨body, by rw [path.functionBody_eq, first], kept⟩

section Return

variable {r : Return} {type result : Ty} {value : Option Expr} {body : ScopeId}
  (sound : d.Sound) (takes : Takes d hand s id)
  (old : ∀ draft, d.drafts[id]? = some draft → draft = ⟨scope, .returns r⟩)
  (looks : ReturnLook (d.scopes.view scope) r.value type value)
  (around : s.scopes.functionBody scope = .ok (some body))
  (kept : s.scopes.result? body = some result)
  (here : s.drafts = s.drafts.set id ⟨scope, .returns { r with value }⟩)
include sound takes old looks around kept here

/-- A return that does not change the result type. -/
theorem movesTo_confirm (concrete : result.isConcrete = true)
    (agrees : type.isPending = true ∨ result = type) : MovesTo d (s.desk hand) := by
  have put := takes.place ⟨scope, .returns { r with value }⟩
  have moved := (Move.confirm old looks (takes.scopes ▸ around) (takes.scopes ▸ kept) concrete agrees
    put).movesTo sound
  rwa [takes.desk_eq, ← here] at moved

theorem movesTo_setResult {position : Position} {work : List (Deferral Empty)}
    (unknown : result.isConcrete = false)
    (unset : result = .unannotated → ∀ h ∈ d.signatures, h.body ≠ body)
    (ends : Ends (setResult scope type position) s work t) :
    MovesTo d ((queued t work).desk hand) ∧ Redraws s t ∧ t.drafts = s.drafts ∧
      ∀ name, s.scopes.Hangs id scope name → t.scopes.Hangs id scope name := by
  obtain ⟨scopes, set, rfl⟩ := ends_setResult.1 ends
  obtain ⟨other, around', rfl, _, changed⟩ := Scopes.setResult_eq_ok set
  obtain rfl : body = other := by simpa [around] using around'
  have put := takes.place ⟨scope, .returns { r with value }⟩
  have hangs : ∀ name, s.scopes.Hangs id scope name → scopes.Hangs id scope name :=
    fun name hangs => hangs.mono changed.parent changed.bindings fun place waiter mem => by
      rwa [changed.waiters]
  rw [← takes.scopes] at changed around kept
  have moved := (Move.decide old looks around kept unknown unset changed put).movesTo sound
  refine ⟨?_, ⟨_, _, _, rfl⟩, rfl, hangs⟩
  simpa [queued, Checker.desk, takes.scopes, takes.signatures, takes.queue, ← here] using moved

end Return

theorem Takes.set (takes : Takes d hand s id) (draft : Draft) :
    Takes d hand { s with drafts := s.drafts.set id draft } id :=
  ⟨takes.scopes, takes.signatures, takes.queue, fun other => by
    rw [List.set_set]
    exact takes.place other⟩

theorem movesTo_finishReturn {settle : List (Deferral Empty) → Check Empty σ Unit} {r : Return}
    {type result : Ty} {value : Option Expr} {body : ScopeId} {position : Position}
    (sound : d.Sound) (takes : Takes d hand s id)
    (old : ∀ draft, d.drafts[id]? = some draft → draft = ⟨scope, .returns r⟩)
    (looks : ReturnLook (d.scopes.view scope) r.value type value)
    (around : s.scopes.functionBody scope = .ok (some body))
    (kept : s.scopes.result? body = some result)
    (here : s.drafts = s.drafts.set id ⟨scope, .returns { r with value }⟩)
    (unset : result = .unannotated → ∀ h ∈ d.signatures, h.body ≠ body)
    (ends : Ends (finishReturn settle id scope position result type) s done t) :
    ∃ m work, MovesTo d ((queued m work).desk hand) ∧ Redraws s m ∧ m.drafts = s.drafts ∧
      (∀ name, type.pendingOn = some name → m.scopes.Hangs id scope name) ∧
      (Ends (settle work) m done t ∨ work = [] ∧ t = m) := by
  unfold finishReturn at ends
  cases pending : type.pendingOn with
  | none =>
    simp only [pending] at ends
    cases concrete : result.isConcrete with
    | false =>
      simp only [concrete, Bool.not_false, ↓reduceIte, ends_bind] at ends
      obtain ⟨work, m, set, settles⟩ := ends
      obtain ⟨moves, redraws, drafts, _⟩ :=
        movesTo_setResult sound takes old looks around kept here concrete unset set
      exact ⟨m, work, moves, redraws, drafts, by simp, .inl settles⟩
    | true =>
      simp only [concrete, Bool.not_true, Bool.false_eq_true, ↓reduceIte] at ends
      split at ends
      · simp at ends
      · rename_i same
        obtain ⟨_, rfl⟩ := ends_pure.1 ends
        have moves := movesTo_confirm sound takes old looks around kept here concrete
          (.inr (not_not.1 same))
        exact ⟨t, [], by simpa [queued] using moves, ⟨_, _, _, rfl⟩, rfl, by simp, .inr ⟨rfl, rfl⟩⟩
  | some name =>
    simp only [pending, ends_bind] at ends
    obtain ⟨_, between, waits, ends⟩ := ends
    have rooted : s.scopes.Rooted := takes.scopes ▸ sound.rooted
    obtain ⟨defers, journal, same⟩ := defers_of_ends waits rooted
    have defers : Defers d.scopes between.scopes id scope name none := takes.scopes ▸ defers
    have moved := (defers.move (by simp)).movesTo sound
    obtain ⟨place, waiter, onDesk⟩ := defers.awaited
    obtain ⟨outer, path⟩ := rooted scope (Scopes.lt_size_of_functionBody around)
    rw [← takes.scopes] at path around kept
    have looks' : ReturnLook (between.scopes.view scope) r.value type value := by
      rwa [path.view_eq onDesk.parent onDesk.bindings]
    have around' := bodies_steady sound moved.steady around
    have kept' := (onDesk.result body).trans kept
    have drafts : between.drafts = s.drafts := (congrArg Checker.drafts same).trans rfl
    have takes' : Takes { d with scopes := between.scopes } hand between id := by
      refine ⟨rfl, ?_, ?_, fun draft => by rw [drafts]; exact takes.place draft⟩
      · rw [same]
        exact takes.signatures
      · rw [same]
        exact takes.queue
    have here' : between.drafts = between.drafts.set id ⟨scope, .returns { r with value }⟩ := by
      rw [drafts]
      exact here
    have redraws : Redraws s between := ⟨_, _, journal, same⟩
    cases concrete : result.isConcrete with
    | false =>
      simp only [concrete, Bool.not_false, ↓reduceIte, ends_bind] at ends
      obtain ⟨work, m, set, settles⟩ := ends
      obtain ⟨moves, redraws', drafts', keeps⟩ :=
        movesTo_setResult moved.sound takes' old looks' around' kept' here' concrete unset set
      refine ⟨m, work, moved.trans moves, redraws.trans redraws', drafts'.trans drafts, ?_,
        .inl settles⟩
      intro other same
      obtain rfl := Option.some.inj same
      exact keeps name (defers.hangs (by simp))
    | true =>
      simp only [concrete, Bool.not_true, Bool.false_eq_true, ↓reduceIte] at ends
      obtain ⟨_, rfl⟩ := ends_pure.1 ends
      have moves := movesTo_confirm moved.sound takes' old looks' around' kept' here' concrete
        (.inl (by simp [Ty.isPending, pending]))
      refine ⟨t, [], moved.trans (by simpa [queued] using moves), redraws, drafts, ?_,
        .inr ⟨rfl, rfl⟩⟩
      intro other same
      obtain rfl := Option.some.inj same
      exact defers.hangs (by simp)

/-- A return is looked at, and then compared with the result type. -/
theorem finishReturn_of_ends {settle : List (Deferral Empty) → Check Empty σ Unit} {r : Return}
    (faithful : ∀ value, r.value = some value → value.Faithful)
    (here : s.drafts[id]? = some ⟨scope, .returns r⟩)
    (ends : Ends (checkReturn settle id scope r) s done t) :
    ∃ result type value, s.scopes.resultType scope = .ok (some result) ∧
      ReturnLook (s.scopes.view scope) r.value type value ∧
      Ends (finishReturn settle id scope r.span.start result type)
        { s with drafts := s.drafts.set id ⟨scope, .returns { r with value }⟩ } done t := by
  simp only [checkReturn, ends_bind, ends_scopes, ends_ofFault, and_assoc, exists_and_left,
    exists_eq_left] at ends
  obtain ⟨found, look, ends⟩ := ends
  cases found with
  | none => simp at ends
  | some result =>
    cases given : r.value with
    | none =>
      simp only [given, ends_bind, ends_pure, and_assoc, exists_and_left, exists_eq_left] at ends
      refine ⟨result, .void, none, look, ⟨rfl, rfl⟩, ?_⟩
      have same : s.drafts.set id ⟨scope, .returns { r with value := none }⟩ = s.drafts := by
        obtain ⟨inside, found⟩ := List.getElem?_eq_some_iff.1 here
        rw [← given]
        exact found ▸ List.set_getElem_self inside
      rw [same]
      exact ends
    | some value =>
      simp only [given, ends_bind, ends_view, ends_setDraft, ends_ofFault, and_assoc,
        exists_and_left, exists_eq_left] at ends
      obtain ⟨_, type, found, ends⟩ := ends
      generalize onValue : value.resolve (s.scopes.view scope) = looked at found ends
      obtain ⟨_, after⟩ := looked
      obtain rfl : _ = Except.ok type := found
      exact ⟨result, type, some after, look, ⟨faithful value given, after, onValue, rfl⟩, ends⟩

theorem movesTo_return {settle : List (Deferral Empty) → Check Empty σ Unit} {r : Return}
    (sound : d.Sound) (takes : Takes d hand s id)
    (old : ∀ draft, d.drafts[id]? = some draft → draft = ⟨scope, .returns r⟩)
    (here : s.drafts[id]? = some ⟨scope, .returns r⟩)
    (faithful : ∀ value, r.value = some value → value.Faithful)
    (fresh : ∀ body, s.scopes.functionBody scope = .ok (some body) →
      s.scopes.result? body = some .unannotated → ∀ h ∈ d.signatures, h.body ≠ body)
    (ends : Ends (checkReturn settle id scope r) s done t) :
    ∃ body type value m work, s.scopes.functionBody scope = .ok (some body) ∧
      ReturnLook (s.scopes.view scope) r.value type value ∧
      MovesTo d ((queued m work).desk hand) ∧ Redraws s m ∧
      m.drafts = s.drafts.set id ⟨scope, .returns { r with value }⟩ ∧
      (∀ name, type.pendingOn = some name → m.scopes.Hangs id scope name) ∧
      (Ends (settle work) m done t ∨ work = [] ∧ t = m) := by
  obtain ⟨result, type, value, found, looks, ends⟩ := finishReturn_of_ends faithful here ends
  obtain ⟨body, around, kept⟩ := result_of_resultType (takes.scopes ▸ sound.rooted) found
  obtain ⟨m, work, moves, redraws, drafts, hangs, settles⟩ :=
    movesTo_finishReturn sound (takes.set _) old (takes.scopes ▸ looks) around kept (by simp)
      (fun unset => fresh body around (unset ▸ kept)) ends
  exact ⟨body, type, value, m, work, around, looks, moves, .trans ⟨_, _, _, rfl⟩ redraws, drafts,
    hangs, settles⟩

/-! Declarations and function heads. -/

theorem movesTo_deferDeclaration {e : Declaration} {type : Ty}
    (ends : Ends (deferDeclaration id scope e type) s done t) (sound : d.Sound)
    (scopes : d.scopes = s.scopes) (key : d.key? (.draft id) = some (scope, e.name)) :
    MovesTo d { d with scopes := t.scopes } ∧ (∃ scopes journal, t = { s with scopes, journal }) ∧
      (∀ place name, t.scopes.binding? place name = s.scopes.binding? place name) ∧
      ∀ name, type.pendingOn = some name → name ≠ e.name → t.scopes.Hangs id scope name := by
  unfold deferDeclaration at ends
  cases pending : type.pendingOn with
  | none =>
    simp only [pending] at ends
    obtain ⟨_, rfl⟩ := ends_pure.1 ends
    rw [← scopes]
    exact ⟨.refl sound, ⟨_, _, rfl⟩, fun _ _ => rfl, by simp⟩
  | some name =>
    simp only [pending] at ends
    obtain ⟨defers, journal, same⟩ := defers_of_ends ends (scopes ▸ sound.rooted)
    have defers : Defers d.scopes t.scopes id scope name (some e.name) := scopes ▸ defers
    obtain ⟨place, waiter, onDesk⟩ := defers.awaited
    refine ⟨(defers.move fun own => ?_).movesTo sound, ⟨_, journal, same⟩, ?_, ?_⟩
    · rw [key, Option.some.inj own]
    · exact fun place other => (onDesk.bindings place other).trans (by rw [scopes])
    · intro other found different
      obtain rfl := Option.some.inj found
      exact defers.hangs fun own => different (Option.some.inj own).symm

theorem movesTo_redeclare {settle : List (Deferral Empty) → Check Empty σ Unit} {e : Declaration}
    (sound : (s.desk hand).Sound) (found : s.drafts[id]? = some ⟨scope, .declaration e⟩)
    (ends : Ends (resumeDeclaration settle id scope e) s done t) :
    ∃ m work, MovesTo (s.desk hand) ((queued m work).desk hand) ∧ Redraws s m ∧
      Ends (settle work) m done t := by
  simp only [resumeDeclaration, ends_bind, ends_view, ends_setDraft, ends_ofFault, ends_ofCause,
    and_assoc, exists_and_left, exists_eq_left] at ends
  obtain ⟨_, type, onValue, after, typed, _, _, between, waits, work, m, updates, settles⟩ := ends
  generalize look : e.value.resolve (s.scopes.view scope) = looked at onValue typed waits
  obtain ⟨_, value⟩ := looked
  obtain rfl : _ = Except.ok type := onValue
  have same := (Declaration.withType_eq_ok typed).1
  have key : (s.desk hand).key? (.draft id) = some (scope, after.name) := by
    rw [key?_draft (s := s.desk hand) found rfl, same]
  obtain ⟨moves, ⟨scopes, journal, rfl⟩, bindings, _⟩ := movesTo_deferDeclaration waits sound rfl key
  obtain ⟨changed, update, rfl⟩ := ends_update.1 updates
  have bound := (Scopes.update_eq_ok update).2
  obtain ⟨binding, known⟩ := Option.isSome_iff_exists.1 (sound.bound _ _ _ key)
  obtain ⟨outer, path⟩ := sound.rooted scope (Scopes.lt_size_of_binding? known)
  have view : scopes.view scope = s.scopes.view scope :=
    path.view_eq moves.steady.parent bindings
  have inside := (List.getElem?_eq_some_iff.1 found).1
  have moved := (Move.redeclare (s := { s.desk hand with scopes }) found (view ▸ look) typed bound
    (putAt_set inside)).movesTo moves.sound
  refine ⟨_, work, moves.trans ?_, ⟨_, _, _, rfl⟩, settles⟩
  simpa [queued, Checker.desk] using moved

/-- The body of a function keeps its result type itself. -/
theorem result_of_body {scopes : Scopes (Deferral Empty)} {body : ScopeId}
    (rooted : scopes.Rooted) (kind : scopes.kind? body = some .function) :
    ∃ result, scopes.result? body = some result ∧ scopes.functionBody body = .ok (some body) ∧
      scopes.resultType body = .ok (some result) := by
  obtain ⟨inner, here, isFunction⟩ := Option.map_eq_some_iff.1 kind
  obtain ⟨outer, path⟩ := rooted body (Scopes.lt_size_of_get here)
  have first : (body :: outer).find? (fun at_ => scopes.kind? at_ = some .function) = some body := by
    simp [kind]
  cases role : inner.role with
  | block | loop => simp [role, Role.kind] at isFunction
  | function result waiting =>
    have kept : scopes.result? body = some result := by
      simp [Scopes.result?, here, role, Role.result?]
    refine ⟨result, kept, ?_, ?_⟩
    · rw [path.functionBody_eq, first]
    · rw [path.resultType_eq, first]
      simp [kept]

theorem movesTo_conclude {settle : List (Deferral Empty) → Check Empty σ Unit} {k : SignatureId}
    {work : Deferral Empty} (sound : (s.desk hand).Sound) (live : (s.desk hand).Live work)
    (core : work.core = .conclude k) (ends : Ends (conclude settle k) s done t) :
    ∃ m handed, MovesTo (s.desk hand) ((queued m handed).desk hand) ∧
      (∃ scopes signatures journal, m = { s with scopes, signatures, journal }) ∧
      (Ends (settle handed) m done t ∨ handed = [] ∧ t = m) := by
  simp only [conclude, ends_bind, ends_getSignature, ends_scopes, ends_ofFault, ends_setSignature,
    and_assoc, exists_and_left, exists_eq_left] at ends
  obtain ⟨h, found, result?, look, _, ends⟩ := ends
  have head : (s.desk hand).signatures[k]? = some h := found
  obtain ⟨result, kept, self, looks⟩ := result_of_body sound.rooted (sound.heads k h head).1
  obtain rfl : some result = result? := by simpa using (looks.symm.trans look)
  obtain ⟨other, again, set⟩ := sound.concluding _ k live core
  obtain rfl : h = other := Option.some.inj (head.symm.trans again)
  have inside := (List.getElem?_eq_some_iff.1 found).1
  simp only [Option.getD_some] at ends
  split at ends
  · rename_i pending
    obtain ⟨scopes, awaits, rfl⟩ := ends_awaitResult.1 ends
    obtain ⟨body, same, around, kept', changed⟩ := Scopes.awaitResult_eq_ok awaits
    obtain rfl : h.body = body := by
      have both := self.symm.trans around
      simpa using both
    obtain rfl : result = same := Option.some.inj (kept.symm.trans kept')
    have moved := (Move.postpone head kept pending changed (putAt_set inside)).movesTo sound
    refine ⟨_, [], ?_, ⟨_, _, _, rfl⟩, .inr ⟨rfl, rfl⟩⟩
    simpa [queued, Checker.desk] using moved
  · simp only [ends_bind, ends_update] at ends
    obtain ⟨work, _, ⟨changed, update, rfl⟩, settles⟩ := ends
    have bound := (Scopes.update_eq_ok update).2
    have set : result ≠ .unannotated := fun unset => set (unset ▸ kept)
    have moved := (Move.conclude head kept set bound (putAt_set inside)).movesTo sound
    refine ⟨_, work, ?_, ⟨_, _, _, rfl⟩, .inl settles⟩
    simpa [queued, Checker.desk] using moved

end Hoist.Check
