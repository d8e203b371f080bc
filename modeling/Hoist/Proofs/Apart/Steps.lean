import Hoist.Proofs.Apart.Changes
import Hoist.Proofs.Check.Parts

/-!
Steps of the full run, and what the bare run does meanwhile. It makes the same step where both runs
have what the step is about (`Tracks`), and none where only the full run has it (`Aside`).
-/
namespace Hoist.Check

variable {σ κ κ' α β γ δ : Type} {m n : Matching} {busy : Bool} {s a t b : Checker Empty σ}
  {j i : ScopeId}

/-- Whenever the full run ends a step, so does the bare run its own, with matching results. -/
def Tracks (m : Matching) (busy : Bool) (s a : Checker Empty σ) (step : Check Empty σ α)
    (step' : Check Empty σ β) (same : Matching → α → β → Prop) : Prop :=
  ∀ value t, Ends step s value t → ∃ n value' b,
    m.Within n ∧ same n value value' ∧ Matches n busy t b ∧ Ends step' a value' b

/-- A step of the full run, during which the bare run waits. -/
def Aside (m : Matching) (busy : Bool) (s a : Checker Empty σ) (step : Check Empty σ α)
    (good : Matching → α → Prop) : Prop :=
  ∀ value t, Ends step s value t → ∃ n, m.Within n ∧ good n value ∧ Matches n busy t a

/-! Steps one after the other. -/

theorem Tracks.bind {first : Check Empty σ α} {first' : Check Empty σ β}
    {next : α → Check Empty σ γ} {next' : β → Check Empty σ δ} {same : Matching → α → β → Prop}
    {same' : Matching → γ → δ → Prop} (isFirst : Tracks m busy s a first first' same)
    (isNext : ∀ n value value' t b, m.Within n → Matches n busy t b → same n value value' →
      Tracks n busy t b (next value) (next' value') same') :
    Tracks m busy s a (first >>= next) (first' >>= next') same' := by
  intro value t ends
  obtain ⟨found, between, here, later⟩ := ends_bind.1 ends
  obtain ⟨n, found', between', within, alike, matched, here'⟩ := isFirst _ _ here
  obtain ⟨n', value', b, within', alike', matched', later'⟩ :=
    isNext n found found' between between' within matched alike _ _ later
  exact ⟨n', value', b, within.trans within', alike', matched',
    ends_bind.2 ⟨found', between', here', later'⟩⟩

/-- The first step has two parts. -/
theorem Tracks.bind_inside {outer : Check Empty σ κ} {outer' : Check Empty σ κ'}
    {first : κ → Check Empty σ α} {first' : κ' → Check Empty σ β}
    {next : α → Check Empty σ γ} {next' : β → Check Empty σ δ} {same : Matching → α → β → Prop}
    {same' : Matching → γ → δ → Prop}
    (isFirst : Tracks m busy s a (outer >>= first) (outer' >>= first') same)
    (isNext : ∀ n value value' t b, m.Within n → Matches n busy t b → same n value value' →
      Tracks n busy t b (next value) (next' value') same') :
    Tracks m busy s a (outer >>= fun found => first found >>= next)
      (outer' >>= fun found => first' found >>= next') same' := by
  simpa only [bind_assoc] using isFirst.bind isNext

theorem Tracks.mono {step : Check Empty σ α} {step' : Check Empty σ β}
    {same more : Matching → α → β → Prop} (isStep : Tracks m busy s a step step' same)
    (weaker : ∀ n value value', same n value value' → more n value value') :
    Tracks m busy s a step step' more := by
  intro value t ends
  obtain ⟨n, value', b, within, alike, matched, ends'⟩ := isStep _ _ ends
  exact ⟨n, value', b, within, weaker n value value' alike, matched, ends'⟩

theorem Tracks.map {step : Check Empty σ α} {step' : Check Empty σ β} {change : α → γ}
    {change' : β → δ} {same : Matching → α → β → Prop} {same' : Matching → γ → δ → Prop}
    (isStep : Tracks m busy s a step step' same)
    (alike : ∀ n value value', same n value value' → same' n (change value) (change' value')) :
    Tracks m busy s a (change <$> step) (change' <$> step') same' := by
  intro value t ends
  obtain ⟨found, here, rfl⟩ := ends_map.1 ends
  obtain ⟨n, found', b, within, same, matched, here'⟩ := isStep _ _ here
  exact ⟨n, change' found', b, within, alike n found found' same, matched,
    ends_map.2 ⟨found', here', rfl⟩⟩

theorem Aside.bind {first : Check Empty σ α} {next : α → Check Empty σ γ}
    {good : Matching → α → Prop} {good' : Matching → γ → Prop}
    (isFirst : Aside m busy s a first good)
    (isNext : ∀ n value t, m.Within n → Matches n busy t a → good n value →
      Aside n busy t a (next value) good') : Aside m busy s a (first >>= next) good' := by
  intro value t ends
  obtain ⟨found, between, here, later⟩ := ends_bind.1 ends
  obtain ⟨n, within, is, matched⟩ := isFirst _ _ here
  obtain ⟨n', within', is', matched'⟩ := isNext n found between within matched is _ _ later
  exact ⟨n', within.trans within', is', matched'⟩

theorem Tracks.aside {step : Check Empty σ α} {step' : Check Empty σ β}
    {same : Matching → α → β → Prop} {good : Matching → α → Prop}
    (tracks : Tracks m busy s a step step' same)
    (stays : ∀ value' b, Ends step' a value' b → b = a)
    (is : ∀ n value value', same n value value' → good n value) : Aside m busy s a step good := by
  intro value t ends
  obtain ⟨n, value', b, within, alike, matched, ends'⟩ := tracks _ _ ends
  obtain rfl := stays value' b ends'
  exact ⟨n, within, is n value value' alike, matched⟩

theorem tracks_pure (matched : Matches m busy s a) {value : α} {value' : β}
    {same : Matching → α → β → Prop} (alike : same m value value') :
    Tracks m busy s a (pure value) (pure value') same := by
  intro found t ends
  obtain ⟨rfl, rfl⟩ := ends_pure.1 ends
  exact ⟨m, value', a, .refl m, alike, matched, ends_pure.2 ⟨rfl, rfl⟩⟩

theorem aside_pure (matched : Matches m busy s a) {value : α} {good : Matching → α → Prop}
    (is : good m value) : Aside m busy s a (pure value) good := by
  intro found t ends
  obtain ⟨rfl, rfl⟩ := ends_pure.1 ends
  exact ⟨m, .refl m, is, matched⟩

theorem tracks_reject {cause : Cause} {position : Position} {step' : Check Empty σ β}
    {same : Matching → α → β → Prop} : Tracks m busy s a (reject cause position) step' same :=
  fun _ _ ends => (ends_reject.1 ends).elim

theorem aside_reject {cause : Cause} {position : Position} {good : Matching → α → Prop} :
    Aside m busy s a (reject cause position) good :=
  fun _ _ ends => (ends_reject.1 ends).elim

/-! Steps that change nothing: what comes after them is all that counts. -/

section Reading

variable {next : α → Check Empty σ γ} {next' : α → Check Empty σ δ}
  {same : Matching → γ → δ → Prop} {good : Matching → γ → Prop} {position : Position}

theorem tracks_ofFault {outcome outcome' : Except Fault α} (equal : outcome = outcome')
    (isNext : ∀ value, outcome = .ok value → Tracks m busy s a (next value) (next' value) same) :
    Tracks m busy s a (ofFault position outcome >>= next) (ofFault position outcome' >>= next')
      same := by
  subst equal
  cases outcome with
  | error fault => exact fun _ _ ends => by simp at ends
  | ok value => exact isNext value rfl

theorem aside_ofFault {outcome : Except Fault α}
    (isNext : ∀ value, outcome = .ok value → Aside m busy s a (next value) good) :
    Aside m busy s a (ofFault position outcome >>= next) good := by
  cases outcome with
  | error fault => exact fun _ _ ends => by simp at ends
  | ok value => exact isNext value rfl

theorem tracks_ofCause {outcome : Except Cause α}
    (isNext : ∀ value, Tracks m busy s a (next value) (next' value) same) :
    Tracks m busy s a (ofCause position outcome >>= next) (ofCause position outcome >>= next')
      same := by
  cases outcome with
  | error cause => exact fun _ _ ends => by simp at ends
  | ok value => exact isNext value

theorem aside_ofCause {outcome : Except Cause α}
    (isNext : ∀ value, Aside m busy s a (next value) good) :
    Aside m busy s a (ofCause position outcome >>= next) good := by
  cases outcome with
  | error cause => exact fun _ _ ends => by simp at ends
  | ok value => exact isNext value

theorem tracks_scopes {next : Scopes (Deferral Empty) → Check Empty σ γ}
    {next' : Scopes (Deferral Empty) → Check Empty σ δ}
    (isNext : Tracks m busy s a (next s.scopes) (next' a.scopes) same) :
    Tracks m busy s a (scopes >>= next) (scopes >>= next') same :=
  isNext

theorem aside_scopes {next : Scopes (Deferral Empty) → Check Empty σ γ}
    (isNext : Aside m busy s a (next s.scopes) good) : Aside m busy s a (scopes >>= next) good :=
  isNext

theorem tracks_view {next : View → Check Empty σ γ} {next' : View → Check Empty σ δ}
    (matched : Matches m busy s a) (pair : m.Scope j i)
    (isNext : ∀ names, Tracks m busy s a (next names) (next' names) same) :
    Tracks m busy s a (view j >>= next) (view i >>= next') same := by
  intro value t ends
  obtain ⟨names, _, ⟨rfl, rfl⟩, later⟩ := by simpa only [ends_bind, ends_view] using ends
  obtain ⟨n, value', b, within, alike, matched', later'⟩ := isNext _ _ _ later
  refine ⟨n, value', b, within, alike, matched', ends_bind.2 ⟨_, a, ends_view.2 ⟨rfl, rfl⟩, ?_⟩⟩
  rwa [← matched.view_eq pair]

theorem aside_view {next : View → Check Empty σ γ}
    (isNext : ∀ names, Aside m busy s a (next names) good) :
    Aside m busy s a (view j >>= next) good :=
  isNext _

end Reading

theorem tracks_demand (matched : Matches m busy s a)
    {holds holds' : Scopes (Deferral Empty) → Except Fault Bool} {cause : Cause}
    {position : Position} (equal : holds s.scopes = holds' a.scopes) :
    Tracks m busy s a (demand holds cause position) (demand holds' cause position)
      fun _ _ _ => True := by
  refine tracks_scopes (tracks_ofFault equal fun answer _ => ?_)
  cases answer with
  | false => exact tracks_reject
  | true => exact tracks_pure matched trivial

theorem aside_demand (matched : Matches m busy s a)
    {holds : Scopes (Deferral Empty) → Except Fault Bool} {cause : Cause} {position : Position} :
    Aside m busy s a (demand holds cause position) fun _ _ => holds s.scopes = .ok true := by
  refine aside_scopes (aside_ofFault fun answer known => ?_)
  cases answer with
  | false => exact aside_reject
  | true => exact aside_pure matched known

/-! Steps of both runs. -/

section Both

variable (matched : Matches m busy s a) {position : Position}
include matched

theorem tracks_note (message message' : Note) :
    Tracks m busy s a (note message) (note message') fun _ _ _ => True := by
  intro _ t ends
  obtain rfl := ends_note.1 ends
  exact ⟨m, (), _, .refl m, trivial, matched.noted _ _, ends_note.2 rfl⟩

theorem tracks_tick : Tracks m busy s a tick tick fun _ _ _ => True := by
  intro _ t ends
  obtain ⟨left, paid, rfl⟩ := ends_tick.1 ends
  have more : left + 1 ≤ a.budget := paid ▸ matched.budget
  have less : left ≤ a.budget - 1 := Nat.le_sub_of_add_le more
  exact ⟨m, (), { a with budget := a.budget - 1 }, .refl m, trivial,
    { matched with budget := less },
    ends_tick.2 ⟨a.budget - 1, (Nat.sub_add_cancel (Nat.le_trans (by simp) more)).symm, rfl⟩⟩

theorem tracks_createScope (pair : m.Scope j i) (kind : ScopeKind) :
    Tracks m busy s a (createScope (some j) kind) (createScope (some i) kind)
      fun n => n.Scope := by
  intro inner t ends
  obtain ⟨rfl, rfl⟩ := ends_createScope.1 ends
  exact ⟨_, _, _, m.within_withScope _ _, .inr ⟨rfl, rfl⟩, matched.createBoth pair kind _ _,
    ends_createScope.2 ⟨rfl, rfl⟩⟩

theorem tracks_define (pair : m.Scope j i) (binding : Binding) :
    Tracks m busy s a (define j binding position) (define i binding position)
      fun n => n.Tasks := by
  intro work t ends
  obtain ⟨changed, done, rfl⟩ := ends_define.1 ends
  obtain ⟨full, bare, here, here', same⟩ := matched.scope pair
  rw [Scopes.define_of_get here] at done
  split at done
  · nomatch done
  case isFalse new =>
    obtain ⟨rfl, rfl⟩ := Prod.mk.inj (Except.ok.inj done)
    have new' : ¬bare.binds binding.name = true := by
      rwa [Scope.binds, ← same.bindings]
    refine ⟨m, (bare.bind binding).1, _, .refl m, same.handed binding,
      matched.setBoth pair here here' (by rfl) (by rfl) (same.bind binding) _ _,
      ends_define.2 ⟨_, ?_, rfl⟩⟩
    rw [Scopes.define_of_get here', if_neg new']

theorem tracks_update (pair : m.Scope j i) (binding : Binding) :
    Tracks m busy s a (update j binding position) (update i binding position)
      fun n => n.Tasks := by
  intro work t ends
  obtain ⟨changed, done, rfl⟩ := ends_update.1 ends
  obtain ⟨full, bare, here, here', same⟩ := matched.scope pair
  rw [Scopes.update_of_get here] at done
  split at done
  case isFalse => nomatch done
  case isTrue old =>
    obtain ⟨rfl, rfl⟩ := Prod.mk.inj (Except.ok.inj done)
    have old' : bare.binds binding.name = true := by
      rwa [Scope.binds, ← same.bindings]
    refine ⟨m, (bare.bind binding).1, _, .refl m, same.handed binding,
      matched.setBoth pair here here' (by rfl) (by rfl) (same.bind binding) _ _,
      ends_update.2 ⟨_, ?_, rfl⟩⟩
    rw [Scopes.update_of_get here', if_pos old']

theorem tracks_await (pair : m.Scope j i) (name : String) {work work' : Deferral Empty}
    (task : m.Task work work') :
    Tracks m busy s a (await j name work position) (await i name work' position)
      fun _ _ _ => True := by
  intro _ t ends
  obtain ⟨changed, done, rfl⟩ := ends_await.1 ends
  obtain ⟨full, bare, here, here', same⟩ := matched.scope pair
  rw [Scopes.await_of_get here] at done
  obtain rfl := Except.ok.inj done
  have waiting : m.Waiting ⟨work, position⟩ ⟨work', position⟩ := ⟨task, rfl⟩
  exact ⟨m, (), _, .refl m, trivial,
    matched.setBoth pair here here' (by rfl) (by rfl) (same.await name waiting) _ _,
    ends_await.2 ⟨_, Scopes.await_of_get here' _ _, rfl⟩⟩

theorem tracks_defer (pair : m.Scope j i) (name : String) (declared : Option String)
    {work work' : Deferral Empty} (task : m.Task work work') :
    Tracks m busy s a (defer j name declared work position) (defer i name declared work' position)
      fun _ _ _ => True := by
  obtain ⟨anchor, anchor', found, found', same⟩ := matched.anchor pair name declared
  simp only [defer]
  refine tracks_scopes ?_
  rw [found, found']
  cases anchor with
  | bound owner =>
    cases anchor' with
    | bound owner' => exact tracks_await matched same name task
    | root owner' => exact same.elim
  | root owner =>
    cases anchor' with
    | bound owner' => exact same.elim
    | root owner' => exact tracks_await matched same name (.hoisted name position same task)

theorem tracks_setResult (pair : m.Scope j i) (result : Ty) :
    Tracks m busy s a (setResult j result position) (setResult i result position)
      fun n => n.Tasks := by
  intro work t ends
  obtain ⟨changed, done, rfl⟩ := ends_setResult.1 ends
  obtain ⟨work', changed', done', tasks, matched'⟩ := matched.changeFunction pair done
    (fun _ waiting => (waiting, .function result [])) m.Tasks
    (fun _ _ _ tasks => ⟨tasks, rfl, .nil⟩) (.resultSet j result :: s.journal)
    (.resultSet i result :: a.journal)
  exact ⟨m, work', _, .refl m, tasks, matched', ends_setResult.2 ⟨changed', done', rfl⟩⟩

theorem tracks_awaitResult (pair : m.Scope j i) {work work' : Deferral Empty}
    (task : m.Task work work') :
    Tracks m busy s a (awaitResult j work position) (awaitResult i work' position)
      fun _ _ _ => True := by
  intro _ t ends
  obtain ⟨changed, done, rfl⟩ := ends_awaitResult.1 ends
  simp only [Scopes.awaitResult, bind_eq_ok, pure_eq_ok] at done
  obtain ⟨⟨_, scopes⟩, done, rfl⟩ := done
  obtain ⟨_, changed', done', -, matched'⟩ := matched.changeFunction pair done
    (fun result waiting => ((), .function result (waiting ++ [work']))) (fun _ _ => True)
    (fun _ _ _ tasks => ⟨trivial, rfl, tasks.append (.of_same task)⟩)
    (.resultAwaited j :: s.journal) (.resultAwaited i :: a.journal)
  refine ⟨m, (), _, .refl m, trivial, matched', ends_awaitResult.2 ⟨changed', ?_, rfl⟩⟩
  simp only [Scopes.awaitResult, done', bind, Except.bind]
  rfl

theorem tracks_addDraft (pair : m.Scope j i) (work : Work) :
    Tracks m busy s a (addDraft j work) (addDraft i work) fun n => n.Draft := by
  intro id t ends
  obtain ⟨rfl, rfl⟩ := ends_addDraft.1 ends
  exact ⟨_, _, _, m.within_withDraft _ _, .inr ⟨rfl, rfl⟩, matched.addBoth pair work,
    ends_addDraft.2 ⟨rfl, rfl⟩⟩

theorem tracks_setDraft {k l : DraftId} (drafts : m.Draft k l) (pair : m.Scope j i) (work : Work) :
    Tracks m busy s a (setDraft k j work) (setDraft l i work) fun _ _ _ => True := by
  intro _ t ends
  obtain rfl := ends_setDraft.1 ends
  exact ⟨m, (), _, .refl m, trivial, matched.redraftBoth drafts pair work, ends_setDraft.2 rfl⟩

theorem tracks_getDraft {k l : DraftId} (drafts : m.Draft k l) :
    Tracks m busy s a (getDraft k) (getDraft l) fun n => n.SameDraft := by
  intro draft t ends
  obtain ⟨found, rfl⟩ := ends_getDraft.1 ends
  obtain ⟨full, bare, here, here', same⟩ := matched.draft drafts
  obtain rfl := Option.some.inj (here.symm.trans found)
  exact ⟨m, bare, a, .refl m, same, matched, ends_getDraft.2 ⟨here', rfl⟩⟩

theorem tracks_addSignature {full bare : SignatureDraft} (same : m.SameHead full bare) :
    Tracks m busy s a (addSignature full) (addSignature bare) fun _ id id' => id = id' := by
  intro id t ends
  obtain ⟨rfl, rfl⟩ := ends_addSignature.1 ends
  exact ⟨m, _, { a with signatures := a.signatures ++ [bare] }, .refl m,
    matched.heads.length_eq,
    { matched with heads := List.rel_append matched.heads (.cons same .nil) },
    ends_addSignature.2 ⟨rfl, rfl⟩⟩

theorem tracks_getSignature (id : SignatureId) :
    Tracks m busy s a (getSignature id) (getSignature id) fun n => n.SameHead := by
  intro draft t ends
  obtain ⟨found, rfl⟩ := ends_getSignature.1 ends
  obtain ⟨bare, found', same⟩ := rel_getElem? matched.heads found
  exact ⟨m, bare, a, .refl m, same, matched, ends_getSignature.2 ⟨found', rfl⟩⟩

theorem tracks_setSignature (id : SignatureId) {full bare : SignatureDraft}
    (same : m.SameHead full bare) :
    Tracks m busy s a (setSignature id full) (setSignature id bare) fun _ _ _ => True := by
  intro _ t ends
  obtain rfl := ends_setSignature.1 ends
  exact ⟨m, (), { a with signatures := a.signatures.set id bare }, .refl m, trivial,
    { matched with heads := rel_set matched.heads same },
    ends_setSignature.2 rfl⟩

end Both

/-! Steps of the full run. -/

section Own

variable (matched : Matches m busy s a) {position : Position}
include matched

theorem aside_note (message : Note) : Aside m busy s a (note message) fun _ _ => True := by
  intro _ t ends
  obtain rfl := ends_note.1 ends
  exact ⟨m, .refl m, trivial, matched.noted _ a.journal⟩

theorem aside_tick : Aside m busy s a tick fun _ _ => True := by
  intro _ t ends
  obtain ⟨left, paid, rfl⟩ := ends_tick.1 ends
  have less : left ≤ a.budget := Nat.le_trans (paid ▸ Nat.le_succ left) matched.budget
  exact ⟨m, .refl m, trivial, { matched with budget := less }⟩

theorem aside_createScope (own : m.OwnScope j) (kind : ScopeKind) :
    Aside m busy s a (createScope (some j) kind) fun n => n.OwnScope := by
  intro inner t ends
  obtain ⟨rfl, rfl⟩ := ends_createScope.1 ends
  obtain ⟨-, full, here, -⟩ := matched.ownScope own
  exact ⟨_, m.within_withOwnScope _, .inr rfl,
    matched.createOwn (Scopes.lt_size_of_get here) kind _⟩

/-- What waited in a scope of its own is its own work. -/
theorem aside_define (own : m.OwnScope j) (binding : Binding) :
    Aside m busy s a (define j binding position) fun n work => n.Tasks work [] := by
  intro work t ends
  obtain ⟨changed, done, rfl⟩ := ends_define.1 ends
  obtain ⟨unmatched, full, here, encloses⟩ := matched.ownScope own
  rw [Scopes.define_of_get here] at done
  split at done
  · nomatch done
  · obtain ⟨rfl, rfl⟩ := Prod.mk.inj (Except.ok.inj done)
    exact ⟨m, .refl m, encloses.handed binding, matched.setFull here (by rfl)
      (fun i _ pair => absurd pair (unmatched i)) (fun _ encloses => encloses.bind binding) _⟩

theorem aside_update (own : m.OwnScope j) (binding : Binding) :
    Aside m busy s a (update j binding position) fun n work => n.Tasks work [] := by
  intro work t ends
  obtain ⟨changed, done, rfl⟩ := ends_update.1 ends
  obtain ⟨unmatched, full, here, encloses⟩ := matched.ownScope own
  rw [Scopes.update_of_get here] at done
  split at done
  case isFalse => nomatch done
  case isTrue =>
    obtain ⟨rfl, rfl⟩ := Prod.mk.inj (Except.ok.inj done)
    exact ⟨m, .refl m, encloses.handed binding, matched.setFull here (by rfl)
      (fun i _ pair => absurd pair (unmatched i)) (fun _ encloses => encloses.bind binding) _⟩

/-- Its own work may wait anywhere. -/
theorem aside_await (name : String) {work : Deferral Empty} (task : m.OwnTask work) :
    Aside m busy s a (await j name work position) fun _ _ => True := by
  intro _ t ends
  obtain ⟨changed, done, rfl⟩ := ends_await.1 ends
  obtain ⟨full, here, rfl⟩ : ∃ full, s.scopes.all[j]? = some full ∧
      s.scopes.set j (full.await name ⟨work, position⟩) = changed := by
    simpa [Scopes.await, bind_eq_ok, Scopes.get_eq_ok, pure_eq_ok] using done
  have own : m.OwnWaiter ⟨work, position⟩ := task
  exact ⟨m, .refl m, trivial, matched.setFull here (by rfl)
    (fun _ _ _ same => same.awaitFull name own) (fun _ encloses => encloses.await name own) _⟩

theorem aside_defer (name : String) (declared : Option String) {work : Deferral Empty}
    (task : m.OwnTask work) :
    Aside m busy s a (defer j name declared work position) fun _ _ => True := by
  refine aside_scopes (aside_ofFault fun anchor _ => ?_)
  cases anchor with
  | bound owner => exact aside_await matched name task
  | root owner => exact aside_await matched name (.hoisted owner name position task)

theorem aside_addDraft (own : m.OwnScope j) {work : Work} (simple : work.isReturn = false) :
    Aside m busy s a (addDraft j work) fun n => n.OwnDraft := by
  intro id t ends
  obtain ⟨rfl, rfl⟩ := ends_addDraft.1 ends
  exact ⟨_, m.within_withOwnDraft _, .inr rfl, matched.addOwn own simple⟩

theorem aside_setDraft {k : DraftId} (mine : m.OwnDraft k) (own : m.OwnScope j) {work : Work}
    (simple : work.isReturn = false) :
    Aside m busy s a (setDraft k j work) fun _ _ => True := by
  intro _ t ends
  obtain rfl := ends_setDraft.1 ends
  exact ⟨m, .refl m, trivial, matched.redraftOwn mine own simple⟩

theorem aside_getDraft {k : DraftId} (mine : m.OwnDraft k) :
    Aside m busy s a (getDraft k) fun n draft =>
      n.OwnScope draft.scope ∧ draft.work.isReturn = false := by
  intro draft t ends
  obtain ⟨found, rfl⟩ := ends_getDraft.1 ends
  obtain ⟨-, full, here, inside⟩ := matched.ownDraft mine
  obtain rfl := Option.some.inj (here.symm.trans found)
  exact ⟨m, .refl m, inside, matched⟩

/-- A scope of its own is inside another one. -/
theorem Matches.not_isTopLevel (own : m.OwnScope j) : s.scopes.isTopLevel j ≠ .ok true := by
  obtain ⟨-, full, here, encloses⟩ := matched.ownScope own
  have inner := encloses.parent
  cases isParent : full.parent with
  | none => simp [isParent] at inner
  | some outer =>
    simp [Scopes.isTopLevel, Scopes.parent, Scopes.get_eq_ok.2 here, isParent]

end Own

end Hoist.Check
