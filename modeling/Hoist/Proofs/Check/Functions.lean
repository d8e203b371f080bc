import Hoist.Proofs.Check.Bodies

/-!
Functions. The parameters are bound in the scope of the body before its statements are checked; the
name of the function is bound after them, with the result type that the returns have left.

Main statement: a function leaves the checker ready if its body does (`reaches_function`).
-/
namespace Hoist

namespace Scopes

variable {δ : Type} {before between after : Scopes δ}

/-- Binding a name does not depend on what waits for a result type. -/
theorem Changed.swap {defined : Scopes δ} {body id : ScopeId} {result : Ty}
    {waiting work handed : List δ} {binding : Binding}
    (changed : before.Changed between body result waiting)
    (bound : between.Bound after id binding work) (first : before.Bound defined id binding handed) :
    handed = work ∧ defined.Changed after body result waiting := by
  refine ⟨by rw [first.work, bound.work, changed.waiters], ?_⟩
  constructor
  case inside => rw [first.size]; exact changed.inside
  case size => rw [bound.size, changed.size, first.size]
  case parent => intro other; rw [bound.parent, changed.parent, first.parent]
  case kind => intro other; rw [bound.kind, changed.kind, first.kind]
  case bindings => intro other name; rw [bound.bindings, changed.bindings, first.bindings]
  case waiters => intro other name; rw [bound.waiters, changed.waiters, first.waiters]
  case result => intro other; rw [bound.result, changed.result, first.result]
  case resultWaiters =>
    intro other
    rw [bound.resultWaiters, changed.resultWaiters, first.resultWaiters]

end Scopes

namespace Check

open Desk

variable {σ : Type} {kept : σ → Prop} {s m t : Checker Empty σ} {frames : List Frame}
  {terms : Terms} {scope : ScopeId} {client : Empty → Check Empty σ Unit}

/-! Parameters. -/

theorem concrete_of_checkParameters {seen : List String} {parameters : List (String × Ty)}
    (checked : checkParameters seen parameters = .ok ()) :
    ∀ parameter ∈ parameters, parameter.2.isConcrete = true := by
  induction parameters generalizing seen with
  | nil => simp
  | cons parameter rest ih =>
    obtain ⟨name, type⟩ := parameter
    simp only [checkParameters] at checked
    split at checked
    · simp at checked
    · split at checked
      · simp at checked
      · rename_i known
        intro other mem
        rcases List.mem_cons.1 mem with rfl | later
        · simpa using known
        · exact ih checked other later

theorem reaches_parameters {position : Position} {parameters : List (String × Ty)} {done : Unit}
    (concrete : ∀ parameter ∈ parameters, parameter.2.isConcrete = true)
    (ready : Ready kept s frames) (here : (frames.map Frame.id).head? = some scope)
    (ends : Ends (defineParameters (runWave client) scope position parameters) s done t) :
    Reaches kept scope s (Frame.declare (parameters.map (·.1)) frames) t ∧
      ∀ parameter ∈ parameters, parameter.2.isConcrete = true ∧
        (t.desk []).BoundAs scope parameter.1 parameter.2 false := by
  induction parameters generalizing s frames with
  | nil =>
    obtain ⟨_, rfl⟩ := ends_pure.1 ends
    exact ⟨by simpa using Reaches.refl ready scope, by simp⟩
  | cons parameter rest ih =>
    obtain ⟨name, type⟩ := parameter
    simp only [defineParameters, ends_bind] at ends
    obtain ⟨work, m, defines, _, m', settles, ends⟩ := ends
    have binds := binds_define ready here defines settles
    obtain ⟨reaches, each⟩ := ih (fun other mem => concrete other (List.mem_cons_of_mem _ mem))
      binds.reaches.ready (by simpa using here) ends
    have known := concrete (name, type) List.mem_cons_self
    refine ⟨by simpa [Frame.declare_declare] using binds.reaches.trans reaches, fun other mem => ?_⟩
    rcases List.mem_cons.1 mem with rfl | later
    · have keeps : (m'.desk []).BoundAs scope name type false := ⟨_, binds.bound, rfl, rfl⟩
      exact ⟨known, keeps.later known reaches.grows.evolves⟩
    · exact each other later

/-! The end of a function. -/

theorem finishFunction_of_ends {settle : List (Deferral Empty) → Check Empty σ Unit}
    {signature : Signature} {inner : ScopeId} {id : SignatureId} {result : Ty}
    (known : s.scopes.resultType inner = .ok (some result))
    (ends : Ends (closeFunction settle scope inner signature) s id t) :
    Ends (finishFunction settle scope inner { signature with result := resultOf result }) s id t := by
  unfold closeFunction at ends
  rw [ends_bind] at ends
  obtain ⟨_, _, scopes, ends⟩ := ends
  obtain ⟨rfl, rfl⟩ := ends_scopes.1 scopes
  rw [ends_bind] at ends
  obtain ⟨_, _, look, ends⟩ := ends
  obtain ⟨found, rfl⟩ := ends_ofFault.1 look
  obtain rfl : some result = _ := Except.ok.inj (known.symm.trans found)
  cases result <;> exact ends

/-- The name of a function is bound and its head put on the desk. -/
theorem sound_named {d : Desk} {h : SignatureDraft} {scopes : Scopes (Deferral Empty)}
    {work : List (Deferral Empty)} {result : Ty} (sound : d.Sound)
    (kind : d.scopes.kind? h.body = some .function) (known : d.scopes.result? h.body = some result)
    (set : h.signature.result = resultOf result)
    (unbound : d.scopes.binding? h.scope h.signature.name = none)
    (bound : d.scopes.Bound scopes h.scope h.signature.binding work) :
    Sound { d with scopes, queue := d.queue ++ work, signatures := d.signatures ++ [h] } ∧
      Evolves d { d with scopes, queue := d.queue ++ work, signatures := d.signatures ++ [h] } := by
  have unbound : d.scopes.binding? h.scope h.signature.binding.name = none := unbound
  have extended := extends_bound unbound bound
  have sound' := extended.sound sound (sound.rooted.of_parents bound.parent)
  have free : Free { d with scopes, queue := d.queue ++ work } h.scope h.signature.name :=
    fun who key => free_of_unbound sound unbound who ((extended.key who).symm.trans key)
  have checked : HeadChecked { d with scopes, queue := d.queue ++ work } h := by
    refine ⟨(bound.kind _).trans kind, ⟨h.signature.result, ?_, .inl rfl⟩, fun _ => ?_⟩
    · exact (bound.bindings _ _).trans (if_pos ⟨rfl, rfl⟩)
    · have kept : scopes.result? h.body = some result := (bound.result _).trans known
      by_cases unset : result = .unannotated
      · subst unset
        exact .inr ⟨kept, set⟩
      · refine .inl (kept.trans ?_)
        rw [set]
        cases result <;> first | rfl | exact absurd rfl unset
  refine ⟨sound_head sound' checked free, extended.evolves.trans ?_⟩
  exact evolves_new rfl rfl (fun _ _ found => found) fun _ _ => getElem?_append_old

/-- From the state in which the name of a function is bound to the end of the wave it causes. -/
theorem reaches_named {h : SignatureDraft} {inner : Frame} {result : Ty} {done : Unit}
    {scopes : Scopes (Deferral Empty)} {work : List (Deferral Empty)}
    (settles : Ends (runWave client work) m done t) (ready : Ready kept s (inner :: frames))
    (here : (frames.map Frame.id).head? = some h.scope) (body : h.body = inner.id)
    (kind : s.scopes.kind? h.body = some .function)
    (known : s.scopes.result? h.body = some result) (set : h.signature.result = resultOf result)
    (unbound : s.scopes.binding? h.scope h.signature.name = none)
    (bound : s.scopes.Bound scopes h.scope h.signature.binding work)
    (later : Sound ⟨scopes, s.drafts, s.signatures ++ [h], s.queue ++ work⟩ →
      MovesTo ⟨scopes, s.drafts, s.signatures ++ [h], s.queue ++ work⟩ ((queued m work).desk []))
    (beside : Beside s m) :
    Reaches kept h.scope s (Frame.declare [h.signature.name] frames) t ∧
      (∀ frame ∈ frames.head?, h.signature.name ∉ frame.names) ∧
      ∃ after, t.signatures[s.signatures.length]? = some after ∧ after.head = h.head := by
  have around : frames ≠ [] := by
    rintro rfl
    simp at here
  have outside := ready.outer around
  obtain ⟨sound, evolves⟩ := sound_named ready.sound kind known set unbound bound
  have moves := later sound
  obtain ⟨moves', beside', empty⟩ :=
    movesTo_runWave settles (beside.firing.trans ready.idle) moves.sound
  have whole := moves.trans moves'
  have exact : (t.desk []).Exact (Frame.declare [h.signature.name] frames) :=
    (outside.known.declare (t := ⟨scopes, s.drafts, s.signatures ++ [h], s.queue ++ work⟩) here
      bound).of_steady whole.steady
  have apart : ∀ other ∈ s.signatures ++ [h], other.body ∉ frames.map Frame.id := by
    intro other mem
    rcases List.mem_append.1 mem with old | new
    · exact outside.bodies other old
    · obtain rfl := List.mem_singleton.1 new
      intro inside
      exact absurd body (Nat.ne_of_lt (ready.known.path.lt_of_mem inside))
  refine ⟨⟨⟨moves'.sound, exact, empty, ?_, ?_, ?_⟩, ?_, ?_⟩, ?_, ?_⟩
  · exact beside'.firing.trans (beside.firing.trans ready.idle)
  · rw [Frame.map_id_declare]
    exact whole.steady.bodies apart
  · exact beside'.store ▸ beside.store ▸ ready.store
  · refine ⟨evolves.trans whole.evolves, fun place name other _ known => ?_⟩
    have known : (scopes.binding? place name).isSome = true := whole.steady.named place name ▸ known
    rwa [bound.bindings, if_neg fun clash => other clash.1] at known
  · exact Nat.le_trans beside'.budget beside.budget
  · exact outside.known.undeclared here unbound
  · obtain ⟨after, found, same⟩ := whole.evolves.head s.signatures.length h (by simp)
    exact ⟨after, found, same⟩

/-- The head of a function is kept and its name bound: that comes to a name that is bound by its
head, after which the head may begin to wait for its result type. -/
theorem movesTo_named {signature : Signature} {inner : ScopeId} {id : SignatureId} {result : Ty}
    {position : Position} {work : List (Deferral Empty)} (rooted : s.scopes.Rooted)
    (kind : s.scopes.kind? inner = some .function) (known : s.scopes.result? inner = some result)
    (set : signature.result = resultOf result) (adds : Ends (addHead scope inner signature) s id m)
    (defines : Ends (define scope signature.binding position) m work t) :
    id = s.signatures.length ∧ Beside s t ∧ ∃ scopes,
      s.scopes.binding? scope signature.name = none ∧
      s.scopes.Bound scopes scope signature.binding work ∧
      (Sound ⟨scopes, s.drafts, s.signatures ++ [⟨scope, inner, signature⟩], s.queue ++ work⟩ →
        MovesTo ⟨scopes, s.drafts, s.signatures ++ [⟨scope, inner, signature⟩], s.queue ++ work⟩
          ((queued t work).desk [])) := by
  cases pending : signature.result.isPending with
  | false =>
    simp only [addHead, ends_bind, ends_addSignature, pending, Bool.false_eq_true, ↓reduceIte,
      ends_pure, and_assoc, exists_eq_left] at adds
    obtain ⟨rfl, rfl⟩ := adds
    obtain ⟨scopes, defined, rfl⟩ := ends_define.1 defines
    obtain ⟨unbound, bound⟩ := Scopes.define_eq_ok defined
    exact ⟨rfl, ⟨rfl, rfl, Nat.le_refl _⟩, scopes, unbound, bound, fun sound => .refl sound⟩
  | true =>
    simp only [addHead, ends_bind, ends_addSignature, pending, ↓reduceIte, ends_awaitResult,
      ends_pure, and_assoc, exists_eq_left] at adds
    obtain ⟨_, _, ⟨waiting, awaits, rfl⟩, rfl, rfl⟩ := adds
    obtain ⟨scopes, defined, rfl⟩ := ends_define.1 defines
    obtain ⟨body, result', around, kept, changed⟩ := Scopes.awaitResult_eq_ok awaits
    obtain ⟨_, _, self, _⟩ := result_of_body rooted kind
    obtain rfl : inner = body := by simpa using self.symm.trans around
    obtain rfl : result = result' := Option.some.inj (known.symm.trans kept)
    obtain ⟨unbound, bound⟩ := Scopes.define_eq_ok defined
    have unbound : s.scopes.binding? scope signature.binding.name = none :=
      (changed.bindings _ _).symm.trans unbound
    have inside : scope < s.scopes.size := by
      rw [← changed.size]
      exact bound.inside
    -- Binding the name first and waiting afterwards comes to the same.
    obtain ⟨handed, named, first⟩ := Scopes.exists_define inside unbound
    obtain ⟨_, first⟩ := Scopes.define_eq_ok first
    obtain ⟨rfl, later⟩ := changed.swap bound first
    have same : signature.result = result := by
      rw [set] at pending ⊢
      cases result <;> first | rfl | simp [resultOf, Ty.isPending, Ty.pendingOn] at pending
    have found : (s.signatures ++ [⟨scope, inner, signature⟩])[s.signatures.length]? =
        some ⟨scope, inner, signature⟩ := by simp
    have put : PutAt (s.signatures ++ [⟨scope, inner, signature⟩]) s.signatures.length
        ⟨scope, inner, { signature with result }⟩
        (s.signatures ++ [⟨scope, inner, signature⟩]) := by
      intro other
      rw [← same]
      by_cases new : other = s.signatures.length
      · rw [new, found, if_pos rfl]
      · rw [if_neg new]
    rw [← first.resultWaiters] at later
    refine ⟨rfl, ⟨rfl, rfl, Nat.le_refl _⟩, named, unbound, first, fun sound => ?_⟩
    exact (Move.postpone
      (s := ⟨named, s.drafts, s.signatures ++ [⟨scope, inner, signature⟩], s.queue ++ handed⟩)
      found ((first.result _).trans known) (same ▸ pending) later put).movesTo sound

theorem reaches_close {signature : Signature} {inner : Frame} {id : SignatureId} {result : Ty}
    (ready : Ready kept s (inner :: frames)) (here : (frames.map Frame.id).head? = some scope)
    (kind : s.scopes.kind? inner.id = some .function)
    (known : s.scopes.result? inner.id = some result) (set : signature.result = resultOf result)
    (ends : Ends (finishFunction (runWave client) scope inner.id signature) s id t) :
    Reaches kept scope s (Frame.declare [signature.name] frames) t ∧
      (∀ frame ∈ frames.head?, signature.name ∉ frame.names) ∧
      ∃ h, t.signatures[id]? = some h ∧
        h.head = SignatureDraft.head ⟨scope, inner.id, signature⟩ := by
  simp only [finishFunction_eq, ends_bind, ends_pure] at ends
  obtain ⟨_, m, adds, work, m', defines, _, _, settles, rfl, rfl⟩ := ends
  obtain ⟨rfl, beside, scopes, unbound, bound, later⟩ :=
    movesTo_named ready.sound.rooted kind known set adds defines
  exact reaches_named (h := ⟨scope, inner.id, signature⟩) settles ready here rfl kind known set
    unbound bound later beside

theorem ready_parameters {signature : Signature} {inner : ScopeId} (ready : Ready kept s frames)
    (here : (frames.map Frame.id).head? = some scope)
    (checked : checkParameters [] signature.parameters = .ok ())
    (creates : Ends (createScope (some scope) (.function signature.result)) s inner m)
    (defines : Ends (defineParameters (runWave client) inner signature.span.start
      signature.parameters) m () t) :
    Ready kept t (⟨inner, signature.parameters.map (·.1)⟩ :: frames) ∧
      t.scopes.kind? inner = some .function := by
  have made := reaches_create ready here creates inner
  obtain ⟨rfl, rfl⟩ := ends_createScope.1 creates
  obtain ⟨bound, -⟩ :=
    reaches_parameters (concrete_of_checkParameters checked) made.ready rfl defines
  refine ⟨bound.ready, bound.grows.evolves.kind _ _ ?_⟩
  exact ((s.scopes.created_create scope (.function signature.result)).kind _).trans (if_pos rfl)

theorem reaches_function {signature : Signature} {body : List Stmt} {inner : ScopeId}
    {id : SignatureId} {outlines : List Outline} {n m' : Checker Empty σ} (ready : Ready kept s frames)
    (here : (frames.map Frame.id).head? = some scope)
    (onTop : s.scopes.isTopLevel scope = .ok true)
    (checked : checkParameters [] signature.parameters = .ok ())
    (creates : Ends (createScope (some scope) (.function signature.result)) s inner m)
    (defines : Ends (defineParameters (runWave client) inner signature.span.start
      signature.parameters) m () n)
    (walks : Walks terms kept body inner n outlines m')
    (closes : Ends (closeFunction (runWave client) scope inner signature) m' id t) :
    Reaches kept scope s (Frame.declare ((t.desk []).names (.function id outlines)) frames) t ∧
      (t.desk []).TreeAt terms frames (.function id outlines) ∧
      (t.desk []).AllOutlined (Stmt.allLeaves body) (Typed.Tree.allLeaves outlines) ∧
      t.budget + (Typed.Tree.function id outlines : Outline).count ≤ s.budget + 1 := by
  have top := length_of_onTop ready here onTop
  have made := reaches_create ready here creates inner
  obtain ⟨rfl, rfl⟩ := ends_createScope.1 creates
  obtain ⟨bound, keeps⟩ :=
    reaches_parameters (concrete_of_checkParameters checked) made.ready rfl defines
  obtain ⟨reaches, trees, leaves, paid⟩ := walks bound.ready rfl
  have whole := bound.grows.trans reaches.grows
  have kind : m'.scopes.kind? s.scopes.size = some .function := by
    refine whole.evolves.kind _ _ ?_
    exact ((s.scopes.created_create scope (.function signature.result)).kind _).trans (if_pos rfl)
  obtain ⟨result, known, _, resultType⟩ := result_of_body reaches.ready.sound.rooted kind
  obtain ⟨closed, new, h, found, head⟩ :=
    reaches_close reaches.ready here kind known rfl (finishFunction_of_ends resultType closes)
  obtain ⟨frame, outer, rfl⟩ : ∃ frame outer, frames = frame :: outer := by
    cases frames with
    | nil => simp at here
    | cons frame outer => exact ⟨frame, outer, rfl⟩
  obtain rfl : frame.id = scope := by simpa using here
  obtain ⟨place, inside, drafted⟩ := h
  simp only [SignatureDraft.head, SignatureDraft.mk.injEq, Signature.mk.injEq] at head
  obtain ⟨rfl, rfl, name, parameters, -, -, -⟩ := head
  have innerBody := reaches.ready.inner kind
  have standing := (reaches.ready.outer (List.cons_ne_nil _ _)).known.toStanding
  have bodyLater := body_later closed.grows (by simp) standing innerBody trees
    fun young stands => trees.later closed.grows young stands
  have later : (t.desk []).signatures[id]? = some ⟨frame.id, s.scopes.size, drafted⟩ := found
  have names : (t.desk []).names (.function id outlines) = [signature.name] := by
    simp [Desk.names, later, name]
  rw [names]
  refine ⟨⟨closed.ready, ?_, ?_⟩, ?_, leaves.later closed.grows.evolves, ?_⟩
  · exact (made.grows.leave whole (parent?_size s.scopes) frame.id).trans closed.grows
  · exact Nat.le_trans closed.budget (Nat.le_trans reaches.budget
      (Nat.le_trans bound.budget made.budget))
  · rw [TreeAt]
    refine ⟨_, later, ⟨here, top, by simpa [name] using new, by simpa [parameters] using checked,
      fun parameter mem => ?_⟩, ?_⟩
    · rw [parameters] at mem
      obtain ⟨concrete, keeps⟩ := keeps parameter mem
      exact ⟨concrete, keeps.later concrete (reaches.grows.evolves.trans closed.grows.evolves)⟩
    · rw [parameters]
      exact bodyLater
  · have budget := closed.budget
    have budget' := bound.budget
    have budget'' := made.budget
    simp only [Typed.Tree.count]
    omega

end Check

end Hoist
