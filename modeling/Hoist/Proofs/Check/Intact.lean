import Hoist.Proofs.Check.Parts
import Hoist.Proofs.Check.Sound
import Hoist.Proofs.Recheck.Filled
import Hoist.Proofs.Typing.Refusals

/-!
Nothing is looked for in vain. The drafts and the function heads of a checker stand in scopes that are
there, and what is put off is about drafts and heads that are there. So a step between two statements
finds whatever it looks for, and leaves everything there. Neither does it stop because something was
left open: statements that have to wait are kept as drafts.

Main statement: this is so for waves of deferrals (`Check.safe_runWave`).
-/
namespace Hoist

/-- Something was left open at the end of a file: a type was not found, or a name never came. -/
def Cause.isOpen : Cause → Bool
  | .unresolvedType _ | .unresolvedReference _ => true
  | _ => false

def Halt.isOpen : Halt → Bool
  | .rejected diagnostic => diagnostic.cause.isOpen
  | _ => false

theorem Cause.not_open_of_isLawful {cause : Cause} (lawful : cause.isLawful = true) :
    cause.isOpen = false := by
  cases cause <;> simp_all [Cause.isLawful, Cause.isOpen]

/-- Something was refused, and not because it was left open. -/
def Fault.NotOpen : Fault → Prop
  | .refused cause => cause.isOpen = false
  | .dangling => False

theorem Fault.allowsRules_notOpen : AllowsRules Fault.NotOpen :=
  fun _ lawful => Cause.not_open_of_isLawful lawful

/-- The stores that a run may meet, and the reasons for which it may be stopped. -/
structure Policy (σ : Type) where
  kept : σ → Prop
  allowed : Halt → Prop
  closed : ∀ {halt : Halt}, halt.isOpen = false → halt ≠ .dangling → allowed halt

theorem Policy.refused {σ : Type} (p : Policy σ) {fault : Fault} (closed : fault.NotOpen)
    (position : Position) : p.allowed (fault.haltAt position) := by
  cases fault with
  | refused cause => exact p.closed closed (by simp [Fault.haltAt])
  | dangling => exact closed.elim

/-- How many scopes, drafts and function heads there are. -/
structure Stock where
  scopes : Nat
  drafts : Nat
  heads : Nat

/-- What is put off is about things that are there. -/
def Deferral.InStock (n : Stock) : Deferral Empty → Prop
  | .resume id _ => id < n.drafts
  | .conclude id => id < n.heads
  | .hoisted root _ _ rest => root < n.scopes ∧ rest.InStock n
  | .client _ => True

theorem Deferral.InStock.mono {n m : Stock} {work : Deferral Empty} (there : work.InStock n)
    (scopes : n.scopes ≤ m.scopes) (drafts : n.drafts ≤ m.drafts) (heads : n.heads ≤ m.heads) :
    work.InStock m := by
  induction work with
  | resume | conclude => exact Nat.lt_of_lt_of_le there (by assumption)
  | hoisted _ _ _ _ ih => exact ⟨Nat.lt_of_lt_of_le there.1 scopes, ih there.2⟩
  | client => trivial

namespace Desk

structure Intact (n : Stock) (s : Desk) : Prop where
  scopes : s.scopes.size = n.scopes
  rooted : s.scopes.Rooted
  drafts : s.drafts.length = n.drafts ∧ ∀ d ∈ s.drafts, d.scope < n.scopes
  heads : s.signatures.length = n.heads ∧
    ∀ h ∈ s.signatures, h.scope < n.scopes ∧ h.body < n.scopes
  live : ∀ work, s.Live work → work.InStock n

variable {s : Desk} {n : Stock} {scopes : Scopes (Deferral Empty)} {handed : List (Deferral Empty)}

theorem Intact.path {scope : ScopeId} (intact : s.Intact n) (inside : scope < n.scopes) :
    ∃ outer, s.scopes.Path (scope :: outer) :=
  intact.rooted scope (intact.scopes.symm ▸ inside)

/-- A change of the scopes, and the work that it hands back. -/
theorem Intact.change (intact : s.Intact n) (size : scopes.size = s.scopes.size)
    (parents : ∀ id, scopes.parent? id = s.scopes.parent? id)
    (live : ∀ work, Live { s with scopes, queue := s.queue ++ handed } work →
      s.Live work ∨ work.InStock n) :
    Intact n { s with scopes } ∧ ∀ work ∈ handed, work.InStock n := by
  have there (work : Deferral Empty) (lives) : work.InStock n :=
    (live work lives).elim (intact.live work) id
  exact ⟨⟨size.trans intact.scopes, intact.rooted.of_parents parents, intact.drafts, intact.heads,
    fun work lives => there work (lives.imp_left (List.mem_append_left _))⟩,
    fun work mem => there work (.inl (List.mem_append_right _ mem))⟩

end Desk

theorem Scopes.fails_get {α : Type} {scopes : Scopes (Deferral Empty)} {id : ScopeId}
    {next : Scope (Deferral Empty) → Except Fault α} {allowed : Fault → Prop}
    (inside : id < scopes.size) (isNext : ∀ found, Fails allowed (next found)) :
    Fails allowed (scopes.get id >>= next) := by
  obtain ⟨found, here⟩ := exists_of_lt inside
  rw [get_eq_ok.2 here]
  exact isNext found

namespace Check

open Scopes Desk

variable {σ α β : Type} {p : Policy σ} {n : Stock} {scope : ScopeId} {id : DraftId} {name : String}
  {position : Position} {work : Deferral Empty} {handed : List (Deferral Empty)}
  {good : α → Prop} {good' : β → Prop} {names : View}

def Whole (p : Policy σ) (n : Stock) (s : Checker Empty σ) : Prop :=
  p.kept s.store ∧ (s.desk []).Intact n

/-- If everything is there, the step is stopped for allowed reasons only, and leaves everything there
as it was. -/
def Finds (p : Policy σ) (n : Stock) (step : Check Empty σ α) (good : α → Prop) : Prop :=
  ∀ s, Whole p n s →
    Yields step s (fun value t => Whole p n t ∧ good value) fun halt _ => p.allowed halt

abbrev Safe (p : Policy σ) (n : Stock) (step : Check Empty σ α) : Prop :=
  Finds p n step fun _ => True

theorem Finds.bind {first : Check Empty σ α} {next : α → Check Empty σ β}
    (isFirst : Finds p n first good) (isNext : ∀ value, good value → Finds p n (next value) good') :
    Finds p n (first >>= next) good' :=
  fun s whole => yields_bind.2 ((isFirst s whole).mono
    (fun value t holds => isNext value holds.2 t holds.1) fun _ _ => id)

theorem Finds.then {first : Check Empty σ α} {next : α → Check Empty σ β}
    (isFirst : Finds p n first good) (isNext : ∀ value, Finds p n (next value) good') :
    Finds p n (first >>= next) good' :=
  isFirst.bind fun value _ => isNext value

theorem Finds.safe {step : Check Empty σ α} (finds : Finds p n step good) : Safe p n step :=
  fun s whole => (finds s whole).mono (fun _ _ holds => ⟨holds.1, trivial⟩) fun _ _ => id

theorem finds_pure {value : α} (holds : good value) : Finds p n (pure value) good :=
  fun _ whole => yields_pure.2 ⟨whole, holds⟩

theorem finds_reject {cause : Cause} (closed : cause.isOpen = false) :
    Finds p n (reject cause position) good :=
  fun _ _ => yields_reject.2 (p.closed closed (by simp))

theorem finds_ofFault {result : Except Fault α} (sure : Fails Fault.NotOpen result) :
    Finds p n (ofFault position result) (result = .ok ·) :=
  fun _ whole => yields_ofFault.2
    ⟨fun _ known => ⟨whole, known⟩, fun fault failed => p.refused (sure fault failed) position⟩

theorem finds_ofCause {result : Except Cause α} (sure : Fails (·.isOpen = false) result) :
    Safe p n (ofCause position result) :=
  fun _ whole => yields_ofCause.2
    ⟨fun _ _ => ⟨whole, trivial⟩, fun cause failed => p.closed (sure cause failed) (by simp)⟩

theorem safe_modify {change : Checker Empty σ → Checker Empty σ}
    (stores : ∀ s, (change s).store = s.store)
    (keeps : ∀ {s : Checker Empty σ}, (s.desk []).Intact n → ((change s).desk []).Intact n) :
    Safe p n (modify change) :=
  fun s whole => yields_modify.2 ⟨⟨(stores s).symm ▸ whole.1, keeps whole.2⟩, trivial⟩

/-! Reading. -/

theorem finds_scopes (inside : scope < n.scopes) : Finds p n scopes fun found =>
    found.size = n.scopes ∧ ∃ outer, found.Path (scope :: outer) :=
  fun _ whole => yields_scopes.2 ⟨whole, whole.2.scopes, whole.2.path inside⟩

theorem finds_read (read : Scopes (Deferral Empty) → Except Fault α) {next : α → Check Empty σ β}
    (inside : scope < n.scopes) (known : ∀ {found : Scopes (Deferral Empty)} {outer},
      found.Path (scope :: outer) → ∃ value, read found = .ok value)
    (isNext : ∀ value, Finds p n (next value) good') :
    Finds p n (do next (← ofFault position (read (← scopes)))) good' := by
  refine (finds_scopes inside).bind ?_
  rintro found ⟨-, outer, path⟩
  obtain ⟨value, known⟩ := known path
  exact (finds_ofFault (by simp [known])).then isNext

theorem safe_demand {holds : Scopes (Deferral Empty) → Except Fault Bool} {cause : Cause}
    (closed : cause.isOpen = false) (inside : scope < n.scopes)
    (known : ∀ {found : Scopes (Deferral Empty)} {outer},
      found.Path (scope :: outer) → ∃ answer, holds found = .ok answer) :
    Safe p n (demand holds cause position) := by
  refine finds_read holds inside known fun answer => ?_
  cases answer
  · exact finds_reject closed
  · exact finds_pure trivial

theorem finds_view (inside : scope < n.scopes) :
    Finds p n (view scope) fun names => ∀ name, Fails Fault.NotOpen (names.type name) := by
  refine (finds_scopes inside).bind ?_
  rintro found ⟨-, outer, path⟩
  refine finds_pure fun name => ?_
  rw [path.view_type_eq]
  split <;> simp

theorem finds_look {value : Expr} (sure : ∀ name, Fails Fault.NotOpen (names.type name)) :
    Finds p n (ofFault position (value.resolve names).1) ((value.resolve names).1 = .ok ·) :=
  finds_ofFault (Expr.fails_resolve Fault.allowsRules_notOpen names value fun symbol _ =>
    sure symbol.1)

theorem finds_getDraft (there : id < n.drafts) : Finds p n (getDraft id) (·.scope < n.scopes) := by
  intro s whole
  have found : s.drafts[id]? = _ :=
    List.getElem?_eq_getElem (whole.2.drafts.1.symm ▸ there : id < s.drafts.length)
  simp only [getDraft, yields_bind, yields_get, found, yields_pure]
  exact ⟨whole, whole.2.drafts.2 _ (List.getElem_mem _)⟩

theorem finds_getSignature {k : SignatureId} (there : k < n.heads) :
    Finds p n (getSignature k) fun h => h.scope < n.scopes ∧ h.body < n.scopes := by
  intro s whole
  have found : s.signatures[k]? = _ :=
    List.getElem?_eq_getElem (whole.2.heads.1.symm ▸ there : k < s.signatures.length)
  simp only [getSignature, yields_bind, yields_get, found, yields_pure]
  exact ⟨whole, whole.2.heads.2 _ (List.getElem_mem _)⟩

/-! Changing. -/

theorem safe_note {message : Note} : Safe p n (note message) :=
  safe_modify (fun _ => rfl) fun intact => intact

theorem safe_setDraft {work : Work} (inside : scope < n.scopes) :
    Safe p n (setDraft id scope work) := by
  refine safe_modify (fun _ => rfl) fun intact => ⟨intact.scopes, intact.rooted,
    ⟨List.length_set.trans intact.drafts.1, fun d mem => ?_⟩, intact.heads, intact.live⟩
  exact (List.mem_or_eq_of_mem_set mem).elim (intact.drafts.2 d) fun same => same ▸ inside

theorem safe_setSignature {k : SignatureId} {h : SignatureDraft}
    (inside : h.scope < n.scopes ∧ h.body < n.scopes) : Safe p n (setSignature k h) := by
  refine safe_modify (fun _ => rfl) fun intact => ⟨intact.scopes, intact.rooted, intact.drafts,
    ⟨List.length_set.trans intact.heads.1, fun other mem => ?_⟩, intact.live⟩
  exact (List.mem_or_eq_of_mem_set mem).elim (intact.heads.2 other) fun same => same ▸ inside

theorem safe_enqueue (there : ∀ work ∈ handed, work.InStock n) : Safe p n (enqueue handed) := by
  have adds : Safe p n (modify fun state => { state with queue := state.queue ++ handed }) := by
    refine safe_modify (fun _ => rfl) fun {s} intact => ⟨intact.scopes, intact.rooted, intact.drafts,
      intact.heads, fun work live => ?_⟩
    rcases live with queued | waits
    · have queued : work ∈ s.queue ++ handed := queued
      exact (List.mem_append.1 queued).elim (fun old => intact.live work (.inl old)) (there work)
    · exact intact.live work (.inr waits)
  unfold enqueue
  split
  · exact safe_note.then fun _ => adds
  · exact adds

/-- A change of the scopes, which may hand back work. -/
theorem finds_change (change : Scopes (Deferral Empty) → Except Fault α)
    (after : α → Scopes (Deferral Empty)) (handed : α → List (Deferral Empty))
    {next : α → Check Empty σ β} (inside : scope < n.scopes)
    (sure : ∀ {found : Scopes (Deferral Empty)} {outer}, found.Path (scope :: outer) →
      Fails Fault.NotOpen (change found))
    (keeps : ∀ {s : Desk} {answer}, s.Intact n → change s.scopes = .ok answer →
      Intact n { s with scopes := after answer } ∧ ∀ work ∈ handed answer, work.InStock n)
    (isNext : ∀ answer, (∀ work ∈ handed answer, work.InStock n) → Finds p n (next answer) good') :
    Finds p n (do
      let answer ← ofFault position (change (← scopes))
      setScopes (after answer)
      next answer) good' := by
  intro s whole
  obtain ⟨outer, path⟩ := whole.2.path inside
  simp only [yields_bind, yields_scopes, yields_ofFault, setScopes, yields_modify]
  refine ⟨fun answer done => ?_, fun fault failed => p.refused (sure path fault failed) position⟩
  obtain ⟨intact, there⟩ := keeps whole.2 done
  exact isNext answer there _ ⟨whole.1, intact⟩

theorem finds_define {binding : Binding} (inside : scope < n.scopes) :
    Finds p n (define scope binding position) fun handed => ∀ work ∈ handed, work.InStock n := by
  refine finds_change (·.define scope binding) (·.2) (·.1) inside
    (fun path => fails_get path.inside fun found => ?_) (fun intact done => ?_)
    fun _ there => safe_note.then fun _ => finds_pure there
  · cases found.binds binding.name with
    | true => exact fails_error.2 rfl
    | false => exact fails_pure _
  · have bound := (define_eq_ok done).2
    exact intact.change bound.size bound.parent fun _ live => .inl (live_bound bound rfl live)

theorem finds_update {binding : Binding} (inside : scope < n.scopes) :
    Finds p n (update scope binding position) fun handed => ∀ work ∈ handed, work.InStock n := by
  refine finds_change (·.update scope binding) (·.2) (·.1) inside
    (fun path => fails_get path.inside fun found => ?_) (fun intact done => ?_)
    fun _ there => safe_note.then fun _ => finds_pure there
  · cases found.binds binding.name with
    | true => exact fails_pure _
    | false => exact fails_error.2 rfl
  · have bound := (update_eq_ok done).2
    exact intact.change bound.size bound.parent fun _ live => .inl (live_bound bound rfl live)

theorem fails_changeFunction {found : Scopes (Deferral Empty)} {outer : List ScopeId}
    (path : found.Path (scope :: outer))
    (change : Ty → List (Deferral Empty) → α × Role (Deferral Empty)) :
    Fails Fault.NotOpen (found.changeFunction scope change) := by
  rw [changeFunction, path.functionBody_eq]
  cases around : (scope :: outer).find? fun at_ => decide (found.kind? at_ = some .function) with
  | none => exact fails_error.2 rfl
  | some body =>
    refine fails_get (path.mem_inside (List.mem_of_find?_eq_some around)) fun inner => ?_
    split
    · exact fails_pure _
    · exact fails_error.2 rfl

theorem finds_setResult {result : Ty} (inside : scope < n.scopes) :
    Finds p n (setResult scope result position) fun handed => ∀ work ∈ handed, work.InStock n := by
  refine finds_change (·.setResult scope result) (·.2) (·.1) inside
    (fun path => fails_changeFunction path _) (fun intact done => ?_)
    fun _ there => safe_note.then fun _ => finds_pure there
  obtain ⟨body, -, same, -, changed⟩ := setResult_eq_ok done
  rw [same]
  exact intact.change changed.size changed.parent fun work live =>
    .inl ((live_changed changed (fun _ => List.mem_append.1) live).resolve_right (by simp))

theorem safe_awaitResult (inside : scope < n.scopes) (there : work.InStock n) :
    Safe p n (awaitResult scope work position) := by
  refine finds_change (·.awaitResult scope work) id (fun _ => []) inside
    (fun path => (fails_changeFunction path _).bind fun _ => fails_pure _) (fun intact done => ?_)
    fun _ _ => safe_note
  obtain ⟨body, result, -, -, changed⟩ := awaitResult_eq_ok done
  refine intact.change changed.size changed.parent fun other live => ?_
  rcases live_changed changed (fun _ mem => .inl (by simpa using mem)) live with old | new
  · exact .inl old
  · rcases List.mem_append.1 new with old | last
    · exact .inl (.inr (.inr ⟨_, old⟩))
    · exact .inr (List.mem_singleton.1 last ▸ there)

theorem safe_await (inside : scope < n.scopes) (there : work.InStock n) :
    Safe p n (await scope name work position) := by
  refine safe_note.then fun _ => finds_change (·.await scope name ⟨work, position⟩) id (fun _ => []) inside
    (fun path => fails_get path.inside fun _ => fails_pure _) (fun intact done => ?_)
    fun _ _ => finds_pure trivial
  have awaited := await_eq_ok done
  refine intact.change awaited.size awaited.parent fun other live => ?_
  rw [List.append_nil] at live
  exact (live_awaited awaited live).imp_right fun (same : other = work) => same ▸ there

theorem safe_defer {declared : Option String} (inside : scope < n.scopes)
    (there : work.InStock n) : Safe p n (defer scope name declared work position) := by
  refine (finds_scopes inside).bind ?_
  rintro found ⟨size, outer, path⟩
  rcases path.anchor_cases name declared with ⟨owner, anchored, mem, -⟩ | ⟨anchored, -⟩
  · rw [anchored]
    exact safe_await (size ▸ path.mem_inside mem) there
  · have root : 0 < n.scopes := size ▸ path.mem_inside path.zero_mem
    rw [anchored]
    exact safe_await root ⟨root, there⟩

/-! Looking at drafts and heads. -/

theorem safe_withType {d : Declaration} {type : Ty} :
    Safe p n (ofCause position (d.withType type)) :=
  finds_ofCause fun _ refused => Cause.not_open_of_isLawful (Declaration.withType_lawful refused)

section Settle

variable {settle : List (Deferral Empty) → Check Empty σ Unit}
  (settles : ∀ {handed}, (∀ work ∈ handed, work.InStock n) → Safe p n (settle handed))
  (inside : scope < n.scopes) (there : id < n.drafts)

include inside there

theorem safe_deferDeclaration {d : Declaration} {type : Ty} :
    Safe p n (deferDeclaration id scope d type) := by
  unfold deferDeclaration
  split
  · exact finds_pure trivial
  · exact safe_defer inside there

theorem safe_awaitEach {a : Assignment} {awaited names : List String} :
    Safe p n (awaitEach id scope a awaited names) := by
  induction names generalizing awaited with
  | nil => exact finds_pure trivial
  | cons name rest ih =>
    rw [awaitEach]
    split
    · exact ih
    · exact (safe_setDraft inside).then fun _ => Finds.then (safe_defer inside there) fun _ => ih

theorem safe_checkAssignment {a : Assignment} {awaited : List String} :
    Safe p n (checkAssignment id scope a awaited) := by
  have root : Safe p n (checkRoot scope a.target a.span.start) := by
    refine finds_read (·.lookup scope a.target.root) inside (fun path => ⟨_, path.lookup_eq _⟩)
      fun found => ?_
    split
    · exact finds_reject rfl
    · split
      · exact finds_reject rfl
      · exact finds_pure trivial
  exact root.then fun _ => (finds_view inside).bind fun names sure =>
    (safe_setDraft inside).then fun _ => (finds_ofFault
      (Target.fails_resolve Fault.allowsRules_notOpen names sure a.target)).then fun _ =>
    (safe_setDraft inside).then fun _ => (finds_look sure).then fun _ =>
    (finds_ofCause fun _ refused => Cause.not_open_of_isLawful (assignable_lawful refused)).then
      fun _ => safe_awaitEach inside there

theorem safe_checkEvaluation {e : Evaluation} : Safe p n (checkEvaluation id scope e) := by
  refine (finds_view inside).bind fun names sure => (safe_setDraft inside).then fun _ =>
    (finds_look sure).then fun type => ?_
  split
  · exact finds_pure trivial
  · exact safe_defer inside there

include settles

theorem safe_checkReturn {r : Return} : Safe p n (checkReturn settle id scope r) := by
  have sets {type : Ty} : Safe p n (do settle (← setResult scope type r.span.start)) :=
    (finds_setResult inside).bind fun _ handed => settles handed
  have looks : Safe p n (lookAtReturn id scope r) := by
    unfold lookAtReturn
    split
    · exact finds_pure trivial
    · exact (finds_view inside).bind fun names sure => (safe_setDraft inside).then fun _ =>
        (finds_look sure).safe
  rw [checkReturn_eq]
  refine finds_read (·.resultType scope) inside (fun path => ⟨_, path.resultType_eq⟩) fun result => ?_
  split
  · exact finds_reject rfl
  · refine looks.then fun type => ?_
    unfold finishReturn
    split
    · refine Finds.then (safe_defer inside there) fun _ => ?_
      split
      · exact sets
      · exact finds_pure trivial
    · split_ifs
      · exact sets
      · exact finds_reject rfl
      · exact finds_pure trivial

omit inside in
theorem safe_resume : Safe p n (resume settle id name) := by
  refine (finds_getDraft there).bind fun d inside => ?_
  split
  · exact (finds_view inside).bind fun names sure => (safe_setDraft inside).then fun _ =>
      (finds_look sure).then fun type => safe_withType.then fun after =>
      (safe_setDraft inside).then fun _ => (safe_deferDeclaration inside there).then fun _ =>
      (finds_update inside).bind fun _ handed => settles handed
  · exact (safe_setDraft inside).then fun _ => safe_checkAssignment inside there
  · exact safe_checkReturn settles inside there
  · exact safe_checkEvaluation inside there

omit inside there in
theorem safe_conclude {k : SignatureId} (there : k < n.heads) : Safe p n (conclude settle k) := by
  refine (finds_getSignature there).bind fun h inside => finds_read (·.resultType h.body) inside.2
    (fun path => ⟨_, path.resultType_eq⟩) fun result => Finds.then (safe_setSignature inside) fun _ => ?_
  split
  · exact safe_awaitResult inside.2 there
  · exact (finds_update inside.1).bind fun _ handed => settles handed

end Settle

/-! Waves. -/

variable {client : Empty → Check Empty σ Unit}

theorem safe_perform (there : work.InStock n) : Safe p n (perform client work) := by
  induction work with
  | resume id name => exact safe_resume safe_enqueue there
  | conclude k => exact safe_conclude safe_enqueue there
  | hoisted root name position rest ih =>
    have hoists : Safe p n (checkHoisted root name position) := by
      refine finds_read (·.lookupLocal root name) there.1 (fun path => ?_) fun found => ?_
      · obtain ⟨scope, here⟩ := exists_of_lt path.inside
        exact ⟨_, by rw [lookupLocal, get_eq_ok.2 here]; rfl⟩
      · split
        · split
          · exact finds_reject rfl
          · exact finds_pure trivial
        · exact finds_reject rfl
    exact hoists.then fun _ => ih there.2
  | client task => exact task.elim

theorem safe_tick : Safe p n tick :=
  fun _ whole => yields_tick.2 ⟨fun _ => p.closed rfl (by simp), fun _ _ => ⟨whole, trivial⟩⟩

theorem safe_drain {fuel : Nat} : Safe p n (drain client fuel) := by
  induction fuel with
  | zero =>
    intro s whole
    simp only [drain, yields_bind, yields_get]
    split
    · exact yields_throw.2 (p.closed rfl (by simp))
    · exact yields_pure.2 ⟨whole, trivial⟩
  | succ fuel ih =>
    intro s whole
    simp only [drain, yields_bind, yields_get]
    cases queue : s.queue with
    | nil => exact yields_pure.2 ⟨whole, trivial⟩
    | cons work rest =>
      have there := whole.2.live work (.inl (by simp [Checker.desk, queue]))
      have popped (left : Nat) : Whole p n { s with budget := left, queue := rest } :=
        ⟨whole.1, whole.2.scopes, whole.2.rooted, whole.2.drafts, whole.2.heads, fun other live =>
          whole.2.live other (live.imp_left fun mem => by simp_all [Checker.desk])⟩
      simp only [yields_bind, yields_tick, yields_modify]
      exact ⟨fun _ => p.closed rfl (by simp), fun left _ =>
        yields_bind.1 ((safe_perform there).then (fun _ => ih) _ (popped left))⟩

theorem safe_runWave (there : ∀ work ∈ handed, work.InStock n) :
    Safe p n (runWave client handed) := by
  refine (safe_enqueue there).then fun _ s whole => ?_
  simp only [yields_bind, yields_get]
  split
  · exact yields_pure.2 ⟨whole, trivial⟩
  · simp only [yields_bind, yields_modify, yields_tryCatch, yields_get, yields_throw]
    exact (safe_drain { s with firing := true } whole).mono (fun _ _ => id) fun _ _ => id

end Check

end Hoist
