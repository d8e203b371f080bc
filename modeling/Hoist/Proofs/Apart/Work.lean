import Hoist.Proofs.Apart.Steps

/-!
Simple statements and function heads, for the first time and again, and the waves in between. Where
both runs have a statement they do the same with it, and what only the full run has it deals with
while the bare run waits.

Main statement: the bare run tracks a wave (`settlesAlike_runWave`).
-/
namespace Hoist

/-- The first of the work is done by both, or by the full run only. -/
theorem Thins.cons_inv {α : Type} {same : α → α → Prop} {own : α → Prop} {x : α} {xs ys : List α}
    (thins : Thins same own (x :: xs) ys) :
    (∃ y rest, ys = y :: rest ∧ same x y ∧ Thins same own xs rest) ∨
      own x ∧ Thins same own xs ys := by
  cases thins with
  | keep here rest => exact .inl ⟨_, _, rfl, here, rest⟩
  | skip here rest => exact .inr ⟨here, rest⟩

namespace Check

variable {σ : Type} {m : Matching} {busy : Bool} {s a : Checker Empty σ} {j i : ScopeId}
  {k l : DraftId} {settle : List (Deferral Empty) → Check Empty σ Unit}

/-- Work that is handed back is settled by both runs, each its part. -/
structure SettlesAlike (busy : Bool) (settle : List (Deferral Empty) → Check Empty σ Unit) :
    Prop where
  both : ∀ {m s a work work'}, Matches m busy s a → m.Tasks work work' →
    Tracks m busy s a (settle work) (settle work') fun _ _ _ => True
  nothing : ∀ {a b : Checker Empty σ}, a.firing = busy → (busy = false → a.queue = []) →
    Ends (settle []) a () b → b = a

theorem SettlesAlike.own (settles : SettlesAlike busy settle) (matched : Matches m busy s a)
    {work : List (Deferral Empty)} (tasks : m.Tasks work []) :
    Aside m busy s a (settle work) fun _ _ => True :=
  (settles.both matched tasks).aside
    (fun _ _ ends => settles.nothing matched.firing' matched.idle ends) fun _ _ _ _ => trivial

/-! Statements that both runs have. -/

section Both

theorem tracks_deferDeclaration (matched : Matches m busy s a) (drafts : m.Draft k l)
    (pair : m.Scope j i) (declaration : Declaration) (type : Ty) :
    Tracks m busy s a (deferDeclaration k j declaration type)
      (deferDeclaration l i declaration type) fun _ _ _ => True := by
  unfold deferDeclaration
  cases type.pendingOn with
  | none => exact tracks_pure matched trivial
  | some name => exact tracks_defer matched pair name _ (.resume name drafts)

theorem tracks_declaration (settles : SettlesAlike busy settle) (matched : Matches m busy s a)
    (pair : m.Scope j i) (declaration : Declaration) :
    Tracks m busy s a (checkDeclaration settle j declaration)
      (checkDeclaration settle i declaration) fun n => n.Draft := by
  rw [checkDeclaration_eq, checkDeclaration_eq]
  have exported : Tracks m busy s a (checkExport j declaration) (checkExport i declaration)
      fun _ _ _ => True := by
    unfold checkExport
    split
    · exact tracks_demand matched (matched.isTopLevel_eq pair)
    · exact tracks_pure matched trivial
  refine exported.bind fun n _ _ t b within matched _ => ?_
  have pair := within.scope pair
  refine tracks_view matched pair fun names => ?_
  obtain ⟨result, value⟩ := declaration.value.resolve names
  refine tracks_ofFault rfl fun type _ => tracks_ofCause fun typed => ?_
  refine (tracks_define matched pair _).bind fun n work work' t b within matched tasks => ?_
  have pair := within.scope pair
  refine (settles.both matched tasks).bind fun n _ _ t b within matched _ => ?_
  have pair := within.scope pair
  refine (tracks_addDraft matched pair _).bind fun n id id' t b within matched drafts => ?_
  have pair := within.scope pair
  refine (tracks_deferDeclaration matched drafts pair typed type).bind
    fun n _ _ t b within matched _ => ?_
  exact tracks_pure matched (within.draft drafts)

theorem tracks_resumeDeclaration (settles : SettlesAlike busy settle)
    (matched : Matches m busy s a) (drafts : m.Draft k l) (pair : m.Scope j i)
    (declaration : Declaration) :
    Tracks m busy s a (resumeDeclaration settle k j declaration)
      (resumeDeclaration settle l i declaration) fun _ _ _ => True := by
  refine tracks_view matched pair fun names => ?_
  obtain ⟨result, value⟩ := declaration.value.resolve names
  refine (tracks_setDraft matched drafts pair _).bind fun n _ _ t b within matched _ => ?_
  have drafts := within.draft drafts
  have pair := within.scope pair
  refine tracks_ofFault rfl fun type _ => tracks_ofCause fun typed => ?_
  refine (tracks_setDraft matched drafts pair _).bind fun n _ _ t b within matched _ => ?_
  have drafts := within.draft drafts
  have pair := within.scope pair
  refine (tracks_deferDeclaration matched drafts pair typed type).bind
    fun n _ _ t b within matched _ => ?_
  have pair := within.scope pair
  refine (tracks_update matched pair _).bind fun n work work' t b within matched tasks => ?_
  exact settles.both matched tasks

theorem tracks_awaitEach (matched : Matches m busy s a) (drafts : m.Draft k l)
    (pair : m.Scope j i) (assignment : Assignment) (awaited names : List String) :
    Tracks m busy s a (awaitEach k j assignment awaited names)
      (awaitEach l i assignment awaited names) fun _ _ _ => True := by
  induction names generalizing m s a awaited with
  | nil => exact tracks_pure matched trivial
  | cons name rest ih =>
    unfold awaitEach
    split
    · exact ih matched drafts pair awaited
    · refine (tracks_setDraft matched drafts pair _).bind fun n _ _ t b within matched _ => ?_
      have drafts := within.draft drafts
      have pair := within.scope pair
      refine (tracks_defer matched pair name none (.resume name drafts)).bind
        fun n _ _ t b within matched _ => ?_
      exact ih matched (within.draft drafts) (within.scope pair) _

theorem tracks_checkRoot (matched : Matches m busy s a) (pair : m.Scope j i) (target : Target)
    (position : Position) :
    Tracks m busy s a (checkRoot j target position) (checkRoot i target position)
      fun _ _ _ => True := by
  refine tracks_scopes (tracks_ofFault (matched.lookup_eq pair _) fun found _ => ?_)
  cases found with
  | none => exact tracks_reject
  | some binding =>
    simp only
    split
    · exact tracks_reject
    · exact tracks_pure matched trivial

theorem tracks_assignment (matched : Matches m busy s a) (drafts : m.Draft k l)
    (pair : m.Scope j i) (assignment : Assignment) (awaited : List String) :
    Tracks m busy s a (checkAssignment k j assignment awaited)
      (checkAssignment l i assignment awaited) fun _ _ _ => True := by
  refine (tracks_checkRoot matched pair _ _).bind fun n _ _ t b within matched _ => ?_
  have drafts := within.draft drafts
  have pair := within.scope pair
  refine tracks_view matched pair fun names => ?_
  obtain ⟨result, target⟩ := assignment.target.resolve names
  refine (tracks_setDraft matched drafts pair _).bind fun n _ _ t b within matched _ => ?_
  have drafts := within.draft drafts
  have pair := within.scope pair
  refine tracks_ofFault rfl fun targetType _ => ?_
  simp only
  obtain ⟨result, value⟩ := assignment.value.resolve names
  refine (tracks_setDraft matched drafts pair _).bind fun n _ _ t b within matched _ => ?_
  refine tracks_ofFault rfl fun valueType _ => tracks_ofCause fun _ => ?_
  exact tracks_awaitEach matched (within.draft drafts) (within.scope pair) _ _ _

theorem tracks_lookAtReturn (matched : Matches m busy s a) (drafts : m.Draft k l)
    (pair : m.Scope j i) (statement : Return) :
    Tracks m busy s a (lookAtReturn k j statement) (lookAtReturn l i statement)
      fun _ type type' => type = type' := by
  unfold lookAtReturn
  cases statement.value with
  | none => exact tracks_pure matched rfl
  | some value =>
    refine tracks_view matched pair fun names => ?_
    obtain ⟨result, value⟩ := value.resolve names
    refine (tracks_setDraft matched drafts pair _).bind fun n _ _ t b within matched _ => ?_
    cases result with
    | error fault => exact fun _ _ ends => by simp at ends
    | ok type => exact tracks_pure matched rfl

theorem tracks_return (settles : SettlesAlike busy settle) (matched : Matches m busy s a)
    (drafts : m.Draft k l) (pair : m.Scope j i) (statement : Return) :
    Tracks m busy s a (checkReturn settle k j statement) (checkReturn settle l i statement)
      fun _ _ _ => True := by
  rw [checkReturn_eq, checkReturn_eq]
  refine tracks_scopes (tracks_ofFault (matched.resultType_eq pair) fun result _ => ?_)
  cases result with
  | none => exact tracks_reject
  | some result =>
    refine (tracks_lookAtReturn matched drafts pair statement).bind
      fun n type _ t b within matched same => ?_
    subst same
    have drafts := within.draft drafts
    have pair := within.scope pair
    have sets {n : Matching} {t b : Checker Empty σ} (matched : Matches n busy t b)
        (pair : n.Scope j i) : Tracks n busy t b
          (setResult j type statement.span.start >>= settle)
          (setResult i type statement.span.start >>= settle) fun _ _ _ => True :=
      (tracks_setResult matched pair type).bind fun _ _ _ _ _ _ matched tasks =>
        settles.both matched tasks
    unfold finishReturn
    cases type.pendingOn with
    | some name =>
      refine (tracks_defer matched pair name none (.resume name drafts)).bind
        fun n _ _ t b within matched _ => ?_
      split
      · exact sets matched (within.scope pair)
      · exact tracks_pure matched trivial
    | none =>
      simp only
      split
      · exact sets matched pair
      · split
        · exact tracks_reject
        · exact tracks_pure matched trivial

theorem tracks_evaluation (matched : Matches m busy s a) (drafts : m.Draft k l)
    (pair : m.Scope j i) (statement : Evaluation) :
    Tracks m busy s a (checkEvaluation k j statement) (checkEvaluation l i statement)
      fun _ _ _ => True := by
  refine tracks_view matched pair fun names => ?_
  obtain ⟨result, value⟩ := statement.value.resolve names
  refine (tracks_setDraft matched drafts pair _).bind fun n _ _ t b within matched _ => ?_
  refine tracks_ofFault rfl fun type _ => ?_
  cases type.pendingOn with
  | none => exact tracks_pure matched trivial
  | some name =>
    exact tracks_defer matched (within.scope pair) name none (.resume name (within.draft drafts))

theorem tracks_resume (settles : SettlesAlike busy settle) (matched : Matches m busy s a)
    (drafts : m.Draft k l) (awaited : String) :
    Tracks m busy s a (resume settle k awaited) (resume settle l awaited) fun _ _ _ => True := by
  refine (tracks_getDraft matched drafts).bind fun n full bare t b within matched same => ?_
  obtain ⟨scope, work⟩ := full
  obtain ⟨scope', work'⟩ := bare
  obtain ⟨pair, rfl⟩ := same
  have drafts := within.draft drafts
  cases work with
  | declaration declaration =>
    exact tracks_resumeDeclaration settles matched drafts pair declaration
  | assignment assignment names =>
    refine (tracks_setDraft matched drafts pair _).bind fun n _ _ t b within matched _ => ?_
    exact tracks_assignment matched (within.draft drafts) (within.scope pair) assignment _
  | returns statement => exact tracks_return settles matched drafts pair statement
  | evaluation statement => exact tracks_evaluation matched drafts pair statement

theorem tracks_conclude (settles : SettlesAlike busy settle) (matched : Matches m busy s a)
    (id : SignatureId) :
    Tracks m busy s a (conclude settle id) (conclude settle id) fun _ _ _ => True := by
  refine (tracks_getSignature matched id).bind fun n full bare t b within matched same => ?_
  obtain ⟨scope, body, signature⟩ := full
  obtain ⟨scope', body', signature'⟩ := bare
  obtain ⟨pair, bodies, rfl⟩ := same
  refine tracks_scopes (tracks_ofFault (matched.resultType_eq bodies) fun result _ => ?_)
  simp only
  refine Tracks.bind (tracks_setSignature matched id ⟨pair, bodies, rfl⟩)
    fun n _ _ t b within matched _ => ?_
  split
  · exact tracks_awaitResult matched (within.scope bodies) (.conclude id)
  · refine (tracks_update matched (within.scope pair) _).bind
      fun n work work' t b within matched tasks => ?_
    exact settles.both matched tasks

end Both

/-! Statements that only the full run has. -/

section Own

theorem aside_deferDeclaration (matched : Matches m busy s a) (mine : m.OwnDraft k)
    (declaration : Declaration) (type : Ty) :
    Aside m busy s a (deferDeclaration k j declaration type) fun _ _ => True := by
  unfold deferDeclaration
  cases type.pendingOn with
  | none => exact aside_pure matched trivial
  | some name => exact aside_defer matched name _ (.resume name mine)

theorem aside_declaration (settles : SettlesAlike busy settle) (matched : Matches m busy s a)
    (own : m.OwnScope j) (declaration : Declaration) :
    Aside m busy s a (checkDeclaration settle j declaration) fun _ _ => True := by
  rw [checkDeclaration_eq]
  have exported : Aside m busy s a (checkExport j declaration) fun _ _ => True := by
    unfold checkExport
    split
    · exact fun _ _ ends => (aside_demand matched _ _ ends).imp fun _ ⟨within, _, matched⟩ =>
        ⟨within, trivial, matched⟩
    · exact aside_pure matched trivial
  refine exported.bind fun n _ t within matched _ => ?_
  have own := within.ownScope own
  refine aside_view fun names => ?_
  obtain ⟨result, value⟩ := declaration.value.resolve names
  refine aside_ofFault fun type _ => aside_ofCause fun typed => ?_
  refine (aside_define matched own _).bind fun n work t within matched tasks => ?_
  have own := within.ownScope own
  refine (settles.own matched tasks).bind fun n _ t within matched _ => ?_
  have own := within.ownScope own
  refine (aside_addDraft matched own rfl).bind fun n id t within matched mine => ?_
  refine (aside_deferDeclaration matched mine typed type).bind fun n _ t within matched _ => ?_
  exact aside_pure matched trivial

theorem aside_resumeDeclaration (settles : SettlesAlike busy settle) (matched : Matches m busy s a)
    (mine : m.OwnDraft k) (own : m.OwnScope j) (declaration : Declaration) :
    Aside m busy s a (resumeDeclaration settle k j declaration) fun _ _ => True := by
  refine aside_view fun names => ?_
  obtain ⟨result, value⟩ := declaration.value.resolve names
  refine (aside_setDraft matched mine own rfl).bind fun n _ t within matched _ => ?_
  have mine := within.ownDraft mine
  have own := within.ownScope own
  refine aside_ofFault fun type _ => aside_ofCause fun typed => ?_
  refine (aside_setDraft matched mine own rfl).bind fun n _ t within matched _ => ?_
  have own := within.ownScope own
  refine (aside_deferDeclaration matched (within.ownDraft mine) typed type).bind
    fun n _ t within matched _ => ?_
  refine (aside_update matched (within.ownScope own) _).bind
    fun n work t within matched tasks => ?_
  exact settles.own matched tasks

theorem aside_awaitEach (matched : Matches m busy s a) (mine : m.OwnDraft k) (own : m.OwnScope j)
    (assignment : Assignment) (awaited names : List String) :
    Aside m busy s a (awaitEach k j assignment awaited names) fun _ _ => True := by
  induction names generalizing m s awaited with
  | nil => exact aside_pure matched trivial
  | cons name rest ih =>
    unfold awaitEach
    split
    · exact ih matched mine own awaited
    · refine (aside_setDraft matched mine own rfl).bind fun n _ t within matched _ => ?_
      have mine := within.ownDraft mine
      have own := within.ownScope own
      refine (aside_defer matched name none (.resume name mine)).bind
        fun n _ t within matched _ => ?_
      exact ih matched (within.ownDraft mine) (within.ownScope own) _

theorem aside_checkRoot (matched : Matches m busy s a) (target : Target) (position : Position) :
    Aside m busy s a (checkRoot j target position) fun _ _ => True := by
  refine aside_scopes (aside_ofFault fun found _ => ?_)
  cases found with
  | none => exact aside_reject
  | some binding =>
    simp only
    split
    · exact aside_reject
    · exact aside_pure matched trivial

theorem aside_assignment (matched : Matches m busy s a) (mine : m.OwnDraft k)
    (own : m.OwnScope j) (assignment : Assignment) (awaited : List String) :
    Aside m busy s a (checkAssignment k j assignment awaited) fun _ _ => True := by
  refine (aside_checkRoot matched _ _).bind fun n _ t within matched _ => ?_
  have mine := within.ownDraft mine
  have own := within.ownScope own
  refine aside_view fun names => ?_
  obtain ⟨result, target⟩ := assignment.target.resolve names
  refine (aside_setDraft matched mine own rfl).bind fun n _ t within matched _ => ?_
  have mine := within.ownDraft mine
  have own := within.ownScope own
  refine aside_ofFault fun targetType _ => ?_
  simp only
  obtain ⟨result, value⟩ := assignment.value.resolve names
  refine (aside_setDraft matched mine own rfl).bind fun n _ t within matched _ => ?_
  refine aside_ofFault fun valueType _ => aside_ofCause fun _ => ?_
  exact aside_awaitEach matched (within.ownDraft mine) (within.ownScope own) _ _ _

theorem aside_evaluation (matched : Matches m busy s a) (mine : m.OwnDraft k)
    (own : m.OwnScope j) (statement : Evaluation) :
    Aside m busy s a (checkEvaluation k j statement) fun _ _ => True := by
  refine aside_view fun names => ?_
  obtain ⟨result, value⟩ := statement.value.resolve names
  refine (aside_setDraft matched mine own rfl).bind fun n _ t within matched _ => ?_
  refine aside_ofFault fun type _ => ?_
  cases type.pendingOn with
  | none => exact aside_pure matched trivial
  | some name => exact aside_defer matched name none (.resume name (within.ownDraft mine))

theorem aside_resume (settles : SettlesAlike busy settle) (matched : Matches m busy s a)
    (mine : m.OwnDraft k) (awaited : String) :
    Aside m busy s a (resume settle k awaited) fun _ _ => True := by
  refine (aside_getDraft matched mine).bind fun n draft t within matched inside => ?_
  obtain ⟨scope, work⟩ := draft
  obtain ⟨own, simple⟩ := inside
  have mine := within.ownDraft mine
  cases work with
  | declaration declaration => exact aside_resumeDeclaration settles matched mine own declaration
  | assignment assignment names =>
    refine (aside_setDraft matched mine own rfl).bind fun n _ t within matched _ => ?_
    exact aside_assignment matched (within.ownDraft mine) (within.ownScope own) assignment _
  | returns statement => nomatch simple
  | evaluation statement => exact aside_evaluation matched mine own statement

end Own

/-! Waves. -/

theorem settlesAlike_enqueue : SettlesAlike true (enqueue (σ := σ)) where
  both {m s a work work'} matched tasks _ t ends := by
    obtain rfl := ends_enqueue.1 ends
    refine ⟨m, (), _, .refl m, trivial, ?_, ends_enqueue.2 rfl⟩
    exact { matched with queue := matched.queue.append tasks, idle := nofun }
  nothing _ _ ends := by
    simpa using ends_enqueue.1 ends

variable {client : Empty → Check Empty σ Unit}

theorem tracks_perform {work work' : Deferral Empty} (matched : Matches m true s a)
    (task : m.Task work work') :
    Tracks m true s a (perform client work) (perform client work') fun _ _ _ => True := by
  induction task generalizing s a with
  | resume name drafts => exact tracks_resume settlesAlike_enqueue matched drafts name
  | conclude id => exact tracks_conclude settlesAlike_enqueue matched id
  | hoisted name position pair _ ih =>
    intro _ t ends
    obtain ⟨_, _, here, later⟩ := ends_bind.1 ends
    obtain ⟨rfl, binding, bound, function⟩ := ends_checkHoisted.1 here
    obtain ⟨n, _, b, within, _, matched', later'⟩ := ih matched _ _ later
    rw [matched.binding?_eq pair] at bound
    exact ⟨n, (), b, within, trivial, matched', ends_bind.2 ⟨(), a,
      ends_checkHoisted.2 ⟨rfl, binding, bound, function⟩, later'⟩⟩

theorem aside_perform {work : Deferral Empty} (matched : Matches m true s a)
    (task : m.OwnTask work) : Aside m true s a (perform client work) fun _ _ => True := by
  induction task generalizing s with
  | resume name mine => exact aside_resume settlesAlike_enqueue matched mine name
  | hoisted root name position _ ih =>
    intro _ t ends
    obtain ⟨_, _, here, later⟩ := ends_bind.1 ends
    obtain ⟨rfl, -⟩ := ends_checkHoisted.1 here
    exact ih matched _ _ later

theorem queue_of_drain {fuel : Nat} {done : Unit} {t : Checker Empty σ}
    (ends : Ends (drain client fuel) s done t) : t.queue = [] := by
  induction fuel generalizing s with
  | zero =>
    cases queue : s.queue with
    | nil => rwa [(ends_drain_nil queue).1 ends]
    | cons work rest =>
      obtain ⟨_, _, _, nothing, _⟩ := (ends_drain_cons queue).1 ends
      nomatch nothing
  | succ fuel ih =>
    cases queue : s.queue with
    | nil => rwa [(ends_drain_nil queue).1 ends]
    | cons work rest =>
      obtain ⟨_, _, _, same, _, _, later⟩ := (ends_drain_cons queue).1 ends
      obtain rfl := Nat.succ.inj same
      exact ih later

theorem tracks_drain_nil {fuel fuel' : Nat} (matched : Matches m true s a) (queue : s.queue = []) :
    Tracks m true s a (drain client fuel) (drain client fuel') fun _ _ _ => True := by
  intro _ t ends
  have queue' : a.queue = [] := (queue ▸ matched.queue).eq_nil
  obtain rfl := (ends_drain_nil queue).1 ends
  exact ⟨m, (), a, .refl m, trivial, matched, (ends_drain_nil queue').2 rfl⟩

/-- The full run has all of the bare run's work to do, and some of its own. -/
theorem tracks_drain {fuel fuel' : Nat} (matched : Matches m true s a) (enough : fuel ≤ fuel') :
    Tracks m true s a (drain client fuel) (drain client fuel') fun _ _ _ => True := by
  induction fuel generalizing m s a fuel' with
  | zero =>
    cases queue : s.queue with
    | nil => exact tracks_drain_nil matched queue
    | cons work rest =>
      intro _ t ends
      obtain ⟨_, _, _, nothing, _⟩ := (ends_drain_cons queue).1 ends
      nomatch nothing
  | succ fuel ih =>
    cases queue : s.queue with
    | nil => exact tracks_drain_nil matched queue
    | cons work rest =>
      intro _ t ends
      obtain ⟨_, left, between, same, paid, performs, later⟩ := (ends_drain_cons queue).1 ends
      obtain rfl := Nat.succ.inj same
      have more : left + 1 ≤ a.budget := paid ▸ matched.budget
      rcases (queue ▸ matched.queue : m.Tasks (work :: rest) a.queue).cons_inv with
        ⟨work', rest', queue', task, tasks⟩ | ⟨task, tasks⟩
      · -- Both perform the first of the work, and each pays for it.
        obtain ⟨left', paid'⟩ : ∃ left', a.budget = left' + 1 :=
          Nat.exists_eq_succ_of_ne_zero (Nat.ne_of_gt (Nat.lt_of_lt_of_le left.succ_pos more))
        obtain ⟨less', rfl⟩ : ∃ less', fuel' = less' + 1 :=
          Nat.exists_eq_succ_of_ne_zero (Nat.ne_of_gt (Nat.lt_of_lt_of_le fuel.succ_pos enough))
        have less : left ≤ left' := Nat.le_of_succ_le_succ (more.trans_eq paid')
        have next : Matches m true { s with queue := rest, budget := left }
            { a with queue := rest', budget := left' } :=
          { matched with queue := tasks, idle := nofun, budget := less }
        obtain ⟨n, _, between', within, _, matched', performs'⟩ :=
          tracks_perform next task _ _ performs
        obtain ⟨n', _, b, within', _, matched', later'⟩ :=
          ih matched' (Nat.le_of_succ_le_succ enough) _ _ later
        exact ⟨n', (), b, within.trans within', trivial, matched', (ends_drain_cons queue').2
          ⟨less', left', between', rfl, paid', performs', later'⟩⟩
      · -- The full run performs it alone.
        have next : Matches m true { s with queue := rest, budget := left } a :=
          { matched with queue := tasks, budget := Nat.le_of_succ_le more }
        obtain ⟨n, within, _, matched'⟩ := aside_perform next task _ _ performs
        obtain ⟨n', _, b, within', _, matched', later'⟩ :=
          ih matched' (Nat.le_of_succ_le enough) _ _ later
        exact ⟨n', (), b, within.trans within', trivial, matched', later'⟩

theorem settlesAlike_runWave : SettlesAlike false (runWave client) where
  both {m s a work work'} matched tasks _ t ends := by
    obtain ⟨between, drains, rfl⟩ := (ends_runWave matched.firing).1 ends
    have started := matched.requeue (matched.queue.append tasks)
      (fun (idle : true = false) => nomatch idle)
      (if work.isEmpty then s.journal else .queued work.length :: s.journal)
      (if work'.isEmpty then a.journal else .queued work'.length :: a.journal)
    obtain ⟨n, _, between', within, _, matched', drains'⟩ :=
      tracks_drain started matched.budget _ _ drains
    refine ⟨n, (), { between' with firing := false }, within, trivial, ?_,
      (ends_runWave matched.firing').2 ⟨between', drains', rfl⟩⟩
    exact matched'.requeue matched'.queue (fun _ => queue_of_drain drains') _ _
  nothing {a b} idle queue ends := by
    obtain ⟨between, drains, rfl⟩ := (ends_runWave idle).1 ends
    obtain rfl := (ends_drain_nil (by simp [queue rfl])).1 drains
    obtain ⟨scopes, drafts, signatures, waiting, firing, budget, store, journal⟩ := a
    obtain rfl : firing = false := idle
    simp

end Check

end Hoist
