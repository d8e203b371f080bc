import Hoist.Proofs.Check.DraftsKept
import Hoist.Proofs.Check.Tally

/-!
Result types that are still to be found. A result type that is pending was set by a `return` which
waits for a name itself, and only heads of functions wait for result types, as long as these are
pending. So behind everybody who waits there is somebody who waits for a name.

Main statements: every step on a tame text keeps it so (`Answered.checkStep`), and what a draft waits
for is in the queue or waits for a name (`Tallied.waiter`).
-/
namespace Hoist

theorem Table.first?_of_mem {α : Type} {entries : List (String × α)} {name : String}
    {value : α} (tidy : (entries.map (·.1)).Nodup) (mem : (name, value) ∈ entries) :
    Table.first? name entries = some value := by
  induction entries with
  | nil => simp at mem
  | cons entry rest ih =>
    obtain ⟨fresh, tidy⟩ := List.nodup_cons.1 tidy
    rcases List.mem_cons.1 mem with rfl | mem
    · simp [Table.first?]
    · have other : entry.1 ≠ name := fun same => fresh (List.mem_map.2 ⟨_, mem, same.symm⟩)
      simp [Table.first?, other, ih tidy mem]

namespace Scopes

variable {δ : Type} {scopes : Scopes δ}

/-- A walk that found a scope finds it again when there are more scopes. -/
theorem climb_create {found : Scope δ → Bool} {parent : Option ScopeId} {kind : ScopeKind}
    {fuel : Nat} {id owner : ScopeId} (climbs : scopes.climb found fuel id = .ok (some owner)) :
    (scopes.create parent kind).climb found (fuel + 1) id = .ok (some owner) := by
  induction fuel generalizing id with
  | zero => simp [climb] at climbs
  | succ fuel ih =>
    have inside := lt_size_of_climb climbs
    rw [climb] at climbs ⊢
    rw [get_create_of_lt _ _ _ _ inside]
    obtain ⟨scope, here, climbs⟩ := bind_eq_ok.1 climbs
    refine bind_eq_ok.2 ⟨scope, here, ?_⟩
    cases holds : found scope with
    | true => simpa [holds] using climbs
    | false =>
      cases outwards : scope.parent with
      | none => simp [holds, outwards] at climbs
      | some outer =>
        simp only [holds, outwards, Bool.false_eq_true, ↓reduceIte] at climbs ⊢
        exact ih climbs

theorem functionBody_create {parent : Option ScopeId} {kind : ScopeKind} {id body : ScopeId}
    (found : scopes.functionBody id = .ok (some body)) :
    (scopes.create parent kind).functionBody id = .ok (some body) := by
  rw [functionBody, nearest, size_create]
  exact climb_create found

/-- The result type around a scope is the one that the body keeps. -/
theorem resultType_eq {scope body : ScopeId} {type : Ty}
    (around : scopes.functionBody scope = .ok (some body))
    (kept : scopes.result? body = some type) : scopes.resultType scope = .ok (some type) := by
  obtain ⟨inner, here, role⟩ := Option.bind_eq_some_iff.1 kept
  cases isRole : inner.role with
  | block | loop => simp [isRole, Role.result?] at role
  | function result waiting =>
    obtain rfl : result = type := by simpa [isRole, Role.result?] using role
    simp [resultType, around, get_eq_ok.2 here, isRole, bind, Except.bind, pure, Except.pure]

/-- What is kept in the scopes waits for a name or for a result type. -/
theorem exists_of_mem_kept {work : δ} (tidy : scopes.Tidy) (mem : work ∈ scopes.kept) :
    (∃ place name, ∃ waiter ∈ scopes.waiters place name, waiter.work = work) ∨
      ∃ body, work ∈ scopes.resultWaiters body := by
  obtain ⟨scope, inside, mem⟩ := List.mem_flatMap.1 mem
  obtain ⟨place, here⟩ := List.getElem?_of_mem inside
  rcases List.mem_append.1 mem with named | waiting
  · obtain ⟨⟨name, all⟩, entry, mem⟩ := List.mem_flatMap.1 named
    obtain ⟨waiter, mem, same⟩ := List.mem_map.1 mem
    have found : scope.waiting.find? name = some all :=
      Table.first?_of_mem (tidy scope inside) entry
    refine .inl ⟨place, name, waiter, ?_, same⟩
    simpa [Scopes.waiters, here, Scope.waitingOn, found] using mem
  · exact .inr ⟨place, by simpa [resultWaiters, here] using waiting⟩

end Scopes

namespace Check

variable {σ : Type} {s t m : Checker Empty σ} {id : DraftId} {scope : ScopeId} {work last : Work}
  {types : List Ty} {view : View} {handed : List (Deferral Empty)}

/-- A look that succeeded and is not pending has found a type. -/
theorem known_of_look {value after : Expr} {view : View} {type : Ty} (faithful : value.Faithful)
    (look : value.resolve view = (.ok type, after)) :
    type.isPending = true ∨ type.isConcrete = true :=
  (Expr.Seen.settles ⟨value, view, faithful, look⟩).imp_right Expr.Settled.isConcrete

/-- Some `return` of the function waits for a name. -/
def Returning (s : Checker Empty σ) (body : ScopeId) : Prop :=
  ∃ (id : DraftId) (scope : ScopeId) (r : Return), s.drafts[id]? = some ⟨scope, .returns r⟩ ∧
    s.scopes.functionBody scope = .ok (some body) ∧ (Work.returns r).awaits ≠ []

/-- The result type is known, or it is pending since it was set. -/
def Hopeful (scopes : Scopes (Deferral Empty)) (h : SignatureDraft) : Prop :=
  h.signature.result.isConcrete = true ∨ h.signature.result.isPending = true ∧
    ∃ body type, scopes.functionBody h.body = .ok (some body) ∧
      scopes.result? body = some type ∧ type ≠ .unannotated

structure Answered (s : Checker Empty σ) : Prop where
  parameters : ∀ (k : SignatureId) h, s.signatures[k]? = some h →
    Ty.areConcrete h.signature.parameters = true
  heads : ∀ (k : SignatureId) h, s.signatures[k]? = some h → Hopeful s.scopes h
  waits : ∀ body, ∀ work ∈ s.scopes.resultWaiters body, (∃ k, work = .conclude k) ∧
    ∃ type, s.scopes.result? body = some type ∧ type.isPending = true
  results : ∀ body type, s.scopes.result? body = some type → type = .unannotated ∨
    type.isConcrete = true ∨ type.isPending = true ∧ Returning s body

/-- Steps that leave the heads and the known result types alone. -/
theorem Answered.mono (answered : Answered s) (signatures : t.signatures = s.signatures)
    (known : ∀ body type, s.scopes.result? body = some type → t.scopes.result? body = some type)
    (found : ∀ body type, t.scopes.result? body = some type →
      s.scopes.result? body = some type ∨ type = .unannotated ∨ type.isConcrete = true)
    (waiting : ∀ body, t.scopes.resultWaiters body = s.scopes.resultWaiters body)
    (around : ∀ id body, s.scopes.functionBody id = .ok (some body) →
      t.scopes.functionBody id = .ok (some body))
    (returning : ∀ body type, s.scopes.result? body = some type → type.isPending = true →
      Returning s body → Returning t body) : Answered t where
  parameters k h here := answered.parameters k h (signatures ▸ here)
  heads k h here := by
    refine (answered.heads k h (signatures ▸ here)).imp_right fun ⟨pending, body, type, isBody, kept,
      set⟩ => ⟨pending, body, type, around _ _ isBody, known _ _ kept, set⟩
  waits body work mem := by
    obtain ⟨core, type, kept, pending⟩ := answered.waits body work (waiting body ▸ mem)
    exact ⟨core, type, known _ _ kept, pending⟩
  results body type kept := by
    rcases found body type kept with before | new
    · exact (answered.results body type before).imp_right (Or.imp_right fun held =>
        ⟨held.1, returning body type before held.1 held.2⟩)
    · exact new.imp_right .inl

/-- Steps that leave the drafts alone as well. -/
theorem Answered.of_scopes (answered : Answered s) (signatures : t.signatures = s.signatures)
    (drafts : t.drafts = s.drafts) (size : t.scopes.size = s.scopes.size)
    (parent : ∀ id, t.scopes.parent? id = s.scopes.parent? id)
    (kind : ∀ id, t.scopes.kind? id = s.scopes.kind? id)
    (result : ∀ id, t.scopes.result? id = s.scopes.result? id)
    (waiting : ∀ id, t.scopes.resultWaiters id = s.scopes.resultWaiters id) : Answered t := by
  have around := Scopes.functionBody_congr size parent kind
  refine answered.mono signatures (fun body _ kept => (result body).trans kept)
    (fun body _ kept => .inl ((result body).symm.trans kept)) waiting
    (fun id _ found => (around id).trans found) fun body _ _ _ => ?_
  rintro ⟨id, scope, r, here, isBody, waits⟩
  exact ⟨id, scope, r, drafts ▸ here, (around scope).trans isBody, waits⟩

theorem Answered.bound {binding : Binding} {scopes : Scopes (Deferral Empty)}
    (answered : Answered s) (bound : s.scopes.Bound scopes scope binding handed) :
    Answered { s with scopes, queue := s.queue ++ handed } :=
  answered.of_scopes rfl rfl bound.size bound.parent bound.kind bound.result bound.resultWaiters

/-! Looking. -/

/-- Other drafts than the one that was looked at stay as they are. -/
theorem Looked.returning (looked : Looked view id scope work s types last t) {body : ScopeId}
    (returning : Returning s body)
    (apart : ∀ place r, s.drafts[id]? = some ⟨place, .returns r⟩ →
      s.scopes.functionBody place ≠ .ok (some body)) : Returning t body := by
  obtain ⟨other, place, r, here, around, waits⟩ := returning
  have calm := looked.calm
  refine ⟨other, place, r, ?_,
    (Scopes.functionBody_congr calm.size calm.parent calm.kind place).trans around, waits⟩
  rw [looked.putAt other, if_neg ?_]
  · exact here
  · rintro rfl
    exact apart place r here around

theorem Looked.answered (looked : Looked view id scope work s types last t) (answered : Answered s)
    (apart : ∀ place r body type, s.drafts[id]? = some ⟨place, .returns r⟩ →
      s.scopes.functionBody place = .ok (some body) → s.scopes.result? body = some type →
      type.isPending = false) : Answered t := by
  have calm := looked.calm
  have around := Scopes.functionBody_congr calm.size calm.parent calm.kind
  obtain ⟨_, _, _, same⟩ := looked.redraws
  refine answered.mono (congrArg (·.signatures) same) (fun body _ kept => (calm.result body).trans kept)
    (fun body _ kept => .inl ((calm.result body).symm.trans kept)) calm.resultWaiters
    (fun id _ found => (around id).trans found) fun body type kept pending returning =>
    looked.returning returning fun place r here isBody => ?_
  simp [apart place r body type here isBody kept] at pending

theorem Reviewed.answered (reviewed : Reviewed id scope work s handed t) (answered : Answered s)
    (faithful : work.Faithful)
    (old : ∀ d, s.drafts[id]? = some d → d.scope = scope ∧
      ∀ r, d.work = .returns r → ∃ q, work = .returns q) :
    Answered { t with queue := t.queue ++ handed } := by
  obtain ⟨types, last, m, looked, answers⟩ := reviewed
  have looks := looked.looks
  -- A statement that is no return is nobody's hope.
  have other (plain : ∀ q, work ≠ .returns q) : Answered m := by
    refine looked.answered answered fun place r body type here => ?_
    obtain ⟨q, isReturn⟩ := (old _ here).2 r rfl
    exact absurd isReturn (plain q)
  cases answers with
  | assignment | evaluation =>
    obtain ⟨parameters, heads, waits, results⟩ := other (by cases looks; simp)
    exact ⟨parameters, heads, waits, results⟩
  | binds ends =>
    obtain ⟨_, updates, rfl⟩ := ends_update.1 ends
    obtain ⟨parameters, heads, waits, results⟩ :=
      (other (by cases looks; simp)).bound (Scopes.update_eq_ok updates).2
    exact ⟨parameters, heads, waits, results⟩
  | @agrees _ _ result _ current concrete _ =>
    obtain ⟨around, isBody, kept⟩ := Scopes.resultType_eq_some current
    have same : Answered t := by
      refine looked.answered answered fun place r body type here isAround isKept => ?_
      obtain ⟨rfl, -⟩ := old _ here
      obtain rfl : around = body := by simpa using isBody.symm.trans isAround
      obtain rfl : result = type := Option.some.inj (kept.symm.trans isKept)
      exact Ty.isPending_of_isConcrete concrete
    obtain ⟨parameters, heads, waits, results⟩ := same
    exact ⟨parameters, heads, waits, results⟩
  | @sets r type _ _ m _ _ current _ ends =>
    obtain ⟨scopes, sets, rfl⟩ := ends_setResult.1 ends
    obtain ⟨body, isBody, -, -, changes⟩ := Scopes.setResult_eq_ok sets
    have calm := looked.calm
    obtain ⟨_, _, _, same⟩ := looked.redraws
    have kept := Scopes.functionBody_congr calm.size calm.parent calm.kind
    have around (id : ScopeId) : scopes.functionBody id = s.scopes.functionBody id :=
      (Scopes.functionBody_congr changes.size changes.parent changes.kind id).trans (kept id)
    have known : type.isPending = true ∨ type.isConcrete = true := by
      cases looks with
      | bare => exact .inr rfl
      | returns given look => exact known_of_look (faithful.1 _ given) look
    have set : type ≠ .unannotated := by
      rintro rfl
      simp [Ty.isPending, Ty.pendingOn, Ty.isConcrete] at known
    have signatures : m.signatures = s.signatures := congrArg (·.signatures) same
    refine ⟨fun k h here => answered.parameters k h (signatures ▸ here), fun k h here => ?_,
      fun place work mem => ?_, fun place found isKept => ?_⟩
    · refine (answered.heads k h (signatures ▸ here)).imp_right fun ⟨pending, place, before, isPlace,
        isKept, isSet⟩ => ⟨pending, place, ?_⟩
      by_cases mine : place = body
      · exact ⟨type, (around _).trans isPlace, by simp [changes.result, mine], set⟩
      · exact ⟨before, (around _).trans isPlace, by
          rw [changes.result, if_neg mine, calm.result, isKept], isSet⟩
    · rw [changes.resultWaiters] at mem
      split at mem
      · simp at mem
      · rename_i mine
        obtain ⟨core, before, isKept, pending⟩ :=
          answered.waits place work (calm.resultWaiters place ▸ mem)
        exact ⟨core, before, by rw [changes.result, if_neg mine, calm.result, isKept], pending⟩
    · rw [changes.result] at isKept
      split at isKept
      · rename_i mine
        obtain rfl := Option.some.inj isKept
        refine .inr (known.symm.imp_right fun pending => ⟨pending, id, scope, r, looked.putAt.here,
          (around scope).trans (mine ▸ (kept scope).symm.trans isBody), ?_⟩)
        rw [looks.awaits rfl]
        cases waits : type.pendingOn with
        | none => simp [Ty.isPending, waits] at pending
        | some name => simp [waits]
      · rename_i mine
        refine (answered.results place found ((calm.result place).symm.trans isKept)).imp_right
          (Or.imp_right fun held => ⟨held.1, ?_⟩)
        obtain ⟨other, outer, q, here, isOuter, waits⟩ := looked.returning held.2
          fun outer q here isOuter => mine (by
            obtain ⟨rfl, -⟩ := old _ here
            simpa using isOuter.symm.trans ((kept _).symm.trans isBody))
        exact ⟨other, outer, q, here, ((around outer).trans (kept outer).symm).trans isOuter, waits⟩

/-! Heads. -/

theorem Headed.answered {k : SignatureId} {h : SignatureDraft} (headed : Headed k h s t)
    (answered : Answered s) (parameters : Ty.areConcrete h.signature.parameters = true)
    (known : h.signature.result.isConcrete = true ∨ h.signature.result.isPending = true ∧
      s.scopes.resultType h.body = .ok (some h.signature.result)) : Answered t := by
  obtain ⟨signatures, scopes, put, rfl, waits⟩ := headed
  obtain ⟨around, results, waiters⟩ : (∀ id, scopes.functionBody id = s.scopes.functionBody id) ∧
      (∀ body, scopes.result? body = s.scopes.result? body) ∧
      ∀ body, ∀ work ∈ scopes.resultWaiters body, work ∈ s.scopes.resultWaiters body ∨
        work = .conclude k ∧ s.scopes.result? body = some h.signature.result ∧
          h.signature.result.isPending = true := by
    split at waits
    case isTrue pending =>
      obtain ⟨body, result, isBody, kept, changes⟩ := Scopes.awaitResult_eq_ok waits
      have isResult : s.scopes.resultType h.body = .ok (some h.signature.result) :=
        (known.resolve_left fun concrete => by
          simp [Ty.isPending_of_isConcrete concrete] at pending).2
      obtain rfl : result = h.signature.result := by
        simpa using (Scopes.resultType_eq isBody kept).symm.trans isResult
      refine ⟨Scopes.functionBody_congr changes.size changes.parent changes.kind, fun other => ?_,
        fun other work mem => ?_⟩
      · rw [changes.result]
        split <;> simp_all
      · rw [changes.resultWaiters] at mem
        split at mem
        · rename_i same
          subst same
          exact (List.mem_append.1 mem).imp_right fun new => ⟨List.mem_singleton.1 new, kept, pending⟩
        · exact .inl mem
    case isFalse => exact ⟨fun _ => by rw [waits], fun _ => by rw [waits], fun _ _ mem =>
        .inl (waits ▸ mem)⟩
  have later {g : SignatureDraft} : Hopeful s.scopes g → Hopeful scopes g :=
    Or.imp_right fun ⟨pending, body, type, isBody, kept, set⟩ =>
      ⟨pending, body, type, (around _).trans isBody, (results _).trans kept, set⟩
  refine ⟨fun other g there => ?_, fun other g there => ?_, fun body work mem => ?_,
    fun body type kept => ?_⟩
  · rw [put other] at there
    split at there
    · exact Option.some.inj there ▸ parameters
    · exact answered.parameters other g there
  · rw [put other] at there
    split at there
    · obtain rfl := Option.some.inj there
      refine later (known.imp_right fun ⟨pending, isResult⟩ => ⟨pending, ?_⟩)
      obtain ⟨body, isBody, kept⟩ := Scopes.resultType_eq_some isResult
      refine ⟨body, _, isBody, kept, fun unset => ?_⟩
      simp [unset, Ty.isPending, Ty.pendingOn] at pending
    · exact later (answered.heads other g there)
  · rcases waiters body work mem with before | ⟨rfl, kept, pending⟩
    · obtain ⟨core, type, kept, pending⟩ := answered.waits body work before
      exact ⟨core, type, (results body).trans kept, pending⟩
    · exact ⟨⟨k, rfl⟩, _, (results body).trans kept, pending⟩
  · refine (answered.results body type ((results body).symm.trans kept)).imp_right
      (Or.imp_right fun held => ⟨held.1, ?_⟩)
    obtain ⟨id, scope, r, here, isBody, waits⟩ := held.2
    exact ⟨id, scope, r, here, (around scope).trans isBody, waits⟩

/-! Steps. -/

theorem Answered.queueStep (queueStep : QueueStep s t) (answered : Answered s)
    (tallied : Tallied True none s) :
    Answered t := by
  have taken (rest : List (Deferral Empty)) : Answered { s with queue := rest } :=
    ⟨answered.parameters, answered.heads, answered.waits, answered.results⟩
  cases queueStep with
  | @resume _ _ rest _ _ name d _ _ here reviewed =>
    obtain ⟨_, _, _, faithful, looks, -⟩ := tallied.drafts _ d (by simp) here
    refine reviewed.answered (taken rest) ((looks.faithful (faithful trivial)).strike name)
      fun e there => ?_
    obtain rfl := Option.some.inj (here.symm.trans there)
    exact ⟨rfl, fun r same => ⟨r, by rw [same]; rfl⟩⟩
  | @postpone _ _ rest _ _ result? _ _ here found pending headed =>
    have parameters := answered.parameters _ _ here
    refine headed.answered (taken rest) parameters (.inr ⟨pending, ?_⟩)
    cases result? with
    | none => simp [Ty.isPending, Ty.pendingOn] at pending
    | some result => exact found
  | @conclude _ _ rest _ _ h result? _ queue core here found known headed changes =>
    -- The head has waited for a result type that was set, and this one is not pending any more.
    have waited := tallied.pending_of_queue queue core here
    obtain ⟨-, body, type, isBody, kept, set⟩ :=
      (answered.heads _ h here).resolve_left fun concrete => by
        simp [Ty.isPending_of_isConcrete concrete] at waited
    obtain rfl : result? = some type := by
      simpa using found.symm.trans (Scopes.resultType_eq isBody kept)
    have concrete : type.isConcrete = true := by
      rcases answered.results body type kept with unset | concrete | ⟨pending, -⟩
      · exact absurd unset set
      · exact concrete
      · simp [pending] at known
    have parameters := answered.parameters _ h here
    exact (headed.answered (taken rest) parameters (.inl concrete)).bound
      (Scopes.update_eq_ok changes).2

/-- One step on a tame text leaves hope to everybody who waits. -/
theorem Answered.checkStep (checkStep : CheckStep (.tame σ) s t) (answered : Answered s)
    (tallied : Tallied True none s) : Answered t := by
  have fresh {d : Draft} {P : Prop} (found : s.drafts[s.drafts.length]? = some d) : P := by
    simp at found
  cases checkStep with
  | idle =>
    exact ⟨answered.parameters, answered.heads, answered.waits, answered.results⟩
  | @create _ parent kind _ plain =>
    have created := s.scopes.created_create parent kind
    refine answered.mono rfl (fun body type kept => ?_) (fun body type kept => ?_)
      created.resultWaiters (fun _ _ => Scopes.functionBody_create) fun body _ _ _ => ?_
    · obtain ⟨_, here, _⟩ := Option.bind_eq_some_iff.1 kept
      exact (created.result body (Nat.ne_of_lt (Scopes.lt_size_of_get here))).trans kept
    · by_cases new : body = s.scopes.size
      · subst new
        rw [created.own] at kept
        cases kind with
        | block | loop => simp [ScopeKind.role, Role.result?] at kept
        | function result =>
          obtain rfl : result = type := by simpa [ScopeKind.role, Role.result?] using kept
          exact .inr (plain trivial result rfl)
      · exact .inl ((created.result body new).symm.trans kept)
    · rintro ⟨id, scope, r, here, isBody, waits⟩
      exact ⟨id, scope, r, here, Scopes.functionBody_create isBody, waits⟩
  | define done => exact answered.bound (Scopes.define_eq_ok done).2
  | declare _ _ _ _ _ looked => exact looked.answered answered fun _ _ _ _ => fresh
  | reach isFresh _ _ reviewed =>
    exact reviewed.answered answered (isFresh trivial).faithful fun _ => fresh
  | @head _ m scope inner signature result? _ _ parameters found same headed done =>
    refine Answered.bound (headed.answered answered parameters ?_) (Scopes.define_eq_ok done).2
    rw [same]
    cases result? with
    | none => exact .inl rfl
    | some type =>
      obtain ⟨body, isBody, kept⟩ := Scopes.resultType_eq_some found
      rcases answered.results body type kept with rfl | concrete | ⟨pending, -⟩
      · exact .inl rfl
      · exact .inl (by simpa [resultOf_of_isConcrete concrete] using concrete)
      · have kept : resultOf type = type := by
          cases type <;> first | rfl | simp [Ty.isPending, Ty.pendingOn] at pending
        exact .inr (by simpa [kept] using ⟨pending, found⟩)
  | queueStep queueStep => exact answered.queueStep queueStep tallied

theorem answered_initial (store : σ) (budget : Nat) : Answered (Checker.initial store budget) := by
  have alone (body : ScopeId) : (Checker.initial store budget : Checker Empty σ).scopes.resultWaiters
      body = [] ∧ (Checker.initial store budget : Checker Empty σ).scopes.result? body = none := by
    cases body <;> exact ⟨rfl, rfl⟩
  refine ⟨fun k h here => by simp [Checker.initial] at here,
    fun k h here => by simp [Checker.initial] at here, fun body work mem => ?_, fun body type kept => ?_⟩
  · simp [(alone body).1] at mem
  · simp [(alone body).2] at kept

/-- When the statements of a tame text have been checked, everybody who waits has a deferral and some
hope. -/
theorem answered_checkBlock {importer : Importer σ} {options : Options} {store : σ} {budget : Nat}
    {program : List Stmt} {outlines : List Outline} (fresh : Stmt.areFresh program = true)
    (plain : Plainly (Stmt.allAnnotations program))
    (ends : Ends (checkBlock (Env.plain options importer) Checker.root none program)
      (Checker.initial store budget) outlines t) : Tallied True none t ∧ Answered t := by
  have madeOfSteps : MadeOfSteps (.tame σ) Checker.root
      (checkBlock (Env.plain options importer) Checker.root none program) :=
    madeOfSteps_checkBlock program Checker.root none
      ⟨fun _ => fresh, fun _ => plain, fun _ _ => trivial, False.elim⟩
  exact ((madeOfSteps _ trivial).of_ends ends).keep
    (P := fun s => Tallied True none s ∧ Answered s)
    (fun checkStep held => ⟨held.1.checkStep checkStep, held.2.checkStep checkStep held.1⟩)
    ⟨tallied_initial store budget, answered_initial store budget⟩

/-! Who waits for what. -/

theorem core_of_errand {work : Deferral Empty} {name : String}
    (errand : work.errand = .draft id name) : work.core = .resume id name := by
  induction work with
  | hoisted _ _ _ rest ih => exact ih errand
  | client task => exact task.elim
  | resume =>
    cases errand
    rfl
  | conclude => cases errand

/-- As long as nothing is in the queue, all deferrals are found where somebody waits. -/
theorem Tallied.exists_of_due {errand : Errand} (tallied : Tallied True none s)
    (queue : s.queue = []) (due : s.due errand = 1) :
    (∃ place name, ∃ waiter ∈ s.scopes.waiters place name, waiter.work.errand = errand) ∨
      ∃ body, ∃ work ∈ s.scopes.resultWaiters body, work.errand = errand := by
  have one : s.tally errand = 1 := (tallied.count _ (by simp)).trans due
  obtain ⟨work, live, isErrand⟩ := List.countP_pos_iff.1 (one ▸ Nat.one_pos)
  have isErrand : work.errand = errand := by simpa using isErrand
  rw [Checker.live, queue, List.nil_append] at live
  rcases Scopes.exists_of_mem_kept tallied.tidy live with ⟨place, name, waiter, mem, rfl⟩ | ⟨body, mem⟩
  · exact .inl ⟨place, name, waiter, mem, isErrand⟩
  · exact .inr ⟨body, work, mem, isErrand⟩

/-- A draft that waits for a name is found where names are waited for. -/
theorem Tallied.waiter (tallied : Tallied True none s) (answered : Answered s)
    (queue : s.queue = []) {d : Draft} {name : String} (here : s.drafts[id]? = some d)
    (waits : name ∈ d.work.awaits) :
    ∃ place on, ∃ waiter ∈ s.scopes.waiters place on, waiter.work.core = .resume id name := by
  have due : s.due (.draft id name) = 1 := by simp [Checker.due, here, waits]
  rcases tallied.exists_of_due queue due with ⟨place, on, waiter, mem, errand⟩ | ⟨body, work, mem, errand⟩
  · exact ⟨place, on, waiter, mem, core_of_errand errand⟩
  · obtain ⟨⟨k, rfl⟩, -⟩ := answered.waits body work mem
    cases errand

end Check

end Hoist
