import Hoist.Proofs.Check.Evolves

/-!
A sound desk stays sound.

Main statement: no move makes a sound desk unsound (`Desk.Move.sound`).
-/
namespace Hoist.Desk

variable {s t : Desk}

/-! A draft and a head that a move does not touch. -/

/-- A known type stays where it is. -/
theorem Provides.later {scope : ScopeId} {name : String} {type : Ty}
    (provides : s.Provides scope name type) (evolves : Evolves s t)
    (concrete : type.isConcrete = true) : t.Provides scope name type := by
  obtain ⟨outer, owner, binding, path, mem, bound, rfl⟩ := provides
  obtain ⟨after, bound, settles⟩ := evolves.binding _ _ _ bound
  exact ⟨outer, owner, after, path.mono evolves.parent, mem, bound, settles.known concrete⟩

theorem DraftChecked.transport {id : DraftId} {d : Draft} (checked : s.DraftChecked id d)
    (evolves : Evolves s t)
    (own : ∀ name, d.work.declares = some name →
      t.scopes.binding? d.scope name = s.scopes.binding? d.scope name)
    (bodies : ∀ body, s.scopes.functionBody d.scope = .ok body →
      t.scopes.functionBody d.scope = .ok body)
    (results : ∀ body result, s.scopes.result? body = some result → result ≠ .unannotated →
      ∃ later, t.scopes.result? body = some later ∧ later ≠ .unannotated ∧
        (result.isConcrete = true → later = result))
    (waits : ∀ name, .resume id name ∈ s.queue ∨ s.Waiting id d.scope name →
      .resume id name ∈ t.queue ∨ t.Waiting id d.scope name) : t.DraftChecked id d := by
  obtain ⟨scope, work⟩ := d
  cases work with
  | declaration d => exact ⟨checked.1, (own d.name rfl).trans checked.2⟩
  | assignment a awaited =>
    obtain ⟨⟨view, target, value, targetType, valueType, faithful, faithful', lookTarget, look, agree,
      pending, provides⟩, live⟩ := checked
    refine ⟨⟨view, target, value, targetType, valueType, faithful, faithful', lookTarget, look, agree,
      pending, fun type found concrete => ?_⟩, fun mem => waits _ (live mem)⟩
    exact (provides type found concrete).later evolves concrete
  | evaluation e => exact checked
  | returns r =>
    obtain ⟨body, result, around, kept, set, agrees⟩ := checked
    obtain ⟨later, keeps, stays, same⟩ := results body result kept set
    refine ⟨body, later, bodies _ around, keeps, stays, ?_⟩
    cases value : r.value with
    | none =>
      rw [value] at agrees
      have void : result = .void := agrees
      exact (same (by simp [void, Ty.isConcrete])).trans void
    | some expr =>
      rw [value] at agrees
      obtain ⟨type, seen, pending | rfl⟩ := agrees
      · exact ⟨type, seen, .inl pending⟩
      · refine ⟨result, seen, ?_⟩
        rcases seen.settles with pending | settled
        · exact .inl pending
        · exact .inr (same settled.isConcrete)

theorem HeadChecked.transport {h : SignatureDraft} (checked : s.HeadChecked h)
    (kind : t.scopes.kind? h.body = s.scopes.kind? h.body)
    (own : t.scopes.binding? h.scope h.signature.name = s.scopes.binding? h.scope h.signature.name)
    (results : ∀ result, s.scopes.result? h.body = some result →
      result.isConcrete = true ∨ result = .unannotated → t.scopes.result? h.body = some result) :
    t.HeadChecked h := by
  obtain ⟨isBody, ⟨result, bound, same⟩, agrees⟩ := checked
  refine ⟨kind.trans isBody, ⟨result, own.trans bound, same⟩, fun concrete => ?_⟩
  rcases agrees concrete with kept | ⟨unset, void⟩
  · exact .inl (results _ kept (.inl concrete))
  · exact .inr ⟨results _ unset (.inr rfl), void⟩

/-- What has to be looked at when a move has been made. -/
theorem Sound.of_steady (sound : s.Sound) (steady : Steady s t)
    (drafts : ∀ (id : DraftId) d, t.drafts[id]? = some d → t.DraftChecked id d)
    (heads : ∀ (id : SignatureId) h, t.signatures[id]? = some h → t.HeadChecked h)
    (results : ∀ body, s.scopes.result? body ≠ some .unannotated →
      t.scopes.result? body ≠ some .unannotated)
    (live : ∀ work id, t.Live work → work.core = .conclude id → s.Live work ∨
      ∃ h, t.signatures[id]? = some h ∧ t.scopes.result? h.body ≠ some .unannotated)
    (waiters : ∀ name, ∀ waiter ∈ t.scopes.waiters 0 name,
      waiter ∈ s.scopes.waiters 0 name ∨ s.Awaitable 0 name waiter.work) : t.Sound where
  rooted := sound.rooted.of_parents steady.parent
  bound who scope name key := by
    rw [steady.named]
    exact sound.bound who scope name (steady.key who ▸ key)
  distinct who other key first second :=
    sound.distinct who other key (steady.key who ▸ first) (steady.key other ▸ second)
  drafts := drafts
  heads := heads
  concluding work id lives core := by
    rcases live work id lives core with before | new
    · obtain ⟨h, found, set⟩ := sound.concluding work id before core
      have body := steady.body id
      rw [found] at body
      obtain ⟨after, found, same⟩ := Option.map_eq_some_iff.1 body
      exact ⟨after, found, results _ (same ▸ set)⟩
    · exact new
  hoisting name id position waiter mem work := by
    have free : s.scopes.binding? 0 name = none ∨ s.DeclaresAtRoot id name := by
      rcases waiters name waiter mem with before | ⟨other, plain | ⟨_, hoisted, _, free⟩⟩
      · exact sound.hoisting name id position waiter before work
      · simp [work] at plain
      · obtain ⟨-, rfl⟩ : _ ∧ id = other := by simpa [work] using hoisted
        exact free
    refine free.imp (fun unbound => ?_) (steady.key _).trans
    have named := steady.named 0 name
    simpa [unbound] using named

theorem bodies_steady (sound : s.Sound) (steady : Steady s t) {scope : ScopeId}
    {body : Option ScopeId} (around : s.scopes.functionBody scope = .ok body) :
    t.scopes.functionBody scope = .ok body :=
  Scopes.functionBody_mono sound.rooted (fun id _ found => (steady.parent id).trans found)
    (fun id _ found => (steady.kind id).trans found) around

/-- A draft other than the one that is bound again keeps its binding. -/
theorem own_bound (sound : s.Sound) {who other : Binder} {scope place : ScopeId} {name : String}
    {binding : Binding} {work : List (Deferral Empty)}
    (bound : s.scopes.Bound t.scopes scope binding work)
    (key : s.key? who = some (scope, binding.name)) (different : other ≠ who)
    (otherKey : s.key? other = some (place, name)) :
    t.scopes.binding? place name = s.scopes.binding? place name := by
  rw [bound.bindings, if_neg]
  rintro ⟨rfl, rfl⟩
  exact different (sound.distinct _ _ _ otherKey key)

theorem key?_draft {id : DraftId} {d : Draft} {name : String} (found : s.drafts[id]? = some d)
    (declares : d.work.declares = some name) : s.key? (.draft id) = some (d.scope, name) := by
  simp [key?, found, declares]

theorem key?_head {id : SignatureId} {h : SignatureDraft} (found : s.signatures[id]? = some h) :
    s.key? (.head id) = some (h.scope, h.signature.name) := by
  simp [key?, found]

/-- What waits for a name that is bound again is about to be performed. -/
theorem waiting_bound {id : DraftId} {scope place : ScopeId} {name : String} {binding : Binding}
    {work : List (Deferral Empty)} (bound : s.scopes.Bound t.scopes place binding work)
    (queue : t.queue = s.queue ++ work)
    (waits : .resume id name ∈ s.queue ∨ s.Waiting id scope name) :
    .resume id name ∈ t.queue ∨ t.Waiting id scope name := by
  rcases waits with queued | ⟨outer, owner, entry, path, mem, known, unknown, waiter, waits, same⟩
  · exact .inl (queue ▸ List.mem_append_left _ queued)
  · by_cases here : owner = place ∧ name = binding.name
    · obtain ⟨rfl, rfl⟩ := here
      refine .inl (queue ▸ List.mem_append_right _ ?_)
      rw [bound.work, ← same]
      exact List.mem_map_of_mem waits
    · refine .inr ⟨outer, owner, entry,
        path.mono fun id _ found => (bound.parent id).trans found, mem, ?_, unknown, waiter, ?_,
        same⟩
      · rwa [bound.bindings, if_neg here]
      · rwa [bound.waiters, if_neg here]

theorem waiting_changed {id : DraftId} {scope body : ScopeId} {name : String} {result : Ty}
    {waiting : List (Deferral Empty)} (changed : s.scopes.Changed t.scopes body result waiting)
    (waits : s.Waiting id scope name) : t.Waiting id scope name := by
  obtain ⟨outer, owner, entry, path, mem, known, unknown, waiter, waits, same⟩ := waits
  refine ⟨outer, owner, entry, path.mono fun id _ found => (changed.parent id).trans found, mem,
    ?_, unknown, waiter, ?_, same⟩
  · rwa [changed.bindings]
  · rwa [changed.waiters]

theorem live_bound {place : ScopeId} {binding : Binding} {handed : List (Deferral Empty)}
    (bound : s.scopes.Bound t.scopes place binding handed) (queue : t.queue = s.queue ++ handed)
    {work : Deferral Empty} (live : t.Live work) : s.Live work := by
  rcases live with queued | ⟨scope, name, waiter, mem, same⟩ | ⟨scope, mem⟩
  · rw [queue, List.mem_append, bound.work, List.mem_map] at queued
    rcases queued with before | ⟨waiter, mem, same⟩
    · exact .inl before
    · exact .inr (.inl ⟨_, _, waiter, mem, same⟩)
  · rw [bound.waiters] at mem
    split at mem
    · simp at mem
    · exact .inr (.inl ⟨scope, name, waiter, mem, same⟩)
  · rw [bound.resultWaiters] at mem
    exact .inr (.inr ⟨scope, mem⟩)

theorem mem_waiters_of_awaited {before after : Scopes (Deferral Empty)} {place scope : ScopeId}
    {name other : String} {waiter old : Waiter (Deferral Empty)}
    (awaited : before.Awaited after place name waiter) (mem : old ∈ after.waiters scope other) :
    old ∈ before.waiters scope other ∨ scope = place ∧ other = name ∧ old = waiter := by
  rw [awaited.waiters] at mem
  split at mem
  · rename_i here
    obtain ⟨rfl, rfl⟩ := here
    exact (List.mem_append.1 mem).imp_right fun new => ⟨rfl, rfl, List.mem_singleton.1 new⟩
  · exact .inl mem

theorem live_awaited {scope : ScopeId} {name : String} {waiter : Waiter (Deferral Empty)}
    {scopes : Scopes (Deferral Empty)} (awaited : s.scopes.Awaited scopes scope name waiter)
    {work : Deferral Empty} (live : Live { s with scopes } work) :
    s.Live work ∨ work = waiter.work := by
  rcases live with queued | ⟨place, other, old, mem, same⟩ | ⟨place, mem⟩
  · exact .inl (.inl queued)
  · rcases mem_waiters_of_awaited awaited mem with before | ⟨-, -, rfl⟩
    · exact .inl (.inr (.inl ⟨place, other, old, before, same⟩))
    · exact .inr same.symm
  · exact .inl (.inr (.inr ⟨place, by rwa [← awaited.resultWaiters place]⟩))

theorem live_changed {body : ScopeId} {result : Ty} {waiting : List (Deferral Empty)}
    (changed : s.scopes.Changed t.scopes body result waiting)
    (queue : ∀ work ∈ t.queue, work ∈ s.queue ∨ work ∈ s.scopes.resultWaiters body)
    {work : Deferral Empty} (live : t.Live work) : s.Live work ∨ work ∈ waiting := by
  rcases live with queued | ⟨scope, name, waiter, mem, same⟩ | ⟨scope, mem⟩
  · rcases queue work queued with before | handed
    · exact .inl (.inl before)
    · exact .inl (.inr (.inr ⟨body, handed⟩))
  · rw [changed.waiters] at mem
    exact .inl (.inr (.inl ⟨scope, name, waiter, mem, same⟩))
  · rw [changed.resultWaiters] at mem
    split at mem
    · exact .inr mem
    · exact .inl (.inr (.inr ⟨scope, mem⟩))

theorem not_live_initial {σ : Type} {store : σ} {budget : Nat} {work : Deferral Empty} :
    ¬((Checker.initial store budget : Checker Empty σ).desk []).Live work := by
  rintro (queued | ⟨place, name, waiter, mem, -⟩ | ⟨body, mem⟩)
  · cases queued
  · simp [show ((Checker.initial store budget : Checker Empty σ).desk []).scopes.waiters place name =
      [] from Scopes.waiters_eq_nil rfl place name] at mem
  · cases body <;> cases mem

theorem ReturnLook.seen {view : View} {before after : Option Expr} {type result : Ty}
    (looks : ReturnLook view before type after) (agrees : type.isPending = true ∨ result = type) :
    Returns result after := by
  cases before with
  | none =>
    obtain ⟨rfl, rfl⟩ := looks
    simpa [Returns, Ty.isPending, Ty.pendingOn] using agrees
  | some value =>
    obtain ⟨faithful, looked, look, rfl⟩ := looks
    exact ⟨type, ⟨value, view, faithful, look⟩, agrees⟩

theorem ReturnLook.ne_unannotated {view : View} {before after : Option Expr} {type : Ty}
    (looks : ReturnLook view before type after) : type ≠ .unannotated := by
  rintro rfl
  cases before with
  | none => simp [ReturnLook] at looks
  | some value =>
    obtain ⟨faithful, looked, look, rfl⟩ := looks
    rcases Expr.Seen.settles ⟨value, view, faithful, look⟩ with pending | settled
    · simp [Ty.isPending, Ty.pendingOn] at pending
    · simpa [Ty.isConcrete] using settled.isConcrete

theorem drafts_putAt {id : DraftId} {after : Draft} (put : PutAt s.drafts id after t.drafts)
    (new : t.DraftChecked id after)
    (old : ∀ other, other ≠ id → ∀ d, s.drafts[other]? = some d → t.DraftChecked other d)
    (other : DraftId) (d : Draft) (found : t.drafts[other]? = some d) : t.DraftChecked other d := by
  rw [put other] at found
  split at found
  · rename_i here
    obtain rfl := Option.some.inj found
    exact here ▸ new
  · rename_i different
    exact old other different d found

theorem heads_putAt {id : SignatureId} {after : SignatureDraft}
    (put : PutAt s.signatures id after t.signatures) (new : t.HeadChecked after)
    (old : ∀ other, other ≠ id → ∀ h, s.signatures[other]? = some h → t.HeadChecked h)
    (other : SignatureId) (h : SignatureDraft) (found : t.signatures[other]? = some h) :
    t.HeadChecked h := by
  rw [put other] at found
  split at found
  · obtain rfl := Option.some.inj found
    exact new
  · rename_i different
    exact old other different h found

/-! The moves, one after the other. -/

theorem sound_await (sound : s.Sound) {scope : ScopeId} {name : String}
    {waiter : Waiter (Deferral Empty)} {scopes : Scopes (Deferral Empty)}
    (awaited : s.scopes.Awaited scopes scope name waiter)
    (awaitable : s.Awaitable scope name waiter.work) : Sound { s with scopes } := by
  have move := Move.await awaited awaitable
  have steady := move.steady sound
  refine sound.of_steady steady (fun id d found => ?_) (fun id h found => ?_) (fun body set => ?_)
    (fun work id live core => .inl ?_) (fun other old mem => ?_)
  · refine (sound.drafts id d found).transport (move.evolves sound)
      (fun name _ => awaited.bindings _ _) (fun _ => bodies_steady sound steady) (fun body result kept set => ?_) (fun other waits => ?_)
    · exact ⟨result, (awaited.result body).trans kept, set, fun _ => rfl⟩
    · refine waits.imp_right ?_
      rintro ⟨outer, owner, entry, path, mem, known, unknown, old, waits, same⟩
      refine ⟨outer, owner, entry, path.mono fun id _ found => (awaited.parent id).trans found, mem,
        (awaited.bindings owner other).trans known, unknown, old, ?_, same⟩
      exact mem_waiters_awaited awaited waits
  · exact (sound.heads id h found).transport (awaited.kind _) (awaited.bindings _ _)
      fun result kept _ => (awaited.result _).trans kept
  · rwa [show scopes.result? body = s.scopes.result? body from awaited.result body]
  · rcases live_awaited awaited live with before | rfl
    · exact before
    · -- What waits for a name is never about the result type of a function.
      obtain ⟨draft, plain | ⟨position, hoisted, _⟩⟩ := awaitable
      · simp [plain, Deferral.core] at core
      · simp [hoisted, Deferral.core] at core
  · rcases mem_waiters_of_awaited awaited mem with before | ⟨rfl, rfl, rfl⟩
    · exact .inl before
    · exact .inr awaitable

/-- A move that only puts a draft in its place. -/
theorem sound_putAt (sound : s.Sound) {id : DraftId} {after : Draft} {drafts : List Draft}
    (steady : Steady s { s with drafts }) (put : PutAt s.drafts id after drafts)
    (checked : s.DraftChecked id after) : Sound { s with drafts } :=
  sound.of_steady steady (drafts_putAt put checked fun other _ d found => sound.drafts other d found)
    (fun id h found => sound.heads id h found) (fun _ set => set) (fun _ _ live _ => .inl live)
    (fun _ _ mem => .inl mem)

theorem sound_decide (sound : s.Sound) {id : DraftId} {scope : ScopeId} {r : Return}
    {value : Option Expr} {type result : Ty} {body : ScopeId} {drafts : List Draft}
    {scopes : Scopes (Deferral Empty)}
    (steady : Steady s { s with scopes, drafts, queue := s.queue ++ s.scopes.resultWaiters body })
    (evolves : Evolves s { s with scopes, drafts, queue := s.queue ++ s.scopes.resultWaiters body })
    (looks : ReturnLook (s.scopes.view scope) r.value type value)
    (around : s.scopes.functionBody scope = .ok (some body))
    (kept : s.scopes.result? body = some result) (unknown : result.isConcrete = false)
    (unset : result = .unannotated → ∀ h ∈ s.signatures, h.body ≠ body)
    (changed : s.scopes.Changed scopes body type [])
    (put : PutAt s.drafts id ⟨scope, .returns { r with value }⟩ drafts) :
    Sound { s with scopes, drafts, queue := s.queue ++ s.scopes.resultWaiters body } := by
  have set := looks.ne_unannotated
  refine sound.of_steady steady (drafts_putAt put ?_ fun other _ d found => ?_)
    (fun id h found => ?_) (fun place set' => ?_) (fun work id live _ => ?_)
    (fun name old mem => .inl ?_)
  · refine ⟨body, type, bodies_steady sound steady around, ?_, set, looks.seen (.inr rfl)⟩
    exact (changed.result body).trans (if_pos rfl)
  · refine (sound.drafts other d found).transport evolves (fun name _ => changed.bindings _ _)
      (fun _ => bodies_steady sound steady) (fun place old keeps set' => ?_) (fun name waits => ?_)
    · by_cases here : place = body
      · subst here
        obtain rfl : result = old := Option.some.inj (kept.symm.trans keeps)
        exact ⟨type, (changed.result place).trans (if_pos rfl), set,
          fun concrete => by simp [unknown] at concrete⟩
      · exact ⟨old, (changed.result place).trans ((if_neg here).trans keeps), set', fun _ => rfl⟩
    · exact waits.imp (List.mem_append_left _) (waiting_changed changed)
  · refine (sound.heads id h found).transport (changed.kind _) (changed.bindings _ _)
      fun old keeps known => ?_
    refine (changed.result _).trans ((if_neg fun here => ?_).trans keeps)
    rw [here] at keeps
    obtain rfl : result = old := Option.some.inj (kept.symm.trans keeps)
    rcases known with concrete | open_
    · simp [unknown] at concrete
    · exact unset open_ h (List.mem_of_getElem? found) here
  · show scopes.result? place ≠ _
    rw [changed.result]
    split
    · simpa using set
    · exact set'
  · rcases live_changed changed (fun _ mem => List.mem_append.1 mem) live with before | new
    · exact .inl before
    · simp at new
  · rwa [← changed.waiters]

/-- A move that binds the name of one binder again, and puts the binder in its place. -/
theorem sound_rebind (sound : s.Sound) (steady : Steady s t) (evolves : Evolves s t) {who : Binder} {scope : ScopeId}
    {binding : Binding} {work : List (Deferral Empty)}
    (bound : s.scopes.Bound t.scopes scope binding work) (queue : t.queue = s.queue ++ work)
    (key : s.key? who = some (scope, binding.name))
    (drafts : ∀ (id : DraftId) d, t.drafts[id]? = some d →
      .draft id ≠ who ∧ s.drafts[id]? = some d ∨ t.DraftChecked id d)
    (heads : ∀ (id : SignatureId) h, t.signatures[id]? = some h →
      .head id ≠ who ∧ s.signatures[id]? = some h ∨ t.HeadChecked h) : t.Sound := by
  refine sound.of_steady steady (fun id d found => ?_) (fun id h found => ?_) (fun body set => ?_)
    (fun work id live _ => .inl (live_bound bound queue live)) (fun name waiter mem => .inl ?_)
  · rcases drafts id d found with ⟨different, old⟩ | new
    · refine (sound.drafts id d old).transport evolves (fun name declares => ?_)
        (fun _ => bodies_steady sound steady) (fun body result kept set => ?_)
        (fun _ => waiting_bound bound queue)
      · exact own_bound sound bound key different (key?_draft old declares)
      · exact ⟨result, (bound.result body).trans kept, set, fun _ => rfl⟩
    · exact new
  · rcases heads id h found with ⟨different, old⟩ | new
    · exact (sound.heads id h old).transport (bound.kind _)
        (own_bound sound bound key different (key?_head old))
        fun result kept _ => (bound.result _).trans kept
    · exact new
  · rwa [bound.result]
  · rw [bound.waiters] at mem
    split at mem
    · simp at mem
    · exact mem

theorem sound_redeclare (sound : s.Sound) {id : DraftId} {scope : ScopeId} {d after : Declaration}
    {value : Expr} {type : Ty} {drafts : List Draft} {scopes : Scopes (Deferral Empty)}
    {work : List (Deferral Empty)}
    (steady : Steady s { s with scopes, drafts, queue := s.queue ++ work })
    (evolves : Evolves s { s with scopes, drafts, queue := s.queue ++ work })
    (old : s.drafts[id]? = some ⟨scope, .declaration d⟩)
    (look : d.value.resolve (s.scopes.view scope) = (.ok type, value))
    (typed : { d with value }.withType type = .ok after)
    (bound : s.scopes.Bound scopes scope after.binding work)
    (put : PutAt s.drafts id ⟨scope, .declaration after⟩ drafts) :
    Sound { s with scopes, drafts, queue := s.queue ++ work } := by
  obtain ⟨rfl, written⟩ := Declaration.withType_eq_ok typed
  have checked := sound.drafts id _ old
  refine sound_rebind sound steady evolves bound rfl (key?_draft old rfl) (fun other e found => ?_)
    (fun other h found => .inl ⟨by simp, found⟩)
  rw [put other] at found
  split at found
  · obtain rfl := Option.some.inj found
    refine .inr ⟨⟨⟨d.value, _, checked.1.1.faithful, look⟩, written⟩, ?_⟩
    exact (bound.bindings _ _).trans (if_pos ⟨rfl, rfl⟩)
  · rename_i different
    exact .inl ⟨by simpa using different, found⟩

theorem sound_conclude (sound : s.Sound) {id : SignatureId} {h : SignatureDraft} {result : Ty}
    {signatures : List SignatureDraft} {scopes : Scopes (Deferral Empty)}
    {work : List (Deferral Empty)}
    (steady : Steady s { s with scopes, signatures, queue := s.queue ++ work })
    (evolves : Evolves s { s with scopes, signatures, queue := s.queue ++ work })
    (found : s.signatures[id]? = some h) (kept : s.scopes.result? h.body = some result)
    (bound : s.scopes.Bound scopes h.scope { h.signature with result }.binding work)
    (put : PutAt s.signatures id { h with signature := { h.signature with result } } signatures) :
    Sound { s with scopes, signatures, queue := s.queue ++ work } := by
  refine sound_rebind sound steady evolves bound rfl (key?_head found)
    (fun other d old => .inl ⟨by simp, old⟩) (fun other later here => ?_)
  rw [put other] at here
  split at here
  · obtain rfl := Option.some.inj here
    refine .inr ⟨(bound.kind _).trans (sound.heads id h found).1,
      ⟨result, (bound.bindings _ _).trans (if_pos ⟨rfl, rfl⟩), .inl rfl⟩,
      fun _ => .inl ((bound.result _).trans kept)⟩
  · rename_i different
    exact .inl ⟨by simpa using different, here⟩

theorem sound_postpone (sound : s.Sound) {id : SignatureId} {h : SignatureDraft} {result : Ty}
    {signatures : List SignatureDraft} {scopes : Scopes (Deferral Empty)}
    (steady : Steady s { s with scopes, signatures }) (evolves : Evolves s { s with scopes, signatures })
    (found : s.signatures[id]? = some h) (kept : s.scopes.result? h.body = some result)
    (pending : result.isPending = true)
    (changed : s.scopes.Changed scopes h.body result
      (s.scopes.resultWaiters h.body ++ [.conclude id]))
    (put : PutAt s.signatures id { h with signature := { h.signature with result } } signatures) :
    Sound { s with scopes, signatures } := by
  have unknown : result.isConcrete = false := by
    cases result <;> simp_all [Ty.isPending, Ty.pendingOn, Ty.isConcrete]
  have set : result ≠ .unannotated := by
    rintro rfl
    simp [Ty.isPending, Ty.pendingOn] at pending
  have results : ∀ body, scopes.result? body = s.scopes.result? body := by
    intro body
    rw [changed.result]
    split
    · rename_i here
      exact here ▸ kept.symm
    · rfl
  refine sound.of_steady steady (fun id d found => ?_) (heads_putAt put ?_ fun other _ h old => ?_)
    (fun body set => by rwa [results]) (fun work other live core => ?_)
    (fun name old mem => .inl (by rwa [← changed.waiters]))
  · exact (sound.drafts id d found).transport evolves (fun name _ => changed.bindings _ _)
      (fun _ => bodies_steady sound steady)
      (fun body result kept set => ⟨result, (results body).trans kept, set, fun _ => rfl⟩)
      (fun name => Or.imp_right (waiting_changed changed))
  · have checked := sound.heads id h found
    refine ⟨(changed.kind _).trans checked.1, ?_, fun concrete => by simp [unknown] at concrete⟩
    obtain ⟨old, bound, same⟩ := checked.2.1
    refine ⟨old, (changed.bindings _ _).trans bound, .inr ⟨?_, unknown⟩⟩
    rcases same with rfl | ⟨unknown, _⟩
    · cases concrete : h.signature.result.isConcrete with
      | false => rfl
      | true => simp [← checked.agrees kept set concrete, unknown] at concrete
    · exact unknown
  · exact (sound.heads other h old).transport (changed.kind _) (changed.bindings _ _)
      fun result kept _ => (results _).trans kept
  · rcases live_changed (t := { s with scopes, signatures }) changed (fun _ mem => .inl mem) live
      with before | new
    · exact .inl before
    · rcases List.mem_append.1 new with before | last
      · exact .inl (.inr (.inr ⟨_, before⟩))
      · obtain rfl := List.mem_singleton.1 last
        obtain rfl : id = other := by simpa [Deferral.core] using core
        refine .inr ⟨_, by simpa using put id, ?_⟩
        rw [results]
        simpa [kept] using set

theorem sound_pop (sound : s.Sound) {work : Deferral Empty} {rest : List (Deferral Empty)}
    (steady : Steady s { s with queue := rest }) (queue : s.queue = work :: rest)
    (spent : ∀ id scope a awaited, s.drafts[id]? = some ⟨scope, .assignment a awaited⟩ →
      work = .resume id a.target.root → a.target.root ∈ awaited →
      s.Waiting id scope a.target.root) : Sound { s with queue := rest } := by
  refine sound.of_steady steady (fun id d found => ?_) (fun id h found => sound.heads id h found)
    (fun _ set => set) (fun other id live _ => .inl (live.imp_left fun mem => ?_))
    (fun _ _ mem => .inl mem)
  · have checked := sound.drafts id d found
    obtain ⟨scope, kind⟩ := d
    cases kind with
    | declaration | returns | evaluation => exact checked
    | assignment a awaited =>
      refine ⟨checked.1, fun mem => ?_⟩
      rcases checked.2 mem with queued | waits
      · rcases List.mem_cons.1 (queue ▸ queued) with first | later
        · exact .inr (spent id scope a awaited found first.symm mem)
        · exact .inl later
      · exact .inr waits
  · rw [queue]
    exact List.mem_cons_of_mem _ mem

theorem Move.sound (sound : s.Sound) (move : Move s t) : t.Sound := by
  have steady := move.steady sound
  have evolves := move.evolves sound
  cases move with
  | await awaited awaitable => exact sound_await sound awaited awaitable
  | @evaluate _ scope e _ _ _ _ faithful look put =>
    exact sound_putAt sound steady put ⟨_, e.value, _, faithful, look⟩
  | @assign id scope a awaited _ _ _ _ _ _ faithful faithful' lookTarget lookValue agrees unknown
      waits put =>
    obtain ⟨_, root, bare⟩ := target_of_look lookTarget
    refine sound_putAt sound steady put ⟨⟨_, a.target, a.value, _, _, faithful, faithful', lookTarget,
      lookValue, agrees, ?_, fun type found concrete => ?_⟩, ?_⟩
    · rw [bare, root]
      exact unknown
    · obtain ⟨owner, binding, ⟨outer, near, far, path, split, -, bound⟩, same⟩ :=
        Scopes.reads_of_view sound.rooted found concrete
      exact ⟨outer, owner, binding, path, by simp [split], bound, same⟩
    · rw [root]
      exact waits
  | confirm _ looks around kept concrete agrees put =>
    refine sound_putAt sound steady put ⟨_, _, around, kept, ?_, looks.seen agrees⟩
    rintro rfl
    simp [Ty.isConcrete] at concrete
  | decide _ looks around kept unknown unset changed put =>
    exact sound_decide sound steady evolves looks around kept unknown unset changed put
  | redeclare old look typed bound put =>
    exact sound_redeclare sound steady evolves old look typed bound put
  | postpone found kept pending changed put =>
    exact sound_postpone sound steady evolves found kept pending changed put
  | conclude found kept _ bound put =>
    exact sound_conclude sound steady evolves found kept bound put
  | pop queue _ spent => exact sound_pop sound steady queue spent

/-- From a sound desk, moves lead to this one. -/
structure MovesTo (s t : Desk) : Prop where
  sound : t.Sound
  steady : Steady s t
  evolves : Evolves s t

theorem MovesTo.refl (sound : s.Sound) : MovesTo s s :=
  ⟨sound, .refl s, .refl s⟩

theorem MovesTo.trans {m : Desk} (first : MovesTo s m) (second : MovesTo m t) : MovesTo s t :=
  ⟨second.sound, first.steady.trans second.steady, first.evolves.trans second.evolves⟩

theorem Move.movesTo (sound : s.Sound) (move : Move s t) : MovesTo s t :=
  ⟨move.sound sound, move.steady sound, move.evolves sound⟩

end Hoist.Desk
