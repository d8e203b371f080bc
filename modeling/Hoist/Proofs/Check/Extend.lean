import Hoist.Proofs.Check.Located
import Hoist.Proofs.Check.Redo

/-!
What checking adds to a desk besides moves: scopes, names that nobody declares yet, and those who
declare them.

Main statements: a desk stays sound when a scope is made (`Created.sound`), when a new name is bound
(`sound_define`), and when a declaration or the head of a function is put on it
(`sound_declaration`, `sound_head`).
-/
namespace Hoist

namespace Desk

variable {s t : Desk}

/-- Names that are bound stay bound in the same way, and nobody is lost who waits. -/
structure Extends (s t : Desk) : Prop where
  drafts : t.drafts = s.drafts
  signatures : t.signatures = s.signatures
  parent : ∀ id parent, s.scopes.parent? id = some parent → t.scopes.parent? id = some parent
  kind : ∀ id kind, s.scopes.kind? id = some kind → t.scopes.kind? id = some kind
  result : ∀ id result, s.scopes.result? id = some result → t.scopes.result? id = some result
  binding : ∀ id name binding, s.scopes.binding? id name = some binding →
    t.scopes.binding? id name = some binding
  queue : ∀ work ∈ s.queue, work ∈ t.queue
  waiters : ∀ id name, ∀ waiter ∈ s.scopes.waiters id name,
    waiter ∈ t.scopes.waiters id name ∨
      s.scopes.binding? id name = none ∧ waiter.work ∈ t.queue
  live : ∀ work, t.Live work → s.Live work
  hoisting : ∀ name, ∀ waiter ∈ t.scopes.waiters 0 name, waiter ∈ s.scopes.waiters 0 name ∧
    (s.scopes.binding? 0 name = none → t.scopes.binding? 0 name = none)

namespace Extends

theorem key (extended : Extends s t) (who : Binder) : t.key? who = s.key? who := by
  cases who <;> simp [key?, extended.drafts, extended.signatures]

theorem waits (extended : Extends s t) {id : DraftId} {scope : ScopeId} {name : String}
    (waits : .resume id name ∈ s.queue ∨ s.Waiting id scope name) :
    .resume id name ∈ t.queue ∨ t.Waiting id scope name := by
  rcases waits with queued | ⟨outer, owner, binding, path, mem, bound, unknown, waiter, waits, same⟩
  · exact .inl (extended.queue _ queued)
  · rcases extended.waiters owner name waiter waits with still | ⟨unbound, _⟩
    · exact .inr ⟨outer, owner, binding, path.mono extended.parent, mem,
        extended.binding _ _ _ bound, unknown, waiter, still, same⟩
    · simp [bound] at unbound

theorem evolves (extended : Extends s t) : Evolves s t where
  parent := extended.parent
  kind := extended.kind
  binding scope name before bound := ⟨before, extended.binding _ _ _ bound, .refl before⟩
  draft id d found := ⟨d, by rw [extended.drafts, found], .refl s t d⟩
  head id h found := ⟨h, by rw [extended.signatures, found], rfl⟩
  guarded id name := guarded_mono
    (rootFunction_mono fun scope name before bound =>
      ⟨before, extended.binding _ _ _ bound, .refl before⟩)
    extended.queue fun name waiter mem => (extended.waiters 0 name waiter mem).imp_right And.right

theorem sound (extended : Extends s t) (sound : s.Sound) (rooted : t.scopes.Rooted) : t.Sound where
  rooted := rooted
  bound who scope name key := by
    rw [extended.key] at key
    obtain ⟨binding, bound⟩ := Option.isSome_iff_exists.1 (sound.bound who scope name key)
    simp [extended.binding _ _ _ bound]
  distinct who other key first second :=
    sound.distinct who other key (extended.key who ▸ first) (extended.key other ▸ second)
  drafts id d found := by
    rw [extended.drafts] at found
    refine (sound.drafts id d found).transport extended.evolves (fun name declares => ?_)
      (fun body => Scopes.functionBody_mono sound.rooted extended.parent extended.kind)
      (fun body result kept set => ⟨result, extended.result _ _ kept, set, fun _ => rfl⟩)
      (fun name => extended.waits)
    obtain ⟨binding, bound⟩ :=
      Option.isSome_iff_exists.1 (sound.bound _ _ _ (key?_draft found declares))
    rw [bound, extended.binding _ _ _ bound]
  heads id h found := by
    rw [extended.signatures] at found
    have checked := sound.heads id h found
    refine checked.transport ?_ ?_ fun result kept _ => extended.result _ _ kept
    · rw [checked.1, extended.kind _ _ checked.1]
    · obtain ⟨binding, bound⟩ := Option.isSome_iff_exists.1 (sound.bound _ _ _ (key?_head found))
      rw [bound, extended.binding _ _ _ bound]
  concluding work id live core := by
    obtain ⟨h, found, set⟩ := sound.concluding work id (extended.live work live) core
    refine ⟨h, by rw [extended.signatures, found], fun unset => set ?_⟩
    obtain ⟨result, kept, _⟩ := Check.result_of_body sound.rooted (sound.heads id h found).1
    rw [kept, ← extended.result _ _ kept, unset]
  hoisting name id position waiter mem work := by
    obtain ⟨before, unbound⟩ := extended.hoisting name waiter mem
    exact (sound.hoisting name id position waiter before work).imp unbound
      (extended.key _).trans

end Extends

theorem extends_created {scopes : Scopes (Deferral Empty)} {outer : ScopeId} {kind : ScopeKind}
    (created : s.scopes.Created scopes outer kind) : Extends s { s with scopes } where
  drafts := rfl
  signatures := rfl
  parent := created.parent_mono
  kind id kind found := by
    have inside : id ≠ s.scopes.size := by
      obtain ⟨scope, here, _⟩ := Option.map_eq_some_iff.1 found
      exact Nat.ne_of_lt (Scopes.lt_size_of_get here)
    exact (created.kind id).trans ((if_neg inside).trans found)
  result id result kept := by
    have inside : id ≠ s.scopes.size := by
      obtain ⟨scope, here, _⟩ := Option.bind_eq_some_iff.1 kept
      exact Nat.ne_of_lt (Scopes.lt_size_of_get here)
    exact (created.result id inside).trans kept
  binding id name binding bound := (created.bindings id name).trans bound
  queue _ := id
  waiters id name waiter mem := .inl (created.waiters id name ▸ mem)
  live work live := by
    simpa only [Live, created.waiters, created.resultWaiters] using live
  hoisting name waiter mem := by
    simp only [created.waiters, created.bindings] at mem ⊢
    exact ⟨mem, id⟩

theorem extends_bound {scopes : Scopes (Deferral Empty)} {scope : ScopeId} {binding : Binding}
    {work : List (Deferral Empty)} (unbound : s.scopes.binding? scope binding.name = none)
    (bound : s.scopes.Bound scopes scope binding work) :
    Extends s { s with scopes, queue := s.queue ++ work } where
  drafts := rfl
  signatures := rfl
  parent id parent found := (bound.parent id).trans found
  kind id kind found := (bound.kind id).trans found
  result id result kept := (bound.result id).trans kept
  binding id name before known := by
    refine (bound.bindings id name).trans ((if_neg ?_).trans known)
    rintro ⟨rfl, rfl⟩
    simp [unbound] at known
  queue _ := List.mem_append_left _
  waiters id name waiter mem := by
    by_cases here : id = scope ∧ name = binding.name
    · obtain ⟨rfl, rfl⟩ := here
      refine .inr ⟨unbound, List.mem_append_right _ ?_⟩
      rw [bound.work]
      exact List.mem_map_of_mem mem
    · exact .inl (by rwa [bound.waiters, if_neg here])
  live work := live_bound bound rfl
  hoisting name waiter mem := by
    simp only [bound.waiters] at mem
    split at mem
    · simp at mem
    · rename_i elsewhere
      exact ⟨mem, fun free => (bound.bindings 0 name).trans ((if_neg elsewhere).trans free)⟩

/-! Those who declare names. -/

/-- Nobody declares this name in this scope. -/
def Free (s : Desk) (scope : ScopeId) (name : String) : Prop :=
  ∀ who, s.key? who ≠ some (scope, name)

theorem free_of_unbound (sound : s.Sound) {scope : ScopeId} {name : String}
    (unbound : s.scopes.binding? scope name = none) : s.Free scope name := by
  intro who key
  simpa [unbound] using sound.bound who scope name key

/-- Someone who declares a name that nobody declared is put on the desk. -/
theorem Sound.of_new (sound : s.Sound) (new : Binder) {scope : ScopeId} {name : String}
    (scopes : t.scopes = s.scopes) (queue : t.queue = s.queue) (free : s.Free scope name)
    (bound : (s.scopes.binding? scope name).isSome = true)
    (key : ∀ who, t.key? who = if who = new then some (scope, name) else s.key? who)
    (absent : s.key? new = none)
    (drafts : ∀ (id : DraftId) d, t.drafts[id]? = some d → s.DraftChecked id d)
    (heads : ∀ (id : SignatureId) h, t.signatures[id]? = some h → s.HeadChecked h)
    (old : ∀ (id : SignatureId) h, s.signatures[id]? = some h → t.signatures[id]? = some h) :
    t.Sound where
  rooted := scopes ▸ sound.rooted
  bound who place other found := by
    rw [key] at found
    rw [scopes]
    split at found
    · cases found
      exact bound
    · exact sound.bound who place other found
  distinct who other place first second := by
    rw [key] at first second
    split at first <;> split at second
    · simp_all
    · cases first
      exact absurd second (free other)
    · cases second
      exact absurd first (free who)
    · exact sound.distinct who other place first second
  drafts id d found := by
    have checked := drafts id d found
    obtain ⟨place, work⟩ := d
    cases work <;>
      simpa only [DraftChecked, Assignment.Checked, Provides, Returned, Waiting, scopes, queue]
        using checked
  heads id h found := by
    simpa only [HeadChecked, Bears, scopes] using heads id h found
  concluding work id live core := by
    simp only [Live, scopes, queue] at live
    obtain ⟨h, found, set⟩ := sound.concluding work id live core
    exact ⟨h, old id h found, by rwa [scopes]⟩
  hoisting other id position waiter mem work := by
    rw [scopes] at mem ⊢
    refine (sound.hoisting other id position waiter mem work).imp_right fun declares => ?_
    have held : s.key? (.draft id) = some (0, other) := declares
    rw [DeclaresAtRoot, key, if_neg, held]
    rintro rfl
    simp [absent] at held

theorem evolves_new (scopes : t.scopes = s.scopes) (queue : t.queue = s.queue)
    (drafts : ∀ (id : DraftId) d, s.drafts[id]? = some d → t.drafts[id]? = some d)
    (heads : ∀ (id : SignatureId) h, s.signatures[id]? = some h → t.signatures[id]? = some h) :
    Evolves s t where
  parent _ _ found := scopes ▸ found
  kind _ _ found := scopes ▸ found
  binding scope name before bound := ⟨before, scopes ▸ bound, .refl before⟩
  draft id d found := ⟨d, drafts id d found, .refl s t d⟩
  head id h found := ⟨h, heads id h found, rfl⟩
  guarded id name guarded := by
    simpa only [Guarded, RootFunction, scopes, queue] using guarded

section Append

variable {α : Type} {before : List α} {new : α}

theorem getElem?_append_new {id : Nat} {found : α} (here : (before ++ [new])[id]? = some found) :
    before[id]? = some found ∨ id = before.length ∧ found = new := by
  rw [putAt_append before new id] at here
  split at here
  · exact .inr ⟨by assumption, (Option.some.inj here).symm⟩
  · exact .inl here

theorem getElem?_append_old {id : Nat} {found : α} (here : before[id]? = some found) :
    (before ++ [new])[id]? = some found := by
  rw [List.getElem?_append_left (List.getElem?_eq_some_iff.1 here).1, here]

end Append

theorem sound_declaration (sound : s.Sound) {scope : ScopeId} {d : Declaration}
    (checked : d.Checked) (bound : s.scopes.binding? scope d.name = some d.binding)
    (free : s.Free scope d.name) :
    Sound { s with drafts := s.drafts ++ [⟨scope, .declaration d⟩] } := by
  refine sound.of_new (.draft s.drafts.length) rfl rfl free (by simp [bound]) (fun who => ?_)
    (by simp [key?]) (fun id e found => ?_) sound.heads fun _ _ found => found
  · cases who with
    | head id => simp [key?]
    | draft id =>
      by_cases new : id = s.drafts.length
      · simp [key?, new, Work.declares]
      · simp [key?, putAt_append s.drafts _ id, new]
  · rcases getElem?_append_new found with old | ⟨rfl, rfl⟩
    · exact sound.drafts id e old
    · exact ⟨checked, bound⟩

theorem sound_head (sound : s.Sound) {h : SignatureDraft} (checked : s.HeadChecked h)
    (free : s.Free h.scope h.signature.name) :
    Sound { s with signatures := s.signatures ++ [h] } := by
  obtain ⟨result, bound, _⟩ := checked.2.1
  refine sound.of_new (.head s.signatures.length) rfl rfl free (by simp [bound])
    (fun who => ?_) (by simp [key?]) sound.drafts (fun id other found => ?_)
    fun _ _ => getElem?_append_old
  · cases who with
    | draft id => simp [key?]
    | head id =>
      by_cases new : id = s.signatures.length
      · simp [key?, new]
      · simp [key?, putAt_append s.signatures _ id, new]
  · rcases getElem?_append_new found with old | ⟨rfl, rfl⟩
    · exact sound.heads id other old
    · exact checked

end Desk

end Hoist
