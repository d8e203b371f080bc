import Hoist.Proofs.Check.Ends
import Hoist.Proofs.Check.Sound

/-!
Putting work off. What waits for a name hangs in the scope whose binding is read, or in the
outermost scope if nobody on the way outwards binds the name.

Main statement: putting a draft off is a move (`Check.Defers.move`), and afterwards the draft hangs
on the name (`Check.Defers.hangs`).
-/
namespace Hoist

namespace Scopes

/-- A draft waits for a name in the right place. -/
def Hangs (scopes : Scopes (Deferral Empty)) (id : DraftId) (scope : ScopeId) (name : String) :
    Prop :=
  (∃ owner binding, scopes.Reads scope name owner binding ∧
    ∃ waiter ∈ scopes.waiters owner name, waiter.work = .resume id name) ∨
  (∃ outer, scopes.Path (scope :: outer) ∧
    ∀ around ∈ scope :: outer, scopes.binding? around name = none) ∧
  ∃ position, ∃ waiter ∈ scopes.waiters 0 name,
    waiter.work = .hoisted 0 name position (.resume id name)

theorem Hangs.mono {scopes after : Scopes (Deferral Empty)} {id : DraftId} {scope : ScopeId}
    {name : String} (hangs : scopes.Hangs id scope name)
    (parents : ∀ id, after.parent? id = scopes.parent? id)
    (bindings : ∀ place name, after.binding? place name = scopes.binding? place name)
    (waiters : ∀ place, ∀ waiter ∈ scopes.waiters place name, waiter ∈ after.waiters place name) :
    after.Hangs id scope name := by
  rcases hangs with ⟨owner, binding, reads, waiter, mem, same⟩ |
    ⟨⟨outer, path, unbound⟩, position, waiter, mem, same⟩
  · exact .inl ⟨owner, binding, reads.mono parents bindings, waiter, waiters _ _ mem, same⟩
  · refine .inr ⟨⟨outer, path.mono fun id _ found => (parents id).trans found, ?_⟩,
      position, waiter, waiters _ _ mem, same⟩
    exact fun around mem => (bindings around name).trans (unbound around mem)

/-- Nobody stops waiting because somebody else starts. -/
theorem Hangs.await {scopes after : Scopes (Deferral Empty)} {id : DraftId}
    {scope place : ScopeId} {name other : String} {waiter : Waiter (Deferral Empty)}
    (hangs : scopes.Hangs id scope other) (awaited : scopes.Awaited after place name waiter) :
    after.Hangs id scope other :=
  hangs.mono awaited.parent awaited.bindings fun _ _ => Desk.mem_waiters_awaited awaited

end Scopes

namespace Check

variable {σ : Type}

/-- How the scopes change when a draft is put off. -/
inductive Defers (before after : Scopes (Deferral Empty)) (id : DraftId) (scope : ScopeId)
    (name : String) (declared : Option String) : Prop
  | bound {outer : List ScopeId} {owner : ScopeId} {position : Position} :
      before.Path (scope :: outer) → owner ∈ scope :: outer →
      (declared ≠ some name → ∃ binding, before.Reads scope name owner binding) →
      before.Awaited after owner name ⟨.resume id name, position⟩ →
      Defers before after id scope name declared
  | hoisted {outer : List ScopeId} {position : Position} :
      before.Path (scope :: outer) → (∀ around ∈ outer, before.binding? around name = none) →
      (declared ≠ some name → before.binding? scope name = none) →
      before.Awaited after 0 name ⟨.hoisted 0 name position (.resume id name), position⟩ →
      Defers before after id scope name declared

theorem lt_size_of_anchor {scopes : Scopes (Deferral Empty)} {scope : ScopeId} {name : String}
    {declared : Option String} {anchor : Anchor}
    (found : scopes.anchor scope name declared = .ok anchor) : scope < scopes.size := by
  by_cases own : declared = some name
  · simp only [Scopes.anchor, own, ↓reduceIte, bind_eq_ok, Scopes.parent, Scopes.get_eq_ok] at found
    obtain ⟨_, ⟨scope, here, _⟩, _⟩ := found
    exact Scopes.lt_size_of_get here
  · simp only [Scopes.anchor, own, ↓reduceIte, bind_eq_ok, pure_eq_ok, exists_eq_left'] at found
    obtain ⟨_, climbs, _⟩ := found
    exact Scopes.lt_size_of_climb climbs

theorem defers_of_ends {before after : Checker Empty σ} {id : DraftId} {scope : ScopeId}
    {name : String} {declared : Option String} {position : Position} {value : Unit}
    (ends : Ends (defer scope name declared (.resume id name) position) before value after)
    (rooted : before.scopes.Rooted) :
    Defers before.scopes after.scopes id scope name declared ∧
      ∃ journal, after = { before with scopes := after.scopes, journal } := by
  simp only [defer, ends_bind, ends_scopes, ends_ofFault, and_assoc, exists_and_left,
    exists_eq_left] at ends
  obtain ⟨anchor, found, ends⟩ := ends
  obtain ⟨outer, path⟩ := rooted scope (lt_size_of_anchor found)
  rcases path.anchor_cases name declared with ⟨owner, anchored, mem, reads⟩ | ⟨anchored, unbound, own⟩
  · obtain rfl := Except.ok.inj (anchored.symm.trans found)
    simp only [awaitAt, ends_await] at ends
    obtain ⟨changed, awaited, rfl⟩ := ends
    exact ⟨.bound path mem reads (Scopes.await_eq_ok awaited), _, rfl⟩
  · obtain rfl := Except.ok.inj (anchored.symm.trans found)
    simp only [awaitAt, ends_await] at ends
    obtain ⟨changed, awaited, rfl⟩ := ends
    exact ⟨.hoisted path unbound own (Scopes.await_eq_ok awaited), _, rfl⟩

namespace Defers

variable {s : Desk} {after : Scopes (Deferral Empty)} {id : DraftId} {scope : ScopeId}
  {name : String} {declared : Option String}

/-- A statement waits for a name of its own only if it declares it. -/
theorem move (defers : Defers s.scopes after id scope name declared)
    (own : declared = some name → s.key? (.draft id) = some (scope, name)) :
    s.Move { s with scopes := after } := by
  cases defers with
  | bound _ _ _ awaited => exact .await awaited ⟨id, .inl rfl⟩
  | @hoisted outer position path unbound free awaited =>
    refine .await awaited ⟨id, .inr ⟨position, rfl, rfl, ?_⟩⟩
    rcases List.mem_cons.1 path.zero_mem with first | outside
    · subst first
      by_cases declares : declared = some name
      · exact .inr (own declares)
      · exact .inl (free declares)
    · exact .inl (unbound 0 outside)

/-- Who waits is added somewhere. -/
theorem awaited (defers : Defers s.scopes after id scope name declared) :
    ∃ place waiter, s.scopes.Awaited after place name waiter := by
  cases defers with
  | bound _ _ _ awaited => exact ⟨_, _, awaited⟩
  | hoisted _ _ _ awaited => exact ⟨_, _, awaited⟩

theorem hangs (defers : Defers s.scopes after id scope name declared)
    (other : declared ≠ some name) : after.Hangs id scope name := by
  cases defers with
  | @bound _ owner position _ _ reads awaited =>
    obtain ⟨binding, reads⟩ := reads other
    refine .inl ⟨owner, binding, reads.mono awaited.parent awaited.bindings,
      ⟨.resume id name, position⟩, ?_, rfl⟩
    show _ ∈ after.waiters owner name
    simp [awaited.waiters]
  | @hoisted outer position path unbound free awaited =>
    refine .inr ⟨⟨outer, path.mono fun id _ found => (awaited.parent id).trans found, ?_⟩,
      position, ⟨.hoisted 0 name position (.resume id name), position⟩, ?_, rfl⟩
    · intro around mem
      rw [awaited.bindings]
      rcases List.mem_cons.1 mem with rfl | outside
      · exact free other
      · exact unbound around outside
    · show _ ∈ after.waiters 0 name
      simp [awaited.waiters]

end Defers

end Check

end Hoist
