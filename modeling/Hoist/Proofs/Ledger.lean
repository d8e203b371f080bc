import Mathlib
import Hoist.Proofs.Check.Operation

/-!
Who waits for a name, read off the history of the operations on the scopes. Operations may fail, and
come in any order.

A ledger keeps the registrations that nobody has answered yet, in the order in which they came. The
table in which a scope keeps its waiters is the one that they would build if they were the only ones
that ever came (`collect`); this is so because binding a name takes away all who wait for it and
leaves the others in their places.

Main statement: `Operation.waiters_logged`.
-/
namespace Hoist

/-! Ordered tables. -/

namespace Table

variable {α : Type}

theorem erase_insert_self (table : Table α) (name : String) (value : α) :
    (table.insert name value).erase name = table.erase name := by
  obtain ⟨entries⟩ := table
  simp only [insert, erase, mk.injEq]
  induction entries with
  | nil => simp [put]
  | cons entry rest ih =>
    by_cases same : entry.1 = name
    · simp [put, same]
    · rw [put, if_neg same, List.filter_cons, List.filter_cons, ih]

theorem erase_insert_of_ne {name other : String} (different : other ≠ name) (table : Table α)
    (value : α) : (table.insert other value).erase name = (table.erase name).insert other value := by
  obtain ⟨entries⟩ := table
  simp only [insert, erase, mk.injEq]
  induction entries with
  | nil => simp [put, different]
  | cons entry rest ih =>
    obtain ⟨key, old⟩ := entry
    by_cases here : key = other
    · subst here
      simp [put, different]
    · rw [put, if_neg here, List.filter_cons, List.filter_cons, ih]
      split
      · rw [put, if_neg here]
      · rfl

end Table

/-! Ledgers. -/

/-- A registration, with its place in the history. -/
structure Registration (κ : Type) where
  number : Nat
  scope : ScopeId
  name : String
  waiter : Waiter (Deferral κ)

variable {κ : Type}

/-- The table that registrations build in an empty scope. -/
def collect (registrations : List (Registration κ)) : Table (List (Waiter (Deferral κ))) :=
  registrations.foldl (fun table registration =>
    table.insert registration.name
      ((table.find? registration.name).getD [] ++ [registration.waiter])) .empty

theorem collect_append (registrations : List (Registration κ)) (last : Registration κ) :
    collect (registrations ++ [last]) =
      (collect registrations).insert last.name
        (((collect registrations).find? last.name).getD [] ++ [last.waiter]) := by
  simp [collect]

theorem find?_collect (registrations : List (Registration κ)) (name : String) :
    ((collect registrations).find? name).getD [] =
      (registrations.filter (·.name = name)).map (·.waiter) := by
  induction registrations using List.reverseRecOn with
  | nil => rfl
  | append_singleton earlier last ih =>
    rw [collect_append, Table.find?_insert]
    by_cases same : last.name = name
    · subst same
      simp [ih]
    · simp [same, ih]

/-- Who waits for other names stays in the same order. -/
theorem erase_collect (registrations : List (Registration κ)) (name : String) :
    (collect registrations).erase name = collect (registrations.filter (·.name ≠ name)) := by
  induction registrations using List.reverseRecOn with
  | nil => rfl
  | append_singleton earlier last ih =>
    rw [collect_append, List.filter_append]
    by_cases same : last.name = name
    · subst same
      simpa [Table.erase_insert_self] using ih
    · have kept : [last].filter (·.name ≠ name) = [last] := by simp [same]
      rw [Table.erase_insert_of_ne same, kept, collect_append, ← ih, Table.find?_erase,
        if_neg (Ne.symm same)]

/-- The name of the first registration comes first in the table, and its first waiter is the one of
that registration. -/
theorem entries_collect (first : Registration κ) (rest : List (Registration κ)) :
    (collect (first :: rest)).entries =
      (first.name, first.waiter :: (rest.filter (·.name = first.name)).map (·.waiter)) ::
        (collect (rest.filter (·.name ≠ first.name))).entries := by
  induction rest using List.reverseRecOn with
  | nil => rfl
  | append_singleton earlier last ih =>
    rw [← List.cons_append, collect_append, Table.insert, ih, find?_collect]
    by_cases same : first.name = last.name
    · simp [Table.put, same]
    · have other : last.name ≠ first.name := Ne.symm same
      have kept : [last].filter (·.name ≠ first.name) = [last] := by simp [other]
      have own : (earlier.filter (·.name ≠ first.name)).filter (·.name = last.name) =
          earlier.filter (·.name = last.name) := by
        rw [List.filter_filter]
        refine List.filter_congr fun registration _ => ?_
        by_cases named : registration.name = last.name <;> simp [named, other]
      rw [Table.put, if_neg same, List.filter_append, List.filter_append, kept, collect_append,
        find?_collect, own, Table.insert]
      simp [same, other]

/-- Whoever came first among those who wait in a scope is reported for it. -/
theorem firstWaiting?_collect {scope : Scope (Deferral κ)} {registrations : List (Registration κ)}
    (table : scope.waiting = collect registrations) :
    scope.firstWaiting? = registrations.head?.map fun first => (first.name, first.waiter.position) := by
  cases registrations with
  | nil => simp [Scope.firstWaiting?, table, collect, Table.empty]
  | cons first rest => simp [Scope.firstWaiting?, table, entries_collect, List.findSome?_cons]

/-! Histories. -/

namespace History

/-- The operation has bound the name in the scope. -/
def Answers (entry : Operation κ × Except Halt (List (Deferral κ))) (scope : ScopeId)
    (name : String) : Prop :=
  (∃ handed, entry.2 = .ok handed) ∧ entry.1.binds = some (scope, name)

/-- The operation has let the waiter wait for the name in the scope. -/
def Registers (entry : Operation κ × Except Halt (List (Deferral κ))) (scope : ScopeId)
    (name : String) (waiter : Waiter (Deferral κ)) : Prop :=
  ∃ handed, entry = (.await scope name waiter.work waiter.position, .ok handed)

/-- The operation of this number has registered the waiter, and nobody has bound the name in the
scope since. -/
def Waits (past : History κ) (number : Nat) (scope : ScopeId) (name : String)
    (waiter : Waiter (Deferral κ)) : Prop :=
  (∃ entry, past[number]? = some entry ∧ Registers entry scope name waiter) ∧
    ∀ later > number, ∀ entry, past[later]? = some entry → ¬Answers entry scope name

theorem waits_append {past : History κ} {last : Operation κ × Except Halt (List (Deferral κ))}
    {number : Nat} {scope : ScopeId} {name : String} {waiter : Waiter (Deferral κ)} :
    Waits (past ++ [last]) number scope name waiter ↔
      Waits past number scope name waiter ∧ ¬Answers last scope name ∨
        number = past.length ∧ Registers last scope name waiter := by
  have old {number : Nat} (before : number < past.length) :
      (past ++ [last])[number]? = past[number]? := List.getElem?_append_left before
  have new : (past ++ [last])[past.length]? = some last := by simp
  constructor
  · rintro ⟨⟨entry, found, registers⟩, unanswered⟩
    rcases Nat.lt_or_ge number past.length with before | after
    · refine .inl ⟨⟨⟨entry, old before ▸ found, registers⟩, fun later more entry found => ?_⟩,
        unanswered past.length before last new⟩
      exact unanswered later more entry (old (List.getElem?_eq_some_iff.1 found).1 ▸ found)
    · have inside := (List.getElem?_eq_some_iff.1 found).1
      obtain rfl : number = past.length := by simp at inside; omega
      obtain rfl : last = entry := by simpa using found
      exact .inr ⟨rfl, registers⟩
  · rintro (⟨⟨⟨entry, found, registers⟩, unanswered⟩, open_⟩ | ⟨rfl, registers⟩)
    · have before := (List.getElem?_eq_some_iff.1 found).1
      refine ⟨⟨entry, old before ▸ found, registers⟩, fun later more entry found => ?_⟩
      rcases Nat.lt_or_ge later past.length with earlier | after
      · exact unanswered later more entry (old earlier ▸ found)
      · have inside := (List.getElem?_eq_some_iff.1 found).1
        obtain rfl : later = past.length := by simp at inside; omega
        obtain rfl : last = entry := by simpa using found
        exact open_
    · refine ⟨⟨last, new, registers⟩, fun later more entry found => ?_⟩
      have inside := (List.getElem?_eq_some_iff.1 found).1
      simp at inside
      omega

/-- Two waiters with one number are the same one. -/
theorem Waits.unique {past : History κ} {number : Nat} {scope scope' : ScopeId}
    {name name' : String} {waiter waiter' : Waiter (Deferral κ)}
    (waits : Waits past number scope name waiter) (again : Waits past number scope' name' waiter') :
    scope = scope' ∧ name = name' ∧ waiter = waiter' := by
  obtain ⟨⟨entry, found, handed, rfl⟩, -⟩ := waits
  obtain ⟨⟨other, found', handed', rfl⟩, -⟩ := again
  obtain ⟨work, position⟩ := waiter
  obtain ⟨work', position'⟩ := waiter'
  obtain ⟨⟨rfl, rfl, rfl, rfl⟩, -⟩ : (scope = scope' ∧ name = name' ∧ work = work' ∧
      position = position') ∧ handed = handed' := by simpa using found.symm.trans found'
  exact ⟨rfl, rfl, rfl⟩

/-! The ledger of a history. -/

/-- What an operation does to the ledger. -/
def enter (ledger : List (Registration κ)) (number : Nat) :
    Operation κ × Except Halt (List (Deferral κ)) → List (Registration κ)
  | (_, .error _) => ledger
  | (.await scope name work position, .ok _) => ledger ++ [⟨number, scope, name, ⟨work, position⟩⟩]
  | (operation, .ok _) =>
    ledger.filter fun registration =>
      operation.binds ≠ some (registration.scope, registration.name)

def ledger (past : History κ) : List (Registration κ) :=
  past.zipIdx.foldl (fun ledger entry => enter ledger entry.2 entry.1) []

theorem ledger_append (past : History κ) (last : Operation κ × Except Halt (List (Deferral κ))) :
    ledger (past ++ [last]) = enter (ledger past) past.length last := by
  simp [ledger, List.zipIdx_append]

theorem mem_enter {registrations : List (Registration κ)} {number : Nat}
    {entry : Operation κ × Except Halt (List (Deferral κ))} {registration : Registration κ} :
    registration ∈ enter registrations number entry ↔
      registration ∈ registrations ∧ ¬Answers entry registration.scope registration.name ∨
        registration.number = number ∧
          Registers entry registration.scope registration.name registration.waiter := by
  obtain ⟨operation, outcome⟩ := entry
  obtain ⟨place, scope, name, waiter⟩ := registration
  cases outcome with
  | error halt => simp [enter, Answers, Registers]
  | ok handed =>
    cases operation with
    | await id awaited work position =>
      obtain ⟨work', position'⟩ := waiter
      simp [enter, Answers, Registers, Operation.binds, eq_comm]
    | create | define | update | setResult | awaitResult =>
      simp [enter, Answers, Registers]

theorem mem_ledger {past : History κ} {registration : Registration κ} :
    registration ∈ ledger past ↔
      Waits past registration.number registration.scope registration.name registration.waiter := by
  induction past using List.reverseRecOn with
  | nil => simp [ledger, Waits]
  | append_singleton earlier last ih => rw [ledger_append, mem_enter, waits_append, ih]

theorem Waits.lt {past : History κ} {number : Nat} {scope : ScopeId} {name : String}
    {waiter : Waiter (Deferral κ)} (waits : Waits past number scope name waiter) :
    number < past.length := by
  obtain ⟨⟨entry, found, -⟩, -⟩ := waits
  exact (List.getElem?_eq_some_iff.1 found).1

/-- Registrations come in the ledger in the order of their numbers. -/
theorem pairwise_ledger (past : History κ) :
    (ledger past).Pairwise fun earlier later => earlier.number < later.number := by
  induction past using List.reverseRecOn with
  | nil => simp [ledger]
  | append_singleton earlier last ih =>
    rw [ledger_append]
    obtain ⟨operation, outcome⟩ := last
    cases outcome with
    | error halt => exact ih
    | ok handed =>
      cases operation with
      | await id awaited work position =>
        refine List.pairwise_append.2 ⟨ih, List.pairwise_singleton _ _, fun old mem new same => ?_⟩
        obtain rfl := List.mem_singleton.1 same
        exact (mem_ledger.1 mem).lt
      | create | define | update | setResult | awaitResult => exact ih.filter _

/-- The registrations that an operation other than `await` leaves in the ledger. -/
theorem enter_ok {operation : Operation κ} (registrations : List (Registration κ)) (number : Nat)
    (handed : List (Deferral κ))
    (other : ∀ id name work position, operation ≠ .await id name work position) :
    enter registrations number (operation, .ok handed) = registrations.filter fun registration =>
      operation.binds ≠ some (registration.scope, registration.name) := by
  cases operation with
  | await id name work position => exact absurd rfl (other id name work position)
  | create | define | update | setResult | awaitResult => rfl

theorem enter_await (registrations : List (Registration κ)) (number : Nat) (id : ScopeId)
    (name : String) (work : Deferral κ) (position : Position) (handed : List (Deferral κ)) :
    enter registrations number (.await id name work position, .ok handed) =
      registrations ++ [⟨number, id, name, ⟨work, position⟩⟩] :=
  rfl

/-- Every scope has the table that the registrations for it build. -/
structure Tallies (registrations : List (Registration κ)) (scopes : Scopes (Deferral κ)) : Prop where
  inside : ∀ registration ∈ registrations, registration.scope < scopes.size
  tables : ∀ id scope, scopes.all[id]? = some scope →
    scope.waiting = collect (registrations.filter (·.scope = id))

/-- A scope whose table was changed takes the place of another one. -/
theorem Tallies.set {registrations later : List (Registration κ)} {scopes : Scopes (Deferral κ)}
    {id : ScopeId} {scope changed : Scope (Deferral κ)} (tallies : Tallies registrations scopes)
    (here : scopes.all[id]? = some scope)
    (inside : ∀ registration ∈ later, registration ∈ registrations ∨ registration.scope = id)
    (own : changed.waiting = collect (later.filter (·.scope = id)))
    (others : ∀ other ≠ id, later.filter (·.scope = other) = registrations.filter (·.scope = other)) :
    Tallies later (scopes.set id changed) where
  inside registration mem := by
    rw [Scopes.size_set]
    rcases inside registration mem with old | rfl
    · exact tallies.inside registration old
    · exact Scopes.lt_size_of_get here
  tables other found there := by
    rw [Scopes.all_set (Scopes.lt_size_of_get here)] at there
    split at there
    case isTrue same =>
      subst same
      rw [← Option.some.inj there, own]
    case isFalse different =>
      rw [others other (Ne.symm different)]
      exact tallies.tables other found there

theorem Tallies.step {registrations : List (Registration κ)} {scopes after : Scopes (Deferral κ)}
    {operation : Operation κ} {outcome : Except Halt (List (Deferral κ))}
    (tallies : Tallies registrations scopes) (effect : operation.Effect scopes outcome after)
    (number : Nat) : Tallies (enter registrations number (operation, outcome)) after := by
  cases effect with
  | failed => exact tallies
  | created parent kind =>
    rw [enter_ok _ _ _ (by simp), List.filter_eq_self.2 (by simp [Operation.binds])]
    refine ⟨fun registration mem => ?_, fun id scope there => ?_⟩
    · rw [Scopes.size_create]
      exact Nat.lt_succ_of_lt (tallies.inside registration mem)
    · rw [Scopes.all_create] at there
      split at there
      case isTrue same =>
        -- Nobody waits in a scope that is not there yet.
        have nobody : registrations.filter (·.scope = id) = [] := by
          refine List.filter_eq_nil_iff.2 fun registration mem => ?_
          have := tallies.inside registration mem
          simp [same, Nat.ne_of_lt this]
        rw [nobody, ← Option.some.inj there]
        rfl
      case isFalse => exact tallies.tables id scope there
  | @bound _ id scope binding binds here =>
    rw [enter_ok _ _ _ (by rintro _ _ _ _ rfl; simp [Operation.binds] at binds), binds]
    refine tallies.set here (fun _ mem => .inl (List.mem_of_mem_filter mem)) ?_ fun other different => ?_
    · have kept : (scope.bind binding).2.waiting = scope.waiting.erase binding.name := rfl
      rw [kept, tallies.tables id scope here, erase_collect, List.filter_filter, List.filter_filter]
      refine congrArg collect (List.filter_congr fun registration _ => ?_)
      by_cases same : registration.scope = id <;> simp [same, eq_comm]
    · rw [List.filter_filter]
      refine List.filter_congr fun registration _ => ?_
      by_cases same : registration.scope = other <;> simp [same, different.symm]
  | @awaited id scope name work position here =>
    rw [enter_await]
    refine tallies.set here (fun registration mem => ?_) ?_ fun other different => ?_
    · rcases List.mem_append.1 mem with old | new
      · exact .inl old
      · exact .inr (by rw [List.mem_singleton.1 new])
    · have added : (scope.await name ⟨work, position⟩).waiting =
          scope.waiting.insert name ((scope.waiting.find? name).getD [] ++ [⟨work, position⟩]) := rfl
      rw [added, tallies.tables id scope here, List.filter_append]
      simp [collect_append]
    · rw [List.filter_append]
      simp [different.symm]
  | @changed _ id scope handed role binds other _ _ here =>
    rw [enter_ok _ _ _ other, List.filter_eq_self.2 (by simp [binds])]
    exact tallies.set here (fun _ => .inl) (tallies.tables id scope here) fun _ _ => rfl

theorem Tallies.waiters_eq {registrations : List (Registration κ)} {scopes : Scopes (Deferral κ)}
    (tallies : Tallies registrations scopes) (scope : ScopeId) (name : String) :
    scopes.waiters scope name =
      (registrations.filter fun registration =>
        registration.scope = scope ∧ registration.name = name).map (·.waiter) := by
  have split : (registrations.filter fun registration =>
      registration.scope = scope ∧ registration.name = name) =
        (registrations.filter (·.scope = scope)).filter (·.name = name) := by
    simp [List.filter_filter, Bool.and_comm]
  rw [split]
  cases here : scopes.all[scope]? with
  | some found =>
    simp only [Scopes.waiters, here, Option.map_some, Option.getD_some, Scope.waitingOn]
    rw [tallies.tables scope found here, find?_collect]
  | none =>
    have nobody : registrations.filter (·.scope = scope) = [] := by
      refine List.filter_eq_nil_iff.2 fun registration mem => ?_
      have outside : scopes.size ≤ scope := List.getElem?_eq_none_iff.1 here
      simpa using Nat.ne_of_lt (Nat.lt_of_lt_of_le (tallies.inside registration mem) outside)
    simp [Scopes.waiters, here, nobody]

/-- They are all who wait for the name in the scope, in the order in which they came. -/
def Listed (past : History κ) (scope : ScopeId) (name : String)
    (waiters : List (Waiter (Deferral κ))) : Prop :=
  ∃ numbers : List Nat, numbers.Pairwise (· < ·) ∧
    (∀ number, number ∈ numbers ↔ ∃ waiter, Waits past number scope name waiter) ∧
    List.Forall₂ (fun number waiter => Waits past number scope name waiter) numbers waiters

/-- Of all who wait in the first scope where anybody does, the one who came first waits for this
name and is to be reported here. -/
def Earliest (past : History κ) (name : String) (position : Position) : Prop :=
  ∃ number scope waiter, Waits past number scope name waiter ∧ waiter.position = position ∧
    ∀ number' scope' name' waiter', Waits past number' scope' name' waiter' →
      scope < scope' ∨ scope = scope' ∧ number ≤ number'

theorem Earliest.unique {past : History κ} {name name' : String} {position position' : Position}
    (earliest : Earliest past name position) (again : Earliest past name' position') :
    name = name' ∧ position = position' := by
  obtain ⟨number, scope, waiter, waits, rfl, least⟩ := earliest
  obtain ⟨number', scope', waiter', waits', rfl, least'⟩ := again
  rcases least _ _ _ _ waits' with below | ⟨rfl, before⟩
  · rcases least' _ _ _ _ waits with above | ⟨rfl, -⟩
    · exact absurd below (Nat.lt_asymm above)
    · exact absurd below (Nat.lt_irrefl _)
  · have after : number' ≤ number := by
      rcases least' _ _ _ _ waits with above | ⟨-, after⟩
      · exact absurd above (Nat.lt_irrefl _)
      · exact after
    obtain rfl := Nat.le_antisymm before after
    obtain ⟨-, rfl, rfl⟩ := waits.unique waits'
    exact ⟨rfl, rfl⟩

theorem Tallies.listed {past : History κ} {scopes : Scopes (Deferral κ)}
    (tallies : Tallies (ledger past) scopes) (scope : ScopeId) (name : String) :
    Listed past scope name (scopes.waiters scope name) := by
  rw [tallies.waiters_eq]
  refine ⟨((ledger past).filter fun registration =>
    registration.scope = scope ∧ registration.name = name).map (·.number), ?_, fun number => ?_, ?_⟩
  · exact List.pairwise_map.2 ((pairwise_ledger past).filter _)
  · simp only [List.mem_map, List.mem_filter, decide_eq_true_eq]
    constructor
    · rintro ⟨registration, ⟨mem, rfl, rfl⟩, rfl⟩
      exact ⟨registration.waiter, mem_ledger.1 mem⟩
    · rintro ⟨waiter, waits⟩
      exact ⟨⟨number, scope, name, waiter⟩, ⟨mem_ledger.2 waits, rfl, rfl⟩, rfl⟩
  · rw [List.forall₂_map_left_iff, List.forall₂_map_right_iff, List.forall₂_same]
    intro registration mem
    simp only [List.mem_filter, decide_eq_true_eq] at mem
    obtain ⟨mem, rfl, rfl⟩ := mem
    exact mem_ledger.1 mem

/-- What the ledger of a history says of a scope. -/
theorem Tallies.head?_eq {past : History κ} {scopes : Scopes (Deferral κ)}
    (tallies : Tallies (ledger past) scopes) {id : ScopeId} {scope : Scope (Deferral κ)}
    (here : scopes.all[id]? = some scope) :
    scope.firstWaiting? = ((ledger past).find? (·.scope = id)).map fun first =>
      (first.name, first.waiter.position) := by
  rw [firstWaiting?_collect (tallies.tables id scope here), List.head?_filter]

theorem Tallies.scope_ne {past : History κ} {scopes : Scopes (Deferral κ)}
    (tallies : Tallies (ledger past) scopes) {id : ScopeId} {scope : Scope (Deferral κ)}
    (here : scopes.all[id]? = some scope) (idle : scope.firstWaiting? = none) {number : Nat}
    {other : ScopeId} {name : String} {waiter : Waiter (Deferral κ)}
    (waits : Waits past number other name waiter) : other ≠ id := by
  rw [tallies.head?_eq here, Option.map_eq_none_iff, List.find?_eq_none] at idle
  simpa using idle ⟨number, other, name, waiter⟩ (mem_ledger.2 waits)

theorem Tallies.firstWaiting?_eq_none {past : History κ} {scopes : Scopes (Deferral κ)}
    (tallies : Tallies (ledger past) scopes) :
    scopes.firstWaiting? = none ↔ ∀ number scope name waiter, ¬Waits past number scope name waiter := by
  rw [Scopes.firstWaiting?, List.findSome?_eq_none_iff]
  constructor
  · intro nobody number scope name waiter waits
    obtain ⟨found, here⟩ :=
      Scopes.exists_of_lt (tallies.inside ⟨number, scope, name, waiter⟩ (mem_ledger.2 waits))
    exact tallies.scope_ne here (nobody found (List.mem_of_getElem? here)) waits rfl
  · intro nobody found mem
    obtain ⟨id, here⟩ := List.mem_iff_getElem?.1 mem
    rw [tallies.head?_eq here, Option.map_eq_none_iff, List.find?_eq_none]
    exact fun registration waiting => (nobody _ _ _ _ (mem_ledger.1 waiting)).elim

theorem Tallies.earliest {past : History κ} {scopes : Scopes (Deferral κ)} {name : String}
    {position : Position} (tallies : Tallies (ledger past) scopes)
    (first : scopes.firstWaiting? = some (name, position)) : Earliest past name position := by
  obtain ⟨before, scope, after, all, found, idle⟩ := List.findSome?_eq_some_iff.1 first
  have here : scopes.all[before.length]? = some scope := by simp [all]
  rw [tallies.head?_eq here, Option.map_eq_some_iff] at found
  obtain ⟨registration, found, same⟩ := found
  obtain ⟨rfl, rfl⟩ := Prod.mk.inj same
  have waits := mem_ledger.1 (List.mem_of_find?_eq_some found)
  obtain ⟨own, earlier, later, split, others⟩ := List.find?_eq_some_iff_append.1 found
  simp only [decide_eq_true_eq, Bool.not_eq_true', decide_eq_false_iff_not] at own others
  rw [own] at waits
  refine ⟨registration.number, before.length, registration.waiter, waits, rfl, ?_⟩
  intro number id other waiter rival
  rcases Nat.lt_trichotomy id before.length with lower | rfl | higher
  · -- The scopes before are those where nobody waits.
    have there : scopes.all[id]? = some before[id] := by
      rw [all, List.getElem?_append_left lower, List.getElem?_eq_getElem lower]
    exact absurd rfl (tallies.scope_ne there (idle _ (List.getElem_mem lower)) rival)
  · refine .inr ⟨rfl, ?_⟩
    have mem : (⟨number, _, other, waiter⟩ : Registration κ) ∈ ledger past := mem_ledger.2 rival
    have order := pairwise_ledger past
    rw [split] at mem order
    rcases List.mem_append.1 mem with old | new
    · exact absurd rfl (others _ old)
    · rcases List.mem_cons.1 new with same | new
      · exact Nat.le_of_eq (congrArg Registration.number same).symm
      · have sorted := List.pairwise_cons.1 (List.pairwise_append.1 order).2.1
        exact Nat.le_of_lt (sorted.1 _ new)
  · exact .inl higher

theorem Tallies.firstWaiting?_eq_some {past : History κ} {scopes : Scopes (Deferral κ)}
    (tallies : Tallies (ledger past) scopes) (name : String) (position : Position) :
    scopes.firstWaiting? = some (name, position) ↔ Earliest past name position := by
  refine ⟨tallies.earliest, fun earliest => ?_⟩
  cases first : scopes.firstWaiting? with
  | none =>
    obtain ⟨number, scope, waiter, waits, -⟩ := earliest
    exact absurd waits (tallies.firstWaiting?_eq_none.1 first number scope name waiter)
  | some found =>
    obtain ⟨rfl, rfl⟩ := earliest.unique (tallies.earliest first)
    rfl

/-! Who waits for a result. -/

/-- Whoever waits for a result was registered for that. -/
def Credits (past : History κ) (scopes : Scopes (Deferral κ)) : Prop :=
  ∀ body, ∀ work ∈ scopes.resultWaiters body,
    ∃ scope position handed, (.awaitResult scope work position, .ok handed) ∈ past

theorem Credits.append {past : History κ} {scopes after : Scopes (Deferral κ)}
    {operation : Operation κ} {outcome : Except Halt (List (Deferral κ))}
    (credits : Credits past scopes) (effect : operation.Effect scopes outcome after) :
    Credits (past ++ [(operation, outcome)]) after := by
  have older (body : ScopeId) {work : Deferral κ} (mem : work ∈ scopes.resultWaiters body) :
      ∃ scope position handed,
        (.awaitResult scope work position, .ok handed) ∈ past ++ [(operation, outcome)] := by
    obtain ⟨scope, position, handed, registered⟩ := credits body work mem
    exact ⟨scope, position, handed, List.mem_append_left _ registered⟩
  intro body work mem
  cases effect with
  | failed => exact older body mem
  | created parent kind =>
    rw [Scopes.resultWaiters, Scopes.all_create] at mem
    split at mem
    · cases kind <;> simp [ScopeKind.role, Role.waiting] at mem
    · exact older body mem
  | @bound _ id scope binding binds here =>
    rw [(Scopes.bound_bind binding here).resultWaiters] at mem
    exact older body mem
  | @awaited id scope name waiting position here =>
    have awaited : scopes.await id name ⟨waiting, position⟩ =
        .ok (scopes.set id (scope.await name ⟨waiting, position⟩)) := by
      simp [Scopes.await, Scopes.get_eq_ok.2 here]
    rw [(Scopes.await_eq_ok awaited).resultWaiters] at mem
    exact older body mem
  | @changed _ id scope handed role binds other old new here =>
    rw [Scopes.resultWaiters, Scopes.all_set (Scopes.lt_size_of_get here)] at mem
    split at mem
    case isTrue same =>
      rcases new work mem with kept | ⟨at_, position, rfl⟩
      · exact older id (by simpa [Scopes.resultWaiters, here] using kept)
      · exact ⟨at_, position, handed, by simp⟩
    case isFalse => exact older body mem

/-! Runs. -/

structure Logs (past : History κ) (scopes : Scopes (Deferral κ)) : Prop where
  tallies : Tallies (ledger past) scopes
  credits : Credits past scopes

theorem Logs.append {past : History κ} {scopes after : Scopes (Deferral κ)}
    {operation : Operation κ} {outcome : Except Halt (List (Deferral κ))} (logs : Logs past scopes)
    (effect : operation.Effect scopes outcome after) :
    Logs (past ++ [(operation, outcome)]) after where
  tallies := by
    rw [ledger_append]
    exact logs.tallies.step effect past.length
  credits := logs.credits.append effect

theorem logs_empty : Logs ([] : History κ) .empty where
  tallies := ⟨by simp [ledger], by simp [Scopes.empty]⟩
  credits := by simp [Credits, Scopes.resultWaiters, Scopes.empty]

theorem logs_carryOutAll {σ : Type} (operations : List (Operation κ)) (s : Checker κ σ) :
    Logs (Operation.carryOutAll operations { s with scopes := .empty }).1
      (Operation.carryOutAll operations { s with scopes := .empty }).2.scopes := by
  induction operations using List.reverseRecOn with
  | nil => exact logs_empty
  | append_singleton earlier last ih =>
    rw [Operation.carryOutAll_append]
    exact ih.append (Operation.effect_of_carryOut rfl)

/-- What an operation hands back and leaves behind, after this history. If it binds a name, all who
wait for the name are handed back; nobody who waits for a name is handed back otherwise. If it fails,
nothing changes. -/
def HandsOut (past : History κ) (scopes : Scopes (Deferral κ)) (operation : Operation κ) :
    Except Halt (List (Deferral κ)) → Scopes (Deferral κ) → Prop
  | .error _, after => after = scopes
  | .ok handed, _ =>
    match operation.binds with
    | some (scope, name) =>
      ∃ waiters, Listed past scope name waiters ∧ handed = waiters.map (·.work)
    | none => ∀ work ∈ handed,
      ∃ scope position earlier, (.awaitResult scope work position, .ok earlier) ∈ past

theorem Logs.handsOut {past : History κ} {scopes after : Scopes (Deferral κ)}
    {operation : Operation κ} {outcome : Except Halt (List (Deferral κ))} (logs : Logs past scopes)
    (effect : operation.Effect scopes outcome after) :
    HandsOut past scopes operation outcome after := by
  cases effect with
  | failed => exact rfl
  | created | awaited => simp [HandsOut, Operation.binds]
  | @bound _ id scope binding binds here =>
    simp only [HandsOut, binds]
    exact ⟨_, logs.tallies.listed id binding.name, (Scopes.bound_bind binding here).work⟩
  | @changed _ id scope handed role binds other old new here =>
    simp only [HandsOut, binds]
    intro work mem
    exact logs.credits id work (by simpa [Scopes.resultWaiters, here] using old work mem)

end History

open History in
/-- After any operations that began without scopes, whether they failed or not, the history says who
waits for a name and in which order, and who is reported; and it says what any operation that comes
next hands back. -/
theorem Operation.waiters_logged {σ : Type} (s : Checker κ σ) (operations : List (Operation κ)) :
    let ran := carryOutAll operations { s with scopes := .empty }
    (∀ scope name, Listed ran.1 scope name (ran.2.scopes.waiters scope name)) ∧
      (ran.2.scopes.firstWaiting? = none ↔
        ∀ number scope name waiter, ¬Waits ran.1 number scope name waiter) ∧
      (∀ name position,
        ran.2.scopes.firstWaiting? = some (name, position) ↔ Earliest ran.1 name position) ∧
      ∀ next : Operation κ, HandsOut ran.1 ran.2.scopes next (next.carryOut.run ran.2).1
        (next.carryOut.run ran.2).2.scopes := by
  intro ran
  have logs : Logs ran.1 ran.2.scopes := logs_carryOutAll operations s
  refine ⟨logs.tallies.listed, logs.tallies.firstWaiting?_eq_none,
    logs.tallies.firstWaiting?_eq_some, fun next => ?_⟩
  exact logs.handsOut (effect_of_carryOut rfl)

end Hoist
