import Hoist.Proofs.Check.Move

/-!
How a desk evolves while a file is checked. Scopes and names only come, known types stay, and
what stands in the slot of a symbol stays or is supplied by a binding on the way outwards.

Main statement: every move lets a desk evolve (`Desk.Move.evolves`).
-/
namespace Hoist

/-- A binding that is bound again: known types stay, and functions stay functions. -/
structure Binding.Settles (before after : Binding) : Prop where
  constant : after.constant = before.constant
  known : before.type.isConcrete = true → after.type = before.type
  function : before.type.isFunction = true → after.type.isFunction = true

theorem Binding.Settles.refl (binding : Binding) : binding.Settles binding :=
  ⟨rfl, fun _ => rfl, id⟩

theorem Binding.Settles.trans {a b c : Binding} (first : a.Settles b) (second : b.Settles c) :
    a.Settles c where
  constant := second.constant.trans first.constant
  known concrete := by
    have same := first.known concrete
    rw [second.known (same ▸ concrete), same]
  function isFunction := second.function (first.function isFunction)

theorem exists_of_forall₂ {α β : Type} {R : α → β → Prop} {before : List α} {after : List β}
    (related : List.Forall₂ R before after) {b : β} (mem : b ∈ after) :
    ∃ a ∈ before, R a b := by
  induction related with
  | nil => simp at mem
  | cons first _ ih =>
    rcases List.mem_cons.1 mem with rfl | later
    · exact ⟨_, List.mem_cons_self, first⟩
    · obtain ⟨a, mem, holds⟩ := ih later
      exact ⟨a, List.mem_cons_of_mem _ mem, holds⟩

theorem forall₂_trans {α β γ : Type} {R : α → β → Prop} {S : β → γ → Prop} {T : α → γ → Prop}
    {a : List α} {b : List β} {c : List γ} (first : List.Forall₂ R a b)
    (second : List.Forall₂ S b c) (each : ∀ x y z, R x y → S y z → T x z) : List.Forall₂ T a c := by
  induction first generalizing c with
  | nil =>
    cases second
    exact .nil
  | cons head _ ih =>
    cases second with
    | cons next rest => exact .cons (each _ _ _ head next) (ih rest)

namespace Desk

/-- A binding on the way outwards supplies a type for a name; in the desk `s`, nobody nearer bound
that name. -/
def Supplies (s t : Desk) (scope : ScopeId) (name : String) (type : Ty) : Prop :=
  ∃ outer near owner far binding, t.scopes.Path (scope :: outer) ∧
    scope :: outer = near ++ owner :: far ∧
    (∀ nearer ∈ near, s.scopes.binding? nearer name = none) ∧
    t.scopes.binding? owner name = some binding ∧ binding.type = type

/-- What becomes of a symbol of a draft. The name that a draft declares is never supplied by the
draft itself. -/
def Fills (s t : Desk) (d : Draft) (before after : String × Ty) : Prop :=
  after.1 = before.1 ∧ (after.2 = before.2 ∨
    before.2.isConcrete = false ∧ after.2.isConcrete = true ∧
      d.work.declares ≠ some before.1 ∧ s.Supplies t d.scope before.1 after.2)

structure Redrafts (s t : Desk) (before after : Draft) : Prop where
  scope : after.scope = before.scope
  head : after.work.head = before.work.head
  target : List.Forall₂ (s.Fills t before) before.work.targetSymbols after.work.targetSymbols
  value : List.Forall₂ (s.Fills t before) before.work.valueSymbols after.work.valueSymbols

structure Evolves (s t : Desk) : Prop where
  parent : ∀ id parent, s.scopes.parent? id = some parent → t.scopes.parent? id = some parent
  kind : ∀ id kind, s.scopes.kind? id = some kind → t.scopes.kind? id = some kind
  binding : ∀ scope name before, s.scopes.binding? scope name = some before →
    ∃ after, t.scopes.binding? scope name = some after ∧ before.Settles after
  draft : ∀ (id : DraftId) before, s.drafts[id]? = some before →
    ∃ after, t.drafts[id]? = some after ∧ s.Redrafts t before after
  head : ∀ (id : SignatureId) before, s.signatures[id]? = some before →
    ∃ after, t.signatures[id]? = some after ∧ after.head = before.head
  guarded : ∀ id name, s.Guarded id name → t.Guarded id name

theorem Work.declares_of_head {before after : Work} (same : after.head = before.head) :
    after.declares = before.declares := by
  cases before <;> cases after <;> simp_all [Work.head, Work.declares]

theorem Fills.refl (s t : Desk) (d : Draft) (symbol : String × Ty) : s.Fills t d symbol symbol :=
  ⟨rfl, .inl rfl⟩

theorem Redrafts.refl (s t : Desk) (d : Draft) : s.Redrafts t d d :=
  ⟨rfl, rfl, List.forall₂_same.2 fun symbol _ => .refl s t d symbol,
    List.forall₂_same.2 fun symbol _ => .refl s t d symbol⟩

theorem Evolves.refl (s : Desk) : Evolves s s :=
  ⟨fun _ _ => id, fun _ _ => id, fun _ _ binding bound => ⟨binding, bound, .refl binding⟩,
    fun _ d found => ⟨d, found, .refl s s d⟩, fun _ h found => ⟨h, found, rfl⟩, fun _ _ => id⟩

theorem Evolves.unbound {s t : Desk} (evolves : Evolves s t) {scope : ScopeId} {name : String}
    (unbound : t.scopes.binding? scope name = none) : s.scopes.binding? scope name = none := by
  cases bound : s.scopes.binding? scope name with
  | none => rfl
  | some binding =>
    obtain ⟨after, found, _⟩ := evolves.binding _ _ _ bound
    simp [unbound] at found

/-- What was supplied with a known type is still there. -/
theorem Supplies.later {s m t : Desk} (evolves : Evolves m t) {scope : ScopeId} {name : String}
    {type : Ty} (concrete : type.isConcrete = true) (supplies : s.Supplies m scope name type) :
    s.Supplies t scope name type := by
  obtain ⟨outer, near, owner, far, binding, path, split, unbound, bound, rfl⟩ := supplies
  obtain ⟨after, found, settles⟩ := evolves.binding _ _ _ bound
  exact ⟨outer, near, owner, far, after, path.mono evolves.parent, split, unbound, found,
    settles.known concrete⟩

theorem Supplies.earlier {s m t : Desk} (evolves : Evolves s m) {scope : ScopeId} {name : String}
    {type : Ty} (supplies : m.Supplies t scope name type) : s.Supplies t scope name type := by
  obtain ⟨outer, near, owner, far, binding, path, split, unbound, bound, same⟩ := supplies
  exact ⟨outer, near, owner, far, binding, path, split,
    fun nearer mem => evolves.unbound (unbound nearer mem), bound, same⟩

theorem Fills.trans {s m t : Desk} (first : Evolves s m) (second : Evolves m t) {d e : Draft}
    (redrafts : s.Redrafts m d e) {a b c : String × Ty} (fills : s.Fills m d a b)
    (again : m.Fills t e b c) : s.Fills t d a c := by
  obtain ⟨name, slot⟩ := fills
  obtain ⟨name', slot'⟩ := again
  refine ⟨name'.trans name, ?_⟩
  rw [name, redrafts.scope, Work.declares_of_head redrafts.head] at slot'
  rcases slot with same | ⟨empty, filled, other, supplies⟩
  · rcases slot' with same' | ⟨empty, filled, other, supplies⟩
    · exact .inl (same'.trans same)
    · exact .inr ⟨same ▸ empty, filled, other, supplies.earlier first⟩
  · rcases slot' with same' | ⟨empty', _, _, _⟩
    · rw [same']
      exact .inr ⟨empty, filled, other, supplies.later second filled⟩
    · simp [filled] at empty'

theorem Redrafts.trans {s m t : Desk} (first : Evolves s m) (second : Evolves m t) {d e f : Draft}
    (redrafts : s.Redrafts m d e) (again : m.Redrafts t e f) : s.Redrafts t d f where
  scope := again.scope.trans redrafts.scope
  head := again.head.trans redrafts.head
  target := forall₂_trans redrafts.target again.target
    fun _ _ _ fills => fills.trans first second redrafts
  value := forall₂_trans redrafts.value again.value
    fun _ _ _ fills => fills.trans first second redrafts

theorem Evolves.trans {s m t : Desk} (first : Evolves s m) (second : Evolves m t) :
    Evolves s t where
  parent id parent found := second.parent id parent (first.parent id parent found)
  kind id kind found := second.kind id kind (first.kind id kind found)
  binding scope name before bound := by
    obtain ⟨between, bound, settles⟩ := first.binding scope name before bound
    obtain ⟨after, bound, settles'⟩ := second.binding scope name between bound
    exact ⟨after, bound, settles.trans settles'⟩
  draft id before found := by
    obtain ⟨between, found, redrafts⟩ := first.draft id before found
    obtain ⟨after, found, redrafts'⟩ := second.draft id between found
    exact ⟨after, found, redrafts.trans first second redrafts'⟩
  head id before found := by
    obtain ⟨between, found, same⟩ := first.head id before found
    obtain ⟨after, found, same'⟩ := second.head id between found
    exact ⟨after, found, same'.trans same⟩
  guarded id name guarded := second.guarded id name (first.guarded id name guarded)

/-! One move. -/

/-- What a look has filled was supplied on the way outwards, if what it read is still there. -/
theorem fills_of_view {s t : Desk} (rooted : s.scopes.Rooted)
    (parents : ∀ id, t.scopes.parent? id = s.scopes.parent? id) {d : Draft}
    (stays : ∀ name owner binding, s.scopes.Reads d.scope name owner binding →
      binding.type.isConcrete = true →
      d.work.declares ≠ some name ∧ t.scopes.binding? owner name = some binding)
    {before after : List (String × Ty)}
    (keeps : List.Forall₂ (s.scopes.view d.scope).Fills before after) :
    List.Forall₂ (s.Fills t d) before after := by
  refine keeps.imp fun a b fills => ⟨fills.1, fills.2.imp id ?_⟩
  rintro ⟨empty, filled, found⟩
  obtain ⟨owner, binding, reads, same⟩ := Scopes.reads_of_view rooted found filled
  obtain ⟨other, bound⟩ := stays _ _ _ reads (same ▸ filled)
  obtain ⟨outer, near, far, path, split, unbound, _⟩ := reads
  exact ⟨empty, filled, other, outer, near, owner, far, binding,
    path.mono fun id parent found => (parents id).trans found, split, unbound, bound, same⟩

theorem guarded_mono {s t : Desk} (root : ∀ name, s.RootFunction name → t.RootFunction name)
    (queue : ∀ work ∈ s.queue, work ∈ t.queue)
    (waiters : ∀ name, ∀ waiter ∈ s.scopes.waiters 0 name,
      waiter ∈ t.scopes.waiters 0 name ∨ waiter.work ∈ t.queue)
    {id : DraftId} {name : String} (guarded : s.Guarded id name) : t.Guarded id name := by
  rcases guarded with function | ⟨position, queued | ⟨waiter, mem, same⟩⟩
  · exact .inl (root name function)
  · exact .inr ⟨position, .inl (queue _ queued)⟩
  · rcases waiters name waiter mem with still | queued
    · exact .inr ⟨position, .inr ⟨waiter, still, same⟩⟩
    · exact .inr ⟨position, .inl (same ▸ queued)⟩

theorem rootFunction_mono {s t : Desk} (bindings : ∀ scope name before,
      s.scopes.binding? scope name = some before →
      ∃ after, t.scopes.binding? scope name = some after ∧ before.Settles after)
    (name : String) (function : s.RootFunction name) : t.RootFunction name := by
  obtain ⟨binding, bound, isFunction⟩ := function
  obtain ⟨after, bound, settles⟩ := bindings _ _ _ bound
  exact ⟨after, bound, settles.function isFunction⟩

theorem draft_putAt {s t : Desk} {id : DraftId} {after : Draft}
    (put : PutAt s.drafts id after t.drafts)
    (redrafts : ∀ d, s.drafts[id]? = some d → s.Redrafts t d after) (other : DraftId) (d : Draft)
    (found : s.drafts[other]? = some d) :
    ∃ after, t.drafts[other]? = some after ∧ s.Redrafts t d after := by
  by_cases here : other = id
  · subst here
    exact ⟨after, by simp [put other], redrafts d found⟩
  · exact ⟨d, by simpa [put other, here] using found, .refl s t d⟩

theorem head_putAt {s t : Desk} {id : SignatureId} {h : SignatureDraft} {result : Ty}
    (found : s.signatures[id]? = some h)
    (put : PutAt s.signatures id { h with signature := { h.signature with result } } t.signatures)
    (other : SignatureId) (before : SignatureDraft) (old : s.signatures[other]? = some before) :
    ∃ after, t.signatures[other]? = some after ∧ after.head = before.head := by
  by_cases here : other = id
  · subst here
    obtain rfl : h = before := by simpa [found] using old
    exact ⟨{ h with signature := { h.signature with result } }, by simp [put other], rfl⟩
  · exact ⟨before, by simpa [put other, here] using old, rfl⟩

theorem Evolves.of_steady {s t : Desk} (steady : Steady s t)
    (binding : ∀ scope name before, s.scopes.binding? scope name = some before →
      ∃ after, t.scopes.binding? scope name = some after ∧ before.Settles after)
    (draft : ∀ (id : DraftId) before, s.drafts[id]? = some before →
      ∃ after, t.drafts[id]? = some after ∧ s.Redrafts t before after)
    (head : ∀ (id : SignatureId) before, s.signatures[id]? = some before →
      ∃ after, t.signatures[id]? = some after ∧ after.head = before.head)
    (queue : ∀ work ∈ s.queue, work ∈ t.queue)
    (waiters : ∀ name, ∀ waiter ∈ s.scopes.waiters 0 name,
      waiter ∈ t.scopes.waiters 0 name ∨ waiter.work ∈ t.queue) : Evolves s t where
  parent id _ found := (steady.parent id).trans found
  kind id _ found := (steady.kind id).trans found
  binding := binding
  draft := draft
  head := head
  guarded _ _ := guarded_mono (rootFunction_mono binding) queue waiters

/-- A look at a draft that declares nothing, when it changes no binding. -/
theorem redrafts_of_look {s t : Desk} (rooted : s.scopes.Rooted) (steady : Steady s t)
    (bindings : ∀ scope name, t.scopes.binding? scope name = s.scopes.binding? scope name)
    {before after : Draft} (scope : after.scope = before.scope)
    (head : after.work.head = before.work.head) (idle : before.work.declares = none)
    (target : List.Forall₂ (s.scopes.view before.scope).Fills before.work.targetSymbols
      after.work.targetSymbols)
    (value : List.Forall₂ (s.scopes.view before.scope).Fills before.work.valueSymbols
      after.work.valueSymbols) : s.Redrafts t before after := by
  have stays : ∀ name owner binding, s.scopes.Reads before.scope name owner binding →
      binding.type.isConcrete = true →
      before.work.declares ≠ some name ∧ t.scopes.binding? owner name = some binding := by
    rintro name owner binding ⟨_, _, _, _, _, _, bound⟩ _
    exact ⟨by simp [idle], (bindings owner name).trans bound⟩
  exact ⟨scope, head, fills_of_view rooted steady.parent stays target,
    fills_of_view rooted steady.parent stays value⟩

theorem keeps_of_look {view : View} {value after : Expr} {type : Ty}
    (look : value.resolve view = (.ok type, after)) :
    List.Forall₂ view.Fills value.symbols after.symbols := by
  have keeps := Expr.resolve_keeps view value
  rwa [look] at keeps

theorem target_of_look {view : View} {target after : Target} {type : Ty}
    (look : target.resolve view = (.ok type, after)) :
    List.Forall₂ view.Fills target.symbols after.symbols ∧ after.root = target.root ∧
      after.isSymbol = target.isSymbol := by
  have keeps := Target.resolve_keeps view target
  have root := Target.resolve_root view target
  have bare := Target.resolve_isSymbol view target
  rw [look] at keeps root bare
  exact ⟨keeps, root, bare⟩

theorem ReturnLook.keeps {view : View} {before after : Option Expr} {type : Ty}
    (looks : ReturnLook view before type after) :
    List.Forall₂ view.Fills ((before.map Expr.symbols).getD []) ((after.map Expr.symbols).getD []) ∧
      after.isNone = before.isNone := by
  cases before with
  | none =>
    obtain ⟨_, rfl⟩ := looks
    exact ⟨.nil, rfl⟩
  | some value =>
    obtain ⟨_, looked, look, rfl⟩ := looks
    exact ⟨keeps_of_look look, rfl⟩

theorem Redrafts.of_looks {s t : Desk} (rooted : s.scopes.Rooted) (steady : Steady s t)
    (bindings : ∀ scope name, t.scopes.binding? scope name = s.scopes.binding? scope name)
    {scope : ScopeId} {r : Return} {value : Option Expr} {type : Ty}
    (looks : ReturnLook (s.scopes.view scope) r.value type value) :
    s.Redrafts t ⟨scope, .returns r⟩ ⟨scope, .returns { r with value }⟩ :=
  redrafts_of_look rooted steady bindings rfl (by simp [Work.head, looks.keeps.2]) rfl .nil
    looks.keeps.1

/-- What waited for a name that is bound goes into the queue. -/
theorem waiters_bound {before after : Scopes (Deferral Empty)} {id : ScopeId} {binding : Binding}
    {work queue : List (Deferral Empty)} (bound : before.Bound after id binding work)
    {scope : ScopeId} {name : String} {waiter : Waiter (Deferral Empty)}
    (mem : waiter ∈ before.waiters scope name) :
    waiter ∈ after.waiters scope name ∨ waiter.work ∈ queue ++ work := by
  rw [bound.waiters]
  split
  · rename_i same
    obtain ⟨rfl, rfl⟩ := same
    refine .inr (List.mem_append_right _ ?_)
    rw [bound.work]
    exact List.mem_map_of_mem mem
  · exact .inl mem

theorem Bears.settles {s : Desk} {h : SignatureDraft} (bears : s.Bears h) {result : Ty}
    (agrees : h.signature.result.isConcrete = true → result = h.signature.result) :
    ∃ before, s.scopes.binding? h.scope h.signature.name = some before ∧
      before.Settles { h.signature with result }.binding := by
  obtain ⟨old, bound, same⟩ := bears
  refine ⟨_, bound, rfl, fun concrete => ?_, fun _ => rfl⟩
  simp only [Ty.isConcrete, Bool.and_eq_true] at concrete
  rcases same with rfl | ⟨unknown, _⟩
  · simp [Signature.binding, Signature.type, agrees concrete.2]
  · simp [unknown] at concrete

/-- A head whose result type is known already has the one that its body keeps. -/
theorem HeadChecked.agrees {s : Desk} {h : SignatureDraft} (checked : s.HeadChecked h)
    {result : Ty} (found : s.scopes.result? h.body = some result) (set : result ≠ .unannotated)
    (concrete : h.signature.result.isConcrete = true) : result = h.signature.result := by
  rcases checked.2.2 concrete with same | ⟨unset, _⟩
  · exact Option.some.inj (found.symm.trans same)
  · exact absurd (Option.some.inj (found.symm.trans unset)) set

theorem settles_bound {before after : Scopes (Deferral Empty)} {id : ScopeId} {old binding : Binding}
    {work : List (Deferral Empty)} (bound : before.Bound after id binding work)
    (found : before.binding? id binding.name = some old) (settles : old.Settles binding)
    (scope : ScopeId) (name : String) (entry : Binding)
    (here : before.binding? scope name = some entry) :
    ∃ later, after.binding? scope name = some later ∧ entry.Settles later := by
  rw [bound.bindings]
  split
  · rename_i same
    obtain ⟨rfl, rfl⟩ := same
    obtain rfl : old = entry := Option.some.inj (found.symm.trans here)
    exact ⟨binding, rfl, settles⟩
  · exact ⟨entry, here, .refl entry⟩

section Redeclare

variable {s t : Desk} {id : DraftId} {scope : ScopeId} {d : Declaration} {value : Expr} {type : Ty}
  (checked : s.DraftChecked id ⟨scope, .declaration d⟩)
  (look : d.value.resolve (s.scopes.view scope) = (.ok type, value))
include checked look

/-- A declaration whose type is known is not changed by another look. -/
theorem redeclared_or_pending : type = d.type ∧ value = d.value ∨ d.type.isPending = true := by
  rcases checked.1.1.settles with pending | settled
  · exact .inr pending
  · have same := (settled.resolve_eq (s.scopes.view scope)).symm.trans look
    simp only [Prod.mk.injEq, Except.ok.injEq] at same
    exact .inl ⟨same.1.symm, same.2.symm⟩

theorem redeclared_settles : d.binding.Settles { d with value, type }.binding := by
  rcases redeclared_or_pending checked look with ⟨same, _⟩ | pending
  · exact ⟨rfl, fun _ => same, fun function => by simpa [Declaration.binding, same] using function⟩
  · refine ⟨rfl, fun concrete => ?_, fun function => ?_⟩
    · have known : d.type.isPending = false := Ty.isPending_of_isConcrete concrete
      simp [known] at pending
    · cases kind : d.type <;>
        simp_all [Declaration.binding, Ty.isFunction, Ty.isPending, Ty.pendingOn]

theorem redeclared_redrafts (rooted : s.scopes.Rooted) (steady : Steady s t)
    (bindings : ∀ owner name, ¬(owner = scope ∧ name = d.name) →
      t.scopes.binding? owner name = s.scopes.binding? owner name) :
    s.Redrafts t ⟨scope, .declaration d⟩ ⟨scope, .declaration { d with value, type }⟩ := by
  rcases redeclared_or_pending checked look with ⟨_, rfl⟩ | pending
  · exact ⟨rfl, rfl, .nil, List.forall₂_same.2 fun symbol _ => .refl s t _ symbol⟩
  · refine ⟨rfl, rfl, .nil, fills_of_view rooted steady.parent ?_ (keeps_of_look look)⟩
    -- The own name is read from the own binding, whose type is not known.
    rintro name owner binding ⟨outer, near, far, path, split, unbound, bound⟩ concrete
    have other : name ≠ d.name := by
      rintro rfl
      have own := checked.2
      cases near with
      | nil =>
        obtain ⟨rfl, _⟩ := List.cons.inj split
        obtain rfl : d.binding = binding := Option.some.inj (own.symm.trans bound)
        have known : d.type.isPending = false := Ty.isPending_of_isConcrete concrete
        simp [known] at pending
      | cons first rest =>
        obtain ⟨rfl, _⟩ := List.cons.inj split
        simp [own] at unbound
    exact ⟨by simpa [Work.declares] using other.symm,
      (bindings owner name fun same => other same.2).trans bound⟩

end Redeclare

theorem Move.evolves {s t : Desk} (sound : s.Sound) (move : Move s t) : Evolves s t := by
  have steady := move.steady sound
  have same : ∀ scope name before, s.scopes.binding? scope name = some before →
      ∃ after, s.scopes.binding? scope name = some after ∧ before.Settles after :=
    fun _ _ before bound => ⟨before, bound, .refl before⟩
  have undrafted : ∀ t (id : DraftId) before, s.drafts[id]? = some before →
      ∃ after, s.drafts[id]? = some after ∧ s.Redrafts t before after :=
    fun t _ before found => ⟨before, found, .refl s t before⟩
  have unheaded : ∀ (id : SignatureId) before, s.signatures[id]? = some before →
      ∃ after, s.signatures[id]? = some after ∧ after.head = before.head :=
    fun _ before found => ⟨before, found, rfl⟩
  cases move with
  | @await scope name waiter _ awaited _ =>
    exact .of_steady steady (by simpa only [awaited.bindings] using same) (undrafted _) unheaded
      (fun _ mem => mem) (fun _ _ mem => .inl (mem_waiters_awaited awaited mem))
  | evaluate old _ look put =>
    refine .of_steady steady same (draft_putAt put fun d found => ?_) unheaded
      (fun _ mem => mem) (fun _ _ mem => .inl mem)
    obtain rfl := old d found
    exact redrafts_of_look sound.rooted steady (fun _ _ => rfl) rfl rfl rfl .nil
      (keeps_of_look look)
  | assign old _ _ lookTarget lookValue _ _ _ put =>
    refine .of_steady steady same (draft_putAt put fun d found => ?_) unheaded
      (fun _ mem => mem) (fun _ _ mem => .inl mem)
    obtain ⟨_, rfl⟩ := old d found
    obtain ⟨keeps, root, bare⟩ := target_of_look lookTarget
    exact redrafts_of_look sound.rooted steady (fun _ _ => rfl) rfl
      (by simp [Work.head, root, bare]) rfl keeps (keeps_of_look lookValue)
  | confirm old looks _ _ _ _ put =>
    refine .of_steady steady same (draft_putAt put fun d found => ?_) unheaded
      (fun _ mem => mem) (fun _ _ mem => .inl mem)
    obtain rfl := old d found
    exact .of_looks sound.rooted steady (fun _ _ => rfl) looks
  | decide old looks _ _ _ _ changed put =>
    refine .of_steady steady (by simpa only [changed.bindings] using same)
      (draft_putAt put fun d found => ?_) unheaded
      (fun _ mem => List.mem_append_left _ mem) (fun _ _ mem => .inl ?_)
    · obtain rfl := old d found
      exact .of_looks sound.rooted steady changed.bindings looks
    · rwa [changed.waiters]
  | @redeclare id scope d after value type _ _ _ old look typed bound put =>
    obtain ⟨rfl, _⟩ := Declaration.withType_eq_ok typed
    have checked := sound.drafts id _ old
    refine .of_steady steady
      (settles_bound bound checked.2 (redeclared_settles checked look))
      (draft_putAt put fun before found => ?_) unheaded
      (fun _ mem => List.mem_append_left _ mem) (fun _ _ => waiters_bound bound)
    obtain rfl : ⟨scope, .declaration d⟩ = before := by simpa [old] using found
    refine redeclared_redrafts checked look sound.rooted steady fun owner name other => ?_
    exact (bound.bindings owner name).trans (if_neg other)
  | postpone found _ _ changed put =>
    exact .of_steady steady (by simpa only [changed.bindings] using same) (undrafted _)
      (head_putAt found put) (fun _ mem => mem)
      (fun name waiter mem => .inl (by rwa [changed.waiters]))
  | @conclude id h result _ _ _ found kept set bound put =>
    have checked := sound.heads id h found
    obtain ⟨before, here, settles⟩ := checked.2.1.settles (checked.agrees kept set)
    exact .of_steady steady (settles_bound bound here settles) (undrafted _)
      (head_putAt found put) (fun _ mem => List.mem_append_left _ mem)
      (fun _ _ => waiters_bound bound)
  | @pop work rest queue function _ =>
    refine ⟨fun _ _ => id, fun _ _ => id, same, undrafted _, unheaded, fun id name guarded => ?_⟩
    rcases guarded with root | ⟨position, queued | waits⟩
    · exact .inl root
    · rw [queue] at queued
      rcases List.mem_cons.1 queued with first | later
      · exact .inl (function name id position first.symm)
      · exact .inr ⟨position, .inl later⟩
    · exact .inr ⟨position, .inr waits⟩

end Desk

end Hoist
