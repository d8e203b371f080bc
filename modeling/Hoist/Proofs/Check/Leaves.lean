import Hoist.Check.Program
import Hoist.Proofs.Check.Extend
import Hoist.Proofs.Check.Runs
import Hoist.Proofs.Check.Wave
import Hoist.Proofs.Typing.Fresh

/-!
Checking simple statements for the first time. Between two statements of a block a checker is
`Ready`: its desk is sound, nothing is queued, and the frames say exactly which names are bound.

Main statement: a simple statement leaves the checker ready, and what is found out about it is
recorded (`reaches_leaf`).
-/
namespace Hoist

@[simp] theorem Frame.declare_nil (frames : List Frame) : Frame.declare [] frames = frames := by
  cases frames <;> simp [Frame.declare]

namespace Desk

variable {s t : Desk} {frames : List Frame} {scope : ScopeId} {name : String}

theorem Exact.of_steady (exact : s.Exact frames) (steady : Steady s t) : t.Exact frames where
  path := exact.path.mono fun id _ found => (steady.parent id).trans found
  bound frame mem name declared := (steady.named _ _).trans (exact.bound frame mem name declared)
  names frame mem name bound := exact.names frame mem name ((steady.named _ _).symm.trans bound)

theorem Steady.bodies (steady : Steady s t) {ids : List ScopeId}
    (apart : ∀ h ∈ s.signatures, h.body ∉ ids) : ∀ h ∈ t.signatures, h.body ∉ ids := by
  intro h mem
  obtain ⟨id, found⟩ := List.mem_iff_getElem?.1 mem
  have bodies := steady.body id
  rw [found] at bodies
  obtain ⟨before, found, same⟩ := Option.map_eq_some_iff.1 bodies.symm
  have same : before.body = h.body := same
  exact same ▸ apart before (List.mem_of_getElem? found)

/-- A name that no frame has declared is bound nowhere on the way outwards. -/
theorem Exact.unbound (exact : s.Exact frames) (undeclared : ∀ frame ∈ frames, name ∉ frame.names)
    {id : ScopeId} (mem : id ∈ frames.map Frame.id) : s.scopes.binding? id name = none := by
  obtain ⟨frame, inside, rfl⟩ := List.mem_map.1 mem
  cases bound : s.scopes.binding? frame.id name with
  | none => rfl
  | some binding =>
    have declared := exact.names frame inside name (by simp [bound])
    exact absurd declared (undeclared frame inside)

/-- The innermost block gets a new name. -/
theorem Exact.declare (exact : s.Exact frames) (here : (frames.map Frame.id).head? = some scope)
    {binding : Binding} {work : List (Deferral Empty)}
    (bound : s.scopes.Bound t.scopes scope binding work) :
    t.Exact (Frame.declare [binding.name] frames) := by
  cases frames with
  | nil => simp at here
  | cons frame outer =>
    obtain rfl : frame.id = scope := by simpa using here
    have path := exact.path
    have elsewhere : ∀ other ∈ outer, ∀ name,
        t.scopes.binding? other.id name = s.scopes.binding? other.id name := by
      intro other mem name
      have older := path.lt_of_mem (List.mem_map_of_mem mem)
      rw [bound.bindings, if_neg fun clash => Nat.ne_of_lt older clash.1]
    refine ⟨⟨?_, ?_⟩, ?_⟩
    · exact path.mono fun id _ found => (bound.parent id).trans found
    · intro other mem name declared
      rcases List.mem_cons.1 mem with rfl | outside
      · simp only [bound.bindings, true_and]
        split
        · rfl
        · rename_i different
          refine exact.bound frame List.mem_cons_self name ?_
          simpa [different] using declared
      · exact (congrArg _ (elsewhere other outside name)).trans
          (exact.bound other (List.mem_cons_of_mem _ outside) name declared)
    · intro other mem name known
      rcases List.mem_cons.1 mem with rfl | outside
      · by_cases same : name = binding.name
        · simp [same]
        · simp only [bound.bindings, same, and_false, ↓reduceIte] at known
          exact List.mem_append_left _ (exact.names frame List.mem_cons_self name known)
      · simp only [elsewhere other outside] at known
        exact exact.names other (List.mem_cons_of_mem _ outside) name known

/-- A name that the scope of a block does not bind has not been declared in the block. -/
theorem Exact.undeclared (exact : s.Exact frames)
    (here : (frames.map Frame.id).head? = some scope)
    (unbound : s.scopes.binding? scope name = none) :
    ∀ frame ∈ frames.head?, name ∉ frame.names := by
  intro frame first declared
  obtain ⟨outer, rfl⟩ := List.head?_eq_some_iff.1 first
  obtain rfl : frame.id = scope := by simpa using here
  have known := exact.bound frame List.mem_cons_self name declared
  simp [unbound] at known

theorem Exact.way (exact : s.Exact frames) (here : (frames.map Frame.id).head? = some scope) :
    ∃ outer, frames.map Frame.id = scope :: outer ∧ s.scopes.Path (scope :: outer) := by
  obtain ⟨outer, ids⟩ := List.head?_eq_some_iff.1 here
  exact ⟨outer, ids, ids ▸ exact.path⟩

/-- What a first look puts on symbols comes from bindings that are visible. -/
theorem found_of_look (exact : s.Exact frames) (rooted : s.scopes.Rooted)
    (here : (frames.map Frame.id).head? = some scope) (evolves : Evolves s t)
    {before after : List (String × Ty)} (empty : ∀ symbol ∈ before, symbol.2.isConcrete = false)
    (keeps : List.Forall₂ (s.scopes.view scope).Fills before after) :
    ∀ symbol ∈ after, symbol.2.isConcrete = true → ∃ frame binding,
      t.Found frames symbol.1 frame binding ∧ binding.type = symbol.2 ∧
      symbol.1 ∈ frame.names := by
  intro symbol mem concrete
  obtain ⟨old, old_mem, same, slot⟩ := exists_of_forall₂ keeps mem
  have filled : (s.scopes.view scope).type old.1 = .ok symbol.2 := by
    rcases slot with kept | ⟨_, _, found⟩
    · have unfilled := empty old old_mem
      simp [← kept, concrete] at unfilled
    · exact found
  obtain ⟨owner, binding, reads, type⟩ := Scopes.reads_of_view rooted filled concrete
  obtain ⟨frame, found, declared⟩ := exact.found_of_reads here reads
  obtain ⟨later, found, settles⟩ := found.later evolves
  rw [same]
  exact ⟨frame, later, found, (settles.known (type ▸ concrete)).trans type, declared⟩

/-- A first symbol that nobody has declared is what the look waits for. -/
theorem pendingOn_of_lead (exact : s.Exact frames)
    (here : (frames.map Frame.id).head? = some scope) {value after : Expr} {type : Ty}
    (fresh : value.isFresh = true)
    (look : value.resolve (s.scopes.view scope) = (.ok type, after))
    (first : value.symbols.head?.map (·.1) = some name)
    (undeclared : ∀ frame ∈ frames, name ∉ frame.names) : type.pendingOn = some name := by
  obtain ⟨outer, ids, path⟩ := exact.way here
  have nowhere : (scope :: outer).findSome? (s.scopes.binding? · name) = none := by
    refine List.findSome?_eq_none_iff.2 fun id mem => ?_
    exact exact.unbound undeclared (ids ▸ mem)
  have unknown : (s.scopes.view scope).knows name = false := by
    simp only [View.knows, path.view_type_eq, nowhere]
    rfl
  rw [Expr.resolve_pendingOn _ (Expr.faithful_of_isFresh fresh) (congrArg Prod.fst look)]
  obtain ⟨symbol, head, rfl⟩ := Option.map_eq_some_iff.1 first
  obtain ⟨rest, symbols⟩ := List.head?_eq_some_iff.1 head
  have empty := Expr.empty_of_isFresh fresh symbol (by simp [symbols])
  simp [View.firstBlocked, symbols, View.blocks, empty, unknown]

/-- Who waits for a name that nobody has declared waits for a function. -/
theorem guarded_of_hangs (exact : s.Exact frames)
    (here : (frames.map Frame.id).head? = some scope) {id : DraftId}
    (hangs : s.scopes.Hangs id scope name)
    (undeclared : ∀ frame ∈ frames, name ∉ frame.names) : s.Guarded id name := by
  obtain ⟨outer, ids, path⟩ := exact.way here
  rcases hangs with ⟨owner, binding, ⟨others, near, far, path', split, _, bound⟩, _⟩ |
    ⟨_, position, waiter, mem, same⟩
  · obtain rfl := path.unique path'
    have onWay : owner ∈ frames.map Frame.id := by simp [ids, split]
    have unbound := exact.unbound undeclared onWay
    simp [unbound] at bound
  · exact .inr ⟨position, .inr ⟨waiter, mem, same⟩⟩

/-- The draft has come of this statement. -/
def Drafts (s : Desk) (work : Work) (id : DraftId) : Prop :=
  ∃ d, s.drafts[id]? = some d ∧ d.work.head = work.head

theorem Drafts.later {work : Work} {id : DraftId} (drafts : s.Drafts work id)
    (evolves : Evolves s t) : t.Drafts work id := by
  obtain ⟨d, found, head⟩ := drafts
  obtain ⟨e, found, redrafts⟩ := evolves.draft id d found
  exact ⟨e, found, redrafts.head.trans head⟩

/-- The leaf of an outline has come of this statement. -/
def Outlined (s : Desk) : Leaf → OutlineLeaf → Prop
  | .declare d, .draft id => s.Drafts (.declaration d) id
  | .assign a, .draft id => s.Drafts (.assignment a []) id
  | .returns r, .draft id => s.Drafts (.returns r) id
  | .evaluate e, .draft id => s.Drafts (.evaluation e) id
  | leaf, .plain typed => typed.forget = leaf
  | _, _ => False

theorem Outlined.later {content : Leaf} {leaf : OutlineLeaf} (outlined : s.Outlined content leaf)
    (evolves : Evolves s t) : t.Outlined content leaf := by
  cases leaf with
  | plain typed => cases content <;> exact outlined
  | draft id =>
    cases content with
    | declare | assign | returns | evaluate => exact Drafts.later outlined evolves
    | breakLoop | continueLoop | imports | endOfFile => exact outlined

theorem lead_of_keeps {view : View} {before after : List (String × Ty)}
    (keeps : List.Forall₂ view.Fills before after) :
    after.head?.map (·.1) = before.head?.map (·.1) := by
  cases keeps with
  | nil => rfl
  | cons first _ => simp [first.1]

end Desk

namespace Check

open Desk

variable {σ : Type} {kept : σ → Prop} {s t : Checker Empty σ} {frames : List Frame}

structure Ready (kept : σ → Prop) (s : Checker Empty σ) (frames : List Frame) : Prop where
  sound : (s.desk []).Sound
  known : (s.desk []).Exact frames
  queue : s.queue = []
  idle : s.firing = false
  /-- The functions around are still open. -/
  bodies : ∀ h ∈ s.signatures, h.body ∉ frames.map Frame.id
  store : kept s.store

theorem Ready.of_movesTo (ready : Ready kept s frames) (moves : MovesTo (s.desk []) (t.desk []))
    (beside : Beside s t) (queue : t.queue = []) : Ready kept t frames where
  sound := moves.sound
  known := ready.known.of_steady moves.steady
  queue := queue
  idle := beside.firing.trans ready.idle
  bodies := moves.steady.bodies ready.bodies
  store := beside.store ▸ ready.store

/-- From one point between two statements to a later one. -/
structure Reaches (kept : σ → Prop) (here : ScopeId) (s : Checker Empty σ) (after : List Frame)
    (t : Checker Empty σ) : Prop where
  ready : Ready kept t after
  grows : Grows here (s.desk []) (t.desk [])
  budget : t.budget ≤ s.budget

theorem Reaches.of_movesTo (ready : Ready kept s frames) (moves : MovesTo (s.desk []) (t.desk []))
    (beside : Beside s t) (queue : t.queue = []) (here : ScopeId) :
    Reaches kept here s frames t :=
  ⟨ready.of_movesTo moves beside queue, moves.grows here, beside.budget⟩

/-! New names. -/

/-- A name that nobody declares is bound, and those who waited for it are looked at. -/
structure Binds (kept : σ → Prop) (scope : ScopeId) (binding : Binding) (s : Checker Empty σ)
    (frames : List Frame) (t : Checker Empty σ) : Prop where
  reaches : Reaches kept scope s (Frame.declare [binding.name] frames) t
  new : ∀ frame ∈ frames.head?, binding.name ∉ frame.names
  free : (t.desk []).Free scope binding.name
  bound : t.scopes.binding? scope binding.name = some binding

theorem binds_define {client : Empty → Check Empty σ Unit} {scope : ScopeId} {binding : Binding}
    {position : Position} {work : List (Deferral Empty)} {m : Checker Empty σ} {done : Unit}
    (ready : Ready kept s frames) (here : (frames.map Frame.id).head? = some scope)
    (defines : Ends (define scope binding position) s work m)
    (settles : Ends (runWave client work) m done t) : Binds kept scope binding s frames t := by
  obtain ⟨scopes, defined, rfl⟩ := ends_define.1 defines
  obtain ⟨unbound, bound⟩ := Scopes.define_eq_ok defined
  have unbound : (s.desk []).scopes.binding? scope binding.name = none := unbound
  have bound : (s.desk []).scopes.Bound scopes scope binding work := bound
  have extended := extends_bound unbound bound
  have sound := extended.sound ready.sound (ready.sound.rooted.of_parents bound.parent)
  obtain ⟨moves, beside, empty⟩ := movesTo_runWave settles ready.idle sound
  have free := free_of_unbound ready.sound unbound
  have steady := moves.steady
  have isFree : (t.desk []).Free scope binding.name := fun who key =>
    free who ((extended.key who).symm.trans ((steady.key who).symm.trans key))
  have isBound : t.scopes.binding? scope binding.name = some binding := by
    have same := steady.unowned scope binding.name fun who key =>
      free who ((extended.key who).symm.trans key)
    exact same.trans ((bound.bindings _ _).trans (if_pos ⟨rfl, rfl⟩))
  have exact : (t.desk []).Exact (Frame.declare [binding.name] frames) :=
    (ready.known.declare (t := { s.desk [] with scopes, queue := s.queue ++ work }) here
      bound).of_steady steady
  refine ⟨⟨⟨moves.sound, exact, empty, beside.firing.trans ready.idle, ?_, ?_⟩, ?_, beside.budget⟩,
    ?_, isFree, isBound⟩
  · rw [Frame.map_id_declare]
    exact steady.bodies ready.bodies
  · exact beside.store ▸ ready.store
  · refine ⟨extended.evolves.trans moves.evolves, fun id name other _ known => ?_⟩
    have known : (scopes.binding? id name).isSome = true := (steady.named id name) ▸ known
    rw [bound.bindings, if_neg fun clash => other clash.1] at known
    exact known
  · exact ready.known.undeclared here unbound

/-! Statements that are put on the desk and then looked at. -/

section Added

variable {terms : Terms} {scope : ScopeId} {leaf : OutlineLeaf} (ready : Ready kept s frames)
  (here : (frames.map Frame.id).head? = some scope)

/-- What is left to do once a new draft has been checked and the checker is ready again. -/
theorem reaches_draft {m : Desk} {d : Draft} {work : Work} (reaches : Reaches kept scope s frames t)
    (moves : MovesTo m (t.desk [])) (standing : m.Standing frames)
    (found : m.drafts[s.drafts.length]? = some d) (silent : d.work.declares = none)
    (head : d.work.head = work.head) (located : m.DraftAt frames s.drafts.length d) :
    Reaches kept scope s
        (Frame.declare ((t.desk []).leafNames (.draft s.drafts.length)) frames) t ∧
      (t.desk []).LeafAt terms frames (.draft s.drafts.length) ∧
      (t.desk []).Drafts work s.drafts.length := by
  have drafts : m.Drafts work s.drafts.length := ⟨d, found, head⟩
  have leaf : m.LeafAt terms frames (.draft s.drafts.length) := ⟨d, found, located⟩
  obtain ⟨leaf, names⟩ := leaf.later moves.evolves standing
  have none_new : m.leafNames (.draft s.drafts.length) = [] := by
    simp [leafNames, found, silent]
  rw [names, none_new, Frame.declare_nil]
  exact ⟨reaches, leaf, drafts.later moves.evolves⟩

include ready here

theorem reaches_evaluation {e : Evaluation} {done : Unit} (fresh : e.value.isFresh = true)
    (ends : Ends (checkEvaluation s.drafts.length scope e)
      { s with drafts := s.drafts ++ [⟨scope, .evaluation e⟩] } done t) :
    Reaches kept scope s
        (Frame.declare ((t.desk []).leafNames (.draft s.drafts.length)) frames) t ∧
      (t.desk []).LeafAt terms frames (.draft s.drafts.length) ∧
      (t.desk []).Drafts (.evaluation e) s.drafts.length := by
  obtain ⟨type, value, look, moves, redraws, drafts, hangs⟩ :=
    movesTo_evaluation ready.sound (takes_of_added _) (by simp [Checker.desk])
      (Expr.faithful_of_isFresh fresh) ends
  have beside := redraws.beside
  have reaches : Reaches kept scope s frames t :=
    .of_movesTo ready moves ⟨beside.store, beside.firing, beside.budget⟩
      (redraws.queue.trans ready.queue) scope
  have keeps := Expr.resolve_keeps (s.scopes.view scope) e.value
  rw [look] at keeps
  refine reaches_draft reaches (.refl moves.sound) reaches.ready.known.toStanding
    (d := ⟨scope, .evaluation { e with value }⟩) (by simp [Checker.desk, drafts]) rfl rfl
    ⟨here, fun symbol mem concrete => ?_, fun name first _ undeclared => ?_, trivial⟩
  · obtain ⟨frame, binding, found, type, _⟩ := found_of_look ready.known ready.sound.rooted here
      moves.evolves (Expr.empty_of_isFresh fresh) keeps symbol mem concrete
    exact ⟨frame, binding, found, type, by simp [Work.declares]⟩
  · have first : e.value.symbols.head?.map (·.1) = some name := (lead_of_keeps keeps).symm.trans first
    have waits := hangs name (pendingOn_of_lead ready.known here fresh look first undeclared)
    exact guarded_of_hangs reaches.ready.known here waits undeclared

theorem reaches_assignment {a : Assignment} {done : Unit}
    (fresh : a.target.isFresh = true ∧ a.value.isFresh = true)
    (ends : Ends (checkAssignment s.drafts.length scope a [])
      { s with drafts := s.drafts ++ [⟨scope, .assignment a []⟩] } done t) :
    Reaches kept scope s
        (Frame.declare ((t.desk []).leafNames (.draft s.drafts.length)) frames) t ∧
      (t.desk []).LeafAt terms frames (.draft s.drafts.length) ∧
      (t.desk []).Drafts (.assignment a []) s.drafts.length := by
  obtain ⟨binding, targetType, target, type, value, later, root, free, lookTarget, look, moves,
      redraws, drafts, _, hangs⟩ :=
    movesTo_assignment ready.sound (takes_of_added _) (by simp [Checker.desk])
      (Target.faithful_of_isFresh fresh.1) (Expr.faithful_of_isFresh fresh.2) (by simp) ends
  have beside := redraws.beside
  have reaches : Reaches kept scope s frames t :=
    .of_movesTo ready moves ⟨beside.store, beside.firing, beside.budget⟩
      (redraws.queue.trans ready.queue) scope
  have onTarget := Target.resolve_keeps (s.scopes.view scope) a.target
  have onValue := Expr.resolve_keeps (s.scopes.view scope) a.value
  have sameRoot := Target.resolve_root (s.scopes.view scope) a.target
  have sameKind := Target.resolve_isSymbol (s.scopes.view scope) a.target
  rw [lookTarget] at onTarget sameRoot sameKind
  rw [look] at onValue
  have empty : ∀ symbol ∈ a.target.symbols ++ a.value.symbols, symbol.2.isConcrete = false := by
    intro symbol mem
    rcases List.mem_append.1 mem with first | second
    · exact Target.empty_of_isFresh fresh.1 symbol first
    · exact Expr.empty_of_isFresh fresh.2 symbol second
  refine reaches_draft reaches (.refl moves.sound) reaches.ready.known.toStanding
    (d := ⟨scope, .assignment { a with target, value } later⟩) (by simp [Checker.desk, drafts]) rfl
    (by simp [Work.head, sameRoot, sameKind])
    ⟨here, fun symbol mem concrete => ?_, fun name first _ undeclared => ?_, ?_⟩
  · obtain ⟨frame, binding, found, type, _⟩ := found_of_look ready.known ready.sound.rooted here
      moves.evolves empty (List.rel_append onTarget onValue) symbol mem concrete
    exact ⟨frame, binding, found, type, by simp [Work.declares]⟩
  · have first : a.value.symbols.head?.map (·.1) = some name :=
      (lead_of_keeps onValue).symm.trans first
    rcases hangs name (pendingOn_of_lead ready.known here fresh.2 look first undeclared) with
      none_yet | waits
    · simp at none_yet
    · exact guarded_of_hangs reaches.ready.known here waits undeclared
  · obtain ⟨outer, ids, path⟩ := ready.known.way here
    have path : s.scopes.Path (scope :: outer) := path
    rw [path.lookup_eq] at root
    obtain ⟨owner, reads⟩ := Scopes.reads_of_findSome? path (Except.ok.inj root)
    obtain ⟨frame, found, declared⟩ := ready.known.found_of_reads here reads
    obtain ⟨after, found, settles⟩ := found.later moves.evolves
    refine ⟨frame, after, sameRoot ▸ found, sameRoot ▸ declared, fun bare => ?_⟩
    have bare : a.target.isSymbol = true := sameKind ▸ bare
    rw [settles.constant]
    simpa [bare] using free

/-- The function around a block that is being checked has no head yet. -/
theorem open_body {body : ScopeId} (around : s.scopes.functionBody scope = .ok (some body)) :
    ∀ h ∈ s.signatures, h.body ≠ body := by
  intro h mem
  obtain ⟨outer, ids, path⟩ := ready.known.way here
  have path : s.scopes.Path (scope :: outer) := path
  rw [path.functionBody_eq] at around
  have inside : body ∈ frames.map Frame.id := ids ▸ List.mem_of_find?_eq_some (Except.ok.inj around)
  exact fun clash => ready.bodies h mem (clash ▸ inside)

theorem reaches_return {client : Empty → Check Empty σ Unit} {r : Return} {done : Unit}
    (fresh : ∀ value, r.value = some value → value.isFresh = true)
    (ends : Ends (checkReturn (runWave client) s.drafts.length scope r)
      { s with drafts := s.drafts ++ [⟨scope, .returns r⟩] } done t) :
    Reaches kept scope s
        (Frame.declare ((t.desk []).leafNames (.draft s.drafts.length)) frames) t ∧
      (t.desk []).LeafAt terms frames (.draft s.drafts.length) ∧
      (t.desk []).Drafts (.returns r) s.drafts.length := by
  obtain ⟨body, type, value, m, work, _, looks, moves, redraws, drafts, hangs, settles⟩ :=
    movesTo_return ready.sound (takes_of_added _) (by simp [Checker.desk]) (by simp)
      (fun value given => Expr.faithful_of_isFresh (fresh value given))
      (fun body around _ => open_body ready here around) ends
  have beside := redraws.beside
  have exact := ready.known.of_steady moves.steady
  -- The return may have set the result type, and then those who waited for it are looked at.
  have later : MovesTo ((queued m work).desk []) (t.desk []) ∧ Beside m t ∧ t.queue = [] := by
    rcases settles with wave | ⟨rfl, rfl⟩
    · exact movesTo_runWave wave (beside.firing.trans ready.idle) moves.sound
    · have same : queued t [] = t := by simp [queued]
      rw [same] at moves ⊢
      exact ⟨.refl moves.sound, .refl t, redraws.queue.trans ready.queue⟩
  obtain ⟨moves', beside', empty⟩ := later
  have reaches : Reaches kept scope s frames t := .of_movesTo ready (moves.trans moves')
    ⟨beside'.store.trans beside.store, beside'.firing.trans beside.firing,
      Nat.le_trans beside'.budget beside.budget⟩ empty scope
  have bare : value.isNone = r.value.isNone := by
    cases given : r.value with
    | none =>
      rw [given] at looks
      rw [looks.2]
    | some before =>
      rw [given] at looks
      obtain ⟨_, after, _, rfl⟩ := looks
      rfl
  refine reaches_draft reaches moves' exact.toStanding (d := ⟨scope, .returns { r with value }⟩)
    (by simp [Checker.desk, queued, drafts]) rfl (by simp [Work.head, bare]) ?_
  cases given : r.value with
  | none =>
    rw [given] at looks
    obtain ⟨_, rfl⟩ := looks
    exact ⟨here, by simp [Work.symbols, Work.targetSymbols, Work.valueSymbols, Work.value?],
      by simp [Work.lead, Work.valueSymbols, Work.value?], trivial⟩
  | some before =>
    rw [given] at looks
    obtain ⟨_, after, look, rfl⟩ := looks
    have unseen := fresh before given
    have keeps := Expr.resolve_keeps (s.scopes.view scope) before
    rw [look] at keeps
    refine ⟨here, fun symbol mem concrete => ?_, fun name first _ undeclared => ?_, trivial⟩
    · obtain ⟨frame, binding, found, type, _⟩ := found_of_look ready.known ready.sound.rooted here
        moves.evolves (Expr.empty_of_isFresh unseen) keeps symbol mem concrete
      exact ⟨frame, binding, found, type, by simp [Work.declares]⟩
    · have first := (lead_of_keeps keeps).symm.trans first
      have waits := hangs name (pendingOn_of_lead ready.known here unseen look first undeclared)
      exact guarded_of_hangs exact here waits undeclared

theorem isTopLevel_eq : s.scopes.isTopLevel scope = .ok (decide (frames.length = 1)) := by
  obtain ⟨outer, ids, path⟩ := ready.known.way here
  have path : s.scopes.Path (scope :: outer) := path
  have same : frames.length = outer.length + 1 := by simpa using congrArg List.length ids
  rw [path.isTopLevel_eq, same]
  cases outer <;> simp

theorem length_of_onTop (onTop : s.scopes.isTopLevel scope = .ok true) : frames.length = 1 := by
  simpa [isTopLevel_eq ready here] using onTop

omit here in
/-- A declaration whose name has been bound is put on the desk, and waits if it has to. -/
theorem reaches_addDeclaration {d : Declaration} {type : Ty} {done : Unit} (checked : d.Checked)
    (free : (s.desk []).Free scope d.name)
    (bound : s.scopes.binding? scope d.name = some d.binding)
    (waits : Ends (deferDeclaration s.drafts.length scope d type)
      { s with drafts := s.drafts ++ [⟨scope, .declaration d⟩] } done t) :
    Reaches kept scope s frames t ∧
      t.drafts[s.drafts.length]? = some ⟨scope, .declaration d⟩ ∧
      ∀ name, type.pendingOn = some name → name ≠ d.name →
        t.scopes.Hangs s.drafts.length scope name := by
  have sound := sound_declaration ready.sound checked bound free
  have evolves : Evolves (s.desk [])
      { s.desk [] with drafts := s.drafts ++ [⟨scope, .declaration d⟩] } :=
    evolves_new rfl rfl (fun _ _ => getElem?_append_old) fun _ _ found => found
  have put : Ready kept { s with drafts := s.drafts ++ [⟨scope, .declaration d⟩] } frames :=
    ⟨sound, ⟨⟨ready.known.path, ready.known.bound⟩, ready.known.names⟩, ready.queue, ready.idle,
      ready.bodies, ready.store⟩
  obtain ⟨moves, ⟨scopes, journal, rfl⟩, _, hangs⟩ :=
    movesTo_deferDeclaration waits sound rfl (by simp [key?, Checker.desk, Work.declares])
  refine ⟨⟨put.of_movesTo moves ⟨rfl, rfl, Nat.le_refl _⟩ ready.queue, ?_, Nat.le_refl _⟩, by simp,
    hangs⟩
  exact Grows.trans ⟨evolves, fun _ _ _ _ known => known⟩ (moves.grows scope)

theorem reaches_declaration {importer : Importer σ} {options : Options} {d : Declaration}
    (fresh : d.value.isFresh = true)
    (run : LeafRun (Env.plain options importer) scope (.declare d) s leaf t) :
    Reaches kept scope s (Frame.declare ((t.desk []).leafNames leaf) frames) t ∧
      (t.desk []).LeafAt terms frames leaf ∧ (t.desk []).Outlined (.declare d) leaf := by
  cases run with | @declare _ type value after work _ _ m m' _ _ onTop look typed defines settles adds waits
  obtain ⟨rfl, rfl⟩ := ends_addDraft.1 adds
  obtain ⟨same, agrees⟩ := Declaration.withType_eq_ok typed
  have name : after.name = d.name := by rw [same]
  have symbols : (Work.declaration after).symbols = value.symbols := by rw [same]; rfl
  have checked : after.Checked := by
    rw [same]
    exact ⟨⟨d.value, _, Expr.faithful_of_isFresh fresh, look⟩, agrees⟩
  have binds := binds_define ready here defines settles
  obtain ⟨reaches, found, hangs⟩ :=
    reaches_addDeclaration binds.reaches.ready checked binds.free binds.bound waits
  have grows := binds.reaches.grows.trans reaches.grows
  have later : (t.desk []).drafts[m'.drafts.length]? = some ⟨scope, .declaration after⟩ := found
  have names : (t.desk []).leafNames (.draft m'.drafts.length) = [after.name] := by
    simp [leafNames, later, Work.declares]
  have keeps := Expr.resolve_keeps (s.scopes.view scope) d.value
  rw [look] at keeps
  rw [names]
  refine ⟨⟨reaches.ready, grows, Nat.le_trans reaches.budget binds.reaches.budget⟩, ⟨_, found, here,
    fun symbol mem concrete => ?_, fun other first different undeclared => ?_, binds.new, ?_⟩,
    _, found, by rw [same]; rfl⟩
  · rw [symbols] at mem
    obtain ⟨frame, binding, found, type, declared⟩ := found_of_look ready.known ready.sound.rooted
      here grows.evolves (Expr.empty_of_isFresh fresh) keeps symbol mem concrete
    exact ⟨frame, binding, found, type, fun _ => declared⟩
  · have lead : d.value.symbols.head?.map (·.1) = some other := by
      rw [← lead_of_keeps keeps, ← first, same]
      rfl
    have different : other ≠ after.name := fun own => different (congrArg some own.symm)
    have waits := hangs other (pendingOn_of_lead ready.known here fresh look lead undeclared)
      different
    refine guarded_of_hangs reaches.ready.known (by simpa using here) waits fun frame mem => ?_
    cases frames with
    | nil => simp at here
    | cons head outer =>
      rcases List.mem_cons.1 mem with rfl | outside
      · have undeclared := undeclared head List.mem_cons_self
        intro declared
        rcases List.mem_append.1 declared with before | own
        · exact undeclared before
        · exact different (List.mem_singleton.1 own)
      · exact undeclared frame (List.mem_cons_of_mem _ outside)
  · rw [same]
    exact fun exported => length_of_onTop ready here (onTop exported)

end Added

/-! Imports. -/

/-- What may be said about the types that an importer gives, and what it leaves of its store. -/
def Gives (importer : Importer σ) (kept : σ → Prop)
    (imported : String → String → Position → ConcreteTy → Prop) : Prop :=
  ∀ name source position store, kept store →
    kept (importer.typeOf name source position store).2.1 ∧
    ∀ type : ConcreteTy, (importer.typeOf name source position store).1 = .ok type.toTy →
      imported name source position type

variable {terms : Terms} {importer : Importer σ} {options : Options} {scope : ScopeId}

theorem ends_importType {name source : String} {position : Position} {type : Ty} :
    Ends (importType (Env.plain options importer) name source position) s type t ↔
      (importer.typeOf name source position s.store).1 = .ok type ∧
      t = { s with
        store := (importer.typeOf name source position s.store).2.1
        journal := (importer.typeOf name source position s.store).2.2 ++ s.journal } := by
  obtain ⟨typeOf⟩ := importer
  simp only [importType, Env.plain, ends_bind, ends_get, ends_set, and_assoc, exists_and_left,
    exists_eq_left]
  rcases typeOf name source position s.store with ⟨_ | found, store, notes⟩
  · simp
  · simp [eq_comm]

theorem reaches_importNames (gives : Gives importer kept terms.imported) {source : String}
    {position : Position} {names : List String} {imported : List (String × ConcreteTy)}
    (ready : Ready kept s frames) (here : (frames.map Frame.id).head? = some scope)
    (ends : Ends (importNames (Env.plain options importer) scope source position names) s
      imported t) :
    Reaches kept scope s (Frame.declare (imported.map (·.1)) frames) t ∧
      imported.map (·.1) = names ∧ (imported.map (·.1)).Nodup ∧
      ∀ frame ∈ frames.head?, ∀ name ∈ imported, name.1 ∉ frame.names ∧
        (t.desk []).BoundAs frame.id name.1 name.2.toTy true ∧
        terms.imported name.1 source position name.2 := by
  induction names generalizing s frames imported with
  | nil =>
    obtain ⟨rfl, rfl⟩ := ends_pure.1 ends
    have reaches : Reaches kept scope t frames t :=
      .of_movesTo ready (.refl ready.sound) (.refl t) ready.queue scope
    exact ⟨by simpa using reaches, rfl, by simp, by simp⟩
  | cons name rest ih =>
    simp only [importNames, ends_bind, ends_importType, ends_ofCause, ends_pure, and_assoc,
      exists_and_left, exists_eq_left] at ends
    obtain ⟨type, found, concrete, read, work, m, defines, _, m', settles, others, _, ends, rfl,
      rfl⟩ := ends
    obtain ⟨stored, imports⟩ := gives name source position s.store ready.store
    have ready' : Ready kept { s with
        store := (importer.typeOf name source position s.store).2.1
        journal := (importer.typeOf name source position s.store).2.2 ++ s.journal } frames :=
      ⟨ready.sound, ready.known, ready.queue, ready.idle, ready.bodies, stored⟩
    have binds := binds_define ready' here defines settles
    obtain ⟨reaches, given, distinct, each⟩ := ih binds.reaches.ready (by simpa using here) ends
    have type_eq := ConcreteTy.toTy_ofTy read
    have grows : Grows scope (s.desk []) (t.desk []) := binds.reaches.grows.trans reaches.grows
    cases frames with
    | nil => simp at here
    | cons frame outer =>
      have each := each _ rfl
      have newer : ∀ other ∈ others, other.1 ∉ frame.names ∧ other.1 ≠ name := by
        intro other mem
        have absent := (each other mem).1
        simpa [Frame.declare] using absent
      refine ⟨⟨?_, grows, Nat.le_trans reaches.budget binds.reaches.budget⟩, by simp [given], ?_, ?_⟩
      · have ready := reaches.ready
        rwa [Frame.declare_declare] at ready
      · rw [List.map_cons, List.nodup_cons]
        refine ⟨fun again => ?_, distinct⟩
        obtain ⟨other, mem, same⟩ := List.mem_map.1 again
        exact (newer other mem).2 same
      · intro head first entry mem
        obtain rfl : frame = head := Option.some.inj first
        rcases List.mem_cons.1 mem with rfl | later
        · obtain rfl : frame.id = scope := by simpa using here
          have keeps : (m'.desk []).BoundAs frame.id name concrete.toTy true :=
            ⟨_, binds.bound, type_eq.symm, rfl⟩
          exact ⟨binds.new frame rfl, keeps.later (by simp) reaches.grows.evolves,
            imports concrete (type_eq ▸ found)⟩
        · exact ⟨(newer entry later).1, (each entry later).2⟩

theorem exists_loop (ready : Ready kept s frames) (here : (frames.map Frame.id).head? = some scope)
    (inLoop : s.scopes.isInsideLoop scope = .ok true) :
    ∃ frame ∈ frames, s.scopes.kind? frame.id = some .loop := by
  obtain ⟨outer, ids, path⟩ := ready.known.way here
  have path : s.scopes.Path (scope :: outer) := path
  rw [path.isInsideLoop_eq] at inLoop
  obtain ⟨id, mem, loop⟩ := List.any_eq_true.1 (Except.ok.inj inLoop)
  rw [← ids] at mem
  obtain ⟨frame, known, rfl⟩ := List.mem_map.1 mem
  exact ⟨frame, known, by simpa using loop⟩

theorem reaches_leaf (gives : Gives importer kept terms.imported) {content : Leaf}
    {leaf : OutlineLeaf} (fresh : content.isFresh = true) (ready : Ready kept s frames)
    (here : (frames.map Frame.id).head? = some scope)
    (run : LeafRun (Env.plain options importer) scope content s leaf t) :
    Reaches kept scope s (Frame.declare ((t.desk []).leafNames leaf) frames) t ∧
      (t.desk []).LeafAt terms frames leaf ∧ (t.desk []).Outlined content leaf := by
  have stays : Reaches kept scope s frames s :=
    .of_movesTo ready (.refl ready.sound) (.refl s) ready.queue scope
  cases content with
  | declare d => exact reaches_declaration ready here fresh run
  | assign a =>
    cases run with | assign adds checks
    obtain ⟨rfl, rfl⟩ := ends_addDraft.1 adds
    exact reaches_assignment ready here (by simpa [Leaf.isFresh] using fresh) checks
  | returns r =>
    cases run with | returns adds checks
    obtain ⟨rfl, rfl⟩ := ends_addDraft.1 adds
    refine reaches_return ready here (fun value given => ?_) checks
    simpa [Leaf.isFresh, given] using fresh
  | evaluate e =>
    cases run with | evaluate adds checks
    obtain ⟨rfl, rfl⟩ := ends_addDraft.1 adds
    exact reaches_evaluation ready here fresh checks
  | breakLoop span | continueLoop span =>
    cases run
    exact ⟨by simpa [leafNames] using stays, exists_loop ready here ‹_›, rfl⟩
  | imports names source span =>
    cases run with | imports onTop imports
    obtain ⟨reaches, given, distinct, each⟩ := reaches_importNames gives ready here imports
    refine ⟨reaches, ⟨length_of_onTop ready here onTop, distinct, each⟩, ?_⟩
    simp [Outlined, Typed.Leaf.forget, given]
  | endOfFile =>
    cases run
    exact ⟨by simpa [leafNames] using stays, trivial, rfl⟩

end Check

end Hoist
