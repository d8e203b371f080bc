import Hoist.Check.Block
import Hoist.Proofs.Check.Sound

/-!
Where the statements of an outline stand. A frame is a block that is being checked, with the names
that its statements so far have declared; frames are listed from the inside outwards.

`Desk.TreesAt` says of a list of outlines what is known about each of them: which types stand in
the slots of its symbols, where the names it uses are bound, and which scopes its bodies have.

Main statement: what is known of a statement stays true while the file is checked
(`Desk.TreesAt.later`).
-/
namespace Hoist

structure Frame where
  id : ScopeId
  names : List String

/-- The innermost block has declared more names. -/
def Frame.declare (names : List String) : List Frame → List Frame
  | [] => []
  | frame :: outer => ⟨frame.id, frame.names ++ names⟩ :: outer

@[simp] theorem Frame.map_id_declare (names : List String) (frames : List Frame) :
    (Frame.declare names frames).map Frame.id = frames.map Frame.id := by
  cases frames <;> rfl

theorem Frame.declare_declare (names others : List String) (frames : List Frame) :
    Frame.declare others (Frame.declare names frames) = Frame.declare (names ++ others) frames := by
  cases frames <;> simp [Frame.declare]

/-- The first symbol of the expression that a simple statement is about. -/
def Work.lead (work : Work) : Option String :=
  work.valueSymbols.head?.map (·.1)

namespace Desk

variable {s t : Desk} {frames : List Frame}

/-! Frames. -/

structure Standing (s : Desk) (frames : List Frame) : Prop where
  path : s.scopes.Path (frames.map Frame.id)
  bound : ∀ frame ∈ frames, ∀ name ∈ frame.names,
    (s.scopes.binding? frame.id name).isSome = true

/-- The frames are all there is: no block has other names yet. -/
structure Exact (s : Desk) (frames : List Frame) : Prop extends Standing s frames where
  names : ∀ frame ∈ frames, ∀ name, (s.scopes.binding? frame.id name).isSome = true →
    name ∈ frame.names

/-- A frame binds a name that no frame nearer than it has declared so far. -/
def Found (s : Desk) (frames : List Frame) (name : String) (frame : Frame) (binding : Binding) :
    Prop :=
  ∃ near far, frames = near ++ frame :: far ∧ (∀ nearer ∈ near, name ∉ nearer.names) ∧
    s.scopes.binding? frame.id name = some binding

theorem Found.later {name : String} {frame : Frame} {binding : Binding}
    (found : s.Found frames name frame binding) (evolves : Evolves s t) :
    ∃ after, t.Found frames name frame after ∧ binding.Settles after := by
  obtain ⟨near, far, split, undeclared, bound⟩ := found
  obtain ⟨after, bound, settles⟩ := evolves.binding _ _ _ bound
  exact ⟨after, ⟨near, far, split, undeclared, bound⟩, settles⟩

theorem Standing.later (standing : s.Standing frames) (evolves : Evolves s t) :
    t.Standing frames where
  path := standing.path.mono evolves.parent
  bound frame mem name declared := by
    obtain ⟨before, bound⟩ := Option.isSome_iff_exists.1 (standing.bound frame mem name declared)
    obtain ⟨after, bound, _⟩ := evolves.binding _ _ _ bound
    exact Option.isSome_iff_exists.2 ⟨after, bound⟩

theorem split_frames {near far : List ScopeId} {owner : ScopeId}
    (split : frames.map Frame.id = near ++ owner :: far) :
    ∃ nearer frame farther, frames = nearer ++ frame :: farther ∧ nearer.map Frame.id = near ∧
      frame.id = owner := by
  obtain ⟨nearer, rest, rfl, same, others⟩ := List.map_eq_append_iff.1 split
  obtain ⟨frame, farther, rfl, here, _⟩ := List.map_eq_cons_iff.1 others
  exact ⟨nearer, frame, farther, rfl, same, here⟩

/-- What is supplied on the way outwards is found in some frame. -/
theorem Standing.found_of_supplies (standing : s.Standing frames) (evolves : Evolves s t)
    {scope : ScopeId} {name : String} {type : Ty}
    (here : (frames.map Frame.id).head? = some scope) (supplies : s.Supplies t scope name type) :
    ∃ frame binding, t.Found frames name frame binding ∧ binding.type = type := by
  obtain ⟨outer, near, owner, far, binding, path, split, unbound, bound, same⟩ := supplies
  obtain ⟨others, ids⟩ := List.head?_eq_some_iff.1 here
  have way := (standing.later evolves).path
  rw [ids] at way
  obtain rfl := way.unique path
  obtain ⟨nearer, frame, farther, parts, rfl, rfl⟩ := split_frames (ids.trans split)
  refine ⟨frame, binding, ⟨nearer, farther, parts, fun close mem declared => ?_, bound⟩, same⟩
  have known := standing.bound close (by simp [parts, mem]) name declared
  simp [unbound close.id (List.mem_map_of_mem mem)] at known

/-- What is read while the frames are exact has been declared before. -/
theorem Exact.found_of_reads (exact : s.Exact frames) {scope owner : ScopeId} {name : String}
    {binding : Binding} (here : (frames.map Frame.id).head? = some scope)
    (reads : s.scopes.Reads scope name owner binding) :
    ∃ frame, s.Found frames name frame binding ∧ name ∈ frame.names := by
  obtain ⟨outer, near, far, path, split, unbound, bound⟩ := reads
  obtain ⟨others, ids⟩ := List.head?_eq_some_iff.1 here
  have way := exact.path
  rw [ids] at way
  obtain rfl := way.unique path
  obtain ⟨nearer, frame, farther, parts, rfl, rfl⟩ := split_frames (ids.trans split)
  refine ⟨frame, ⟨nearer, farther, parts, fun close mem declared => ?_, bound⟩, ?_⟩
  · have known := exact.bound close (by simp [parts, mem]) name declared
    simp [unbound close.id (List.mem_map_of_mem mem)] at known
  · exact exact.names frame (by simp [parts]) name (by simp [bound])

/-! Simple statements. -/

/-- The scope binds the name, as a variable or a constant of this type. -/
def BoundAs (s : Desk) (scope : ScopeId) (name : String) (type : Ty) (constant : Bool) : Prop :=
  ∃ binding, s.scopes.binding? scope name = some binding ∧ binding.type = type ∧
    binding.constant = constant

theorem BoundAs.later {scope : ScopeId} {name : String} {type : Ty} {constant : Bool}
    (keeps : s.BoundAs scope name type constant) (concrete : type.isConcrete = true)
    (evolves : Evolves s t) : t.BoundAs scope name type constant := by
  obtain ⟨binding, bound, rfl, rfl⟩ := keeps
  obtain ⟨after, bound, settles⟩ := evolves.binding _ _ _ bound
  exact ⟨after, bound, settles.known concrete, settles.constant⟩

/-- What a statement needs of the block it stands in. -/
def Placed (s : Desk) (frames : List Frame) : Work.Head → Prop
  | .declaration name _ _ exported =>
    (∀ frame ∈ frames.head?, name ∉ frame.names) ∧ (exported = true → frames.length = 1)
  | .assignment root bare _ => ∃ frame binding, s.Found frames root frame binding ∧
      root ∈ frame.names ∧ (bare = true → binding.constant = false)
  | .returns _ | .evaluation => True

theorem Placed.later {head : Work.Head} (placed : s.Placed frames head) (evolves : Evolves s t) :
    t.Placed frames head := by
  cases head with
  | declaration name constant written exported => exact placed
  | returns | evaluation => trivial
  | assignment root bare op =>
    obtain ⟨frame, binding, found, declared, free⟩ := placed
    obtain ⟨after, found, settles⟩ := found.later evolves
    exact ⟨frame, after, found, declared, fun isBare => settles.constant.trans (free isBare)⟩

structure DraftAt (s : Desk) (frames : List Frame) (id : DraftId) (d : Draft) : Prop where
  here : (frames.map Frame.id).head? = some d.scope
  /-- What stands on a symbol is the type of a binding that nobody had hidden so far. -/
  symbols : ∀ symbol ∈ d.work.symbols, symbol.2.isConcrete = true →
    ∃ frame binding, s.Found frames symbol.1 frame binding ∧ binding.type = symbol.2 ∧
      (d.work.declares = some symbol.1 → symbol.1 ∈ frame.names)
  /-- The first symbol, if nobody has declared it yet, has to be a function. -/
  lead : ∀ name, d.work.lead = some name → d.work.declares ≠ some name →
    (∀ frame ∈ frames, name ∉ frame.names) → s.Guarded id name
  placed : s.Placed frames d.work.head

theorem Redrafts.symbols {before after : Draft} (redrafts : s.Redrafts t before after) :
    List.Forall₂ (s.Fills t before) before.work.symbols after.work.symbols :=
  List.rel_append redrafts.target redrafts.value

theorem Redrafts.lead {before after : Draft} (redrafts : s.Redrafts t before after) :
    after.work.lead = before.work.lead := by
  have values := redrafts.value
  unfold Work.lead
  generalize before.work.valueSymbols = old at values ⊢
  generalize after.work.valueSymbols = new at values ⊢
  cases values with
  | nil => rfl
  | cons first _ => simp [first.1]

theorem DraftAt.later {id : DraftId} {d e : Draft} (located : s.DraftAt frames id d)
    (evolves : Evolves s t) (standing : s.Standing frames) (redrafts : s.Redrafts t d e) :
    t.DraftAt frames id e where
  here := by rw [redrafts.scope, located.here]
  symbols symbol mem concrete := by
    obtain ⟨before, mem, name, slot⟩ := exists_of_forall₂ redrafts.symbols mem
    rw [name, Work.declares_of_head redrafts.head]
    rcases slot with same | ⟨empty, filled, other, supplies⟩
    · obtain ⟨frame, binding, found, type, own⟩ := located.symbols before mem (same ▸ concrete)
      obtain ⟨after, found, settles⟩ := found.later evolves
      refine ⟨frame, after, found, ?_, own⟩
      rw [settles.known (type ▸ same ▸ concrete), type, same]
    · obtain ⟨frame, binding, found, type⟩ :=
        standing.found_of_supplies evolves located.here supplies
      exact ⟨frame, binding, found, type, fun own => absurd own other⟩
  lead name first other undeclared := by
    rw [redrafts.lead] at first
    rw [Work.declares_of_head redrafts.head] at other
    exact evolves.guarded id name (located.lead name first other undeclared)
  placed := by
    rw [redrafts.head]
    exact located.placed.later evolves

/-! Outlines. Imported names are those that `imported` says something about, and loops may have to
have the condition `true`. -/

/-- The symbols of a condition have the types of the bindings that are visible. -/
structure ConditionAt (s : Desk) (frames : List Frame) (condition : Typed.Expr) : Prop where
  well : condition.WellTyped
  boolean : condition.type = .boolean
  symbols : ∀ symbol ∈ condition.symbols, ∃ frame binding,
    s.Found frames symbol.1 frame binding ∧ symbol.1 ∈ frame.names ∧ binding.type = symbol.2.toTy

theorem ConditionAt.later {condition : Typed.Expr} (located : s.ConditionAt frames condition)
    (evolves : Evolves s t) : t.ConditionAt frames condition where
  well := located.well
  boolean := located.boolean
  symbols symbol mem := by
    obtain ⟨frame, binding, found, declared, type⟩ := located.symbols symbol mem
    obtain ⟨after, found, settles⟩ := found.later evolves
    refine ⟨frame, after, found, declared, ?_⟩
    rw [settles.known (by simp [type]), type]

/-- What checking asks of the world outside: which types imported names have, and whether a loop
must have the condition `true`. -/
structure Terms where
  imported : String → String → Position → ConcreteTy → Prop
  literalTrue : Bool

variable (terms : Terms)

def ImportsAt (s : Desk) (frames : List Frame) (names : List (String × ConcreteTy))
    (source : String) (span : Span) : Prop :=
  frames.length = 1 ∧ (names.map (·.1)).Nodup ∧
    ∀ frame ∈ frames.head?, ∀ name ∈ names, name.1 ∉ frame.names ∧
      s.BoundAs frame.id name.1 name.2.toTy true ∧ terms.imported name.1 source span.start name.2

def LeafAt (s : Desk) (frames : List Frame) : OutlineLeaf → Prop
  | .draft id => ∃ d, s.drafts[id]? = some d ∧ s.DraftAt frames id d
  | .plain (.imports names source span) => s.ImportsAt terms frames names source span
  | .plain (.breakLoop _) | .plain (.continueLoop _) =>
    ∃ frame ∈ frames, s.scopes.kind? frame.id = some .loop
  | .plain .endOfFile => True
  | .plain _ => False

/-- The names that a statement adds to its block. -/
def leafNames (s : Desk) : OutlineLeaf → List String
  | .draft id => (s.drafts[id]?.bind (·.work.declares)).toList
  | .plain (.imports names _ _) => names.map (·.1)
  | .plain _ => []

def names (s : Desk) : Outline → List String
  | .leaf leaf => s.leafNames leaf
  | .function id _ => (s.signatures[id]?.map (·.signature.name)).toList
  | _ => []

def namesOf (s : Desk) (outlines : List Outline) : List String :=
  outlines.flatMap s.names

/-- A scope inside the innermost frame, whose checking is over. -/
structure Inner (s : Desk) (frames : List Frame) (kind : BlockKind) (names : List String)
    (id : ScopeId) : Prop where
  path : s.scopes.Path (id :: frames.map Frame.id)
  kind : s.scopes.kind? id = some kind
  names : ∀ name, (s.scopes.binding? id name).isSome = true ↔ name ∈ names

structure HeadAt (s : Desk) (frames : List Frame) (h : SignatureDraft) : Prop where
  here : (frames.map Frame.id).head? = some h.scope
  top : frames.length = 1
  free : ∀ frame ∈ frames.head?, h.signature.name ∉ frame.names
  parameters : Check.checkParameters [] h.signature.parameters = .ok ()
  keeps : ∀ parameter ∈ h.signature.parameters, parameter.2.isConcrete = true ∧
    s.BoundAs h.body parameter.1 parameter.2 false

mutual

def TreeAt (s : Desk) (frames : List Frame) : Outline → Prop
  | .leaf leaf => s.LeafAt terms frames leaf
  | .branch condition body _ rest => s.ConditionAt frames condition ∧
      (∃ id, s.Inner frames .block (s.namesOf body) id ∧ TreesAt s (⟨id, []⟩ :: frames) body) ∧
      ChainAt s frames rest
  | .loop condition body _ =>
      (s.ConditionAt frames condition ∧ (terms.literalTrue = true → condition = .boolean true)) ∧
      ∃ id, s.Inner frames .loop (s.namesOf body) id ∧ TreesAt s (⟨id, []⟩ :: frames) body
  | .function id body => ∃ h, s.signatures[id]? = some h ∧ s.HeadAt frames h ∧
      s.Inner frames .function (h.signature.parameters.map (·.1) ++ s.namesOf body) h.body ∧
      TreesAt s (⟨h.body, h.signature.parameters.map (·.1)⟩ :: frames) body

def ChainAt (s : Desk) (frames : List Frame) : OutlineChain → Prop
  | .done => True
  | .otherwise body _ =>
    ∃ id, s.Inner frames .block (s.namesOf body) id ∧ TreesAt s (⟨id, []⟩ :: frames) body
  | .elseIf condition body _ rest => s.ConditionAt frames condition ∧
      (∃ id, s.Inner frames .block (s.namesOf body) id ∧ TreesAt s (⟨id, []⟩ :: frames) body) ∧
      ChainAt s frames rest

def TreesAt (s : Desk) (frames : List Frame) : List Outline → Prop
  | [] => True
  | tree :: rest => TreeAt s frames tree ∧ TreesAt s (Frame.declare (s.names tree) frames) rest

end

/-! What is known stays true. -/

/-- Names come only to the scope `here`, and to scopes that were not there before. -/
structure Grows (here : ScopeId) (s t : Desk) : Prop where
  evolves : Evolves s t
  names : ∀ id name, id ≠ here → (s.scopes.parent? id).isSome = true →
    (t.scopes.binding? id name).isSome = true → (s.scopes.binding? id name).isSome = true

theorem Grows.trans {here : ScopeId} {m : Desk} (first : Grows here s m) (second : Grows here m t) :
    Grows here s t where
  evolves := first.evolves.trans second.evolves
  names id name other inside bound := by
    obtain ⟨parent, found⟩ := Option.isSome_iff_exists.1 inside
    refine first.names id name other inside (second.names id name other ?_ bound)
    simp [first.evolves.parent id parent found]

theorem MovesTo.grows (moves : MovesTo s t) (here : ScopeId) : Grows here s t :=
  ⟨moves.evolves, fun id name _ _ bound => moves.steady.named id name ▸ bound⟩

theorem Standing.of_declare {names : List String} (standing : s.Standing (Frame.declare names frames)) :
    s.Standing frames := by
  obtain ⟨path, bound⟩ := standing
  refine ⟨by simpa using path, fun frame mem name declared => ?_⟩
  cases frames with
  | nil => simp at mem
  | cons first outer =>
    rcases List.mem_cons.1 mem with rfl | outside
    · exact bound ⟨frame.id, frame.names ++ names⟩ List.mem_cons_self name
        (List.mem_append_left _ declared)
    · exact bound frame (List.mem_cons_of_mem _ outside) name declared

theorem Inner.standing {kind : BlockKind} {names declared : List String} {id : ScopeId}
    (inner : s.Inner frames kind names id) (standing : s.Standing frames)
    (known : ∀ name ∈ declared, name ∈ names) : s.Standing (⟨id, declared⟩ :: frames) := by
  refine ⟨inner.path, fun frame mem name mem' => ?_⟩
  rcases List.mem_cons.1 mem with rfl | outside
  · exact (inner.names name).2 (known name mem')
  · exact standing.bound frame outside name mem'

/-- The scope of a body is younger than the block it stands in. -/
theorem Inner.lt {kind : BlockKind} {names : List String} {id : ScopeId}
    (inner : s.Inner frames kind names id) (standing : s.Standing frames) {here : ScopeId}
    (inside : ∀ frame ∈ frames.head?, here ≤ frame.id) : here < id := by
  cases frames with
  | nil => exact standing.path.elim
  | cons frame outer => exact Nat.lt_of_le_of_lt (inside frame rfl) inner.path.2.1

theorem Inner.later {kind : BlockKind} {names : List String} {id : ScopeId}
    (inner : s.Inner frames kind names id) {here : ScopeId} (grows : Grows here s t)
    (young : here < id) : t.Inner frames kind names id where
  path := inner.path.mono grows.evolves.parent
  kind := grows.evolves.kind _ _ inner.kind
  names name := by
    rw [← inner.names name]
    constructor
    · exact grows.names id name (Nat.ne_of_gt young) (by simp [inner.path.parent?_eq])
    · intro known
      obtain ⟨binding, bound⟩ := Option.isSome_iff_exists.1 known
      obtain ⟨after, bound, _⟩ := grows.evolves.binding _ _ _ bound
      simp [bound]

variable {terms}

theorem LeafAt.later {leaf : OutlineLeaf} (located : s.LeafAt terms frames leaf)
    (evolves : Evolves s t) (standing : s.Standing frames) :
    t.LeafAt terms frames leaf ∧ t.leafNames leaf = s.leafNames leaf := by
  cases leaf with
  | draft id =>
    obtain ⟨d, found, located⟩ := located
    obtain ⟨e, found', redrafts⟩ := evolves.draft id d found
    refine ⟨⟨e, found', located.later evolves standing redrafts⟩, ?_⟩
    simp [leafNames, found, found', Work.declares_of_head redrafts.head]
  | plain leaf =>
    cases leaf with
    | declare | assign | returns | evaluate => exact located.elim
    | endOfFile => exact ⟨trivial, rfl⟩
    | breakLoop | continueLoop =>
      obtain ⟨frame, mem, loop⟩ := located
      exact ⟨⟨frame, mem, evolves.kind _ _ loop⟩, rfl⟩
    | imports names source span =>
      obtain ⟨top, distinct, each⟩ := located
      refine ⟨⟨top, distinct, fun frame here name mem => ?_⟩, rfl⟩
      obtain ⟨free, keeps, imported⟩ := each frame here name mem
      exact ⟨free, keeps.later (by simp) evolves, imported⟩

theorem HeadAt.later {h after : SignatureDraft} (located : s.HeadAt frames h)
    (evolves : Evolves s t) (same : after.head = h.head) :
    t.HeadAt frames after ∧ after.body = h.body ∧
      after.signature.parameters = h.signature.parameters ∧
      after.signature.name = h.signature.name := by
  obtain ⟨scope, body, signature⟩ := after
  obtain ⟨scope', body', signature'⟩ := h
  simp only [SignatureDraft.head, SignatureDraft.mk.injEq, Signature.mk.injEq] at same
  obtain ⟨rfl, rfl, name, parameters, -, -, -⟩ := same
  obtain ⟨here, top, free, checked, keeps⟩ := located
  simp only at *
  refine ⟨⟨here, top, by simpa only [name] using free, by simpa only [parameters] using checked,
    fun parameter mem => ?_⟩, trivial, parameters, name⟩
  obtain ⟨concrete, kept⟩ := keeps parameter (parameters ▸ mem)
  exact ⟨concrete, kept.later concrete evolves⟩

theorem TreeAt.names_later {tree : Outline} (located : s.TreeAt terms frames tree)
    (evolves : Evolves s t) (standing : s.Standing frames) : t.names tree = s.names tree := by
  cases tree with
  | leaf leaf =>
    rw [TreeAt] at located
    exact (located.later evolves standing).2
  | branch | loop => rfl
  | function id body =>
    rw [TreeAt] at located
    obtain ⟨h, found, located, _⟩ := located
    obtain ⟨after, found', same⟩ := evolves.head id h found
    simp [names, found, found', (located.later evolves same).2.2.2]

theorem TreesAt.namesOf_later {outlines : List Outline} (located : s.TreesAt terms frames outlines)
    (evolves : Evolves s t)
    (standing : s.Standing (Frame.declare (s.namesOf outlines) frames)) :
    t.namesOf outlines = s.namesOf outlines := by
  induction outlines generalizing frames with
  | nil => rfl
  | cons tree rest ih =>
    rw [TreesAt] at located
    have here := located.1.names_later evolves standing.of_declare
    have others := ih located.2 (by simpa [Frame.declare_declare, namesOf] using standing)
    simp only [namesOf, List.flatMap_cons] at others ⊢
    rw [here, others]

/-- A body is still where it was. -/
theorem body_later {here id : ScopeId} {kind : BlockKind} {declared : List String}
    {body : List Outline} (grows : Grows here s t)
    (inside : ∀ frame ∈ frames.head?, here ≤ frame.id) (standing : s.Standing frames)
    (inner : s.Inner frames kind (declared ++ s.namesOf body) id)
    (located : s.TreesAt terms (⟨id, declared⟩ :: frames) body)
    (trees : (∀ frame ∈ List.head? (⟨id, declared⟩ :: frames), here ≤ frame.id) →
      s.Standing (Frame.declare (s.namesOf body) (⟨id, declared⟩ :: frames)) →
      t.TreesAt terms (⟨id, declared⟩ :: frames) body) :
    t.Inner frames kind (declared ++ t.namesOf body) id ∧
      t.TreesAt terms (⟨id, declared⟩ :: frames) body := by
  have young := inner.lt standing inside
  have stands : s.Standing (Frame.declare (s.namesOf body) (⟨id, declared⟩ :: frames)) :=
    inner.standing standing fun _ mem => mem
  rw [located.namesOf_later grows.evolves stands]
  refine ⟨inner.later grows young, trees ?_ stands⟩
  intro frame first
  obtain rfl : _ = frame := Option.some.inj first
  exact Nat.le_of_lt young

mutual

theorem TreeAt.later {here : ScopeId} (grows : Grows here s t) : ∀ {frames : List Frame}
    {tree : Outline}, (∀ frame ∈ frames.head?, here ≤ frame.id) → s.Standing frames →
    s.TreeAt terms frames tree → t.TreeAt terms frames tree
  | _, .leaf _, _, standing, located => by
    rw [TreeAt] at located ⊢
    exact (located.later grows.evolves standing).1
  | _, .branch _ body _ rest, inside, standing, located => by
    rw [TreeAt] at located ⊢
    obtain ⟨condition, ⟨id, inner, trees⟩, chain⟩ := located
    exact ⟨condition.later grows.evolves,
      ⟨id, body_later grows inside standing inner trees fun inside stands =>
        TreesAt.later grows inside stands trees⟩, ChainAt.later grows inside standing chain⟩
  | _, .loop _ body _, inside, standing, located => by
    rw [TreeAt] at located ⊢
    obtain ⟨⟨condition, literal⟩, id, inner, trees⟩ := located
    exact ⟨⟨condition.later grows.evolves, literal⟩,
      id, body_later grows inside standing inner trees fun inside stands =>
        TreesAt.later grows inside stands trees⟩
  | _, .function id body, inside, standing, located => by
    rw [TreeAt] at located ⊢
    obtain ⟨h, found, head, inner, trees⟩ := located
    obtain ⟨after, found', same⟩ := grows.evolves.head id h found
    obtain ⟨head, sameBody, parameters, _⟩ := head.later grows.evolves same
    refine ⟨after, found', head, ?_⟩
    rw [sameBody, parameters]
    exact body_later grows inside standing inner trees fun inside stands =>
      TreesAt.later grows inside stands trees

theorem ChainAt.later {here : ScopeId} (grows : Grows here s t) : ∀ {frames : List Frame}
    {chain : OutlineChain}, (∀ frame ∈ frames.head?, here ≤ frame.id) → s.Standing frames →
    s.ChainAt terms frames chain → t.ChainAt terms frames chain
  | _, .done, _, _, _ => by rw [ChainAt]; trivial
  | _, .otherwise body _, inside, standing, located => by
    rw [ChainAt] at located ⊢
    obtain ⟨id, inner, trees⟩ := located
    exact ⟨id, body_later grows inside standing inner trees fun inside stands =>
      TreesAt.later grows inside stands trees⟩
  | _, .elseIf _ body _ rest, inside, standing, located => by
    rw [ChainAt] at located ⊢
    obtain ⟨condition, ⟨id, inner, trees⟩, chain⟩ := located
    exact ⟨condition.later grows.evolves,
      ⟨id, body_later grows inside standing inner trees fun inside stands =>
        TreesAt.later grows inside stands trees⟩, ChainAt.later grows inside standing chain⟩

theorem TreesAt.later {here : ScopeId} (grows : Grows here s t) : ∀ {frames : List Frame}
    {outlines : List Outline}, (∀ frame ∈ frames.head?, here ≤ frame.id) →
    s.Standing (Frame.declare (s.namesOf outlines) frames) →
    s.TreesAt terms frames outlines → t.TreesAt terms frames outlines
  | _, [], _, _, _ => by rw [TreesAt]; trivial
  | frames, tree :: rest, inside, standing, located => by
    rw [TreesAt] at located ⊢
    have stands : s.Standing frames := standing.of_declare
    refine ⟨TreeAt.later grows inside stands located.1, ?_⟩
    rw [located.1.names_later grows.evolves stands]
    refine TreesAt.later grows ?_ ?_ located.2
    · cases frames with
      | nil => exact inside
      | cons frame outer =>
        intro other first
        obtain rfl : _ = other := Option.some.inj first
        exact inside frame rfl
    · simpa [Frame.declare_declare, namesOf] using standing

end

end Desk

end Hoist
