import Mathlib.Algebra.GroupWithZero.Nat
import Hoist.Proofs.Check.Leaves

/-!
Bodies of statements. Each is checked in a scope of its own; when it is left, the names in that
scope are those that its statements have declared.

Main statements: the parts of an `if` chain and loops leave the checker ready if their bodies do
(`reaches_arm`, `reaches_loop`).
-/
namespace Hoist

/-! The simple statements in a list of statements, first to last. -/

mutual

def Stmt.leaves : Stmt → List Leaf
  | .leaf content => [content]
  | .branch _ body _ | .elseIf _ body _ | .otherwise body _ | .loop _ body _
  | .function _ body => Stmt.allLeaves body

def Stmt.allLeaves : List Stmt → List Leaf
  | [] => []
  | stmt :: rest => Stmt.leaves stmt ++ Stmt.allLeaves rest

end

/-! Outlines and checked files: their simple statements, and the number of all their statements,
with one for each part of an `if` chain. -/

namespace Typed

variable {α φ : Type}

mutual

def Tree.leaves : Tree α φ → List α
  | .leaf content => [content]
  | .branch _ body _ rest => Tree.allLeaves body ++ Chain.leaves rest
  | .loop _ body _ | .function _ body => Tree.allLeaves body

def Chain.leaves : Chain α φ → List α
  | .done => []
  | .otherwise body _ => Tree.allLeaves body
  | .elseIf _ body _ rest => Tree.allLeaves body ++ Chain.leaves rest

def Tree.allLeaves : List (Tree α φ) → List α
  | [] => []
  | tree :: rest => Tree.leaves tree ++ Tree.allLeaves rest

end

theorem Tree.allLeaves_append (before after : List (Tree α φ)) :
    Tree.allLeaves (before ++ after) = Tree.allLeaves before ++ Tree.allLeaves after := by
  induction before with
  | nil => simp [Tree.allLeaves]
  | cons tree rest ih => simp [Tree.allLeaves, ih]

mutual

def Tree.count : Tree α φ → Nat
  | .leaf _ => 1
  | .branch _ body _ rest => 1 + Tree.countAll body + Chain.count rest
  | .loop _ body _ => 1 + Tree.countAll body
  | .function _ body => 1 + Tree.countAll body

def Chain.count : Chain α φ → Nat
  | .done => 0
  | .otherwise body _ => 1 + Tree.countAll body
  | .elseIf _ body _ rest => 1 + Tree.countAll body + Chain.count rest

def Tree.countAll : List (Tree α φ) → Nat
  | [] => 0
  | tree :: rest => Tree.count tree + Tree.countAll rest

end

theorem Tree.countAll_append (before after : List (Tree α φ)) :
    Tree.countAll (before ++ after) = Tree.countAll before + Tree.countAll after := by
  induction before with
  | nil => simp [Tree.countAll]
  | cons tree rest ih =>
    simp only [List.cons_append, Tree.countAll, ih]
    omega

end Typed

namespace Desk

variable {s t : Desk} {terms : Terms} {frames : List Frame}

theorem namesOf_append (s : Desk) (before after : List Outline) :
    s.namesOf (before ++ after) = s.namesOf before ++ s.namesOf after := by
  simp [namesOf]

theorem treesAt_append {before after : List Outline} :
    s.TreesAt terms frames (before ++ after) ↔ s.TreesAt terms frames before ∧
      s.TreesAt terms (Frame.declare (s.namesOf before) frames) after := by
  induction before generalizing frames with
  | nil => simp [TreesAt, namesOf]
  | cons tree rest ih =>
    rw [List.cons_append, TreesAt, TreesAt, ih, Frame.declare_declare, and_assoc]
    rfl

theorem treesAt_singleton {tree : Outline} :
    s.TreesAt terms frames [tree] ↔ s.TreeAt terms frames tree := by
  simp [TreesAt]

/-- Names in a new scope are no names in those that were there. -/
theorem Grows.leave {m : Desk} {inner : ScopeId} (made : Grows inner s m)
    (grows : Grows inner m t) (new : s.scopes.parent? inner = none) (here : ScopeId) :
    Grows here s t := by
  have whole := made.trans grows
  refine ⟨whole.evolves, fun id name _ inside bound => ?_⟩
  refine whole.names id name (fun clash => ?_) inside bound
  simp [clash, new] at inside

/-! Chains that are still open. -/

def ArmAt (s : Desk) (terms : Terms) (frames : List Frame) (arm : Arm) : Prop :=
  s.ConditionAt frames arm.condition ∧
    ∃ id, s.Inner frames .block (s.namesOf arm.body) id ∧
      s.TreesAt terms (⟨id, []⟩ :: frames) arm.body

def OpenAt (s : Desk) (terms : Terms) (frames : List Frame) (chain : Option OpenChain) : Prop :=
  ∀ open_ ∈ chain, s.ArmAt terms frames open_.first ∧
    ∀ arm ∈ open_.elseIfs, s.ArmAt terms frames arm

theorem ArmAt.later {arm : Arm} {here : ScopeId} (located : s.ArmAt terms frames arm)
    (grows : Grows here s t) (inside : ∀ frame ∈ frames.head?, here ≤ frame.id)
    (standing : s.Standing frames) : t.ArmAt terms frames arm := by
  obtain ⟨condition, id, inner, trees⟩ := located
  exact ⟨condition.later grows.evolves, id,
    body_later grows inside standing inner trees fun inside stands => trees.later grows inside stands⟩

theorem OpenAt.later {chain : Option OpenChain} {here : ScopeId}
    (located : s.OpenAt terms frames chain) (grows : Grows here s t)
    (inside : ∀ frame ∈ frames.head?, here ≤ frame.id) (standing : s.Standing frames) :
    t.OpenAt terms frames chain := by
  intro open_ isOpen
  obtain ⟨first, rest⟩ := located open_ isOpen
  exact ⟨first.later grows inside standing, fun arm mem => (rest arm mem).later grows inside standing⟩

theorem treeAt_close {chain : OpenChain} {last : OutlineChain}
    (first : s.ArmAt terms frames chain.first)
    (rest : ∀ arm ∈ chain.elseIfs, s.ArmAt terms frames arm)
    (ends : s.ChainAt terms frames last) : s.TreeAt terms frames (chain.close last) := by
  have links : ∀ arms : List Arm, (∀ arm ∈ arms, s.ArmAt terms frames arm) →
      s.ChainAt terms frames (Arm.link last arms) := by
    intro arms located
    induction arms with
    | nil => exact ends
    | cons arm others ih =>
      obtain ⟨condition, body⟩ := located arm List.mem_cons_self
      rw [Arm.link, ChainAt]
      exact ⟨condition, body, ih fun other mem => located other (List.mem_cons_of_mem _ mem)⟩
  rw [OpenChain.close, TreeAt]
  exact ⟨first.1, first.2, links chain.elseIfs rest⟩

end Desk

/-- How many statements an open chain has. -/
def OpenChain.count (chain : OpenChain) : Nat :=
  1 + Typed.Tree.countAll chain.first.body +
    (chain.elseIfs.map fun arm => 1 + Typed.Tree.countAll arm.body).sum

theorem OpenChain.count_close (chain : OpenChain) (last : OutlineChain) :
    (chain.close last).count = chain.count + last.count := by
  have links : ∀ arms : List Arm, (Arm.link last arms).count =
      (arms.map fun arm => 1 + Typed.Tree.countAll arm.body).sum + last.count := by
    intro arms
    induction arms with
    | nil => simp [Arm.link]
    | cons arm others ih =>
      simp only [Arm.link, Typed.Chain.count, ih, List.map_cons, List.sum_cons]
      omega
  simp only [OpenChain.close, Typed.Tree.count, links, OpenChain.count]
  omega

theorem OpenChain.count_extend (chain : OpenChain) (arm : Arm) :
    (chain.extend arm).count = chain.count + (1 + Typed.Tree.countAll arm.body) := by
  simp only [OpenChain.count, OpenChain.extend, List.map_append, List.map_cons, List.map_nil,
    List.sum_append, List.sum_cons, List.sum_nil]
  omega

/-- The simple statements of an open chain. -/
def OpenChain.leaves (chain : OpenChain) : List OutlineLeaf :=
  Typed.Tree.allLeaves chain.first.body ++
    chain.elseIfs.flatMap fun arm => Typed.Tree.allLeaves arm.body

theorem OpenChain.leaves_close (chain : OpenChain) (last : OutlineChain) :
    (chain.close last).leaves = chain.leaves ++ last.leaves := by
  have links : ∀ arms : List Arm, (Arm.link last arms).leaves =
      (arms.flatMap fun arm => Typed.Tree.allLeaves arm.body) ++ last.leaves := by
    intro arms
    induction arms with
    | nil => simp [Arm.link]
    | cons arm others ih => simp [Arm.link, Typed.Chain.leaves, ih]
  simp [OpenChain.close, Typed.Tree.leaves, links, OpenChain.leaves]

theorem OpenChain.leaves_extend (chain : OpenChain) (arm : Arm) :
    (chain.extend arm).leaves = chain.leaves ++ Typed.Tree.allLeaves arm.body := by
  simp [OpenChain.leaves, OpenChain.extend]

/-- The leaves have come of these statements, one of each. -/
def Desk.AllOutlined (s : Desk) (content : List Leaf) (leaves : List OutlineLeaf) : Prop :=
  List.Forall₂ s.Outlined content leaves

theorem Desk.AllOutlined.later {s t : Desk} {content : List Leaf} {leaves : List OutlineLeaf}
    (outlined : s.AllOutlined content leaves) (evolves : Evolves s t) :
    t.AllOutlined content leaves :=
  outlined.imp fun _ _ each => each.later evolves

namespace Check

open Desk

variable {σ : Type} {kept : σ → Prop} {s m t : Checker Empty σ} {frames : List Frame}
  {terms : Terms} {scope : ScopeId}

/-! Bodies. -/

theorem Reaches.refl (ready : Ready kept s frames) (here : ScopeId) :
    Reaches kept here s frames s :=
  .of_movesTo ready (.refl ready.sound) (.refl s) ready.queue here

theorem Reaches.trans {between after : List Frame} (first : Reaches kept scope s between m)
    (second : Reaches kept scope m after t) : Reaches kept scope s after t :=
  ⟨second.ready, first.grows.trans second.grows, Nat.le_trans second.budget first.budget⟩

/-- A new scope is empty. -/
theorem reaches_create {kind : ScopeKind} {inner : ScopeId} (ready : Ready kept s frames)
    (here : (frames.map Frame.id).head? = some scope)
    (creates : Ends (createScope (some scope) kind) s inner m) (place : ScopeId) :
    Reaches kept place s (⟨inner, []⟩ :: frames) m := by
  obtain ⟨rfl, rfl⟩ := ends_createScope.1 creates
  have created := s.scopes.created_create scope kind
  obtain ⟨outer, ids, path⟩ := ready.known.way here
  have path : s.scopes.Path (scope :: outer) := path
  have extended := extends_created (s := s.desk []) created
  have sound := extended.sound ready.sound (created.rooted ready.sound.rooted path.inside)
  have old : ∀ frame ∈ frames, ∀ name, ((s.scopes.create (some scope) kind).binding? frame.id
      name).isSome = (s.scopes.binding? frame.id name).isSome := by
    intro frame _ name
    rw [created.bindings]
  have nothing : ∀ name, s.scopes.binding? s.scopes.size name = none := by
    intro name
    cases bound : s.scopes.binding? s.scopes.size name with
    | none => rfl
    | some binding => exact absurd (Scopes.lt_size_of_binding? bound) (Nat.lt_irrefl _)
  have exact : Exact { s.desk [] with scopes := s.scopes.create (some scope) kind }
      (⟨s.scopes.size, []⟩ :: frames) := by
    refine ⟨⟨?_, fun frame mem name declared => ?_⟩, fun frame mem name bound => ?_⟩
    · show Scopes.Path _ (_ :: frames.map Frame.id)
      rw [ids]
      exact created.path path
    · rcases List.mem_cons.1 mem with rfl | outside
      · simp at declared
      · exact (old frame outside name).trans (ready.known.bound frame outside name declared)
    · rcases List.mem_cons.1 mem with rfl | outside
      · have bound : ((s.scopes.create (some scope) kind).binding? s.scopes.size name).isSome = true :=
          bound
        rw [created.bindings, nothing] at bound
        simp at bound
      · exact ready.known.names frame outside name ((old frame outside name).symm.trans bound)
  have bodies : ∀ h ∈ s.signatures, h.body ∉ s.scopes.size :: frames.map Frame.id := by
    intro h mem inside
    obtain ⟨id, found⟩ := List.mem_iff_getElem?.1 mem
    rcases List.mem_cons.1 inside with clash | outside
    · obtain ⟨inner, known, _⟩ := Option.map_eq_some_iff.1 (ready.sound.heads id h found).1
      exact absurd clash (Nat.ne_of_lt (Scopes.lt_size_of_get known))
    · exact ready.bodies h mem outside
  refine ⟨⟨sound, exact, ready.queue, ready.idle, bodies, ready.store⟩,
    ⟨extended.evolves, fun id name _ _ bound => ?_⟩, Nat.le_refl _⟩
  have bound : ((s.scopes.create (some scope) kind).binding? id name).isSome = true := bound
  rwa [created.bindings] at bound

theorem Ready.outer {inner : Frame} (ready : Ready kept s (inner :: frames))
    (around : frames ≠ []) : Ready kept s frames where
  sound := ready.sound
  known := by
    obtain ⟨⟨path, bound⟩, names⟩ := ready.known
    refine ⟨⟨?_, fun frame mem => bound frame (List.mem_cons_of_mem _ mem)⟩,
      fun frame mem => names frame (List.mem_cons_of_mem _ mem)⟩
    cases frames with
    | nil => exact absurd rfl around
    | cons frame outer => exact path.tail
  queue := ready.queue
  idle := ready.idle
  bodies h mem inside := ready.bodies h mem (List.mem_cons_of_mem _ inside)
  store := ready.store

theorem parent?_size (scopes : Scopes (Deferral Empty)) : scopes.parent? scopes.size = none := by
  cases found : scopes.parent? scopes.size with
  | none => rfl
  | some parent => exact absurd (Scopes.lt_size_of_parent? found) (Nat.lt_irrefl _)

/-- What a scope says of its names once its checking is over. -/
theorem Ready.inner {inner : Frame} (ready : Ready kept t (inner :: frames)) {kind : BlockKind}
    (is : t.scopes.kind? inner.id = some kind) :
    (t.desk []).Inner frames kind inner.names inner.id where
  path := ready.known.path
  kind := is
  names name := ⟨ready.known.names inner List.mem_cons_self name,
    ready.known.bound inner List.mem_cons_self name⟩

/-! Conditions. -/

theorem conditionAt_of_look {d : Desk} (ready : Ready kept s frames)
    (here : (frames.map Frame.id).head? = some scope) {condition after : Expr} {typed : Typed.Expr}
    (fresh : condition.isFresh = true)
    (look : condition.resolve (s.scopes.view scope) = (.ok .boolean, after))
    (read : Typed.Expr.ofExpr after = .ok typed) (evolves : Evolves (s.desk []) d) :
    d.ConditionAt frames typed := by
  obtain ⟨well, type⟩ := Expr.resolve_ofExpr (Expr.faithful_of_isFresh fresh) look read
  have keeps := Expr.resolve_keeps (s.scopes.view scope) condition
  rw [look] at keeps
  refine ⟨well, ?_, fun symbol mem => ?_⟩
  · cases kind : typed.type <;> simp [kind, ConcreteTy.toTy] at type
    rfl
  · have plain : (symbol.1, symbol.2.toTy) ∈ after.symbols := by
      rw [← Typed.Expr.toExpr_ofExpr read, Typed.Expr.symbols_toExpr]
      exact List.mem_map_of_mem mem
    obtain ⟨frame, binding, found, type, declared⟩ := found_of_look ready.known ready.sound.rooted
      here evolves (Expr.empty_of_isFresh fresh) keeps _ plain (by simp)
    exact ⟨frame, binding, found, declared, type⟩

/-- What checking a body does, whatever is around it. -/
def Walks (terms : Terms) (kept : σ → Prop) (body : List Stmt) (scope : ScopeId)
    (s : Checker Empty σ) (outlines : List Outline) (t : Checker Empty σ) : Prop :=
  ∀ {frames : List Frame}, Ready kept s frames → (frames.map Frame.id).head? = some scope →
    Reaches kept scope s (Frame.declare ((t.desk []).namesOf outlines) frames) t ∧
      (t.desk []).TreesAt terms frames outlines ∧
      (t.desk []).AllOutlined (Stmt.allLeaves body) (Typed.Tree.allLeaves outlines) ∧
      t.budget + Typed.Tree.countAll outlines ≤ s.budget

/-- A body in a scope of its own. -/
theorem reaches_body {body : List Stmt} {kind : ScopeKind} {inner : ScopeId}
    {outlines : List Outline} (ready : Ready kept s frames)
    (here : (frames.map Frame.id).head? = some scope)
    (creates : Ends (createScope (some scope) kind) s inner m)
    (walks : Walks terms kept body inner m outlines t) :
    Reaches kept scope s frames t ∧
      (∃ id, (t.desk []).Inner frames kind.kind ((t.desk []).namesOf outlines) id ∧
        (t.desk []).TreesAt terms (⟨id, []⟩ :: frames) outlines) ∧
      (t.desk []).AllOutlined (Stmt.allLeaves body) (Typed.Tree.allLeaves outlines) ∧
      t.budget + Typed.Tree.countAll outlines ≤ s.budget := by
  have made := reaches_create ready here creates inner
  obtain ⟨rfl, rfl⟩ := ends_createScope.1 creates
  obtain ⟨reaches, trees, leaves, paid⟩ := walks made.ready rfl
  have around : frames ≠ [] := by
    rintro rfl
    simp at here
  have isKind : t.scopes.kind? s.scopes.size = some kind.kind := by
    refine reaches.grows.evolves.kind _ _ ?_
    exact ((s.scopes.created_create scope kind).kind _).trans (if_pos rfl)
  refine ⟨⟨reaches.ready.outer around, ?_, Nat.le_trans reaches.budget made.budget⟩,
    ⟨s.scopes.size, ?_, trees⟩, leaves, paid⟩
  · exact made.grows.leave reaches.grows (parent?_size s.scopes) scope
  · simpa [Frame.declare] using reaches.ready.inner isKind

/-- The condition of a loop, which may have to be the literal. -/
theorem loopConditionAt_of_looks {importer : Importer σ} {options : Options} {d : Desk}
    {condition after : Expr} {typed : Typed.Expr} {position : Position} (ready : Ready kept s frames)
    (here : (frames.map Frame.id).head? = some scope)
    (literal : terms.literalTrue = decide (options.loopCondition = .literalTrue))
    (fresh : condition.isFresh = true)
    (looks : Ends (checkLoopCondition (Env.plain options importer) scope condition position) s after s)
    (read : Typed.Expr.ofExpr after = .ok typed) (evolves : Evolves (s.desk []) d) :
    d.ConditionAt frames typed ∧ (terms.literalTrue = true → typed = .boolean true) := by
  obtain ⟨-, type, look, ⟨mode, rfl⟩ | ⟨mode, rfl⟩⟩ := ends_checkLoopCondition looks
  · obtain rfl : _ = typed := by simpa [Typed.Expr.ofExpr] using read
    exact ⟨⟨.boolean, rfl, by simp [Typed.Expr.symbols]⟩, fun _ => rfl⟩
  · refine ⟨conditionAt_of_look ready here fresh look read evolves, fun only => ?_⟩
    have boolean : options.loopCondition = .boolean := mode
    simp [literal, boolean] at only

end Check

end Hoist
