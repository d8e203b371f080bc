import Hoist.Proofs.Check.Functions

/-!
Walking through the statements of a file.

Main statements: a block leaves the checker ready, and everything in its outline stands where it
should (`walk_block`); and so it is for a whole file (`walk_program`).
-/
namespace Hoist.Check

open Desk

variable {σ : Type} {kept : σ → Prop} {s m t : Checker Empty σ} {frames : List Frame}
  {terms : Terms} {scope : ScopeId} {importer : Importer σ} {options : Options}

/-- The statements of a chain that may be open. -/
def openCount (chain : Option OpenChain) : Nat :=
  (chain.map OpenChain.count).getD 0

@[simp] theorem openCount_none : openCount none = 0 := rfl

@[simp] theorem openCount_some (chain : OpenChain) : openCount (some chain) = chain.count := rfl

/-- The simple statements of a chain that may be open. -/
def openLeaves (chain : Option OpenChain) : List OutlineLeaf :=
  (chain.map OpenChain.leaves).getD []

@[simp] theorem openLeaves_none : openLeaves none = [] := rfl

@[simp] theorem openLeaves_some (chain : OpenChain) : openLeaves (some chain) = chain.leaves := rfl

/-- What is known when some statements of a block have been checked: the outlines that are
finished, the chain that is still open, that each statement has been paid for, and which simple
statements have been added to those of the chain that was open before. -/
structure Walked (terms : Terms) (kept : σ → Prop) (scope : ScopeId) (frames : List Frame)
    (s : Checker Empty σ) (paid : Nat) (before : List OutlineLeaf) (content : List Leaf)
    (done : List Outline) (chain : Option OpenChain) (t : Checker Empty σ) : Prop where
  reaches : Reaches kept scope s (Frame.declare ((t.desk []).namesOf done) frames) t
  trees : (t.desk []).TreesAt terms frames done
  waits : (t.desk []).OpenAt terms (Frame.declare ((t.desk []).namesOf done) frames) chain
  leaves : ∃ new, Typed.Tree.allLeaves done ++ openLeaves chain = before ++ new ∧
    (t.desk []).AllOutlined content new
  budget : t.budget + (Typed.Tree.countAll done + openCount chain) ≤ s.budget + paid

theorem le_of_head (here : (frames.map Frame.id).head? = some scope) :
    ∀ frame ∈ frames.head?, scope ≤ frame.id := by
  intro frame first
  obtain ⟨outer, rfl⟩ := List.head?_eq_some_iff.1 first
  exact Nat.le_of_eq (by simpa using here.symm)

theorem openAt_none (d : Desk) (terms : Terms) (frames : List Frame) : d.OpenAt terms frames none := by
  simp [OpenAt]

/-- One outline is finished that declares nothing. -/
theorem Walked.single {tree : Outline} {paid : Nat} {before new : List OutlineLeaf}
    {content : List Leaf} (reaches : Reaches kept scope s frames t)
    (located : (t.desk []).TreeAt terms frames tree) (silent : (t.desk []).names tree = [])
    (leaves : tree.leaves = before ++ new) (outlined : (t.desk []).AllOutlined content new)
    (budget : t.budget + tree.count ≤ s.budget + paid) :
    Walked terms kept scope frames s paid before content [tree] none t := by
  refine ⟨?_, treesAt_singleton.2 located, openAt_none _ _ _, ⟨new, ?_, outlined⟩, ?_⟩
  · simpa [namesOf, silent] using reaches
  · simpa [Typed.Tree.allLeaves] using leaves
  · simpa [Typed.Tree.countAll, openCount] using budget

/-- Nothing is finished, but a chain is open. -/
theorem Walked.open_ {chain : OpenChain} {paid : Nat} {before new : List OutlineLeaf}
    {content : List Leaf} (reaches : Reaches kept scope s frames t)
    (located : (t.desk []).OpenAt terms frames (some chain))
    (leaves : chain.leaves = before ++ new) (outlined : (t.desk []).AllOutlined content new)
    (budget : t.budget + chain.count ≤ s.budget + paid) :
    Walked terms kept scope frames s paid before content [] (some chain) t := by
  refine ⟨?_, ?_, ?_, ⟨new, ?_, outlined⟩, ?_⟩
  · simpa [namesOf] using reaches
  · rw [TreesAt]
    trivial
  · simpa [namesOf] using located
  · simpa [Typed.Tree.allLeaves] using leaves
  · simpa [Typed.Tree.countAll, openCount] using budget

/-- First some statements, then others. -/
theorem Walked.append {paid : Nat} {start : List OutlineLeaf} {content content' : List Leaf}
    {before after : List Outline} {chain last : Option OpenChain}
    (here : (frames.map Frame.id).head? = some scope)
    (first : Walked terms kept scope frames s paid start content before chain m)
    (second : Walked terms kept scope (Frame.declare ((m.desk []).namesOf before) frames) m
      (openCount chain) (openLeaves chain) content' after last t) :
    Walked terms kept scope frames s paid start (content ++ content') (before ++ after) last t := by
  have standing := first.reaches.ready.known.toStanding
  have grows := second.reaches.grows
  have names := first.trees.namesOf_later grows.evolves standing
  have trees := first.trees.later grows (le_of_head here) standing
  have all : Frame.declare ((t.desk []).namesOf (before ++ after)) frames =
      Frame.declare ((t.desk []).namesOf after)
        (Frame.declare ((m.desk []).namesOf before) frames) := by
    rw [namesOf_append, Frame.declare_declare, names]
  obtain ⟨new, leaves, outlined⟩ := first.leaves
  obtain ⟨new', leaves', outlined'⟩ := second.leaves
  refine ⟨?_, ?_, ?_, ⟨new ++ new', ?_, ?_⟩, ?_⟩
  · rw [all]
    exact first.reaches.trans second.reaches
  · rw [treesAt_append, names]
    exact ⟨trees, second.trees⟩
  · rw [all]
    exact second.waits
  · rw [Typed.Tree.allLeaves_append, List.append_assoc, leaves', ← List.append_assoc, leaves,
      List.append_assoc]
  · exact List.rel_append (outlined.later grows.evolves) outlined'
  · have paid' := first.budget
    have paid'' := second.budget
    rw [Typed.Tree.countAll_append]
    omega

/-- Notes do not matter. -/
theorem Reaches.noted (ready : Ready kept s frames) (journal : List Note) :
    Reaches kept scope s frames { s with journal } :=
  ⟨⟨ready.sound, ready.known, ready.queue, ready.idle, ready.bodies, ready.store⟩,
    (Reaches.refl ready scope).grows, Nat.le_refl _⟩

theorem Ready.paying (ready : Ready kept s frames) (budget : Nat) :
    Ready kept { s with budget } frames :=
  ⟨ready.sound, ready.known, ready.queue, ready.idle, ready.bodies, ready.store⟩

/-- A chain that is not carried on ends where it stands. -/
theorem walked_endChain {chain : Option OpenChain} {before : List Outline}
    (ready : Ready kept s frames) (located : (s.desk []).OpenAt terms frames chain)
    (ends : Ends (endChain chain) s before t) :
    Walked terms kept scope frames s (openCount chain) (openLeaves chain) [] before none t := by
  cases chain with
  | none =>
    obtain ⟨rfl, rfl⟩ := ends_pure.1 ends
    refine ⟨?_, ?_, openAt_none _ _ _, ⟨[], rfl, .nil⟩, ?_⟩
    · simpa [namesOf] using Reaches.refl ready scope
    · rw [TreesAt]
      trivial
    · simp [Typed.Tree.countAll, openCount]
  | some chain =>
    simp only [endChain, ends_bind, ends_pure] at ends
    obtain ⟨outline, _, folds, rfl, rfl⟩ := ends
    obtain ⟨rfl, journal, rfl⟩ := foldChain_of_ends folds
    obtain ⟨first, rest⟩ := located chain rfl
    refine .single (.noted ready journal) (treeAt_close first rest (by rw [ChainAt]; trivial)) rfl
      (OpenChain.leaves_close chain .done) .nil ?_
    simp [OpenChain.count_close, Typed.Chain.count, openCount]

theorem walked_endChainBefore (scope : ScopeId) {stmt : Stmt} {chain next : Option OpenChain}
    {before : List Outline} (ready : Ready kept s frames) (located : (s.desk []).OpenAt terms frames chain)
    (ends : Ends (endChainBefore stmt chain) s (before, next) t) :
    Walked terms kept scope frames s (openCount chain) (openLeaves chain) [] before next t ∧
      (stmt.continuesChain = false → next = none) := by
  cases continues : stmt.continuesChain with
  | false =>
    simp only [endChainBefore, continues, Bool.false_eq_true, ↓reduceIte, ends_bind, ends_pure,
      Prod.mk.injEq] at ends
    obtain ⟨_, _, ends, ⟨rfl, rfl⟩, rfl⟩ := ends
    exact ⟨walked_endChain ready located ends, fun _ => rfl⟩
  | true =>
    simp only [endChainBefore, continues, ↓reduceIte, ends_pure, Prod.mk.injEq] at ends
    obtain ⟨⟨rfl, rfl⟩, rfl⟩ := ends
    refine ⟨⟨?_, ?_, ?_, ⟨[], by simp [Typed.Tree.allLeaves], .nil⟩, ?_⟩, by simp⟩
    · simpa [namesOf] using Reaches.refl ready scope
    · rw [TreesAt]
      trivial
    · simpa [namesOf] using located
    · simp [Typed.Tree.countAll]

/-- A statement is paid for before it is checked. -/
theorem Walked.paid {paid left : Nat} {before : List OutlineLeaf} {content : List Leaf}
    {done : List Outline} {chain : Option OpenChain}
    (walked : Walked terms kept scope frames { s with budget := left } (1 + paid) before content
      done chain t) (budget : s.budget = left + 1) :
    Walked terms kept scope frames s paid before content done chain t := by
  obtain ⟨⟨ready, grows, less⟩, trees, waits, leaves, spent⟩ := walked
  refine ⟨⟨ready, grows, ?_⟩, trees, waits, leaves, ?_⟩
  · simp only at less
    omega
  · simp only at spent
    omega

/-- A body is a block with no chain open before it. -/
theorem Walked.walks {body : List Stmt} {outlines : List Outline}
    (walked : ∀ {frames : List Frame}, Ready kept s frames →
      (frames.map Frame.id).head? = some scope → (s.desk []).OpenAt terms frames none →
      Walked terms kept scope frames s 0 [] (Stmt.allLeaves body) outlines none t) :
    Walks terms kept body scope s outlines t := by
  intro frames ready here
  have whole := walked ready here (openAt_none _ _ _)
  refine ⟨whole.reaches, whole.trees, ?_, ?_⟩
  · obtain ⟨new, leaves, outlined⟩ := whole.leaves
    obtain rfl : Typed.Tree.allLeaves outlines = new := by simpa using leaves
    exact outlined
  · have budget := whole.budget
    simp only [openCount_none] at budget
    omega

mutual

theorem walk_stmt (gives : Gives importer kept terms.imported)
    (literal : terms.literalTrue = decide (options.loopCondition = .literalTrue)) :
    ∀ {scope chain stmt s done last t}, StmtRun (Env.plain options importer) scope chain stmt s done
      last t → ∀ {frames : List Frame}, stmt.isFresh = true → Ready kept s frames →
    (frames.map Frame.id).head? = some scope → (s.desk []).OpenAt terms frames chain →
    (stmt.continuesChain = false → chain = none) →
    Walked terms kept scope frames s (1 + openCount chain) (openLeaves chain) stmt.leaves done last t
  | _, _, _, _, _, _, _, .leaf ends, _, fresh, ready, here, _, ended => by
    obtain rfl := ended rfl
    obtain ⟨reaches, located, outlined⟩ := reaches_leaf gives fresh ready here (.of_ends ends)
    refine ⟨?_, ?_, openAt_none _ _ _, ⟨[_], rfl, .cons outlined .nil⟩, ?_⟩
    · simpa [namesOf, Desk.names] using reaches
    · rw [treesAt_singleton, TreeAt]
      exact located
    · have budget := reaches.budget
      simp only [Typed.Tree.countAll, Typed.Tree.count, openCount_none]
      omega
  | _, _, _, _, _, _, _, .branch look creates walks read, _, fresh, ready, here, _, ended => by
    obtain rfl := ended rfl
    simp only [Stmt.isFresh, Bool.and_eq_true] at fresh
    obtain ⟨reaches, inner, outlined, paid⟩ := reaches_body ready here creates
      (Walked.walks (walk_block gives literal walks fresh.2))
    have condition := conditionAt_of_look ready here fresh.1 look read reaches.grows.evolves
    refine .open_ reaches (by simpa [OpenAt] using ⟨condition, inner⟩) (by simp [OpenChain.leaves])
      outlined ?_
    simp only [OpenChain.count, List.map_nil, List.sum_nil]
    omega
  | _, _, _, _, _, _, _, .elseIf look creates walks read, _, fresh, ready, here, open_, _ => by
    simp only [Stmt.isFresh, Bool.and_eq_true] at fresh
    obtain ⟨reaches, inner, outlined, paid⟩ := reaches_body ready here creates
      (Walked.walks (walk_block gives literal walks fresh.2))
    have condition := conditionAt_of_look ready here fresh.1 look read reaches.grows.evolves
    have later := open_.later reaches.grows (le_of_head here) ready.known.toStanding
    refine .open_ reaches ?_ (OpenChain.leaves_extend _ _) outlined ?_
    · obtain ⟨first, rest⟩ := later _ rfl
      intro other same
      obtain rfl : _ = other := Option.some.inj same
      refine ⟨first, fun next mem => ?_⟩
      rcases List.mem_append.1 mem with old | new
      · exact rest next old
      · exact List.mem_singleton.1 new ▸ ⟨condition, inner⟩
    · simp only [OpenChain.count_extend, openCount_some]
      omega
  | _, _, _, _, _, _, _, .otherwise creates walks, _, fresh, ready, here, open_, _ => by
    obtain ⟨reaches, inner, outlined, paid⟩ := reaches_body ready here creates
      (Walked.walks (walk_block gives literal walks fresh))
    obtain ⟨first, others⟩ :=
      open_.later reaches.grows (le_of_head here) ready.known.toStanding _ rfl
    refine .single (reaches.trans (.noted reaches.ready _))
      (treeAt_close first others (by rw [ChainAt]; exact inner)) rfl (OpenChain.leaves_close _ _)
      outlined ?_
    simp only [OpenChain.count_close, Typed.Chain.count, openCount_some]
    omega
  | _, _, _, _, _, _, _, .loop looks creates walks read, _, fresh, ready, here, _, ended => by
    obtain rfl := ended rfl
    simp only [Stmt.isFresh, Bool.and_eq_true] at fresh
    obtain ⟨reaches, inner, outlined, paid⟩ := reaches_body ready here creates
      (Walked.walks (walk_block gives literal walks fresh.2))
    have condition := loopConditionAt_of_looks ready here literal fresh.1 looks read
      reaches.grows.evolves
    refine .single reaches (by rw [TreeAt]; exact ⟨condition, inner⟩) rfl rfl outlined ?_
    simp only [Typed.Tree.count, openCount_none]
    omega
  | _, _, _, _, _, _, _, .function onTop checked creates parameters _ walks closes, _, fresh, ready, here,
      _, ended => by
    obtain rfl := ended rfl
    obtain ⟨reaches, located, outlined, paid⟩ := reaches_function ready here onTop checked creates
      parameters (Walked.walks (walk_block gives literal walks fresh)) closes
    refine ⟨?_, treesAt_singleton.2 located, openAt_none _ _ _, ⟨_, ?_, outlined⟩, ?_⟩
    · simpa [namesOf] using reaches
    · simp [Typed.Tree.allLeaves, Typed.Tree.leaves]
    · simp only [Typed.Tree.countAll, openCount_none]
      omega

theorem walk_block (gives : Gives importer kept terms.imported)
    (literal : terms.literalTrue = decide (options.loopCondition = .literalTrue)) :
    ∀ {scope chain stmts s outlines t}, BlockRun (Env.plain options importer) scope chain stmts s
      outlines t → ∀ {frames : List Frame}, Stmt.areFresh stmts = true → Ready kept s frames →
    (frames.map Frame.id).head? = some scope → (s.desk []).OpenAt terms frames chain →
    Walked terms kept scope frames s (openCount chain) (openLeaves chain) (Stmt.allLeaves stmts)
      outlines none t
  | _, _, _, _, _, _, .nil ends, _, _, ready, _, open_ => walked_endChain ready open_ ends
  | scope, _, _, _, _, _, .cons closes budget _ run _ walks, frames, fresh, ready, here, open_ => by
    simp only [Stmt.areFresh, Bool.and_eq_true] at fresh
    obtain ⟨first, closed⟩ := walked_endChainBefore scope ready open_ closes
    have inside (names : List String) :
        ((Frame.declare names frames).map Frame.id).head? = some scope := by simpa using here
    have second := (walk_stmt gives literal run fresh.1 (first.reaches.ready.paying _) (inside _)
      first.waits closed).paid budget
    have third := walk_block gives literal walks fresh.2 second.reaches.ready (by simpa using here)
      second.waits
    simpa only [Stmt.allLeaves, List.nil_append] using
      first.append here (second.append (inside _) third)

end

/-! Whole files. -/

/-- The desk on which nothing lies yet. -/
theorem ready_initial {store : σ} (stored : kept store) (budget : Nat) :
    Ready kept (Checker.initial store budget) [⟨0, []⟩] := by
  have nothing (id : ScopeId) (name : String) :
      (Scopes.empty.create none .block : Scopes (Deferral Empty)).binding? id name = none := by
    cases id <;> rfl
  have noKey : ∀ who, ((Checker.initial store budget : Checker Empty σ).desk []).key? who = none := by
    intro who
    cases who <;> simp [key?, Checker.desk, Checker.initial]
  refine ⟨⟨Scopes.rooted_first, ?_, ?_, ?_, ?_, ?_, ?_⟩, ⟨⟨⟨rfl, rfl⟩, ?_⟩, ?_⟩, rfl, rfl, ?_, stored⟩
  · intro who scope name key
    simp [noKey] at key
  · intro who other key first
    simp [noKey] at first
  · intro id d found
    simp [Checker.desk, Checker.initial] at found
  · intro id h found
    simp [Checker.desk, Checker.initial] at found
  · intro work id live
    exact (not_live_initial live).elim
  · intro name id position waiter mem
    exact (not_live_initial (.inr (.inl ⟨0, name, waiter, mem, rfl⟩))).elim
  · intro frame mem name declared
    obtain rfl := List.mem_singleton.1 mem
    simp at declared
  · intro frame mem name bound
    simp [Checker.desk, Checker.initial, nothing] at bound
  · intro h mem
    simp [Checker.initial] at mem

/-- What is known of a file whose statements have all been checked. -/
structure Analyzed (terms : Terms) (kept : σ → Prop) (options : Options) (budget : Nat)
    (program : List Stmt) (outlines : List Outline) (t : Checker Empty σ) : Prop where
  ready : Ready kept t [⟨0, (t.desk []).namesOf outlines⟩]
  trees : (t.desk []).TreesAt terms [⟨0, []⟩] outlines
  kind : t.scopes.kind? 0 = some .block
  leaves : (t.desk []).AllOutlined (Stmt.allLeaves program) (Typed.Tree.allLeaves outlines)
  budget : t.budget + Typed.Tree.countAll outlines ≤ budget
  nobody : options.reportUnresolved = true → ∀ id name, t.scopes.waiters id name = []

theorem walk_program (gives : Gives importer kept terms.imported)
    (literal : terms.literalTrue = decide (options.loopCondition = .literalTrue))
    {program : List Stmt} {outlines : List Outline} {store : σ} {budget : Nat}
    (fresh : Stmt.areFresh program = true) (stored : kept store)
    (ends : Ends (analyze (Env.plain options importer) program) (Checker.initial store budget)
      outlines t) : Analyzed terms kept options budget program outlines t := by
  simp only [analyze_eq, ends_bind] at ends
  obtain ⟨_, m, block, finishes⟩ := ends
  obtain ⟨rfl, rfl, nobody⟩ := ends_finishFile finishes
  have walked := walk_block gives literal (.of_ends program block) fresh (ready_initial stored budget)
    rfl (openAt_none _ _ _)
  have ready : Ready kept m [⟨0, (m.desk []).namesOf outlines⟩] := by
    simpa [Frame.declare] using walked.reaches.ready
  refine ⟨⟨ready.sound, ready.known, ready.queue, ready.idle, ready.bodies, ready.store⟩,
    walked.trees, ?_, ?_, ?_, ?_⟩
  · exact walked.reaches.grows.evolves.kind 0 .block rfl
  · obtain ⟨new, leaves, outlined⟩ := walked.leaves
    obtain rfl : Typed.Tree.allLeaves outlines = new := by simpa using leaves
    exact outlined
  · have spent := walked.budget
    simpa [Checker.initial] using spent
  · intro report id name
    exact Scopes.waiters_eq_nil (nobody report) id name

end Hoist.Check
