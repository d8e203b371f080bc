import Mathlib
import Hoist.Proofs.Apart.Outlines
import Hoist.Proofs.Check.Walk

/-!
What stands in a block does not reach out of it. Two files that are the same but for the body of one
block, in which nothing is returned, are checked alike everywhere else: each is checked as the file
in which that block is empty (`checkProgram_hollow`).

Main statement: `block_bodies_apart`.
-/
namespace Hoist

open Typed (Tree Chain)

namespace Check

variable {σ : Type} {m : Matching} {busy : Bool} {s a : Checker Empty σ} {options : Options}
  {importer : Importer σ} {target first : Nat}

/-! The walk through a file. -/

mutual

theorem tracks_checkStmt : ∀ (stmt : Stmt) {m : Matching} {s a : Checker Empty σ} {j i : ScopeId}
    {first here : Nat} {chain chain' : Option OpenChain}, Matches m false s a → m.Scope j i →
    m.Chains target first here chain chain' → (stmt.continuesChain = false → chain = none) →
    Stmt.SilentAt target here stmt.bodies →
    Tracks m false s a (checkStmt (Env.plain options importer) j chain stmt)
      (checkStmt (Env.plain options importer) i chain' (stmt.hollow target here))
      fun n => n.Carried target first (here + stmt.bodies.length)
  | .leaf content, m, s, a, j, i, first, here, chain, chain', matched, pair, alike, fresh, _ => by
    obtain ⟨rfl, rfl, rfl⟩ := alike.of_fresh (fresh rfl)
    refine (tracks_leaf matched pair content).bind fun n leaf leaf' t b _ matched same => ?_
    exact tracks_pure matched (.closed ⟨same, trivial⟩ rfl)
  | .branch condition body span, m, s, a, j, i, first, here, chain, chain', matched, pair, alike,
      fresh, silent => by
    obtain ⟨rfl, rfl, rfl⟩ := alike.of_fresh (fresh rfl)
    refine (tracks_arm matched pair condition span fun matched pair =>
      tracks_body matched pair .block silent.head fun matched pair =>
        tracks_checkBlock body matched pair rfl silent.tail).bind
      fun n arm arm' t b _ matched same => ?_
    obtain ⟨condition, span, inside, count⟩ := same
    refine tracks_pure matched (.opened ⟨⟨condition, span, inside⟩, ?_⟩)
    simp only [Stmt.bodies, List.length_cons, count, Matching.Arms]
    omega
  | .elseIf condition body span, m, s, a, j, i, first, here, chain, chain', matched, pair, alike,
      _, silent => by
    cases chain with
    | none => exact tracks_reject
    | some chain =>
      cases chain' with
      | none => exact alike.elim
      | some chain' =>
        refine (tracks_arm matched pair condition span fun matched pair =>
          tracks_body matched pair .block silent.head fun matched pair =>
            tracks_checkBlock body matched pair rfl silent.tail).bind
          fun n arm arm' t b within matched same => ?_
        obtain ⟨condition, span, inside, count⟩ := same
        have extended := (alike.mono within).extend ⟨condition, span, inside⟩
        refine tracks_pure matched (.opened ?_)
        rwa [Stmt.bodies, List.length_cons, ← count, Nat.add_comm _ 1, ← Nat.add_assoc]
  | .otherwise body span, m, s, a, j, i, first, here, chain, chain', matched, pair, alike, _,
      silent => by
    cases chain with
    | none => exact tracks_reject
    | some chain =>
      cases chain' with
      | none => exact alike.elim
      | some chain' =>
        refine (tracks_body matched pair .block silent.head fun matched pair =>
          tracks_checkBlock body matched pair rfl silent.tail).bind_inside
          fun n outlines outlines' t b within matched same => ?_
        obtain ⟨inside, count⟩ := same
        have last : Chain.Rel n.SameLeaf (Chain.hollow target here (.otherwise outlines span))
            (.otherwise outlines' span) := by
          simp only [Chain.hollow, Chain.Rel, true_and]
          exact inside
        refine (tracks_foldChain matched (alike.mono within) last).bind
          fun n outline outline' t b _ matched told => ?_
        refine tracks_pure matched (.closed told.1 ?_)
        rw [told.2, Chain.bodies, Stmt.bodies, List.length_cons, List.length_cons, count]
  | .loop condition body span, m, s, a, j, i, first, here, chain, chain', matched, pair, alike,
      fresh, silent => by
    obtain ⟨rfl, rfl, rfl⟩ := alike.of_fresh (fresh rfl)
    refine (tracks_loop matched pair condition span fun matched pair =>
      tracks_body matched pair .loop silent.head fun matched pair =>
        tracks_checkBlock body matched pair rfl silent.tail).bind
      fun n outline outline' t b _ matched same => ?_
    obtain ⟨typed, outlines, outlines', rfl, rfl, inside, count⟩ := same
    refine tracks_pure matched (.closed ⟨⟨rfl, rfl, inside⟩, trivial⟩ ?_)
    simp [Tree.allBodies, Tree.bodies, Stmt.bodies, count]
  | .function signature body, m, s, a, j, i, first, here, chain, chain', matched, pair, alike,
      fresh, silent => by
    obtain ⟨rfl, rfl, rfl⟩ := alike.of_fresh (fresh rfl)
    simp only [checkStmt, checkFunction, Stmt.hollow, bind_assoc]
    refine (tracks_openFunction matched pair signature).bind
      fun n inner inner' t b within matched bodies => ?_
    have pair := within.scope pair
    refine ((tracks_checkBlock body matched bodies (alike.mono within) silent).and_ends
      fun _ _ => length_checkBlock).bind fun n outlines outlines' t b within matched told => ?_
    refine (tracks_closeFunction matched (within.scope pair) (within.scope bodies) signature).bind
      fun n id _ t b within matched same => ?_
    subst same
    refine tracks_pure matched (.closed ⟨⟨rfl, told.1.mono within⟩, trivial⟩ ?_)
    simp [Tree.allBodies, Tree.bodies, Stmt.bodies, told.2]

theorem tracks_checkBlock : ∀ (body : List Stmt) {m : Matching} {s a : Checker Empty σ}
    {j i : ScopeId} {first here : Nat} {chain chain' : Option OpenChain}, Matches m false s a →
    m.Scope j i → m.Chains target first here chain chain' →
    Stmt.SilentAt target here (Stmt.allBodies body) →
    Tracks m false s a (checkBlock (Env.plain options importer) j chain body)
      (checkBlock (Env.plain options importer) i chain' (Stmt.hollowAll target here body))
      fun n => n.Trees target first
  | [], m, s, a, j, i, first, here, chain, chain', matched, pair, alike, _ =>
    (tracks_endChain matched alike).mono fun _ _ _ told => told.1
  | stmt :: rest, m, s, a, j, i, first, here, chain, chain', matched, pair, alike, silent => by
    refine (tracks_endChainBefore matched alike stmt).bind
      fun n found found' t b within matched carried => ?_
    obtain ⟨before, chain⟩ := found
    obtain ⟨before', chain'⟩ := found'
    obtain ⟨⟨finished, alike⟩, fresh⟩ := carried
    have pair := within.scope pair
    refine (tracks_tick matched).bind fun n _ _ t b within matched _ => ?_
    have pair := within.scope pair
    have finished := finished.mono within
    refine (tracks_checkStmt stmt matched pair (alike.mono within) fresh silent.left).bind
      fun n found found' t b within matched carried => ?_
    obtain ⟨told, chain⟩ := found
    obtain ⟨told', chain'⟩ := found'
    obtain ⟨checked, alike⟩ := carried
    have finished := finished.mono within
    refine (tracks_checkBlock rest matched (within.scope pair) alike silent.right).bind
      fun n after after' t b within matched others => ?_
    exact tracks_pure matched ((finished.mono within).append ((checked.mono within).append others))

end

/-! Whole files. -/

/-- At the start there is one scope. -/
def atRoot : Matching where
  Scope j i := j = 0 ∧ i = 0
  Draft _ _ := False
  OwnScope _ := False
  OwnDraft _ := False

theorem matches_initial (store : σ) {budget budget' : Nat} (less : budget ≤ budget') :
    Matches atRoot false (Checker.initial store budget) (Checker.initial store budget') where
  scope := by
    rintro _ _ ⟨rfl, rfl⟩
    exact ⟨_, _, rfl, rfl, .none, trivial, rfl, fun _ => .nil, List.nodup_nil⟩
  scopeOnce := by
    rintro _ _ _ ⟨-, rfl⟩ ⟨-, rfl⟩
    rfl
  scopeOne := by
    rintro _ _ _ ⟨rfl, -⟩ ⟨rfl, -⟩
    rfl
  ownScope := False.elim
  emptied {i bare} unmatched found := by
    cases i with
    | zero => exact absurd ⟨rfl, rfl⟩ (unmatched 0)
    | succ i => simp [Checker.initial, Scopes.create, Scopes.empty] at found
  draft := False.elim
  draftOnce := False.elim
  draftOne := False.elim
  ownDraft := False.elim
  heads := .nil
  queue := .nil
  firing := rfl
  firing' := rfl
  idle _ := rfl
  store := rfl
  budget := less
  rooted := Scopes.rooted_first
  rooted' := Scopes.rooted_first

theorem first?_of_mem {α : Type} {entries : List (String × α)} {name : String} {value : α}
    (distinct : (entries.map (·.1)).Nodup) (mem : (name, value) ∈ entries) :
    Table.first? name entries = some value := by
  induction entries with
  | nil => simp at mem
  | cons entry rest ih =>
    obtain ⟨other, here⟩ := entry
    simp only [List.map_cons, List.nodup_cons] at distinct
    rcases List.mem_cons.1 mem with same | later
    · obtain ⟨rfl, rfl⟩ := Prod.mk.inj same
      simp [Table.first?]
    · have apart : other ≠ name := fun same =>
        distinct.1 (same ▸ List.mem_map_of_mem later)
      simp [Table.first?, apart, ih distinct.2 later]

/-- If nobody waits in the full run, nobody does in the bare run. -/
theorem Matches.firstWaiting? (matched : Matches m busy s a)
    (nobody : s.scopes.firstWaiting? = none) : a.scopes.firstWaiting? = none := by
  refine List.findSome?_eq_none_iff.2 fun bare mem => ?_
  obtain ⟨i, here'⟩ := List.mem_iff_getElem?.1 mem
  refine List.findSome?_eq_none_iff.2 fun entry inside => ?_
  by_cases shared : ∃ j, m.Scope j i
  · obtain ⟨j, pair⟩ := shared
    obtain ⟨full, found, here, there, same⟩ := matched.scope pair
    obtain rfl := Option.some.inj (there.symm.trans here')
    have idle : full.waitingOn entry.1 = [] := by
      simpa [Scopes.waiters, here] using Scopes.waiters_eq_nil nobody j entry.1
    have idle' : found.waitingOn entry.1 = [] := (idle ▸ same.waiting entry.1).eq_nil
    have known : found.waiting.find? entry.1 = some entry.2 := first?_of_mem same.distinct inside
    have empty : entry.2 = [] := by simpa [Scope.waitingOn, known] using idle'
    simp [empty]
  · have empty := matched.emptied (fun j pair => shared ⟨j, pair⟩) here'
    simp [empty, Table.empty] at inside

theorem finishFile_ends {env : Env Empty σ} (outlines : List Outline)
    (quiet : env.options.reportUnresolved = true → s.scopes.firstWaiting? = none) :
    Ends (finishFile env outlines) s outlines
      { s with journal := .finished s.scopes.size :: s.journal } := by
  unfold finishFile
  split
  case isTrue reports => simp [reportUnresolved, quiet reports]
  case isFalse => simp

theorem Matches.completeLeaf_eq (matched : Matches m busy s a) (leaf leaf' : OutlineLeaf)
    (same : m.SameLeaf leaf leaf') : s.completeLeaf leaf = a.completeLeaf leaf' := by
  cases leaf <;> cases leaf' <;> simp only [Matching.SameLeaf] at same
  case draft.draft =>
    obtain ⟨full, bare, here, here', -, work⟩ := matched.draft same
    simp [Checker.completeLeaf, here, here', work]
  case plain.plain => simp [Checker.completeLeaf, same]

theorem Matches.completeHead_eq (matched : Matches m busy s a) :
    s.completeHead = a.completeHead := by
  funext id
  have heads := matched.heads
  cases here : s.signatures[id]? with
  | none =>
    have here' : a.signatures[id]? = none := by
      rw [List.getElem?_eq_none_iff] at here ⊢
      exact heads.length_eq ▸ here
    simp [Checker.completeHead, here, here']
  | some full =>
    obtain ⟨bare, here', same⟩ := rel_getElem? heads here
    simp [Checker.completeHead, here, here', same.signature]

theorem Matches.complete {outlines outlines' : List Outline} {typed : List Typed.Stmt}
    (matched : Matches m busy s a) (trees : m.Trees target first outlines outlines')
    (completes : s.complete outlines = .ok typed) :
    a.complete outlines' = .ok (Tree.hollowAll target first typed) := by
  rw [Checker.complete, ← matched.completeHead_eq,
    ← Tree.AllRel.complete_eq matched.completeLeaf_eq _ _ trees]
  exact Tree.completeAll_hollow outlines typed first completes

/-- The analysis of the file with the block emptied. -/
theorem tracks_analyze (store : σ) {program : List Stmt}
    (silent : Stmt.SilentAt target 0 (Stmt.allBodies program)) {budget budget' : Nat}
    (less : budget ≤ budget') :
    Tracks atRoot false (Checker.initial store budget) (Checker.initial store budget')
      (analyze (Env.plain options importer) program)
      (analyze (Env.plain options importer) (Stmt.hollowAll target 0 program))
      fun n => n.Trees target 0 := by
  rw [analyze_eq, analyze_eq]
  have alike : atRoot.Chains target 0 0 none none := rfl
  refine (tracks_checkBlock program (matches_initial store less) ⟨rfl, rfl⟩ alike silent).bind
    fun n outlines outlines' t b _ matched trees => ?_
  intro found u ends
  obtain ⟨rfl, rfl, quiet⟩ := ends_finishFile ends
  exact ⟨n, outlines', _, .refl n, trees, matched.noted _ _,
    finishFile_ends outlines' fun reports => matched.firstWaiting? (quiet reports)⟩

end Check

namespace Output

theorem exportOf_hollow (target first : Nat) (typed : Typed.Stmt) :
    exportOf (typed.hollow target first) = exportOf typed := by
  cases typed <;> rfl

/-- What is exported stands at the top and not in a block. -/
theorem exports_hollow (target first : Nat) (typed : List Typed.Stmt) :
    (ofStmts (Tree.hollowAll target first typed)).exports = (ofStmts typed).exports := by
  have same : (Tree.hollowAll target first typed).filterMap exportOf =
      typed.filterMap exportOf := by
    induction typed generalizing first with
    | nil => rfl
    | cons tree rest ih =>
      simp only [Tree.hollowAll, List.filterMap_cons, exportOf_hollow, ih]
  simp only [ofStmts, same]

end Output

section Files

variable {σ : Type} {importer : Importer σ} {options : Options} {store : σ} {target : Nat}

/-- A file that is accepted is accepted with one of its blocks emptied, and the tree is the same
without what was in the block. -/
theorem checkProgram_hollow {program : List Stmt} {budget budget' : Nat} {output : Output}
    (silent : Stmt.SilentAt target 0 (Stmt.allBodies program)) (less : budget ≤ budget')
    (accepted : (checkProgram importer options budget store program).result = .ok output) :
    (checkProgram importer options budget' store (Stmt.hollowAll target 0 program)).result =
      .ok (Output.ofStmts (Tree.hollowAll target 0 output.typed)) := by
  obtain ⟨outlines, t, ends, completes, -⟩ := exists_of_accepted accepted
  obtain ⟨n, outlines', b, -, trees, matched, ends'⟩ :=
    Check.tracks_analyze store silent less _ _ ends
  rw [checkProgram_of_ends ends', matched.complete trees completes]
  rfl

/-- What is left of a tree when its types are forgotten is the file, up to what was found out. -/
theorem forgetAll_of_accepted {program : List Stmt} {budget : Nat} {output : Output}
    (accepted : (checkProgram importer options budget store program).result = .ok output) :
    Stmt.eraseAll (Typed.Stmt.forgetAll output.typed) = Stmt.eraseAll program := by
  obtain ⟨outlines, t, ends, completes, -⟩ := exists_of_accepted accepted
  simp only [Check.analyze_eq, Check.ends_bind] at ends
  obtain ⟨_, m, walks, finishes⟩ := ends
  obtain ⟨rfl, after, -⟩ := Check.ends_finishFile finishes
  have kept : Check.DraftsKept m t := after ▸ .of_scopes rfl rfl fun _ => rfl
  rw [Checker.forgetAll_complete _ completes]
  exact (Check.tells_checkBlock walks t kept).erased

theorem silentAt_of_getElem? {program body : List Stmt}
    (inside : (Stmt.allBodies program)[target]? = some body) (silent : Stmt.Silent body) :
    Stmt.SilentAt target 0 (Stmt.allBodies program) := by
  intro index other here found
  obtain rfl : index = target := by omega
  obtain rfl := Option.some.inj (inside.symm.trans found)
  exact silent

theorem exports_of_accepted {program : List Stmt} {budget : Nat} {output : Output}
    (accepted : (checkProgram importer options budget store program).result = .ok output) :
    (Output.ofStmts (Tree.hollowAll target 0 output.typed)).exports = output.exports := by
  obtain ⟨_, _, -, -, made⟩ := exists_of_accepted accepted
  rw [Output.exports_hollow, ← made]

end Files

/-- Two files that are the same without the bodies of their blocks with a number, in which nothing
is returned: if both are accepted, the trees are the same without the bodies of the blocks with that
number, and the exports are the same. The trees without these bodies are the files without them. -/
theorem block_bodies_apart {σ : Type} (importer : Importer σ) (options : Options) (store : σ)
    (budget budget' : Nat) (program other : List Stmt) (target : Nat) (body body' : List Stmt)
    (same : Stmt.hollowAll target 0 program = Stmt.hollowAll target 0 other)
    (inside : (Stmt.allBodies program)[target]? = some body)
    (inside' : (Stmt.allBodies other)[target]? = some body')
    (silent : Stmt.Silent body) (silent' : Stmt.Silent body') (output output' : Output)
    (accepted : (checkProgram importer options budget store program).result = .ok output)
    (accepted' : (checkProgram importer options budget' store other).result = .ok output') :
    Tree.hollowAll target 0 output.typed = Tree.hollowAll target 0 output'.typed ∧
      output.exports = output'.exports ∧
      Stmt.eraseAll (Typed.Stmt.forgetAll (Tree.hollowAll target 0 output.typed)) =
        Stmt.eraseAll (Stmt.hollowAll target 0 program) := by
  have emptied := checkProgram_hollow (silentAt_of_getElem? inside silent)
    (Nat.le_max_left budget budget') accepted
  have emptied' := checkProgram_hollow (silentAt_of_getElem? inside' silent')
    (Nat.le_max_right budget budget') accepted'
  rw [← same] at emptied'
  have equal := Except.ok.inj (emptied.symm.trans emptied')
  refine ⟨congrArg Output.typed equal, ?_, forgetAll_of_accepted emptied⟩
  calc output.exports
      = (Output.ofStmts (Tree.hollowAll target 0 output.typed)).exports :=
        (exports_of_accepted accepted).symm
    _ = (Output.ofStmts (Tree.hollowAll target 0 output'.typed)).exports :=
        congrArg Output.exports equal
    _ = output'.exports := exports_of_accepted accepted'

/-- A loop inside a part of a chain, in a function. -/
def loopInside (body : List Stmt) : List Stmt :=
  [.leaf (.declare ⟨"x", false, .number ⟨1⟩, .unannotated, .unresolved, false, .nowhere⟩),
    .function ⟨"f", [], .unannotated, false, .nowhere⟩
      [.branch (.boolean true) [.loop (.boolean true) body .nowhere] .nowhere,
        .otherwise [] .nowhere,
        .leaf (.returns ⟨some (.symbol "x" .unresolved), .nowhere⟩)],
    .leaf (.declare ⟨"y", true, .call (.symbol "f" .unresolved) [], .unannotated, .unresolved, true,
      .nowhere⟩),
    .function ⟨"g", [], .unannotated, false, .nowhere⟩
      [.leaf (.returns ⟨some (.boolean true), .nowhere⟩)]]

def loopInsideTyped (body : List Typed.Stmt) : List Typed.Stmt :=
  [.leaf (.declare ⟨"x", false, .number ⟨1⟩, .number, false, .nowhere⟩),
    .function ⟨"f", [], .number, false, .nowhere⟩
      [.branch (.boolean true) [.loop (.boolean true) body .nowhere] .nowhere
        (.otherwise [] .nowhere),
        .leaf (.returns (some (.symbol "x" .number)) .nowhere)],
    .leaf (.declare ⟨"y", true, .call (.symbol "f" (.function [] .number)) [] .number, .number,
      true, .nowhere⟩),
    .function ⟨"g", [], .boolean, false, .nowhere⟩
      [.leaf (.returns (some (.boolean true)) .nowhere)]]

/-- A function is called before it is declared. -/
def callsAhead : List Stmt :=
  [.leaf (.declare ⟨"z", false, .call (.symbol "g" .unresolved) [], .unannotated, .unresolved,
      false, .nowhere⟩),
    .leaf (.breakLoop .nowhere)]

def callsAheadTyped : List Typed.Stmt :=
  [.leaf (.declare ⟨"z", false, .call (.symbol "g" (.function [] .boolean)) [] .boolean, .boolean,
      false, .nowhere⟩),
    .leaf (.breakLoop .nowhere)]

/-- A variable is declared that has the name of one outside, and is set. -/
def shadows : List Stmt :=
  [.leaf (.declare ⟨"x", false, .boolean true, .unannotated, .unresolved, false, .nowhere⟩),
    .branch (.symbol "x" .unresolved)
      [.leaf (.assign ⟨.symbol "x", .set, .boolean false, .nowhere⟩)] .nowhere]

def shadowsTyped : List Typed.Stmt :=
  [.leaf (.declare ⟨"x", false, .boolean true, .boolean, false, .nowhere⟩),
    .branch (.symbol "x" .boolean)
      [.leaf (.assign ⟨.symbol "x", .set, .boolean false, .nowhere⟩)] .nowhere .done]

theorem block_bodies_apart_loopInside :
    (Stmt.allBodies (loopInside callsAhead))[1]? = some callsAhead ∧
    (Stmt.allBodies (loopInside shadows))[1]? = some shadows ∧
    (checkProgram (Registry.importer 0) .standard 20 .builtin (loopInside callsAhead)).result =
      .ok (Output.ofStmts (loopInsideTyped callsAheadTyped)) ∧
    (checkProgram (Registry.importer 0) .standard 30 .builtin (loopInside shadows)).result =
      .ok (Output.ofStmts (loopInsideTyped shadowsTyped)) ∧
    Tree.hollowAll 1 0 (loopInsideTyped callsAheadTyped) =
      Tree.hollowAll 1 0 (loopInsideTyped shadowsTyped) ∧
    (Output.ofStmts (loopInsideTyped callsAheadTyped)).exports =
      (Output.ofStmts (loopInsideTyped shadowsTyped)).exports := by
  have accepted : (checkProgram (Registry.importer 0) .standard 20 .builtin
      (loopInside callsAhead)).result =
        .ok (Output.ofStmts (loopInsideTyped callsAheadTyped)) := by cbv
  have accepted' : (checkProgram (Registry.importer 0) .standard 30 .builtin
      (loopInside shadows)).result = .ok (Output.ofStmts (loopInsideTyped shadowsTyped)) := by cbv
  obtain ⟨trees, exports, -⟩ := block_bodies_apart (Registry.importer 0) .standard .builtin 20 30
    (loopInside callsAhead) (loopInside shadows) 1 callsAhead shadows rfl rfl rfl
    (by simp [Stmt.Silent, callsAhead, Stmt.allLeaves, Stmt.leaves])
    (by simp [Stmt.Silent, shadows, Stmt.allLeaves, Stmt.leaves]) _ _ accepted accepted'
  exact ⟨rfl, rfl, accepted, accepted', trees, exports⟩

end Hoist
