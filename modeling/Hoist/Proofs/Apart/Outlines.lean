import Hoist.Proofs.Apart.Blocks
import Hoist.Proofs.Preservation
import Hoist.Proofs.Typed.Hollow

/-!
The outlines of the two runs. Those of the full run are those of the bare run without what is in the
block, and a chain that is open in the one is open in the other.

Main statements: blocks, the parts of chains and loops are tracked if their bodies are
(`tracks_body`, `tracks_arm`, `tracks_loop`), and chains end together (`tracks_endChainBefore`).
-/
namespace Hoist

open Typed (Tree Chain)

namespace Matching

variable {m n : Matching} {target first next : Nat}

/-- The outlines of the full run are those of the bare run, without what is in the block. -/
def Trees (m : Matching) (target first : Nat) (full bare : List Outline) : Prop :=
  Tree.AllRel m.SameLeaf (Tree.hollowAll target first full) bare

/-- The body of a block that may be the one that is empty in the bare run. -/
def Body (m : Matching) (target first : Nat) (full bare : List Outline) : Prop :=
  Tree.AllRel m.SameLeaf
    (if target = first then [] else Tree.hollowAll target (first + 1) full) bare

structure SameArm (m : Matching) (target first : Nat) (full bare : Arm) : Prop where
  condition : full.condition = bare.condition
  span : full.span = bare.span
  body : m.Body target first full.body bare.body

/-- Parts of an `if` chain, with blocks from `first` up to `next`. -/
def Arms (m : Matching) (target : Nat) : Nat → Nat → List Arm → List Arm → Prop
  | first, next, [], [] => first = next
  | first, next, arm :: rest, arm' :: rest' => m.SameArm target first arm arm' ∧
    m.Arms target (first + 1 + (Tree.allBodies arm.body).length) next rest rest'
  | _, _, _, _ => False

def Chains (m : Matching) (target first next : Nat) : Option OpenChain → Option OpenChain → Prop
  | none, none => first = next
  | some chain, some chain' =>
    m.Arms target first next (chain.first :: chain.elseIfs) (chain'.first :: chain'.elseIfs)
  | _, _ => False

/-- What is finished, and the chain that is open after it. -/
def Carried (m : Matching) (target first next : Nat)
    (full bare : List Outline × Option OpenChain) : Prop :=
  m.Trees target first full.1 bare.1 ∧
    m.Chains target (first + (Tree.allBodies full.1).length) next full.2 bare.2

theorem Trees.mono {full bare : List Outline} (within : m.Within n)
    (trees : m.Trees target first full bare) : n.Trees target first full bare :=
  Tree.AllRel.mono (SameLeaf.mono within) _ _ trees

theorem SameArm.mono {full bare : Arm} (within : m.Within n)
    (same : m.SameArm target first full bare) : n.SameArm target first full bare :=
  ⟨same.condition, same.span, Tree.AllRel.mono (SameLeaf.mono within) _ _ same.body⟩

theorem Arms.mono {arms arms' : List Arm} (within : m.Within n)
    (alike : m.Arms target first next arms arms') : n.Arms target first next arms arms' := by
  induction arms generalizing first arms' with
  | nil => cases arms' <;> exact alike
  | cons arm rest ih =>
    cases arms' with
    | nil => exact alike
    | cons arm' rest' => exact ⟨alike.1.mono within, ih alike.2⟩

theorem Chains.mono {chain chain' : Option OpenChain} (within : m.Within n)
    (alike : m.Chains target first next chain chain') :
    n.Chains target first next chain chain' := by
  cases chain <;> cases chain'
  · exact alike
  · exact alike
  · exact alike
  · exact Arms.mono within alike

/-- No chain is open. -/
theorem Chains.of_fresh {chain chain' : Option OpenChain}
    (alike : m.Chains target first next chain chain') (fresh : chain = none) :
    chain = none ∧ chain' = none ∧ first = next := by
  subst fresh
  cases chain' with
  | none => exact ⟨rfl, rfl, alike⟩
  | some chain' => exact alike.elim

theorem Carried.closed {full bare : List Outline} (trees : m.Trees target first full bare)
    (count : first + (Tree.allBodies full).length = next) :
    m.Carried target first next (full, none) (bare, none) :=
  ⟨trees, count⟩

theorem Carried.opened {chain chain' : OpenChain}
    (alike : m.Chains target first next (some chain) (some chain')) :
    m.Carried target first next ([], some chain) ([], some chain') :=
  ⟨by simp [Trees, Tree.hollowAll, Tree.AllRel], alike⟩

theorem Arms.extend {arms arms' : List Arm} (alike : m.Arms target first next arms arms')
    {arm arm' : Arm} (same : m.SameArm target next arm arm') :
    m.Arms target first (next + 1 + (Tree.allBodies arm.body).length) (arms ++ [arm])
      (arms' ++ [arm']) := by
  induction arms generalizing first arms' with
  | nil =>
    cases arms' with
    | nil =>
      obtain rfl : first = next := alike
      exact ⟨same, rfl⟩
    | cons arm' rest' => exact alike.elim
  | cons other rest ih =>
    cases arms' with
    | nil => exact alike.elim
    | cons other' rest' => exact ⟨alike.1, ih alike.2⟩

theorem Arms.link {arms arms' : List Arm} (alike : m.Arms target first next arms arms')
    {last last' : OutlineChain} (ends : Chain.Rel m.SameLeaf (last.hollow target next) last') :
    Chain.Rel m.SameLeaf ((Arm.link last arms).hollow target first) (Arm.link last' arms') ∧
      first + (Arm.link last arms).bodies.length = next + last.bodies.length := by
  induction arms generalizing first arms' with
  | nil =>
    cases arms' with
    | nil =>
      obtain rfl : first = next := alike
      exact ⟨ends, rfl⟩
    | cons arm' rest' => exact alike.elim
  | cons arm rest ih =>
    cases arms' with
    | nil => exact alike.elim
    | cons arm' rest' =>
      obtain ⟨same, others⟩ := alike
      obtain ⟨linked, count⟩ := ih others
      refine ⟨?_, ?_⟩
      · simp only [Arm.link, Chain.hollow, Chain.Rel]
        exact ⟨same.condition, same.span, same.body, linked⟩
      · simp only [Arm.link, Chain.bodies, List.length_cons, List.length_append] at count ⊢
        omega

theorem Chains.close {chain chain' : OpenChain}
    (alike : m.Chains target first next (some chain) (some chain')) {last last' : OutlineChain}
    (ends : Chain.Rel m.SameLeaf (last.hollow target next) last') :
    m.Trees target first [chain.close last] [chain'.close last'] ∧
      first + (Tree.allBodies [chain.close last]).length = next + last.bodies.length := by
  obtain ⟨same, others⟩ := alike
  obtain ⟨linked, count⟩ := others.link ends
  refine ⟨?_, ?_⟩
  · simp only [Trees, OpenChain.close, Tree.hollowAll, Tree.hollow, Tree.AllRel, Tree.Rel, and_true]
    exact ⟨same.condition, same.span, same.body, linked⟩
  · simp only [OpenChain.close, Tree.allBodies, Tree.bodies, List.append_nil, List.length_cons,
      List.length_append] at count ⊢
    omega

theorem Trees.append {before before' after after' : List Outline}
    (trees : m.Trees target first before before')
    (others : m.Trees target (first + (Tree.allBodies before).length) after after') :
    m.Trees target first (before ++ after) (before' ++ after') := by
  rw [Trees, Tree.hollowAll_append]
  exact Tree.AllRel.append trees others

end Matching

/-- Nothing is returned in the block with a number, if the number of the first is `first`. -/
def Stmt.SilentAt (target first : Nat) (bodies : List (List Stmt)) : Prop :=
  ∀ index body, first + index = target → bodies[index]? = some body → Stmt.Silent body

namespace Stmt.SilentAt

variable {target first : Nat} {before after : List (List Stmt)}

theorem left (silent : SilentAt target first (before ++ after)) : SilentAt target first before :=
  fun index body here found => silent index body here
    (by rwa [List.getElem?_append_left (List.getElem?_eq_some_iff.1 found).1])

theorem right (silent : SilentAt target first (before ++ after)) :
    SilentAt target (first + before.length) after :=
  fun index body here found => silent (before.length + index) body (by omega)
    (by simpa [List.getElem?_append_right] using found)

theorem head {body : List Stmt} (silent : SilentAt target first (body :: after))
    (here : target = first) : Stmt.Silent body :=
  silent 0 body here.symm rfl

theorem tail {body : List Stmt} (silent : SilentAt target first (body :: after)) :
    SilentAt target (first + 1) after :=
  fun index body here found => silent (index + 1) body (by omega) (by simpa using found)

end Stmt.SilentAt

namespace Check

variable {σ α β : Type} {m : Matching} {busy : Bool} {s a : Checker Empty σ} {j i : ScopeId}
  {options : Options} {importer : Importer σ} {target first here : Nat}

theorem Tracks.and_ends {step : Check Empty σ α} {step' : Check Empty σ β}
    {same : Matching → α → β → Prop} {good : α → Prop} (tracks : Tracks m busy s a step step' same)
    (known : ∀ value t, Ends step s value t → good value) :
    Tracks m busy s a step step' fun n value value' => same n value value' ∧ good value := by
  intro value t ends
  obtain ⟨n, value', b, within, alike, matched, ends'⟩ := tracks value t ends
  exact ⟨n, value', b, within, ⟨alike, known value t ends⟩, matched, ends'⟩

/-- The outlines of a block have as many blocks in them as its statements. -/
theorem length_checkBlock {body : List Stmt} {outlines : List Outline} {t : Checker Empty σ}
    (ends : Ends (checkBlock (Env.plain options importer) j none body) s outlines t) :
    (Tree.allBodies outlines).length = (Stmt.allBodies body).length := by
  have erased := (tells_checkBlock ends t (.refl t)).erased
  rw [← Stmt.length_eraseAll body, ← erased, Stmt.length_eraseAll, Checker.unfold,
    Tree.length_unfoldAll]

/-! Statements with a body. -/

/-- A block of both runs, or the one that is empty in the bare run. -/
theorem tracks_body (matched : Matches m false s a) (pair : m.Scope j i) (kind : ScopeKind)
    {body : List Stmt} (silent : target = here → Stmt.Silent body)
    (inside : ∀ {n t b inner inner'}, Matches n false t b → n.Scope inner inner' →
      Tracks n false t b (checkBlock (Env.plain options importer) inner none body)
        (checkBlock (Env.plain options importer) inner' none
          (Stmt.hollowAll target (here + 1) body))
        fun n => n.Trees target (here + 1)) :
    Tracks m false s a
      (createScope (some j) kind >>= fun inner =>
        checkBlock (Env.plain options importer) inner none body)
      (createScope (some i) kind >>= fun inner =>
        checkBlock (Env.plain options importer) inner none
          (if target = here then [] else Stmt.hollowAll target (here + 1) body))
      fun n outlines outlines' => n.Body target here outlines outlines' ∧
        (Tree.allBodies outlines).length = (Stmt.allBodies body).length := by
  refine Tracks.and_ends ?_ fun outlines t ends => ?_
  · by_cases hole : target = here
    · rw [if_pos hole]
      refine (tracks_emptied matched pair kind (silent hole)).mono fun n outlines _ nothing => ?_
      simp [Matching.Body, hole, nothing, Tree.AllRel]
    · rw [if_neg hole]
      refine ((tracks_createScope matched pair kind).bind fun n inner inner' t b _ matched bodies =>
        inside matched bodies).mono fun n outlines outlines' trees => ?_
      rwa [Matching.Body, if_neg hole]
  · obtain ⟨_, _, -, walks⟩ := ends_bind.1 ends
    exact length_checkBlock walks

section Bodies

variable {body body' : ScopeId → Check Empty σ (List Outline)}
  {same : Matching → List Outline → List Outline → Prop}

theorem tracks_arm (matched : Matches m false s a) (pair : m.Scope j i) (condition : Expr)
    (span : Span)
    (inside : ∀ {n t b}, Matches n false t b → n.Scope j i → Tracks n false t b
      (createScope (some j) .block >>= body) (createScope (some i) .block >>= body') same) :
    Tracks m false s a (checkArm j condition span body) (checkArm i condition span body')
      fun n arm arm' => arm.condition = arm'.condition ∧ arm.span = arm'.span ∧
        same n arm.body arm'.body := by
  refine (tracks_condition matched pair condition span.start).bind
    fun n after _ t b within matched equal => ?_
  subst equal
  refine (inside matched (within.scope pair)).bind_inside
    fun n outlines outlines' t b within matched alike => ?_
  exact tracks_ofCause fun typed => tracks_pure matched ⟨rfl, rfl, alike⟩

theorem tracks_loop (matched : Matches m false s a) (pair : m.Scope j i) (condition : Expr)
    (span : Span)
    (inside : ∀ {n t b}, Matches n false t b → n.Scope j i → Tracks n false t b
      (createScope (some j) .loop >>= body) (createScope (some i) .loop >>= body') same) :
    Tracks m false s a (checkLoop (Env.plain options importer) j condition span body)
      (checkLoop (Env.plain options importer) i condition span body')
      fun n outline outline' => ∃ typed outlines outlines', outline = .loop typed outlines span ∧
        outline' = .loop typed outlines' span ∧ same n outlines outlines' := by
  refine (tracks_loopCondition matched pair condition span.start).bind
    fun n after _ t b within matched equal => ?_
  subst equal
  refine (inside matched (within.scope pair)).bind_inside
    fun n outlines outlines' t b within matched alike => ?_
  exact tracks_ofCause fun typed =>
    tracks_pure matched ⟨typed, outlines, outlines', rfl, rfl, alike⟩

end Bodies

theorem tracks_foldChain (matched : Matches m busy s a) {chain chain' : OpenChain}
    (alike : m.Chains target first here (some chain) (some chain')) {last last' : OutlineChain}
    (ends : Chain.Rel m.SameLeaf (last.hollow target here) last') :
    Tracks m busy s a (foldChain chain last) (foldChain chain' last') fun n outline outline' =>
      n.Trees target first [outline] [outline'] ∧
        first + (Tree.allBodies [outline]).length = here + last.bodies.length := by
  refine (tracks_note matched _ _).bind fun n _ _ t b within matched _ => ?_
  obtain ⟨trees, count⟩ := alike.close ends
  exact tracks_pure matched ⟨trees.mono within, count⟩

theorem tracks_endChain (matched : Matches m busy s a) {chain chain' : Option OpenChain}
    (alike : m.Chains target first here chain chain') :
    Tracks m busy s a (endChain chain) (endChain chain') fun n outlines outlines' =>
      n.Trees target first outlines outlines' ∧
        first + (Tree.allBodies outlines).length = here := by
  cases chain with
  | none =>
    cases chain' with
    | none =>
      obtain rfl : first = here := alike
      exact tracks_pure matched ⟨by simp [Matching.Trees, Tree.hollowAll, Tree.AllRel], rfl⟩
    | some chain' => exact alike.elim
  | some chain =>
    cases chain' with
    | none => exact alike.elim
    | some chain' =>
      have last : Chain.Rel m.SameLeaf (Chain.hollow target here (.done : OutlineChain)) .done := by
        simp [Chain.hollow, Chain.Rel]
      refine (tracks_foldChain matched alike last).bind
        fun n outline outline' t b _ matched told => ?_
      exact tracks_pure matched told

theorem tracks_endChainBefore (matched : Matches m busy s a) {chain chain' : Option OpenChain}
    (alike : m.Chains target first here chain chain') (stmt : Stmt) :
    Tracks m busy s a (endChainBefore stmt chain)
      (endChainBefore (stmt.hollow target here) chain') fun n found found' =>
        n.Carried target first here found found' ∧
          (stmt.continuesChain = false → found.2 = none) := by
  unfold endChainBefore
  rw [Stmt.continuesChain_hollow]
  split
  case isTrue continues =>
    refine tracks_pure matched ⟨⟨?_, alike⟩, fun ends => by simp [continues] at ends⟩
    simp [Matching.Trees, Tree.hollowAll, Tree.AllRel]
  case isFalse =>
    refine (tracks_endChain matched alike).bind fun n outlines outlines' t b _ matched told => ?_
    exact tracks_pure matched ⟨⟨told.1, told.2⟩, fun _ => rfl⟩

end Check

end Hoist
