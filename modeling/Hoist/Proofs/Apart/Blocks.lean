import Hoist.Proofs.Apart.Work
import Hoist.Proofs.Check.Bodies

/-!
Statements in their blocks. The full run goes through the body of the block that is empty in the
bare run while that waits.

Main statements: simple statements and functions that both runs have (`tracks_leaf`,
`tracks_openFunction`, `tracks_closeFunction`), and the block that is empty in the bare run
(`tracks_emptied`).
-/
namespace Hoist

/-- The same simple statement in the outlines of the two runs. -/
def Matching.SameLeaf (m : Matching) : OutlineLeaf → OutlineLeaf → Prop
  | .draft j, .draft i => m.Draft j i
  | .plain leaf, .plain leaf' => leaf = leaf'
  | _, _ => False

theorem Matching.SameLeaf.mono {m n : Matching} (within : m.Within n) (leaf leaf' : OutlineLeaf)
    (same : m.SameLeaf leaf leaf') : n.SameLeaf leaf leaf' := by
  cases leaf <;> cases leaf' <;> simp only [SameLeaf] at same ⊢
  · exact within.draft same
  · exact same

/-- Nothing is returned in the body of a block. -/
def Stmt.Silent (body : List Stmt) : Prop :=
  ∀ statement, Leaf.returns statement ∉ Stmt.allLeaves body

namespace Check

variable {σ : Type} {m : Matching} {busy : Bool} {s a : Checker Empty σ} {j i : ScopeId}
  {options : Options} {importer : Importer σ}

theorem settlesAlike_plain : SettlesAlike false (Env.plain options importer).settle :=
  settlesAlike_runWave

/-! Simple statements. -/

theorem tracks_importNames (matched : Matches m false s a) (pair : m.Scope j i) (source : String)
    (position : Position) (names : List String) :
    Tracks m false s a (importNames (Env.plain options importer) j source position names)
      (importNames (Env.plain options importer) i source position names)
      fun _ imported imported' => imported = imported' := by
  induction names generalizing m s a with
  | nil => exact tracks_pure matched rfl
  | cons name rest ih =>
    have asks : Tracks m false s a (importType (Env.plain options importer) name source position)
        (importType (Env.plain options importer) name source position)
        fun _ type type' => type = type' := by
      intro type t ends
      obtain ⟨found, rfl⟩ := ends_importType.1 ends
      have store := matched.store
      rw [store] at found
      refine ⟨m, type, _, .refl m, rfl, ?_, ends_importType.2 ⟨found, rfl⟩⟩
      exact { matched with store := by rw [store] }
    refine asks.bind fun n type _ t b within matched same => ?_
    subst same
    have pair := within.scope pair
    refine tracks_ofCause fun imported => ?_
    refine (tracks_define matched pair _).bind fun n work work' t b within matched tasks => ?_
    have pair := within.scope pair
    refine (settlesAlike_plain.both matched tasks).bind fun n _ _ t b within matched _ => ?_
    refine (ih matched (within.scope pair)).bind fun n others _ t b within matched same => ?_
    exact tracks_pure matched (by rw [same])

theorem tracks_leaf (matched : Matches m false s a) (pair : m.Scope j i) (leaf : Leaf) :
    Tracks m false s a (checkLeaf (Env.plain options importer) j leaf)
      (checkLeaf (Env.plain options importer) i leaf) fun n => n.SameLeaf := by
  have inLoop (keyword : String) (span : Span) (plain : Typed.Leaf) : Tracks m false s a
      (checkInLoop j keyword span >>= fun _ => pure (.plain plain))
      (checkInLoop i keyword span >>= fun _ => pure (.plain plain)) fun n => n.SameLeaf := by
    rw [checkInLoop_eq, checkInLoop_eq]
    refine (tracks_demand matched (matched.isInsideLoop_eq pair)).bind
      fun n _ _ t b within matched _ => ?_
    exact tracks_pure matched rfl
  have drafted (work : Work) {check check' : DraftId → Check Empty σ Unit}
      (checks : ∀ {n t b k l}, Matches n false t b → n.Scope j i → n.Draft k l →
        Tracks n false t b (check k) (check' l) fun _ _ _ => True) :
      Tracks m false s a
        (addDraft j work >>= fun id => check id >>= fun _ => pure (.draft id))
        (addDraft i work >>= fun id => check' id >>= fun _ => pure (.draft id))
        fun n => n.SameLeaf := by
    refine (tracks_addDraft matched pair work).bind fun n k l t b within matched drafts => ?_
    refine (checks matched (within.scope pair) drafts).bind fun n _ _ t b within matched _ => ?_
    exact tracks_pure matched (within.draft drafts)
  cases leaf with
  | declare declaration =>
    refine (tracks_declaration settlesAlike_plain matched pair declaration).bind
      fun n id id' t b within matched drafts => ?_
    exact tracks_pure matched drafts
  | assign assignment =>
    exact drafted _ fun matched pair drafts => tracks_assignment matched drafts pair assignment []
  | returns statement =>
    exact drafted _ fun matched pair drafts =>
      tracks_return settlesAlike_plain matched drafts pair statement
  | evaluate statement =>
    exact drafted _ fun matched pair drafts => tracks_evaluation matched drafts pair statement
  | breakLoop span => exact inLoop "break" span _
  | continueLoop span => exact inLoop "continue" span _
  | imports names source span =>
    rw [checkLeaf_imports, checkLeaf_imports]
    refine (tracks_demand matched (matched.isTopLevel_eq pair)).bind
      fun n _ _ t b within matched _ => ?_
    refine (tracks_importNames matched (within.scope pair) source span.start names).map ?_
    rintro n imported _ rfl
    rfl
  | endOfFile => exact tracks_pure matched rfl

theorem aside_leaf (matched : Matches m false s a) (own : m.OwnScope j) (leaf : Leaf)
    (silent : ∀ statement, leaf ≠ .returns statement) :
    Aside m false s a (checkLeaf (Env.plain options importer) j leaf) fun _ _ => True := by
  have inLoop (keyword : String) (span : Span) (plain : Typed.Leaf) : Aside m false s a
      (checkInLoop j keyword span >>= fun _ => pure (OutlineLeaf.plain plain))
      fun _ _ => True := by
    rw [checkInLoop_eq]
    exact (aside_demand matched).bind fun n _ t within matched _ => aside_pure matched trivial
  have drafted (work : Work) (simple : work.isReturn = false) {check : DraftId → Check Empty σ Unit}
      (checks : ∀ {n t k}, Matches n false t a → n.OwnScope j → n.OwnDraft k →
        Aside n false t a (check k) fun _ _ => True) :
      Aside m false s a
        (addDraft j work >>= fun id => check id >>= fun _ => pure (OutlineLeaf.draft id))
        fun _ _ => True := by
    refine (aside_addDraft matched own simple).bind fun n id t within matched mine => ?_
    refine (checks matched (within.ownScope own) mine).bind fun n _ t within matched _ => ?_
    exact aside_pure matched trivial
  cases leaf with
  | declare declaration =>
    refine (aside_declaration settlesAlike_plain matched own declaration).bind
      fun n id t within matched _ => ?_
    exact aside_pure matched trivial
  | assign assignment =>
    exact drafted _ rfl fun matched own mine => aside_assignment matched mine own assignment []
  | returns statement => exact absurd rfl (silent statement)
  | evaluate statement =>
    exact drafted _ rfl fun matched own mine => aside_evaluation matched mine own statement
  | breakLoop span => exact inLoop "break" span _
  | continueLoop span => exact inLoop "continue" span _
  | imports names source span =>
    rw [checkLeaf_imports]
    intro value t ends
    obtain ⟨_, between, here, -⟩ := ends_bind.1 ends
    obtain ⟨-, -, top, -⟩ := aside_demand matched _ _ here
    exact absurd top (matched.not_isTopLevel own)
  | endOfFile => exact aside_pure matched trivial

/-! Conditions. -/

theorem tracks_condition (matched : Matches m busy s a) (pair : m.Scope j i) (condition : Expr)
    (position : Position) :
    Tracks m busy s a (checkCondition j condition position) (checkCondition i condition position)
      fun _ after after' => after = after' := by
  intro after t ends
  obtain ⟨looked, rfl⟩ := ends_checkCondition.1 ends
  rw [matched.view_eq pair] at looked
  exact ⟨m, after, a, .refl m, rfl, matched, ends_checkCondition.2 ⟨looked, rfl⟩⟩

theorem tracks_loopCondition (matched : Matches m busy s a) (pair : m.Scope j i)
    (condition : Expr) (position : Position) :
    Tracks m busy s a (checkLoopCondition (Env.plain options importer) j condition position)
      (checkLoopCondition (Env.plain options importer) i condition position)
      fun _ after after' => after = after' := by
  refine tracks_view matched pair fun names => ?_
  obtain ⟨result, after⟩ := condition.resolve names
  refine tracks_ofFault rfl fun type _ => ?_
  cases (Env.plain options importer).options.loopCondition with
  | literalTrue =>
    simp only
    split
    · exact tracks_reject
    · exact tracks_pure matched rfl
  | boolean =>
    simp only [requireBoolean]
    split
    · exact tracks_pure matched rfl
    · exact tracks_reject

/-! Functions. -/

theorem tracks_defineParameters (matched : Matches m false s a) (pair : m.Scope j i)
    (position : Position) (parameters : List (String × Ty)) :
    Tracks m false s a
      (defineParameters (Env.plain options importer).settle j position parameters)
      (defineParameters (Env.plain options importer).settle i position parameters)
      fun _ _ _ => True := by
  induction parameters generalizing m s a with
  | nil => exact tracks_pure matched trivial
  | cons parameter rest ih =>
    refine (tracks_define matched pair _).bind fun n work work' t b within matched tasks => ?_
    have pair := within.scope pair
    refine (settlesAlike_plain.both matched tasks).bind fun n _ _ t b within matched _ => ?_
    exact ih matched (within.scope pair)

theorem tracks_openFunction (matched : Matches m false s a) (pair : m.Scope j i)
    (signature : Signature) :
    Tracks m false s a (openFunction (Env.plain options importer).settle j signature)
      (openFunction (Env.plain options importer).settle i signature) fun n => n.Scope := by
  rw [openFunction_eq, openFunction_eq]
  refine (tracks_demand matched (matched.isTopLevel_eq pair)).bind
    fun n _ _ t b within matched _ => ?_
  refine tracks_ofCause fun _ => ?_
  refine (tracks_createScope matched (within.scope pair) _).bind
    fun n inner inner' t b within matched bodies => ?_
  refine (tracks_defineParameters matched bodies _ _).bind fun n _ _ t b within matched _ => ?_
  exact tracks_pure matched (within.scope bodies)

theorem tracks_closeFunction (matched : Matches m false s a) (pair : m.Scope j i)
    {inner inner' : ScopeId} (bodies : m.Scope inner inner') (signature : Signature) :
    Tracks m false s a (closeFunction (Env.plain options importer).settle j inner signature)
      (closeFunction (Env.plain options importer).settle i inner' signature)
      fun _ id id' => id = id' := by
  rw [closeFunction_eq, closeFunction_eq]
  refine tracks_scopes (tracks_ofFault (matched.resultType_eq bodies) fun result _ => ?_)
  rw [finishFunction_eq, finishFunction_eq]
  generalize ({ signature with result := (result.map resultOf).getD .void } : Signature) = found
  have heads : Tracks m false s a (addHead j inner found) (addHead i inner' found)
      fun _ id id' => id = id' := by
    have head : m.SameHead ⟨j, inner, found⟩ ⟨i, inner', found⟩ := ⟨pair, bodies, rfl⟩
    refine (tracks_addSignature matched head).bind fun n id _ t b within matched same => ?_
    subst same
    simp only
    split
    · refine (tracks_awaitResult matched (within.scope bodies) (.conclude id)).bind
        fun n _ _ t b within matched _ => ?_
      exact tracks_pure matched rfl
    · exact tracks_pure matched rfl
  refine heads.bind fun n id _ t b within matched same => ?_
  subst same
  refine (tracks_define matched (within.scope pair) _).bind
    fun n work work' t b within matched tasks => ?_
  refine (settlesAlike_plain.both matched tasks).bind fun n _ _ t b within matched _ => ?_
  exact tracks_pure matched rfl

/-! The body that only the full run has. -/

section Own

variable {body : ScopeId → Check Empty σ (List Outline)}
  (inside : ∀ {n t inner}, Matches n false t a → n.OwnScope inner →
    Aside n false t a (body inner) fun _ _ => True)
include inside

theorem aside_arm (matched : Matches m false s a) (own : m.OwnScope j) (condition : Expr)
    (span : Span) : Aside m false s a (checkArm j condition span body) fun _ _ => True := by
  have looks : Aside m false s a (checkCondition j condition span.start) fun _ _ => True := by
    intro after t ends
    obtain ⟨-, rfl⟩ := ends_checkCondition.1 ends
    exact ⟨m, .refl m, trivial, matched⟩
  refine looks.bind fun n after t within matched _ => ?_
  refine (aside_createScope matched (within.ownScope own) .block).bind
    fun n inner t within matched own => ?_
  refine (inside matched own).bind fun n outlines t within matched _ => ?_
  exact aside_ofCause fun typed => aside_pure matched trivial

theorem aside_loop (matched : Matches m false s a) (own : m.OwnScope j) (condition : Expr)
    (span : Span) : Aside m false s a
      (checkLoop (Env.plain options importer) j condition span body) fun _ _ => True := by
  have looks : Aside m false s a
      (checkLoopCondition (Env.plain options importer) j condition span.start)
      fun _ _ => True := by
    intro after t ends
    obtain ⟨rfl, -⟩ := ends_checkLoopCondition ends
    exact ⟨m, .refl m, trivial, matched⟩
  refine looks.bind fun n after t within matched _ => ?_
  refine (aside_createScope matched (within.ownScope own) .loop).bind
    fun n inner t within matched own => ?_
  refine (inside matched own).bind fun n outlines t within matched _ => ?_
  exact aside_ofCause fun typed => aside_pure matched trivial

end Own

theorem aside_foldChain (matched : Matches m busy s a) (chain : OpenChain) (last : OutlineChain) :
    Aside m busy s a (foldChain chain last) fun _ _ => True :=
  (aside_note matched _).bind fun _ _ _ _ matched _ => aside_pure matched trivial

theorem aside_endChain (matched : Matches m busy s a) (chain : Option OpenChain) :
    Aside m busy s a (endChain chain) fun _ _ => True := by
  cases chain with
  | none => exact aside_pure matched trivial
  | some chain =>
    exact (aside_foldChain matched chain .done).bind fun _ _ _ _ matched _ =>
      aside_pure matched trivial

mutual

theorem aside_checkStmt : ∀ (stmt : Stmt) {m : Matching} {s : Checker Empty σ} {j : ScopeId}
    (chain : Option OpenChain), Matches m false s a → m.OwnScope j →
    (∀ statement, Leaf.returns statement ∉ Stmt.leaves stmt) →
    Aside m false s a (checkStmt (Env.plain options importer) j chain stmt) fun _ _ => True
  | .leaf content, m, s, j, chain, matched, own, silent => by
    refine (aside_leaf matched own content fun statement same => ?_).bind
      fun n leaf t within matched _ => aside_pure matched trivial
    exact silent statement (by simp [Stmt.leaves, same])
  | .branch condition body span, m, s, j, chain, matched, own, silent => by
    refine (aside_arm (fun matched own => ?_) matched own condition span).bind
      fun n arm t within matched _ => aside_pure matched trivial
    exact aside_checkBlock body none matched own silent
  | .elseIf condition body span, m, s, j, none, matched, own, silent => aside_reject
  | .elseIf condition body span, m, s, j, some chain, matched, own, silent => by
    refine (aside_arm (fun matched own => ?_) matched own condition span).bind
      fun n arm t within matched _ => aside_pure matched trivial
    exact aside_checkBlock body none matched own silent
  | .otherwise body span, m, s, j, none, matched, own, silent => aside_reject
  | .otherwise body span, m, s, j, some chain, matched, own, silent => by
    refine (aside_createScope matched own .block).bind fun n inner t within matched own => ?_
    refine (aside_checkBlock body none matched own silent).bind
      fun n outlines t within matched _ => ?_
    exact (aside_foldChain matched chain _).bind fun _ _ _ _ matched _ =>
      aside_pure matched trivial
  | .loop condition body span, m, s, j, chain, matched, own, silent => by
    refine (aside_loop (fun matched own => ?_) matched own condition span).bind
      fun n outline t within matched _ => aside_pure matched trivial
    exact aside_checkBlock body none matched own silent
  | .function signature body, m, s, j, chain, matched, own, silent => by
    intro value t ends
    -- Functions stand at the top, and a block is inside of something.
    simp only [checkStmt, checkFunction, openFunction_eq, bind_assoc] at ends
    obtain ⟨_, _, here, -⟩ := ends_bind.1 ends
    obtain ⟨-, -, top, -⟩ := aside_demand matched _ _ here
    exact absurd top (matched.not_isTopLevel own)

theorem aside_checkBlock : ∀ (body : List Stmt) {m : Matching} {s : Checker Empty σ} {j : ScopeId}
    (chain : Option OpenChain), Matches m false s a → m.OwnScope j → Stmt.Silent body →
    Aside m false s a (checkBlock (Env.plain options importer) j chain body) fun _ _ => True
  | [], m, s, j, chain, matched, own, silent => aside_endChain matched chain
  | stmt :: rest, m, s, j, chain, matched, own, silent => by
    have ended : Aside m false s a (endChainBefore stmt chain) fun _ _ => True := by
      unfold endChainBefore
      split
      · exact aside_pure matched trivial
      · exact (aside_endChain matched chain).bind fun _ _ _ _ matched _ =>
          aside_pure matched trivial
    refine ended.bind fun n found t within matched _ => ?_
    obtain ⟨before, chain⟩ := found
    have own := within.ownScope own
    refine (aside_tick matched).bind fun n _ t within matched _ => ?_
    have own := within.ownScope own
    refine (aside_checkStmt stmt chain matched own fun statement mem => ?_).bind
      fun n found t within matched _ => ?_
    · exact silent statement (List.mem_append_left _ mem)
    obtain ⟨done, chain⟩ := found
    refine (aside_checkBlock rest chain matched (within.ownScope own) fun statement mem => ?_).bind
      fun n after t within matched _ => aside_pure matched trivial
    exact silent statement (List.mem_append_right _ mem)

end

/-- The block that is empty in the bare run. -/
theorem tracks_emptied (matched : Matches m false s a) (pair : m.Scope j i) (kind : ScopeKind)
    {body : List Stmt} (silent : Stmt.Silent body) :
    Tracks m false s a
      (createScope (some j) kind >>= fun inner =>
        checkBlock (Env.plain options importer) inner none body)
      (createScope (some i) kind >>= fun inner =>
        checkBlock (Env.plain options importer) inner none [])
      fun _ _ outlines' => outlines' = [] := by
  intro outlines t ends
  obtain ⟨_, _, creates, walks⟩ := ends_bind.1 ends
  obtain ⟨rfl, rfl⟩ := ends_createScope.1 creates
  obtain ⟨inside, inside'⟩ := matched.lt_size pair
  have made := (matched.createOwn inside kind
    (.scopeCreated s.scopes.size (some j) :: s.journal)).createBare inside' kind
    (.scopeCreated a.scopes.size (some i) :: a.journal)
  have own : (m.withOwnScope s.scopes.size).OwnScope s.scopes.size := .inr rfl
  obtain ⟨n, within, -, matched'⟩ := aside_checkBlock body none made own silent _ _ walks
  exact ⟨n, [], _, (m.within_withOwnScope _).trans within, rfl, matched',
    ends_bind.2 ⟨_, _, ends_createScope.2 ⟨rfl, rfl⟩, ends_pure.2 ⟨rfl, rfl⟩⟩⟩

end Check

end Hoist
