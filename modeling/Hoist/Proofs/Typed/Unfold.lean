import Hoist.Proofs.Typed.Forget

/-!
The plain statements of a tree, once it is known what its simple statements and function heads stand
for. An `if` chain unfolds into the statements it was made of.

Main statement: forgetting the types of a finished outline gives what stood in its drafts
(`Checker.forgetAll_complete`).
-/
namespace Hoist

namespace Typed

variable {α φ : Type} (onLeaf : α → Hoist.Leaf) (onHead : φ → Hoist.Signature)

mutual

def Tree.unfold : Tree α φ → List Hoist.Stmt
  | .leaf content => [.leaf (onLeaf content)]
  | .branch condition body span rest =>
    .branch condition.toExpr (Tree.unfoldAll body) span :: Chain.unfold rest
  | .loop condition body span => [.loop condition.toExpr (Tree.unfoldAll body) span]
  | .function head body => [.function (onHead head) (Tree.unfoldAll body)]

def Chain.unfold : Chain α φ → List Hoist.Stmt
  | .done => []
  | .otherwise body span => [.otherwise (Tree.unfoldAll body) span]
  | .elseIf condition body span rest =>
    .elseIf condition.toExpr (Tree.unfoldAll body) span :: Chain.unfold rest

def Tree.unfoldAll : List (Tree α φ) → List Hoist.Stmt
  | [] => []
  | tree :: rest => Tree.unfold tree ++ Tree.unfoldAll rest

end

theorem Tree.unfoldAll_append (before after : List (Tree α φ)) :
    Tree.unfoldAll onLeaf onHead (before ++ after) =
      Tree.unfoldAll onLeaf onHead before ++ Tree.unfoldAll onLeaf onHead after := by
  induction before with
  | nil => rfl
  | cons tree rest ih => simp [Tree.unfoldAll, ih]

@[simp] theorem Tree.unfoldAll_singleton (tree : Tree α φ) :
    Tree.unfoldAll onLeaf onHead [tree] = Tree.unfold onLeaf onHead tree := by
  simp [Tree.unfoldAll]

variable {onLeaf onHead} {ε : Type} {readLeaf : α → Except ε Leaf} {readHead : φ → Except ε Signature}

mutual

theorem Tree.forget_complete
    (leaves : ∀ content typed, readLeaf content = .ok typed → typed.forget = onLeaf content)
    (heads : ∀ head typed, readHead head = .ok typed → typed.forget = onHead head) :
    ∀ (tree : Tree α φ) (typed : Stmt), tree.complete readLeaf readHead = .ok typed →
      Stmt.forget typed = tree.unfold onLeaf onHead
  | .leaf content, typed, completes => by
    simp only [Tree.complete, bind_eq_ok, pure_eq_ok] at completes
    obtain ⟨found, read, rfl⟩ := completes
    simp [Stmt.forget, Tree.unfold, leaves content found read]
  | .branch condition body span rest, typed, completes => by
    simp only [Tree.complete, bind_eq_ok, pure_eq_ok] at completes
    obtain ⟨inner, readBody, chain, readRest, rfl⟩ := completes
    simp [Stmt.forget, Tree.unfold, Tree.forgetAll_complete leaves heads body inner readBody,
      Chain.forget_complete leaves heads rest chain readRest]
  | .loop condition body span, typed, completes => by
    simp only [Tree.complete, bind_eq_ok, pure_eq_ok] at completes
    obtain ⟨inner, readBody, rfl⟩ := completes
    simp [Stmt.forget, Tree.unfold, Tree.forgetAll_complete leaves heads body inner readBody]
  | .function head body, typed, completes => by
    simp only [Tree.complete, bind_eq_ok, pure_eq_ok] at completes
    obtain ⟨signature, read, inner, readBody, rfl⟩ := completes
    simp [Stmt.forget, Tree.unfold, heads head signature read,
      Tree.forgetAll_complete leaves heads body inner readBody]

theorem Chain.forget_complete
    (leaves : ∀ content typed, readLeaf content = .ok typed → typed.forget = onLeaf content)
    (heads : ∀ head typed, readHead head = .ok typed → typed.forget = onHead head) :
    ∀ (chain : Chain α φ) (typed : Chain Leaf Signature),
      chain.complete readLeaf readHead = .ok typed →
      Stmt.forgetChain typed = chain.unfold onLeaf onHead
  | .done, typed, completes => by
    obtain rfl : Chain.done = typed := by simpa [Chain.complete] using completes
    simp [Stmt.forgetChain, Chain.unfold]
  | .otherwise body span, typed, completes => by
    simp only [Chain.complete, bind_eq_ok, pure_eq_ok] at completes
    obtain ⟨inner, readBody, rfl⟩ := completes
    simp [Stmt.forgetChain, Chain.unfold, Tree.forgetAll_complete leaves heads body inner readBody]
  | .elseIf condition body span rest, typed, completes => by
    simp only [Chain.complete, bind_eq_ok, pure_eq_ok] at completes
    obtain ⟨inner, readBody, chain, readRest, rfl⟩ := completes
    simp [Stmt.forgetChain, Chain.unfold, Tree.forgetAll_complete leaves heads body inner readBody,
      Chain.forget_complete leaves heads rest chain readRest]

theorem Tree.forgetAll_complete
    (leaves : ∀ content typed, readLeaf content = .ok typed → typed.forget = onLeaf content)
    (heads : ∀ head typed, readHead head = .ok typed → typed.forget = onHead head) :
    ∀ (trees : List (Tree α φ)) (typed : List Stmt),
      Tree.completeAll readLeaf readHead trees = .ok typed →
      Stmt.forgetAll typed = Tree.unfoldAll onLeaf onHead trees
  | [], typed, completes => by
    obtain rfl : [] = typed := by simpa [Tree.completeAll] using completes
    simp [Stmt.forgetAll, Tree.unfoldAll]
  | tree :: rest, typed, completes => by
    simp only [Tree.completeAll, bind_eq_ok, pure_eq_ok] at completes
    obtain ⟨first, readFirst, others, readOthers, rfl⟩ := completes
    simp [Stmt.forgetAll, Tree.unfoldAll, Tree.forget_complete leaves heads tree first readFirst,
      Tree.forgetAll_complete leaves heads rest others readOthers]

end

end Typed

/-! Outlines. -/

namespace Checker

variable {κ σ : Type} (state : Checker κ σ)

/-- The statement that a leaf of an outline stands for. -/
def leafOf : OutlineLeaf → Leaf
  | .plain leaf => leaf.forget
  | .draft id => (state.drafts[id]?.map (·.work.leaf)).getD .endOfFile

def headOf (id : SignatureId) : Signature :=
  (state.signatures[id]?.map (·.signature)).getD ⟨"", [], .void, false, .nowhere⟩

/-- The statements that an outline stands for. -/
def unfold (outlines : List Outline) : List Stmt :=
  Typed.Tree.unfoldAll state.leafOf state.headOf outlines

theorem forgetAll_complete {outlines : List Outline} {typed : List Typed.Stmt}
    (completes : state.complete outlines = .ok typed) :
    Typed.Stmt.forgetAll typed = state.unfold outlines := by
  refine Typed.Tree.forgetAll_complete (fun content found read => ?_) (fun id found read => ?_)
    outlines typed completes
  · cases content with
    | plain leaf =>
      obtain rfl : leaf = found := by simpa [completeLeaf] using read
      rfl
    | draft id =>
      cases here : state.drafts[id]? with
      | none => simp [completeLeaf, here] at read
      | some draft =>
        have completes : draft.work.complete = .ok found := by
          simpa [completeLeaf, here, atPosition_eq_ok] using read
        simp [leafOf, here, Work.forget_complete completes]
  · cases here : state.signatures[id]? with
    | none => simp [completeHead, here] at read
    | some draft =>
      have completes : draft.signature.complete = .ok found := by
        simpa [completeHead, here, atPosition_eq_ok] using read
      simp [headOf, here, Signature.forget_complete completes]

end Checker

end Hoist
