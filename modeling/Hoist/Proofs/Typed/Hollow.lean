import Hoist.Proofs.Typed.Unfold
import Hoist.Proofs.Typing.Erase

/-!
The blocks of a program, numbered in the order in which they begin, and the program without what is
in one of them. A block is a part of an `if` chain or a loop; the body of a function is none.

Main statements: the plain statements of a tree and the finished tree have their blocks where the
tree has them (`Tree.length_unfoldAll`, `Tree.completeAll_hollow`).
-/
namespace Hoist

/-! Statements as they are written. -/

mutual

/-- The bodies of the blocks of a statement, in the order in which they begin. -/
def Stmt.bodies : Stmt → List (List Stmt)
  | .leaf _ => []
  | .branch _ body _ | .elseIf _ body _ | .otherwise body _ | .loop _ body _ =>
    body :: Stmt.allBodies body
  | .function _ body => Stmt.allBodies body

def Stmt.allBodies : List Stmt → List (List Stmt)
  | [] => []
  | stmt :: rest => Stmt.bodies stmt ++ Stmt.allBodies rest

end

mutual

/-- A statement without what is in one of the blocks, if the number of the first is `first`. -/
def Stmt.hollow (target first : Nat) : Stmt → Stmt
  | .leaf content => .leaf content
  | .branch condition body span =>
    .branch condition (if target = first then [] else Stmt.hollowAll target (first + 1) body) span
  | .elseIf condition body span =>
    .elseIf condition (if target = first then [] else Stmt.hollowAll target (first + 1) body) span
  | .otherwise body span =>
    .otherwise (if target = first then [] else Stmt.hollowAll target (first + 1) body) span
  | .loop condition body span =>
    .loop condition (if target = first then [] else Stmt.hollowAll target (first + 1) body) span
  | .function signature body => .function signature (Stmt.hollowAll target first body)

def Stmt.hollowAll (target first : Nat) : List Stmt → List Stmt
  | [] => []
  | stmt :: rest =>
    Stmt.hollow target first stmt ::
      Stmt.hollowAll target (first + (Stmt.bodies stmt).length) rest

end

theorem Stmt.continuesChain_hollow (target first : Nat) (stmt : Stmt) :
    (stmt.hollow target first).continuesChain = stmt.continuesChain := by
  cases stmt <;> rfl

theorem Stmt.allBodies_append (before after : List Stmt) :
    Stmt.allBodies (before ++ after) = Stmt.allBodies before ++ Stmt.allBodies after := by
  induction before with
  | nil => rfl
  | cons stmt rest ih => simp [Stmt.allBodies, ih]

mutual

theorem Stmt.length_erase : ∀ stmt : Stmt, (Stmt.bodies stmt.erase).length = stmt.bodies.length
  | .leaf _ => rfl
  | .branch _ body _ | .elseIf _ body _ | .otherwise body _ | .loop _ body _ => by
    simp [Stmt.erase, Stmt.bodies, Stmt.length_eraseAll body]
  | .function _ body => by simp [Stmt.erase, Stmt.bodies, Stmt.length_eraseAll body]

theorem Stmt.length_eraseAll : ∀ stmts : List Stmt,
    (Stmt.allBodies (Stmt.eraseAll stmts)).length = (Stmt.allBodies stmts).length
  | [] => rfl
  | stmt :: rest => by
    simp [Stmt.eraseAll, Stmt.allBodies, Stmt.length_erase stmt, Stmt.length_eraseAll rest]

end

/-! Trees. -/

namespace Typed

variable {α β φ ψ ε : Type}

mutual

def Tree.bodies : Tree α φ → List (List (Tree α φ))
  | .leaf _ => []
  | .branch _ body _ rest => body :: (Tree.allBodies body ++ Chain.bodies rest)
  | .loop _ body _ => body :: Tree.allBodies body
  | .function _ body => Tree.allBodies body

def Chain.bodies : Chain α φ → List (List (Tree α φ))
  | .done => []
  | .otherwise body _ => body :: Tree.allBodies body
  | .elseIf _ body _ rest => body :: (Tree.allBodies body ++ Chain.bodies rest)

def Tree.allBodies : List (Tree α φ) → List (List (Tree α φ))
  | [] => []
  | tree :: rest => Tree.bodies tree ++ Tree.allBodies rest

end

mutual

/-- A tree without what is in one of the blocks, if the number of the first is `first`. -/
def Tree.hollow (target first : Nat) : Tree α φ → Tree α φ
  | .leaf content => .leaf content
  | .branch condition body span rest =>
    .branch condition (if target = first then [] else Tree.hollowAll target (first + 1) body) span
      (Chain.hollow target (first + 1 + (Tree.allBodies body).length) rest)
  | .loop condition body span =>
    .loop condition (if target = first then [] else Tree.hollowAll target (first + 1) body) span
  | .function head body => .function head (Tree.hollowAll target first body)

def Chain.hollow (target first : Nat) : Chain α φ → Chain α φ
  | .done => .done
  | .otherwise body span =>
    .otherwise (if target = first then [] else Tree.hollowAll target (first + 1) body) span
  | .elseIf condition body span rest =>
    .elseIf condition (if target = first then [] else Tree.hollowAll target (first + 1) body) span
      (Chain.hollow target (first + 1 + (Tree.allBodies body).length) rest)

def Tree.hollowAll (target first : Nat) : List (Tree α φ) → List (Tree α φ)
  | [] => []
  | tree :: rest =>
    Tree.hollow target first tree ::
      Tree.hollowAll target (first + (Tree.bodies tree).length) rest

end

theorem Tree.hollowAll_append (target first : Nat) (before after : List (Tree α φ)) :
    Tree.hollowAll target first (before ++ after) =
      Tree.hollowAll target first before ++
        Tree.hollowAll target (first + (Tree.allBodies before).length) after := by
  induction before generalizing first with
  | nil => rfl
  | cons tree rest ih =>
    simp [Tree.hollowAll, Tree.allBodies, ih, Nat.add_assoc]

/-! The plain statements of a tree. -/

section Unfold

variable (onLeaf : α → Hoist.Leaf) (onHead : φ → Hoist.Signature)

mutual

theorem Tree.length_unfold : ∀ tree : Tree α φ,
    (Hoist.Stmt.allBodies (tree.unfold onLeaf onHead)).length = tree.bodies.length
  | .leaf _ => rfl
  | .branch _ body _ rest => by
    simp [Tree.unfold, Hoist.Stmt.allBodies, Hoist.Stmt.bodies, Tree.bodies,
      Tree.length_unfoldAll body, Chain.length_unfold rest]
  | .loop _ body _ | .function _ body => by
    simp [Tree.unfold, Hoist.Stmt.allBodies, Hoist.Stmt.bodies, Tree.bodies,
      Tree.length_unfoldAll body]

theorem Chain.length_unfold : ∀ chain : Chain α φ,
    (Hoist.Stmt.allBodies (chain.unfold onLeaf onHead)).length = chain.bodies.length
  | .done => rfl
  | .otherwise body _ => by
    simp [Chain.unfold, Hoist.Stmt.allBodies, Hoist.Stmt.bodies, Chain.bodies,
      Tree.length_unfoldAll body]
  | .elseIf _ body _ rest => by
    simp [Chain.unfold, Hoist.Stmt.allBodies, Hoist.Stmt.bodies, Chain.bodies,
      Tree.length_unfoldAll body, Chain.length_unfold rest]

theorem Tree.length_unfoldAll : ∀ trees : List (Tree α φ),
    (Hoist.Stmt.allBodies (Tree.unfoldAll onLeaf onHead trees)).length =
      (Tree.allBodies trees).length
  | [] => rfl
  | tree :: rest => by
    simp [Tree.unfoldAll, Hoist.Stmt.allBodies_append, Tree.allBodies, Tree.length_unfold tree,
      Tree.length_unfoldAll rest]

end

end Unfold

/-! Finished trees. -/

section Complete

variable {onLeaf : α → Except ε β} {onHead : φ → Except ε ψ}

mutual

theorem Tree.length_complete : ∀ (tree : Tree α φ) (typed : Tree β ψ),
    tree.complete onLeaf onHead = .ok typed → typed.bodies.length = tree.bodies.length
  | .leaf _, typed, completes => by
    simp only [Tree.complete, bind_eq_ok, pure_eq_ok] at completes
    obtain ⟨_, _, rfl⟩ := completes
    rfl
  | .branch _ body _ rest, typed, completes => by
    simp only [Tree.complete, bind_eq_ok, pure_eq_ok] at completes
    obtain ⟨inner, readBody, chain, readRest, rfl⟩ := completes
    simp [Tree.bodies, Tree.length_completeAll body inner readBody,
      Chain.length_complete rest chain readRest]
  | .loop _ body _, typed, completes => by
    simp only [Tree.complete, bind_eq_ok, pure_eq_ok] at completes
    obtain ⟨inner, readBody, rfl⟩ := completes
    simp [Tree.bodies, Tree.length_completeAll body inner readBody]
  | .function _ body, typed, completes => by
    simp only [Tree.complete, bind_eq_ok, pure_eq_ok] at completes
    obtain ⟨_, _, inner, readBody, rfl⟩ := completes
    simp [Tree.bodies, Tree.length_completeAll body inner readBody]

theorem Chain.length_complete : ∀ (chain : Chain α φ) (typed : Chain β ψ),
    chain.complete onLeaf onHead = .ok typed → typed.bodies.length = chain.bodies.length
  | .done, typed, completes => by
    obtain rfl : Chain.done = typed := by simpa [Chain.complete] using completes
    rfl
  | .otherwise body _, typed, completes => by
    simp only [Chain.complete, bind_eq_ok, pure_eq_ok] at completes
    obtain ⟨inner, readBody, rfl⟩ := completes
    simp [Chain.bodies, Tree.length_completeAll body inner readBody]
  | .elseIf _ body _ rest, typed, completes => by
    simp only [Chain.complete, bind_eq_ok, pure_eq_ok] at completes
    obtain ⟨inner, readBody, chain, readRest, rfl⟩ := completes
    simp [Chain.bodies, Tree.length_completeAll body inner readBody,
      Chain.length_complete rest chain readRest]

theorem Tree.length_completeAll : ∀ (trees : List (Tree α φ)) (typed : List (Tree β ψ)),
    Tree.completeAll onLeaf onHead trees = .ok typed →
      (Tree.allBodies typed).length = (Tree.allBodies trees).length
  | [], typed, completes => by
    obtain rfl : [] = typed := by simpa [Tree.completeAll] using completes
    rfl
  | tree :: rest, typed, completes => by
    simp only [Tree.completeAll, bind_eq_ok, pure_eq_ok] at completes
    obtain ⟨first, readFirst, others, readOthers, rfl⟩ := completes
    simp [Tree.allBodies, Tree.length_complete tree first readFirst,
      Tree.length_completeAll rest others readOthers]

end

variable {target : Nat}

/-- The body of a block that may be the one that is left out. -/
theorem completeAll_body {first : Nat} {body : List (Tree α φ)} {inner : List (Tree β ψ)}
    (inside : Tree.completeAll onLeaf onHead (Tree.hollowAll target (first + 1) body) =
      .ok (Tree.hollowAll target (first + 1) inner)) :
    Tree.completeAll onLeaf onHead
        (if target = first then [] else Tree.hollowAll target (first + 1) body) =
      .ok (if target = first then [] else Tree.hollowAll target (first + 1) inner) := by
  split
  · rfl
  · exact inside

mutual

theorem Tree.complete_hollow : ∀ (tree : Tree α φ) (typed : Tree β ψ) (first : Nat),
    tree.complete onLeaf onHead = .ok typed →
      (tree.hollow target first).complete onLeaf onHead = .ok (typed.hollow target first)
  | .leaf _, typed, first, completes => by
    simp only [Tree.complete, bind_eq_ok, pure_eq_ok] at completes
    obtain ⟨_, read, rfl⟩ := completes
    simp [Tree.hollow, Tree.complete, read]
  | .branch _ body _ rest, typed, first, completes => by
    simp only [Tree.complete, bind_eq_ok, pure_eq_ok] at completes
    obtain ⟨inner, readBody, chain, readRest, rfl⟩ := completes
    simp [Tree.hollow, Tree.complete,
      completeAll_body (Tree.completeAll_hollow body inner (first + 1) readBody),
      Chain.complete_hollow rest chain _ readRest, Tree.length_completeAll body inner readBody]
  | .loop _ body _, typed, first, completes => by
    simp only [Tree.complete, bind_eq_ok, pure_eq_ok] at completes
    obtain ⟨inner, readBody, rfl⟩ := completes
    simp [Tree.hollow, Tree.complete,
      completeAll_body (Tree.completeAll_hollow body inner (first + 1) readBody)]
  | .function _ body, typed, first, completes => by
    simp only [Tree.complete, bind_eq_ok, pure_eq_ok] at completes
    obtain ⟨_, read, inner, readBody, rfl⟩ := completes
    simp [Tree.hollow, Tree.complete, read, Tree.completeAll_hollow body inner first readBody]

theorem Chain.complete_hollow : ∀ (chain : Chain α φ) (typed : Chain β ψ) (first : Nat),
    chain.complete onLeaf onHead = .ok typed →
      (chain.hollow target first).complete onLeaf onHead = .ok (typed.hollow target first)
  | .done, typed, first, completes => by
    obtain rfl : Chain.done = typed := by simpa [Chain.complete] using completes
    rfl
  | .otherwise body _, typed, first, completes => by
    simp only [Chain.complete, bind_eq_ok, pure_eq_ok] at completes
    obtain ⟨inner, readBody, rfl⟩ := completes
    simp [Chain.hollow, Chain.complete,
      completeAll_body (Tree.completeAll_hollow body inner (first + 1) readBody)]
  | .elseIf _ body _ rest, typed, first, completes => by
    simp only [Chain.complete, bind_eq_ok, pure_eq_ok] at completes
    obtain ⟨inner, readBody, chain, readRest, rfl⟩ := completes
    simp [Chain.hollow, Chain.complete,
      completeAll_body (Tree.completeAll_hollow body inner (first + 1) readBody),
      Chain.complete_hollow rest chain _ readRest, Tree.length_completeAll body inner readBody]

theorem Tree.completeAll_hollow : ∀ (trees : List (Tree α φ)) (typed : List (Tree β ψ))
    (first : Nat), Tree.completeAll onLeaf onHead trees = .ok typed →
      Tree.completeAll onLeaf onHead (Tree.hollowAll target first trees) =
        .ok (Tree.hollowAll target first typed)
  | [], typed, first, completes => by
    obtain rfl : [] = typed := by simpa [Tree.completeAll] using completes
    rfl
  | tree :: rest, typed, first, completes => by
    simp only [Tree.completeAll, bind_eq_ok, pure_eq_ok] at completes
    obtain ⟨head, readHead, others, readOthers, rfl⟩ := completes
    simp [Tree.hollowAll, Tree.completeAll, Tree.complete_hollow tree head first readHead,
      Tree.completeAll_hollow rest others _ readOthers, Tree.length_complete tree head readHead]

end

end Complete

/-! Trees of the same shape, whose simple statements are related. -/

mutual

def Tree.Rel (leaf : α → β → Prop) : Tree α φ → Tree β φ → Prop
  | .leaf content, .leaf content' => leaf content content'
  | .branch condition body span rest, .branch condition' body' span' rest' =>
    condition = condition' ∧ span = span' ∧ Tree.AllRel leaf body body' ∧ Chain.Rel leaf rest rest'
  | .loop condition body span, .loop condition' body' span' =>
    condition = condition' ∧ span = span' ∧ Tree.AllRel leaf body body'
  | .function head body, .function head' body' => head = head' ∧ Tree.AllRel leaf body body'
  | _, _ => False

def Chain.Rel (leaf : α → β → Prop) : Chain α φ → Chain β φ → Prop
  | .done, .done => True
  | .otherwise body span, .otherwise body' span' => span = span' ∧ Tree.AllRel leaf body body'
  | .elseIf condition body span rest, .elseIf condition' body' span' rest' =>
    condition = condition' ∧ span = span' ∧ Tree.AllRel leaf body body' ∧ Chain.Rel leaf rest rest'
  | _, _ => False

def Tree.AllRel (leaf : α → β → Prop) : List (Tree α φ) → List (Tree β φ) → Prop
  | [], [] => True
  | tree :: rest, tree' :: rest' => Tree.Rel leaf tree tree' ∧ Tree.AllRel leaf rest rest'
  | _, _ => False

end

section Rel

variable {leaf more : α → β → Prop}

theorem Tree.AllRel.append {before after : List (Tree α φ)} {before' after' : List (Tree β φ)}
    (first : Tree.AllRel leaf before before') (second : Tree.AllRel leaf after after') :
    Tree.AllRel leaf (before ++ after) (before' ++ after') := by
  induction before generalizing before' with
  | nil =>
    cases before' with
    | nil => exact second
    | cons _ _ => simp [Tree.AllRel] at first
  | cons tree rest ih =>
    cases before' with
    | nil => simp [Tree.AllRel] at first
    | cons tree' rest' =>
      simp only [Tree.AllRel, List.cons_append] at first ⊢
      exact ⟨first.1, ih first.2⟩

mutual

theorem Tree.Rel.mono (weaker : ∀ x y, leaf x y → more x y) : ∀ (tree : Tree α φ)
    (tree' : Tree β φ), Tree.Rel leaf tree tree' → Tree.Rel more tree tree'
  | .leaf content, tree', related => by
    cases tree' <;> simp only [Tree.Rel] at related ⊢
    exact weaker _ _ related
  | .branch _ body _ rest, tree', related => by
    cases tree' <;> simp only [Tree.Rel] at related ⊢
    obtain ⟨same, here, inside, others⟩ := related
    exact ⟨same, here, Tree.AllRel.mono weaker body _ inside, Chain.Rel.mono weaker rest _ others⟩
  | .loop _ body _, tree', related => by
    cases tree' <;> simp only [Tree.Rel] at related ⊢
    obtain ⟨same, here, inside⟩ := related
    exact ⟨same, here, Tree.AllRel.mono weaker body _ inside⟩
  | .function _ body, tree', related => by
    cases tree' <;> simp only [Tree.Rel] at related ⊢
    exact ⟨related.1, Tree.AllRel.mono weaker body _ related.2⟩

theorem Chain.Rel.mono (weaker : ∀ x y, leaf x y → more x y) : ∀ (chain : Chain α φ)
    (chain' : Chain β φ), Chain.Rel leaf chain chain' → Chain.Rel more chain chain'
  | .done, chain', related => by
    cases chain' <;> simp only [Chain.Rel] at related ⊢
  | .otherwise body _, chain', related => by
    cases chain' <;> simp only [Chain.Rel] at related ⊢
    exact ⟨related.1, Tree.AllRel.mono weaker body _ related.2⟩
  | .elseIf _ body _ rest, chain', related => by
    cases chain' <;> simp only [Chain.Rel] at related ⊢
    obtain ⟨same, here, inside, others⟩ := related
    exact ⟨same, here, Tree.AllRel.mono weaker body _ inside, Chain.Rel.mono weaker rest _ others⟩

theorem Tree.AllRel.mono (weaker : ∀ x y, leaf x y → more x y) : ∀ (trees : List (Tree α φ))
    (trees' : List (Tree β φ)), Tree.AllRel leaf trees trees' → Tree.AllRel more trees trees'
  | [], trees', related => by
    cases trees' <;> simp only [Tree.AllRel] at related ⊢
  | tree :: rest, trees', related => by
    cases trees' <;> simp only [Tree.AllRel] at related ⊢
    exact ⟨Tree.Rel.mono weaker tree _ related.1, Tree.AllRel.mono weaker rest _ related.2⟩

end

variable {γ : Type} {onLeaf : α → Except ε γ} {onLeaf' : β → Except ε γ}
  {onHead : φ → Except ε ψ}

mutual

theorem Tree.Rel.complete_eq (same : ∀ x y, leaf x y → onLeaf x = onLeaf' y) :
    ∀ (tree : Tree α φ) (tree' : Tree β φ), Tree.Rel leaf tree tree' →
      tree.complete onLeaf onHead = tree'.complete onLeaf' onHead
  | .leaf content, tree', related => by
    cases tree' <;> simp only [Tree.Rel] at related
    simp [Tree.complete, same _ _ related]
  | .branch _ body _ rest, tree', related => by
    cases tree' <;> simp only [Tree.Rel] at related
    obtain ⟨rfl, rfl, inside, others⟩ := related
    simp [Tree.complete, Tree.AllRel.complete_eq same body _ inside,
      Chain.Rel.complete_eq same rest _ others]
  | .loop _ body _, tree', related => by
    cases tree' <;> simp only [Tree.Rel] at related
    obtain ⟨rfl, rfl, inside⟩ := related
    simp [Tree.complete, Tree.AllRel.complete_eq same body _ inside]
  | .function _ body, tree', related => by
    cases tree' <;> simp only [Tree.Rel] at related
    obtain ⟨rfl, inside⟩ := related
    simp [Tree.complete, Tree.AllRel.complete_eq same body _ inside]

theorem Chain.Rel.complete_eq (same : ∀ x y, leaf x y → onLeaf x = onLeaf' y) :
    ∀ (chain : Chain α φ) (chain' : Chain β φ), Chain.Rel leaf chain chain' →
      chain.complete onLeaf onHead = chain'.complete onLeaf' onHead
  | .done, chain', related => by
    cases chain' <;> simp only [Chain.Rel] at related
    rfl
  | .otherwise body _, chain', related => by
    cases chain' <;> simp only [Chain.Rel] at related
    obtain ⟨rfl, inside⟩ := related
    simp [Chain.complete, Tree.AllRel.complete_eq same body _ inside]
  | .elseIf _ body _ rest, chain', related => by
    cases chain' <;> simp only [Chain.Rel] at related
    obtain ⟨rfl, rfl, inside, others⟩ := related
    simp [Chain.complete, Tree.AllRel.complete_eq same body _ inside,
      Chain.Rel.complete_eq same rest _ others]

theorem Tree.AllRel.complete_eq (same : ∀ x y, leaf x y → onLeaf x = onLeaf' y) :
    ∀ (trees : List (Tree α φ)) (trees' : List (Tree β φ)), Tree.AllRel leaf trees trees' →
      Tree.completeAll onLeaf onHead trees = Tree.completeAll onLeaf' onHead trees'
  | [], trees', related => by
    cases trees' <;> simp only [Tree.AllRel] at related
    rfl
  | tree :: rest, trees', related => by
    cases trees' <;> simp only [Tree.AllRel] at related
    simp [Tree.completeAll, Tree.Rel.complete_eq same tree _ related.1,
      Tree.AllRel.complete_eq same rest _ related.2]

end

end Rel

end Typed

end Hoist
