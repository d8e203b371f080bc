import Hoist.Proofs.Check.Walk
import Hoist.Proofs.Typed.Forget
import Hoist.Proofs.Typed.Place

/-!
From the outlines of a file that has been checked to its finished statements. Each frame is
mirrored by a block of the place, whose entries have the types that the bindings have in the end.

Main statements: a rule holds everywhere in the finished statements if it follows from what is known
of the outlines (`everywhere_of_follows`), and each leaf stands at a place of the finished file
(`finishedAt_of_complete`).
-/
namespace Hoist

namespace Typed

variable {α β φ ψ ε : Type} {onLeaf : α → Except ε β} {onHead : φ → Except ε ψ}

mutual

theorem Tree.leaves_complete : ∀ {tree : Tree α φ} {after : Tree β ψ},
    Tree.complete onLeaf onHead tree = .ok after →
    List.Forall₂ (fun before after => onLeaf before = .ok after) tree.leaves after.leaves
  | .leaf content, _, completes => by
    simp only [Tree.complete, bind_eq_ok, pure_eq_ok] at completes
    obtain ⟨_, completes, rfl⟩ := completes
    exact .cons completes .nil
  | .branch condition body span rest, _, completes => by
    simp only [Tree.complete, bind_eq_ok, pure_eq_ok] at completes
    obtain ⟨_, completes, _, completesRest, rfl⟩ := completes
    exact List.rel_append (Tree.allLeaves_complete completes) (Chain.leaves_complete completesRest)
  | .loop condition body span, _, completes => by
    simp only [Tree.complete, bind_eq_ok, pure_eq_ok] at completes
    obtain ⟨_, completes, rfl⟩ := completes
    exact Tree.allLeaves_complete completes
  | .function head body, _, completes => by
    simp only [Tree.complete, bind_eq_ok, pure_eq_ok] at completes
    obtain ⟨_, _, _, completes, rfl⟩ := completes
    exact Tree.allLeaves_complete completes

theorem Chain.leaves_complete : ∀ {chain : Chain α φ} {after : Chain β ψ},
    Chain.complete onLeaf onHead chain = .ok after →
    List.Forall₂ (fun before after => onLeaf before = .ok after) chain.leaves after.leaves
  | .done, _, completes => by
    obtain rfl := Except.ok.inj completes
    exact .nil
  | .otherwise body span, _, completes => by
    simp only [Chain.complete, bind_eq_ok, pure_eq_ok] at completes
    obtain ⟨_, completes, rfl⟩ := completes
    exact Tree.allLeaves_complete completes
  | .elseIf condition body span rest, _, completes => by
    simp only [Chain.complete, bind_eq_ok, pure_eq_ok] at completes
    obtain ⟨_, completes, _, completesRest, rfl⟩ := completes
    exact List.rel_append (Tree.allLeaves_complete completes) (Chain.leaves_complete completesRest)

theorem Tree.allLeaves_complete : ∀ {trees : List (Tree α φ)} {after : List (Tree β ψ)},
    Tree.completeAll onLeaf onHead trees = .ok after →
    List.Forall₂ (fun before after => onLeaf before = .ok after) (Tree.allLeaves trees)
      (Tree.allLeaves after)
  | [], _, completes => by
    obtain rfl := Except.ok.inj completes
    exact .nil
  | tree :: rest, _, completes => by
    simp only [Tree.completeAll, bind_eq_ok, pure_eq_ok] at completes
    obtain ⟨_, completes, _, completesRest, rfl⟩ := completes
    exact List.rel_append (Tree.leaves_complete completes) (Tree.allLeaves_complete completesRest)

end

end Typed

namespace Check

open Desk

variable {σ : Type} {t : Checker Empty σ} {terms : Terms} {frames : List Frame}

/-! What statements declare. -/

theorem completeLeaf_draft {id : DraftId} {d : Draft} {typed : Typed.Leaf}
    (found : t.drafts[id]? = some d) :
    t.completeLeaf (.draft id) = .ok typed ↔ d.work.complete = .ok typed := by
  simp [Checker.completeLeaf, found, atPosition_eq_ok]

theorem leaf_entries (sound : (t.desk []).Sound) {leaf : OutlineLeaf} {typed : Typed.Leaf}
    (located : (t.desk []).LeafAt terms frames leaf) (completes : t.completeLeaf leaf = .ok typed) :
    (t.desk []).leafNames leaf = typed.entries.map (·.name) ∧
      ∀ frame ∈ frames.head?, ∀ entry ∈ typed.entries,
        (t.desk []).BoundAs frame.id entry.name entry.type.toTy entry.constant := by
  cases leaf with
  | plain leaf =>
    obtain rfl : leaf = typed := by simpa [Checker.completeLeaf] using completes
    cases leaf with
    | imports names source span =>
      obtain ⟨_, _, each⟩ := located
      refine ⟨by simp [leafNames, Typed.Leaf.entries, Function.comp_def], ?_⟩
      intro frame first entry mem
      obtain ⟨name, named, rfl⟩ := List.mem_map.1 mem
      exact (each frame first name named).2.1
    | declare | assign | returns | evaluate => exact located.elim
    | breakLoop | continueLoop | endOfFile => simp [leafNames, Typed.Leaf.entries]
  | draft id =>
    obtain ⟨d, found, located⟩ := located
    have drafted : t.drafts[id]? = some d := found
    rw [completeLeaf_draft drafted] at completes
    have checked := sound.drafts id d found
    obtain ⟨scope, work⟩ := d
    cases work with
    | declaration d =>
      simp only [Work.complete, Declaration.complete, bind_eq_ok, pure_eq_ok] at completes
      obtain ⟨type, read, _, _, rfl⟩ := completes
      refine ⟨by simp [leafNames, found, Work.declares, Typed.Leaf.entries], ?_⟩
      intro frame first entry mem
      obtain rfl := List.mem_singleton.1 mem
      obtain ⟨outer, rfl⟩ := List.head?_eq_some_iff.1 first
      obtain rfl : frame.id = scope := by simpa using located.here
      exact ⟨d.binding, checked.2, (ConcreteTy.toTy_ofTy read).symm, rfl⟩
    | assignment a awaited =>
      simp only [Work.complete, Assignment.complete, bind_eq_ok, pure_eq_ok] at completes
      obtain ⟨_, _, _, _, rfl⟩ := completes
      simp [leafNames, found, Work.declares, Typed.Leaf.entries]
    | evaluation e =>
      simp only [Work.complete, Evaluation.complete, bind_eq_ok, pure_eq_ok] at completes
      obtain ⟨_, _, rfl⟩ := completes
      simp [leafNames, found, Work.declares, Typed.Leaf.entries]
    | returns r =>
      have silent : typed.entries = [] := by
        simp only [Work.complete, Return.complete] at completes
        split at completes
        · simp at completes
          simp [← completes, Typed.Leaf.entries]
        · simp only [bind_eq_ok, pure_eq_ok] at completes
          obtain ⟨_, _, rfl⟩ := completes
          rfl
      simp [leafNames, found, Work.declares, silent]

theorem completeHead_eq_ok {id : SignatureId} {h : SignatureDraft} {typed : Typed.Signature}
    (found : t.signatures[id]? = some h) : t.completeHead id = .ok typed ↔
      typed.name = h.signature.name ∧ ConcreteTy.toFields typed.parameters = h.signature.parameters ∧
        typed.result.toTy = h.signature.result ∧ typed.exported = h.signature.exported ∧
        typed.span = h.signature.span := by
  obtain ⟨name, parameters, result, exported, span⟩ := typed
  simp only [Checker.completeHead, found, atPosition_eq_ok, Signature.complete, bind_eq_ok,
    pure_eq_ok, ConcreteTy.ofFields_eq_ok, ConcreteTy.ofTy_eq_ok, Typed.Signature.mk.injEq]
  constructor
  · rintro ⟨_, same, _, same', rfl, rfl, rfl, rfl, rfl⟩
    exact ⟨rfl, same.symm, same'.symm, rfl, rfl⟩
  · rintro ⟨rfl, same, same', rfl, rfl⟩
    exact ⟨parameters, same.symm, result, same'.symm, rfl, rfl, rfl, rfl, rfl⟩

theorem head_entry (sound : (t.desk []).Sound) {id : SignatureId} {h : SignatureDraft}
    {typed : Typed.Signature} (found : t.signatures[id]? = some h)
    (completes : t.completeHead id = .ok typed) :
    (t.desk []).BoundAs h.scope typed.name typed.type.toTy true := by
  obtain ⟨name, parameters, result, _⟩ := (completeHead_eq_ok found).1 completes
  obtain ⟨_, ⟨type, bound, same⟩, _⟩ := sound.heads id h found
  refine ⟨_, name ▸ bound, ?_, rfl⟩
  have known : h.signature.result.isConcrete = true := result ▸ typed.result.isConcrete_toTy
  rcases same with rfl | ⟨_, unknown⟩
  · simp [Typed.Signature.type, ConcreteTy.toTy, parameters, result]
  · simp [known] at unknown

theorem tree_entries (sound : (t.desk []).Sound) {tree : Outline} {typed : Typed.Stmt}
    (located : (t.desk []).TreeAt terms frames tree)
    (completes : Typed.Tree.complete t.completeLeaf t.completeHead tree = .ok typed) :
    (t.desk []).names tree = typed.entries.map (·.name) ∧
      ∀ frame ∈ frames.head?, ∀ entry ∈ typed.entries,
        (t.desk []).BoundAs frame.id entry.name entry.type.toTy entry.constant := by
  cases tree with
  | leaf leaf =>
    rw [TreeAt] at located
    simp only [Typed.Tree.complete, bind_eq_ok, pure_eq_ok] at completes
    obtain ⟨content, completes, rfl⟩ := completes
    exact leaf_entries sound located completes
  | branch condition body span rest =>
    simp only [Typed.Tree.complete, bind_eq_ok, pure_eq_ok] at completes
    obtain ⟨_, _, _, _, rfl⟩ := completes
    simp [Desk.names, Typed.Stmt.entries]
  | loop condition body span =>
    simp only [Typed.Tree.complete, bind_eq_ok, pure_eq_ok] at completes
    obtain ⟨_, _, rfl⟩ := completes
    simp [Desk.names, Typed.Stmt.entries]
  | function id body =>
    rw [TreeAt] at located
    obtain ⟨h, found, head, _⟩ := located
    have drafted : t.signatures[id]? = some h := found
    simp only [Typed.Tree.complete, bind_eq_ok, pure_eq_ok] at completes
    obtain ⟨signature, completes, _, _, rfl⟩ := completes
    have name := ((completeHead_eq_ok drafted).1 completes).1
    refine ⟨by simp [Desk.names, found, Typed.Stmt.entries, name], ?_⟩
    intro frame first entry mem
    obtain rfl := List.mem_singleton.1 mem
    obtain ⟨outer, rfl⟩ := List.head?_eq_some_iff.1 first
    obtain same : frame.id = h.scope := by simpa using head.here
    rw [same]
    exact head_entry sound drafted completes

theorem all_entries (sound : (t.desk []).Sound) {outlines : List Outline} {typed : List Typed.Stmt}
    (located : (t.desk []).TreesAt terms frames outlines)
    (completes : t.complete outlines = .ok typed) :
    (t.desk []).namesOf outlines = (Typed.Stmt.allEntries typed).map (·.name) ∧
      ∀ frame ∈ frames.head?, ∀ entry ∈ Typed.Stmt.allEntries typed,
        (t.desk []).BoundAs frame.id entry.name entry.type.toTy entry.constant := by
  unfold Checker.complete at completes
  induction outlines generalizing frames typed with
  | nil =>
    obtain rfl : [] = typed := by simpa [Typed.Tree.completeAll] using completes
    simp [namesOf, Typed.Stmt.allEntries]
  | cons tree rest ih =>
    rw [TreesAt] at located
    simp only [Typed.Tree.completeAll, bind_eq_ok, pure_eq_ok] at completes
    obtain ⟨stmt, first, others, later, rfl⟩ := completes
    obtain ⟨names, keeps⟩ := tree_entries sound located.1 first
    obtain ⟨names', keeps'⟩ := ih located.2 later
    refine ⟨?_, fun frame here entry mem => ?_⟩
    · simp only [namesOf, Typed.Stmt.allEntries, List.flatMap_cons, List.map_append] at names' ⊢
      rw [names, names']
    · rcases List.mem_append.1 mem with mine | theirs
      · exact keeps frame here entry mine
      · obtain ⟨outer, rfl⟩ := List.head?_eq_some_iff.1 here
        exact keeps' _ rfl entry theirs

/-! Frames and blocks. -/

/-- The block says what is known of the frame in the end. -/
structure Mirrors (t : Checker Empty σ) (frame : Frame) (block : Typed.Block) : Prop where
  before : frame.names = block.before.map (·.name)
  within : ∀ entry ∈ block.before, entry ∈ block.all
  keeps : ∀ entry ∈ block.all,
    (t.desk []).BoundAs frame.id entry.name entry.type.toTy entry.constant
  only : ∀ name, (t.scopes.binding? frame.id name).isSome = true → name ∈ block.all.map (·.name)
  loop : t.scopes.kind? frame.id = some .loop ↔ block.loop = true
  function : t.scopes.kind? frame.id = some .function ↔ block.result.isSome = true
  result : ∀ type ∈ block.result, t.scopes.result? frame.id = some type.toTy ∨
    t.scopes.result? frame.id = some .unannotated

structure Mirrored (t : Checker Empty σ) (frames : List Frame) (place : Typed.Place) : Prop where
  path : t.scopes.Path (frames.map Frame.id)
  blocks : List.Forall₂ (Mirrors t) frames place

theorem Mirrored.after {place : Typed.Place} {names : List String} {entries : List Typed.Entry}
    (mirrored : Mirrored t frames place) (same : names = entries.map (·.name))
    (declared : ∀ block ∈ place.head?, ∀ entry ∈ entries, entry ∈ block.all) :
    Mirrored t (Frame.declare names frames) (place.after entries) := by
  obtain ⟨path, blocks⟩ := mirrored
  refine ⟨by simpa using path, ?_⟩
  cases blocks with
  | nil => exact .nil
  | cons first rest =>
    refine .cons ⟨?_, ?_, first.keeps, first.only, first.loop, first.function, first.result⟩ rest
    · simp [first.before, same]
    · intro entry mem
      rcases List.mem_append.1 mem with old | new
      · exact first.within entry old
      · exact declared _ rfl entry new

/-- A body whose statements have all been checked. -/
theorem Mirrored.enter {place : Typed.Place} {kind : BlockKind} {id : ScopeId}
    (parameters : List Typed.Entry) {result : Option ConcreteTy} {body : List Outline}
    {typed : List Typed.Stmt} (sound : (t.desk []).Sound) (mirrored : Mirrored t frames place)
    (inner : (t.desk []).Inner frames kind
      (parameters.map (·.name) ++ (t.desk []).namesOf body) id)
    (located : (t.desk []).TreesAt terms (⟨id, parameters.map (·.name)⟩ :: frames) body)
    (completes : t.complete body = .ok typed)
    (keeps : ∀ entry ∈ parameters, (t.desk []).BoundAs id entry.name entry.type.toTy entry.constant)
    (function : kind = .function ↔ result.isSome = true)
    (known : ∀ type ∈ result, t.scopes.result? id = some type.toTy ∨
      t.scopes.result? id = some .unannotated) :
    Mirrored t (⟨id, parameters.map (·.name)⟩ :: frames)
      (place.enter (decide (kind = .loop)) result parameters typed) := by
  obtain ⟨names, each⟩ := all_entries sound located completes
  have isKind : t.scopes.kind? id = some kind := inner.kind
  refine ⟨inner.path, .cons ⟨rfl, ?_, ?_, ?_, ?_, ?_, known⟩ mirrored.blocks⟩
  · exact fun entry mem => List.mem_append_left _ mem
  · intro entry mem
    rcases List.mem_append.1 mem with parameter | declared
    · exact keeps entry parameter
    · exact each _ rfl entry declared
  · intro name bound
    have mem := (inner.names name).1 bound
    rwa [names, ← List.map_append] at mem
  · simp [isKind]
  · simp [isKind, function]

/-! Rules. -/

/-- The rule follows from what is known of the outlines. -/
structure Follows (t : Checker Empty σ) (terms : Terms) (rule : Typed.Rule) : Prop where
  leaf : ∀ {frames place leaf typed}, Mirrored t frames place →
    (t.desk []).LeafAt terms frames leaf → t.completeLeaf leaf = .ok typed → rule.leaf place typed
  condition : ∀ {frames place condition}, Mirrored t frames place →
    (t.desk []).ConditionAt frames condition → rule.condition place condition
  loop : ∀ {frames place condition}, Mirrored t frames place →
    (t.desk []).ConditionAt frames condition →
    (terms.literalTrue = true → condition = .boolean true) → rule.loop place condition
  head : ∀ {frames place id h typed}, Mirrored t frames place → t.signatures[id]? = some h →
    (t.desk []).HeadAt frames h → t.completeHead id = .ok typed → rule.head place typed

/-- The body of a function, with what its head says of it. -/
theorem Mirrored.enterFunction {place : Typed.Place} {id : SignatureId} {h : SignatureDraft}
    {body : List Outline} {signature : Typed.Signature} {typed : List Typed.Stmt}
    (sound : (t.desk []).Sound) (mirrored : Mirrored t frames place)
    (found : t.signatures[id]? = some h) (head : (t.desk []).HeadAt frames h)
    (inner : (t.desk []).Inner frames .function
      (h.signature.parameters.map (·.1) ++ (t.desk []).namesOf body) h.body)
    (located : (t.desk []).TreesAt terms
      (⟨h.body, h.signature.parameters.map (·.1)⟩ :: frames) body)
    (completesHead : t.completeHead id = .ok signature)
    (completes : t.complete body = .ok typed) :
    Mirrored t (⟨h.body, h.signature.parameters.map (·.1)⟩ :: frames)
      (place.enter false (some signature.result) signature.entries typed) := by
  obtain ⟨_, parameters, result, _⟩ := (completeHead_eq_ok found).1 completesHead
  have names : h.signature.parameters.map (·.1) = signature.entries.map (·.name) := by
    rw [← parameters, ConcreteTy.toFields_eq_map]
    simp [Typed.Signature.entries, Function.comp_def]
  rw [names] at inner located ⊢
  refine mirrored.enter _ sound inner located completes ?_ (by simp) ?_
  · intro entry mem
    obtain ⟨parameter, known, rfl⟩ := List.mem_map.1 mem
    refine (head.keeps (parameter.1, parameter.2.toTy) ?_).2
    rw [← parameters, ConcreteTy.toFields_eq_map]
    exact List.mem_map_of_mem known
  · intro type same
    obtain rfl : signature.result = type := Option.some.inj same
    have concrete : h.signature.result.isConcrete = true :=
      result ▸ signature.result.isConcrete_toTy
    rcases (sound.heads id h found).2.2 concrete with known | ⟨unset, _⟩
    · exact .inl (known.trans (congrArg some result.symm))
    · exact .inr unset

/-- The body of an `if` or of a loop declares nothing at its start. -/
theorem Mirrored.enterBody {place : Typed.Place} {kind : BlockKind} {id : ScopeId}
    {body : List Outline} {typed : List Typed.Stmt} (sound : (t.desk []).Sound)
    (mirrored : Mirrored t frames place)
    (inner : (t.desk []).Inner frames kind ((t.desk []).namesOf body) id)
    (located : (t.desk []).TreesAt terms (⟨id, []⟩ :: frames) body)
    (completes : t.complete body = .ok typed) (plain : kind ≠ .function) :
    Mirrored t (⟨id, []⟩ :: frames) (place.enter (decide (kind = .loop)) none [] typed) :=
  mirrored.enter [] sound inner located completes (by simp) (by simp [plain]) (by simp)

theorem declared_enter {place : Typed.Place} {loop : Bool} {result : Option ConcreteTy}
    {parameters : List Typed.Entry} {body : List Typed.Stmt} :
    ∀ block ∈ (place.enter loop result parameters body).head?,
      ∀ entry ∈ Typed.Stmt.allEntries body, entry ∈ block.all := by
  intro block first entry mem
  obtain rfl : _ = block := Option.some.inj first
  exact List.mem_append_right _ mem

/-- The leaf can be finished at a place of the finished file. -/
def FinishedAt (t : Checker Empty σ) (terms : Terms) (leaf : OutlineLeaf) : Prop :=
  ∃ frames place typed, Mirrored t frames place ∧ (t.desk []).LeafAt terms frames leaf ∧
    t.completeLeaf leaf = .ok typed

variable {rule : Typed.Rule}

-- One walk for both: the place of a statement is known only on the way to it.
mutual

theorem holds_tree (sound : (t.desk []).Sound) (follows : Follows t terms rule) :
    ∀ (tree : Outline) {frames : List Frame} {place : Typed.Place} {typed : Typed.Stmt},
    Mirrored t frames place → (t.desk []).TreeAt terms frames tree →
    Typed.Tree.complete t.completeLeaf t.completeHead tree = .ok typed →
    Typed.Stmt.Holds rule place typed ∧ ∀ leaf ∈ tree.leaves, FinishedAt t terms leaf
  | .leaf leaf, frames, place, typed, mirrored, located, completes => by
    rw [TreeAt] at located
    simp only [Typed.Tree.complete, bind_eq_ok, pure_eq_ok] at completes
    obtain ⟨content, completes, rfl⟩ := completes
    rw [Typed.Stmt.Holds]
    refine ⟨follows.leaf mirrored located completes, fun other mem => ?_⟩
    obtain rfl := List.mem_singleton.1 mem
    exact ⟨frames, place, content, mirrored, located, completes⟩
  | .branch condition body span rest, frames, place, typed, mirrored, located, completes => by
    rw [TreeAt] at located
    obtain ⟨test, ⟨id, inner, located⟩, chain⟩ := located
    simp only [Typed.Tree.complete, bind_eq_ok, pure_eq_ok] at completes
    obtain ⟨stmts, completes, others, completesRest, rfl⟩ := completes
    have entered := mirrored.enterBody sound inner located completes (by simp)
    rw [Typed.Stmt.Holds]
    obtain ⟨inside, finished⟩ :=
      holds_all sound follows body entered located completes declared_enter
    obtain ⟨behind, others⟩ := holds_chain sound follows rest mirrored chain completesRest
    exact ⟨⟨follows.condition mirrored test, inside, behind⟩, fun leaf mem =>
      (List.mem_append.1 mem).elim (finished leaf) (others leaf)⟩
  | .loop condition body span, frames, place, typed, mirrored, located, completes => by
    rw [TreeAt] at located
    obtain ⟨⟨test, literal⟩, id, inner, located⟩ := located
    simp only [Typed.Tree.complete, bind_eq_ok, pure_eq_ok] at completes
    obtain ⟨stmts, completes, rfl⟩ := completes
    have entered := mirrored.enterBody sound inner located completes (by simp)
    rw [Typed.Stmt.Holds]
    exact (holds_all sound follows body entered located completes declared_enter).imp_left
      fun inside => ⟨follows.loop mirrored test literal, inside⟩
  | .function id body, frames, place, typed, mirrored, located, completes => by
    rw [TreeAt] at located
    obtain ⟨h, found, head, inner, located⟩ := located
    simp only [Typed.Tree.complete, bind_eq_ok, pure_eq_ok] at completes
    obtain ⟨signature, completesHead, stmts, completes, rfl⟩ := completes
    have entered :=
      mirrored.enterFunction sound found head inner located completesHead completes
    rw [Typed.Stmt.Holds]
    exact (holds_all sound follows body entered located completes declared_enter).imp_left
      fun inside => ⟨follows.head mirrored found head completesHead, inside⟩

theorem holds_chain (sound : (t.desk []).Sound) (follows : Follows t terms rule) :
    ∀ (chain : OutlineChain) {frames : List Frame} {place : Typed.Place}
    {typed : Typed.Chain Typed.Leaf Typed.Signature}, Mirrored t frames place →
    (t.desk []).ChainAt terms frames chain →
    Typed.Chain.complete t.completeLeaf t.completeHead chain = .ok typed →
    Typed.Stmt.ChainHolds rule place typed ∧ ∀ leaf ∈ chain.leaves, FinishedAt t terms leaf
  | .done, frames, place, typed, _, _, completes => by
    obtain rfl : Typed.Chain.done = typed := by simpa [Typed.Chain.complete] using completes
    rw [Typed.Stmt.ChainHolds]
    exact ⟨trivial, by simp [Typed.Chain.leaves]⟩
  | .otherwise body span, frames, place, typed, mirrored, located, completes => by
    rw [ChainAt] at located
    obtain ⟨id, inner, located⟩ := located
    simp only [Typed.Chain.complete, bind_eq_ok, pure_eq_ok] at completes
    obtain ⟨stmts, completes, rfl⟩ := completes
    have entered := mirrored.enterBody sound inner located completes (by simp)
    rw [Typed.Stmt.ChainHolds]
    exact holds_all sound follows body entered located completes declared_enter
  | .elseIf condition body span rest, frames, place, typed, mirrored, located, completes => by
    rw [ChainAt] at located
    obtain ⟨test, ⟨id, inner, located⟩, chain⟩ := located
    simp only [Typed.Chain.complete, bind_eq_ok, pure_eq_ok] at completes
    obtain ⟨stmts, completes, others, completesRest, rfl⟩ := completes
    have entered := mirrored.enterBody sound inner located completes (by simp)
    rw [Typed.Stmt.ChainHolds]
    obtain ⟨inside, finished⟩ :=
      holds_all sound follows body entered located completes declared_enter
    obtain ⟨behind, others⟩ := holds_chain sound follows rest mirrored chain completesRest
    exact ⟨⟨follows.condition mirrored test, inside, behind⟩, fun leaf mem =>
      (List.mem_append.1 mem).elim (finished leaf) (others leaf)⟩

theorem holds_all (sound : (t.desk []).Sound) (follows : Follows t terms rule) :
    ∀ (outlines : List Outline) {frames : List Frame} {place : Typed.Place}
    {typed : List Typed.Stmt}, Mirrored t frames place →
    (t.desk []).TreesAt terms frames outlines →
    Typed.Tree.completeAll t.completeLeaf t.completeHead outlines = .ok typed →
    (∀ block ∈ place.head?, ∀ entry ∈ Typed.Stmt.allEntries typed, entry ∈ block.all) →
    Typed.Stmt.AllHold rule place typed ∧
      ∀ leaf ∈ Typed.Tree.allLeaves outlines, FinishedAt t terms leaf
  | [], frames, place, typed, _, _, completes, _ => by
    obtain rfl : [] = typed := by simpa [Typed.Tree.completeAll] using completes
    rw [Typed.Stmt.AllHold]
    exact ⟨trivial, by simp [Typed.Tree.allLeaves]⟩
  | tree :: rest, frames, place, typed, mirrored, located, completes, declared => by
    rw [TreesAt] at located
    simp only [Typed.Tree.completeAll, bind_eq_ok, pure_eq_ok] at completes
    obtain ⟨stmt, completes, others, completesRest, rfl⟩ := completes
    obtain ⟨names, _⟩ := tree_entries sound located.1 completes
    have next := mirrored.after names fun block first entry mem =>
      declared block first entry (List.mem_append_left _ mem)
    rw [Typed.Stmt.AllHold]
    obtain ⟨here, finished⟩ := holds_tree sound follows tree mirrored located.1 completes
    refine (holds_all sound follows rest next located.2 completesRest ?_).imp
      (⟨here, ·⟩) fun others leaf mem => (List.mem_append.1 mem).elim (finished leaf) (others leaf)
    cases place with
    | nil => simp [Typed.Place.after]
    | cons block outer =>
      intro after first entry mem
      obtain rfl : _ = after := Option.some.inj first
      exact declared block rfl entry (List.mem_append_right _ mem)

end

/-! Whole files. -/

section Whole

variable {kept : σ → Prop} {options : Options} {budget : Nat} {program : List Stmt}
  {outlines : List Outline} {typed : List Typed.Stmt}
  (analyzed : Analyzed terms kept options budget program outlines t)
  (completes : t.complete outlines = .ok typed)

include analyzed completes

/-- Where a file begins, seen from its end. -/
theorem mirrored_top : Mirrored t [⟨0, []⟩] (Typed.Place.top typed) := by
  obtain ⟨names, keeps⟩ := all_entries analyzed.ready.sound analyzed.trees completes
  have only := analyzed.ready.known.names _ List.mem_cons_self
  refine ⟨analyzed.ready.known.path,
    .cons ⟨rfl, by simp, keeps _ rfl, fun name bound => ?_, ?_, ?_, by simp⟩ .nil⟩
  · exact names ▸ only name bound
  · simp [analyzed.kind]
  · simp [analyzed.kind]

theorem finished_of_follows (follows : Follows t terms rule) :
    Typed.Everywhere rule typed ∧
      ∀ leaf ∈ Typed.Tree.allLeaves outlines, FinishedAt t terms leaf := by
  refine holds_all analyzed.ready.sound follows outlines (mirrored_top analyzed completes)
    analyzed.trees completes fun block first entry mem => ?_
  obtain rfl : _ = block := Option.some.inj first
  exact mem

/-- A rule that follows from what is known of the outlines holds everywhere in the file. -/
theorem everywhere_of_follows (follows : Follows t terms rule) : Typed.Everywhere rule typed :=
  (finished_of_follows analyzed completes follows).1

theorem finishedAt_of_complete {leaf : OutlineLeaf} (mem : leaf ∈ Typed.Tree.allLeaves outlines) :
    FinishedAt t terms leaf := by
  have follows : Follows t terms ⟨fun _ _ => True, fun _ _ => True, fun _ _ => True,
      fun _ _ => True⟩ := by
    constructor <;> intros <;> trivial
  exact (finished_of_follows analyzed completes follows).2 leaf mem

end Whole

/-- The parts of checking a file that is accepted. -/
theorem analyzed_of_checkProgram {importer : Importer σ} {kept : σ → Prop} {options : Options}
    {budget : Nat} {store : σ} {program : List Stmt} {output : Output}
    (gives : Gives importer kept terms.imported)
    (literal : terms.literalTrue = decide (options.loopCondition = .literalTrue))
    (fresh : Stmt.areFresh program = true) (stored : kept store)
    (accepted : (checkProgram importer options budget store program).result = .ok output) :
    ∃ outlines t, Analyzed terms kept options budget program outlines t ∧
      t.complete outlines = .ok output.typed ∧ output = Output.ofStmts output.typed := by
  obtain ⟨outlines, t, run, completes, same⟩ := exists_of_accepted accepted
  exact ⟨outlines, t, walk_program gives literal fresh stored run, completes, same⟩

/-- Whatever the importer gives. -/
def anyImport (options : Options) : Terms :=
  ⟨fun _ _ _ _ => True, decide (options.loopCondition = .literalTrue)⟩

theorem gives_anyImport (importer : Importer σ) (options : Options) :
    Gives importer (fun _ => True) (anyImport options).imported :=
  fun _ _ _ _ _ => ⟨trivial, fun _ _ => trivial⟩

theorem analyzed_of_accepted {importer : Importer σ} {options : Options} {budget : Nat} {store : σ}
    {program : List Stmt} {output : Output} (fresh : Stmt.areFresh program = true)
    (accepted : (checkProgram importer options budget store program).result = .ok output) :
    ∃ outlines t, Analyzed (anyImport options) (fun _ : σ => True) options budget program outlines t ∧
      t.complete outlines = .ok output.typed := by
  obtain ⟨outlines, t, analyzed, completes, _⟩ :=
    analyzed_of_checkProgram (gives_anyImport importer options) rfl fresh trivial accepted
  exact ⟨outlines, t, analyzed, completes⟩

end Check

end Hoist
