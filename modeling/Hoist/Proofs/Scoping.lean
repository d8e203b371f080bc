import Mathlib
import Hoist.Module.Registry
import Hoist.Proofs.Check.Finished

/-!
Which bindings the symbols of an accepted file mean. A statement that has to wait is looked at again
when more names have been declared, so a symbol in it may come to mean one of those.

Main statements: a symbol has the type of the nearest binding before its statement, or it means one
that a nearer block declares behind it (`checkProgram_lexical`); a symbol without a binding before
its statement means one behind it, and the first one in the value of a statement is the name of a
function (`checkProgram_hoisting`). Conditions never wait, and mean what is visible.
-/
namespace Hoist

namespace Typed

namespace Place

variable {place : Place} {name : String} {level : Nat} {entry : Entry}

/-- No block nearer than this level has declared the name before the place. -/
def Clear (place : Place) (level : Nat) (name : String) : Prop :=
  ∀ nearer < level, ∀ block, place[nearer]? = some block → name ∉ block.before.map (·.name)

theorem visible?_eq_some (visible : place.visible? name = some (level, entry)) :
    place.Clear level name ∧ entry.name = name ∧
      ∃ block, place[level]? = some block ∧ entry ∈ block.before := by
  induction place generalizing level entry with
  | nil => simp [visible?] at visible
  | cons block outer ih =>
    rw [visible?] at visible
    split at visible
    · rename_i found here
      obtain ⟨rfl, rfl⟩ : 0 = level ∧ found = entry := by simpa using visible
      refine ⟨fun nearer less => absurd less (Nat.not_lt_zero _), ?_, block, rfl, ?_⟩
      · simpa using List.find?_some here
      · exact List.mem_of_find?_eq_some here
    · rename_i nowhere
      obtain ⟨⟨depth, found⟩, outside, same⟩ := Option.map_eq_some_iff.1 visible
      obtain ⟨rfl, rfl⟩ : depth + 1 = level ∧ found = entry := by simpa using same
      obtain ⟨clear, named, there, at_, declared⟩ := ih outside
      refine ⟨fun nearer less other isThere => ?_, named, there, by simpa using at_, declared⟩
      cases nearer with
      | zero =>
        obtain rfl : block = other := by simpa using isThere
        intro mem
        obtain ⟨entry, mem, same⟩ := List.mem_map.1 mem
        exact absurd same (by simpa using List.find?_eq_none.1 nowhere entry mem)
      | succ nearer => exact clear nearer (by omega) other (by simpa using isThere)

theorem visible?_eq_none (invisible : place.visible? name = none) :
    ∀ block ∈ place, name ∉ block.before.map (·.name) := by
  induction place with
  | nil => simp
  | cons block outer ih =>
    rw [visible?] at invisible
    split at invisible
    · simp at invisible
    · rename_i nowhere
      intro other mem
      rcases List.mem_cons.1 mem with rfl | outside
      · intro mem
        obtain ⟨entry, mem, same⟩ := List.mem_map.1 mem
        exact absurd same (by simpa using List.find?_eq_none.1 nowhere entry mem)
      · exact ih (by simpa using invisible) other outside

/-- The symbol has the type of the nearest binding before the place, or else that of one that a
nearer block declares behind it. -/
def Means (place : Place) (symbol : String × ConcreteTy) : Prop :=
  ∀ level entry, place.visible? symbol.1 = some (level, entry) → symbol.2 = entry.type ∨
    ∃ nearer < level, ∃ later, place.Declares nearer later ∧ later.name = symbol.1 ∧
      symbol.2 = later.type

/-- The symbol has the type of the nearest binding before the place. -/
def Sees (place : Place) (symbol : String × ConcreteTy) : Prop :=
  ∃ level entry, place.visible? symbol.1 = some (level, entry) ∧ symbol.2 = entry.type

/-- Whatever the file itself declares by that name is a function, and there is one if nobody may
be left waiting. -/
def Hoists (options : Options) (place : Place) (name : String) : Prop :=
  ∀ block ∈ place.getLast?,
    (∀ entry ∈ block.all, entry.name = name → entry.type.toTy.isFunction = true) ∧
    (options.reportUnresolved = true → ∃ entry ∈ block.all, entry.name = name)

end Place

/-- Symbols that have a binding before their statement mean the nearest one. -/
def visibleOnly : Rule where
  leaf place leaf := ∀ symbol ∈ leaf.symbols, place.visible? symbol.1 ≠ none → place.Sees symbol
  condition place condition :=
    ∀ symbol ∈ condition.symbols, place.visible? symbol.1 ≠ none → place.Sees symbol
  loop place condition :=
    ∀ symbol ∈ condition.symbols, place.visible? symbol.1 ≠ none → place.Sees symbol
  head _ _ := True

/-- Symbols that have no binding before their statement are functions. -/
def functionsOnly : Rule where
  leaf place leaf := ∀ symbol ∈ leaf.symbols, place.visible? symbol.1 = none →
    symbol.2.toTy.isFunction = true
  condition place condition := ∀ symbol ∈ condition.symbols, place.visible? symbol.1 = none →
    symbol.2.toTy.isFunction = true
  loop place condition := ∀ symbol ∈ condition.symbols, place.visible? symbol.1 = none →
    symbol.2.toTy.isFunction = true
  head _ _ := True

/-- Symbols mean what is visible, or what shadows it later. -/
def lexical : Rule where
  leaf place leaf := ∀ symbol ∈ leaf.symbols, place.Means symbol
  condition place condition := ∀ symbol ∈ condition.symbols, place.Sees symbol
  loop place condition := ∀ symbol ∈ condition.symbols, place.Sees symbol
  head _ _ := True

/-- Symbols that nobody has declared before mean something that comes later, and the first one is
the name of a function. -/
def hoisting (options : Options) : Rule where
  leaf place leaf := ∀ symbol ∈ leaf.symbols, place.visible? symbol.1 = none →
    (∃ level later, place.Declares level later ∧ later.name = symbol.1 ∧ symbol.2 = later.type) ∧
    (leaf.lead = some symbol.1 → place.Hoists options symbol.1)
  condition place condition := ∀ symbol ∈ condition.symbols, place.visible? symbol.1 ≠ none
  loop place condition := ∀ symbol ∈ condition.symbols, place.visible? symbol.1 ≠ none
  head _ _ := True

/-! Symbols of what was checked. -/

/-- The symbols and their types, in plain form. -/
def plain (symbols : List (String × ConcreteTy)) : List (String × Ty) :=
  symbols.map fun symbol => (symbol.1, symbol.2.toTy)

end Typed

/-- What is read off a statement has the same symbols. -/
theorem Work.symbols_complete {work : Work} {typed : Typed.Leaf}
    (completes : work.complete = .ok typed) :
    work.symbols = Typed.plain typed.symbols ∧ work.lead = typed.lead := by
  have onValue : ∀ {value : Expr} {after : Typed.Expr}, Typed.Expr.ofExpr value = .ok after →
      value.symbols = Typed.plain after.symbols := by
    intro value after read
    rw [← Typed.Expr.toExpr_ofExpr read, Typed.Expr.symbols_toExpr]
    rfl
  have onLead : ∀ {value : Expr} {after : Typed.Expr}, Typed.Expr.ofExpr value = .ok after →
      value.symbols.head?.map (·.1) = after.symbols.head?.map (·.1) := by
    intro value after read
    rw [onValue read]
    simp [Typed.plain, Function.comp_def]
  cases work with
  | declaration d =>
    simp only [Work.complete, Declaration.complete, bind_eq_ok, pure_eq_ok] at completes
    obtain ⟨_, _, value, read, rfl⟩ := completes
    exact ⟨onValue read, onLead read⟩
  | evaluation e =>
    simp only [Work.complete, Evaluation.complete, bind_eq_ok, pure_eq_ok] at completes
    obtain ⟨value, read, rfl⟩ := completes
    exact ⟨onValue read, onLead read⟩
  | assignment a awaited =>
    simp only [Work.complete, Assignment.complete, bind_eq_ok, pure_eq_ok] at completes
    obtain ⟨target, readTarget, value, read, rfl⟩ := completes
    refine ⟨?_, onLead read⟩
    have targets : a.target.symbols = Typed.plain target.symbols := by
      rw [← Typed.Target.toTarget_ofTarget readTarget, Typed.Target.symbols_toTarget]
      rfl
    have values := onValue read
    simp only [Work.symbols, Work.targetSymbols, Work.valueSymbols, Work.value?, Option.map_some,
      Option.getD_some, targets, values, Typed.Leaf.symbols, Typed.plain, List.map_append]
  | returns r =>
    obtain ⟨value, span⟩ := r
    cases value with
    | none =>
      obtain rfl : Typed.Leaf.returns none span = typed := by
        simpa [Work.complete, Return.complete] using completes
      exact ⟨rfl, rfl⟩
    | some value =>
      simp only [Work.complete, Return.complete, bind_eq_ok, pure_eq_ok] at completes
      obtain ⟨after, read, rfl⟩ := completes
      exact ⟨onValue read, onLead read⟩

namespace Check

open Desk

variable {σ : Type} {t : Checker Empty σ} {terms : Terms} {frames : List Frame}
  {place : Typed.Place}

/-- A frame and its block stand at the same level, with nothing nearer in front of either. -/
theorem blocks_split {near far : List Frame} {frame : Frame} {name : String}
    (blocks : List.Forall₂ (Mirrors t) (near ++ frame :: far) place)
    (free : ∀ nearer ∈ near, name ∉ nearer.names) :
    place.Clear near.length name ∧
      ∃ block, place[near.length]? = some block ∧ Mirrors t frame block := by
  induction near generalizing place with
  | nil =>
    cases blocks with
    | cons first _ => exact ⟨fun _ less => absurd less (Nat.not_lt_zero _), _, rfl, first⟩
  | cons nearest near ih =>
    cases blocks with
    | cons first rest =>
      obtain ⟨clear, block, at_, mirrors⟩ :=
        ih rest fun other mem => free other (List.mem_cons_of_mem _ mem)
      refine ⟨fun nearer less other isThere => ?_, block, by simpa using at_, mirrors⟩
      cases nearer with
      | zero =>
        obtain rfl : _ = other := by simpa using isThere
        rw [← first.before]
        exact free nearest List.mem_cons_self
      | succ nearer => exact clear nearer (by simpa using less) other (by simpa using isThere)

/-- What is found from the frames is an entry of a block of the place. -/
theorem Mirrored.found (mirrored : Mirrored t frames place) {frame : Frame} {name : String}
    {binding : Binding} (found : (t.desk []).Found frames name frame binding) :
    ∃ level block later, place[level]? = some block ∧ Mirrors t frame block ∧
      place.Clear level name ∧ later ∈ block.all ∧ later.name = name ∧
      later.type.toTy = binding.type := by
  obtain ⟨near, far, split, free, bound⟩ := found
  have bound : t.scopes.binding? frame.id name = some binding := bound
  obtain ⟨clear, block, at_, mirrors⟩ := blocks_split (split ▸ mirrored.blocks) free
  obtain ⟨later, declared, rfl⟩ := List.mem_map.1 (mirrors.only name (by simp [bound]))
  obtain ⟨other, isBound, type, _⟩ := mirrors.keeps later declared
  obtain rfl : binding = other := Option.some.inj (bound.symm.trans isBound)
  exact ⟨near.length, block, later, at_, mirrors, clear, declared, rfl, type.symm⟩

/-- Two entries of a block with one name have one type. -/
theorem Mirrors.type_unique {frame : Frame} {block : Typed.Block} (mirrors : Mirrors t frame block)
    {a b : Typed.Entry} (mem : a ∈ block.all) (mem' : b ∈ block.all) (same : a.name = b.name) :
    a.type = b.type := by
  obtain ⟨binding, bound, type, _⟩ := mirrors.keeps a mem
  obtain ⟨other, bound', type', _⟩ := mirrors.keeps b mem'
  rw [same, bound'] at bound
  obtain rfl : other = binding := Option.some.inj bound
  exact ConcreteTy.toTy_injective (type.symm.trans type')

/-- What is found from a place is visible there, or declared behind it in a nearer block. -/
theorem Mirrored.means (mirrored : Mirrored t frames place) {symbol : String × ConcreteTy}
    {frame : Frame} {binding : Binding}
    (found : (t.desk []).Found frames symbol.1 frame binding)
    (type : binding.type = symbol.2.toTy) : place.Means symbol := by
  intro level entry visible
  obtain ⟨depth, block, later, at_, mirrors, clear, declared, named, same⟩ := mirrored.found found
  obtain ⟨_, name, there, at_', before⟩ := Typed.Place.visible?_eq_some visible
  have type : symbol.2 = later.type := ConcreteTy.toTy_injective (type.symm.trans same.symm)
  rcases Nat.lt_trichotomy depth level with nearer | rfl | farther
  · exact .inr ⟨depth, nearer, later, ⟨block, at_, declared⟩, named, type⟩
  · obtain rfl : there = block := Option.some.inj (at_'.symm.trans at_)
    exact .inl (type.trans (mirrors.type_unique declared (mirrors.within entry before)
      (named.trans name.symm)))
  · exact absurd (List.mem_map.2 ⟨entry, before, name⟩) (clear level farther there at_')

/-- What has been declared before is visible. -/
theorem Mirrored.sees (mirrored : Mirrored t frames place) {symbol : String × ConcreteTy}
    {frame : Frame} {binding : Binding}
    (found : (t.desk []).Found frames symbol.1 frame binding) (declared : symbol.1 ∈ frame.names)
    (type : binding.type = symbol.2.toTy) : place.Sees symbol := by
  obtain ⟨depth, block, later, at_, mirrors, clear, mem, named, same⟩ := mirrored.found found
  rw [mirrors.before] at declared
  cases visible : place.visible? symbol.1 with
  | none =>
    exact absurd declared (Typed.Place.visible?_eq_none visible block (List.mem_of_getElem? at_))
  | some seen =>
    obtain ⟨level, entry⟩ := seen
    obtain ⟨clear', name, there, at_', before⟩ := Typed.Place.visible?_eq_some visible
    rcases Nat.lt_trichotomy depth level with nearer | rfl | farther
    · exact absurd declared (clear' depth nearer block at_)
    · obtain rfl : there = block := Option.some.inj (at_'.symm.trans at_)
      refine ⟨depth, entry, visible, ConcreteTy.toTy_injective ?_⟩
      rw [← type, ← same, mirrors.type_unique mem (mirrors.within entry before)
        (named.trans name.symm)]
    · exact absurd (List.mem_map.2 ⟨entry, before, name⟩) (clear level farther there at_')

theorem Mirrored.seesAll (mirrored : Mirrored t frames place) {condition : Typed.Expr}
    (located : (t.desk []).ConditionAt frames condition) :
    ∀ symbol ∈ condition.symbols, place.Sees symbol := by
  intro symbol mem
  obtain ⟨frame, binding, found, declared, type⟩ := located.symbols symbol mem
  exact mirrored.sees found declared type

theorem means_leaf {leaf : OutlineLeaf} {typed : Typed.Leaf} (mirrored : Mirrored t frames place)
    (located : (t.desk []).LeafAt terms frames leaf) (completes : t.completeLeaf leaf = .ok typed) :
    ∀ symbol ∈ typed.symbols, place.Means symbol := by
  cases leaf with
  | plain leaf =>
    obtain rfl : leaf = typed := by simpa [Checker.completeLeaf] using completes
    cases leaf with
    | breakLoop | continueLoop | imports | endOfFile => simp [Typed.Leaf.symbols]
    | declare | assign | returns | evaluate => exact located.elim
  | draft id =>
    obtain ⟨d, found, located⟩ := located
    rw [completeLeaf_draft found] at completes
    intro symbol mem
    have known : (symbol.1, symbol.2.toTy) ∈ d.work.symbols := by
      rw [(Work.symbols_complete completes).1]
      exact List.mem_map_of_mem mem
    obtain ⟨frame, binding, found, type, _⟩ := located.symbols _ known (by simp)
    exact mirrored.means found type

theorem follows_lexical : Follows t terms Typed.lexical where
  leaf mirrored located completes := means_leaf mirrored located completes
  condition mirrored located := mirrored.seesAll located
  loop mirrored located _ := mirrored.seesAll located
  head _ _ _ _ := trivial

/-! Names that come later. -/

/-- The last block is that of the file. -/
theorem Mirrored.getLast? (mirrored : Mirrored t frames place) {block : Typed.Block}
    (last : block ∈ place.getLast?) : ∃ frame, frame.id = 0 ∧ Mirrors t frame block := by
  have root := mirrored.path.getLast?
  have blocks := mirrored.blocks
  clear mirrored
  induction blocks with
  | nil => simp at last
  | cons first rest ih =>
    cases rest with
    | nil =>
      obtain rfl : _ = block := by simpa using last
      exact ⟨_, by simpa using root, first⟩
    | cons second others =>
      exact ih (by simpa using last) (by simpa using root)

theorem hoists_of_guarded {options : Options} {id : DraftId} {name : String}
    (sound : (t.desk []).Sound) (idle : t.queue = [])
    (nobody : options.reportUnresolved = true → ∀ id name, t.scopes.waiters id name = [])
    (mirrored : Mirrored t frames place) (guarded : (t.desk []).Guarded id name)
    (other : ¬ (t.desk []).DeclaresAtRoot id name) : place.Hoists options name := by
  intro block last
  obtain ⟨frame, root, mirrors⟩ := mirrored.getLast? last
  have bound : ∀ entry ∈ block.all, entry.name = name → ∃ binding,
      t.scopes.binding? 0 name = some binding ∧ binding.type = entry.type.toTy := by
    intro entry mem named
    obtain ⟨binding, found, type, _⟩ := mirrors.keeps entry mem
    rw [root, named] at found
    exact ⟨binding, found, type⟩
  rcases guarded with ⟨binding, found, function⟩ | ⟨position, queued | ⟨waiter, waits, work⟩⟩
  · refine ⟨fun entry mem named => ?_, fun _ => ?_⟩
    · obtain ⟨same, found', type⟩ := bound entry mem named
      obtain rfl : binding = same := Option.some.inj (found.symm.trans found')
      rw [← type]
      exact function
    · have here : t.scopes.binding? frame.id name = some binding := root ▸ found
      exact List.mem_map.1 (mirrors.only name (by simp [here]))
  · simp [Checker.desk, idle] at queued
  · rcases sound.hoisting name id position waiter waits work with unbound | own
    · refine ⟨fun entry mem named => ?_, fun report => ?_⟩
      · obtain ⟨binding, found, _⟩ := bound entry mem named
        have unbound : t.scopes.binding? 0 name = none := unbound
        simp [unbound] at found
      · have waits : waiter ∈ t.scopes.waiters 0 name := waits
        simp [nobody report] at waits
    · exact absurd own other

theorem hoists_leaf {options : Options} (sound : (t.desk []).Sound) (idle : t.queue = [])
    (nobody : options.reportUnresolved = true → ∀ id name, t.scopes.waiters id name = [])
    {leaf : OutlineLeaf} {typed : Typed.Leaf} (mirrored : Mirrored t frames place)
    (located : (t.desk []).LeafAt terms frames leaf) (completes : t.completeLeaf leaf = .ok typed) :
    (Typed.hoisting options).leaf place typed := by
  cases leaf with
  | plain leaf =>
    obtain rfl : leaf = typed := by simpa [Checker.completeLeaf] using completes
    cases leaf with
    | breakLoop | continueLoop | imports | endOfFile => simp [Typed.hoisting, Typed.Leaf.symbols]
    | declare | assign | returns | evaluate => exact located.elim
  | draft id =>
    obtain ⟨d, found, located⟩ := located
    rw [completeLeaf_draft found] at completes
    obtain ⟨symbols, lead⟩ := Work.symbols_complete completes
    intro symbol mem invisible
    have known : (symbol.1, symbol.2.toTy) ∈ d.work.symbols := by
      rw [symbols]
      exact List.mem_map_of_mem mem
    obtain ⟨frame, binding, seen, type, own⟩ := located.symbols _ known (by simp)
    obtain ⟨level, block, later, at_, mirrors, clear, declared, named, same⟩ := mirrored.found seen
    refine ⟨⟨level, later, ⟨block, at_, declared⟩, named, ?_⟩, fun leads => ?_⟩
    · exact ConcreteTy.toTy_injective (type.symm.trans same.symm)
    · have other : d.work.declares ≠ some symbol.1 := by
        intro declares
        obtain ⟨_, _, visible, _⟩ := mirrored.sees seen (own declares) type
        simp [invisible] at visible
      have free : ∀ frame ∈ frames, symbol.1 ∉ frame.names := by
        intro frame mem
        have blocks : List.Forall₂ (fun block frame => Mirrors t frame block) place frames :=
          mirrored.blocks.flip
        obtain ⟨block, known, mirrors⟩ := exists_of_forall₂ blocks mem
        rw [mirrors.before]
        exact Typed.Place.visible?_eq_none invisible block known
      refine hoists_of_guarded sound idle nobody mirrored
        (located.lead symbol.1 (lead.trans leads) other free) fun atRoot => other ?_
      have found : (t.desk []).drafts[id]? = some d := found
      simp only [DeclaresAtRoot, key?, found, Option.bind_some] at atRoot
      obtain ⟨_, declares, same⟩ := Option.map_eq_some_iff.1 atRoot
      rw [declares, (Prod.mk.inj same).2]

theorem follows_hoisting {options : Options} (sound : (t.desk []).Sound) (idle : t.queue = [])
    (nobody : options.reportUnresolved = true → ∀ id name, t.scopes.waiters id name = []) :
    Follows t terms (Typed.hoisting options) where
  leaf mirrored located completes := hoists_leaf sound idle nobody mirrored located completes
  condition mirrored located symbol mem := by
    obtain ⟨_, _, visible, _⟩ := mirrored.seesAll located symbol mem
    simp [visible]
  loop mirrored located _ symbol mem := by
    obtain ⟨_, _, visible, _⟩ := mirrored.seesAll located symbol mem
    simp [visible]
  head _ _ _ _ := trivial

end Check

/-- Every symbol of an accepted file has the type of the nearest binding before its statement, if
there is one, unless a nearer block declares the name behind the statement. -/
theorem checkProgram_lexical {σ : Type} (importer : Importer σ) (options : Options) (budget : Nat)
    (store : σ) (program : List Stmt) (output : Output) (fresh : Stmt.areFresh program = true)
    (accepted : (checkProgram importer options budget store program).result = .ok output) :
    Typed.Everywhere Typed.lexical output.typed := by
  obtain ⟨outlines, t, analyzed, completes⟩ := Check.analyzed_of_accepted fresh accepted
  exact Check.everywhere_of_follows analyzed completes Check.follows_lexical

/-- A symbol that has to wait for an outer name, in a body that declares the name behind it. -/
def shadowedLater : List Stmt :=
  [.leaf (.declare ⟨"p", false, .call (.symbol "f" .unresolved) [], .unannotated, .unresolved,
      false, .nowhere⟩),
    .function ⟨"g", [], .unannotated, false, .nowhere⟩
      [.leaf (.evaluate ⟨.symbol "p" .unresolved, .nowhere⟩),
        .leaf (.declare ⟨"p", false, .boolean true, .unannotated, .unresolved, false, .nowhere⟩)],
    .function ⟨"f", [], .unannotated, false, .nowhere⟩
      [.leaf (.returns ⟨some (.string "x"), .nowhere⟩)]]

def shadowedLaterTyped : List Typed.Stmt :=
  [.leaf (.declare ⟨"p", false, .call (.symbol "f" (.function [] (.string 1))) [] (.string 1),
      .string 1, false, .nowhere⟩),
    .function ⟨"g", [], .void, false, .nowhere⟩
      [.leaf (.evaluate (.symbol "p" .boolean) .nowhere),
        .leaf (.declare ⟨"p", false, .boolean true, .boolean, false, .nowhere⟩)],
    .function ⟨"f", [], .string 1, false, .nowhere⟩
      [.leaf (.returns (some (.string "x")) .nowhere)]]

theorem shadowedLater_lexical :
    (Registry.builtin.check .standard 20 shadowedLater).result = .ok ⟨shadowedLaterTyped, .empty⟩ ∧
      Typed.Everywhere Typed.lexical shadowedLaterTyped := by
  have accepted : (Registry.builtin.check .standard 20 shadowedLater).result =
      .ok ⟨shadowedLaterTyped, .empty⟩ := by cbv
  exact ⟨accepted, checkProgram_lexical (Registry.importer 20) .standard 20 .builtin shadowedLater
    ⟨shadowedLaterTyped, .empty⟩ (by decide) accepted⟩

/-- The symbol in the body is given the type of the later binding, although the outer one was
visible where it stands. -/
theorem shadowedLater_not_visibleOnly :
    Stmt.areFresh shadowedLater = true ∧
      (Registry.builtin.check .standard 20 shadowedLater).result =
        .ok ⟨shadowedLaterTyped, .empty⟩ ∧
      ¬Typed.Everywhere Typed.visibleOnly shadowedLaterTyped := by
  refine ⟨by decide, by cbv, fun everywhere => ?_⟩
  obtain ⟨_, ⟨_, inBody, _⟩, _⟩ := everywhere
  obtain ⟨level, entry, visible, same⟩ := inBody ("p", .boolean) (by decide) (by decide)
  obtain ⟨_, rfl⟩ : 1 = level ∧ ⟨"p", .string 1, false⟩ = entry := by
    simpa [Typed.Place.visible?, Typed.Place.enter, Typed.Place.after, Typed.Place.top,
      Typed.Stmt.entries, Typed.Leaf.entries, Typed.Signature.entries] using visible
  exact absurd same (by decide)

/-- Every symbol of an accepted file that has no binding before its statement means a name that is
declared behind it, and if it is the first one in the value of the statement, it is the name of a
function. -/
theorem checkProgram_hoisting {σ : Type} (importer : Importer σ) (options : Options) (budget : Nat)
    (store : σ) (program : List Stmt) (output : Output) (fresh : Stmt.areFresh program = true)
    (accepted : (checkProgram importer options budget store program).result = .ok output) :
    Typed.Everywhere (Typed.hoisting options) output.typed := by
  obtain ⟨outlines, t, analyzed, completes⟩ := Check.analyzed_of_accepted fresh accepted
  exact Check.everywhere_of_follows analyzed completes
    (Check.follows_hoisting analyzed.ready.sound analyzed.ready.queue analyzed.nobody)

/-- An argument that is declared between the call and the function. -/
def argumentLater : List Stmt :=
  [.leaf (.declare ⟨"r", false, .call (.symbol "f" .unresolved) [.symbol "a" .unresolved],
      .unannotated, .unresolved, false, .nowhere⟩),
    .leaf (.declare ⟨"a", false, .boolean true, .unannotated, .unresolved, false, .nowhere⟩),
    .function ⟨"f", [("x", .boolean)], .unannotated, false, .nowhere⟩
      [.leaf (.returns ⟨some (.symbol "x" .unresolved), .nowhere⟩)]]

def argumentLaterTyped : List Typed.Stmt :=
  [.leaf (.declare ⟨"r", false, .call (.symbol "f" (.function [("x", .boolean)] .boolean))
      [.symbol "a" .boolean] .boolean, .boolean, false, .nowhere⟩),
    .leaf (.declare ⟨"a", false, .boolean true, .boolean, false, .nowhere⟩),
    .function ⟨"f", [("x", .boolean)], .boolean, false, .nowhere⟩
      [.leaf (.returns (some (.symbol "x" .boolean)) .nowhere)]]

theorem argumentLater_hoisting :
    (Registry.builtin.check .standard 20 argumentLater).result = .ok ⟨argumentLaterTyped, .empty⟩ ∧
      Typed.Everywhere (Typed.hoisting .standard) argumentLaterTyped := by
  have accepted : (Registry.builtin.check .standard 20 argumentLater).result =
      .ok ⟨argumentLaterTyped, .empty⟩ := by cbv
  exact ⟨accepted, checkProgram_hoisting (Registry.importer 20) .standard 20 .builtin argumentLater
    ⟨argumentLaterTyped, .empty⟩ (by decide) accepted⟩

/-- The argument is not a function, and is used before it is declared. -/
theorem argumentLater_not_functionsOnly :
    Stmt.areFresh argumentLater = true ∧
      (Registry.builtin.check .standard 20 argumentLater).result =
        .ok ⟨argumentLaterTyped, .empty⟩ ∧
      ¬Typed.Everywhere Typed.functionsOnly argumentLaterTyped := by
  refine ⟨by decide, by cbv, fun everywhere => ?_⟩
  have isFunction := everywhere.1 ("a", .boolean) (by decide) (by decide)
  exact absurd isFunction (by decide)

end Hoist
