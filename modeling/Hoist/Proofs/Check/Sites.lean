import Hoist.Proofs.Check.Drafted
import Hoist.Proofs.Check.Held
import Hoist.Proofs.Placement
import Hoist.Proofs.Preservation

/-!
The assignments of a program. `Stmt.blockAssignments` reads off the text which names each of them
mentions, which the blocks around it have declared before it, and which they declare behind it. The
names of the file count only before.

Main statement: when the statements of a block have been checked, the text says what their assignments
wait for (`sited_block`).
-/
namespace Hoist

/-! The text. -/

def Leaf.assignments (before behind : List String) : Leaf → List Site
  | .assign a => [⟨a.names, before, behind⟩]
  | _ => []

namespace Stmt

/-- What the statements of a block are still going to declare, if it is not the file. -/
def later (inner : Bool) (stmts : List Stmt) : List String :=
  if inner then allDeclares stmts else []

mutual

def assignments (before behind : List String) : Stmt → List Site
  | .leaf content => content.assignments before behind
  | .branch _ body _ => blockAssignments true before behind body
  | .elseIf _ body _ => blockAssignments true before behind body
  | .otherwise body _ => blockAssignments true before behind body
  | .loop _ body _ => blockAssignments true before behind body
  | .function signature body =>
    blockAssignments true (before ++ signature.parameters.map (·.1)) behind body

def blockAssignments (inner : Bool) (before behind : List String) : List Stmt → List Site
  | [] => []
  | stmt :: rest => stmt.assignments before (later inner rest ++ behind) ++
      blockAssignments inner (before ++ stmt.declares) behind rest

end

/-- Some assignment of a file mentions a name that nobody has declared before it, and that one of the
blocks around it other than the file declares behind it. -/
def Overtaken (program : List Stmt) (name : String) : Prop :=
  ∃ site ∈ blockAssignments false [] [] program,
    name ∈ site.names ∧ name ∉ site.before ∧ name ∈ site.behind

instance (program : List Stmt) (name : String) : Decidable (Overtaken program name) :=
  inferInstanceAs (Decidable (∃ site ∈ blockAssignments false [] [] program, _))

end Stmt

namespace Check

variable {σ : Type} {s m t : Checker Empty σ} {scope inner : ScopeId} {outer : List ScopeId}
  {around within : Around} {before behind more names exports : List String} {sites others : List Site}

/-! The blocks around a statement. -/

/-- The blocks around have bound what is declared before, and those other than the file nothing
else. -/
structure Surrounded (s : Checker Empty σ) (scope : ScopeId) (outer : List ScopeId) (around : Around)
    (before : List String) : Prop where
  sound : Firm s
  stands : Stands s scope outer around
  bound : ∀ name ∈ before, ∃ place ∈ scope :: outer, (s.scopes.binding? place name).isSome = true
  only : ∀ place ∈ scope :: outer, place ≠ 0 → ∀ name, (s.scopes.binding? place name).isSome = true →
    name ∈ before

/-- What is done next is made of steps. -/
theorem Surrounded.checkSteps {α : Type} {step : Check Empty σ α} {value : α}
    (surrounded : Surrounded s scope outer around before)
    (madeOfSteps : MadeOfSteps (firm σ) scope step)
    (ends : Ends step s value t) : CheckSteps (firm σ) s t ∧ Firm t := by
  have made := surrounded.stands.path.isSome_parent? List.mem_cons_self
  have checkSteps := (madeOfSteps s ⟨Option.isSome_iff_exists.1 made, surrounded.sound⟩).of_ends ends
  exact ⟨checkSteps, (checkSteps.later surrounded.sound).2⟩

/-- A statement has declared its names. -/
theorem Surrounded.after (surrounded : Surrounded s scope outer around before) (sound : Firm t)
    (bindsNames : BindsNames scope names exports s t) :
    Surrounded t scope outer around (before ++ names) where
  sound := sound
  stands := surrounded.stands.later bindsNames.layoutKept
  bound name mem := by
    rcases List.mem_append.1 mem with old | new
    · obtain ⟨place, inside, known⟩ := surrounded.bound name old
      exact ⟨place, inside, bindsNames.layoutKept.named place name known⟩
    · exact ⟨scope, List.mem_cons_self, bindsNames.bound name new⟩
  only place mem apart name known := by
    have made := surrounded.stands.path.isSome_parent? mem
    rcases bindsNames.only place name made known with old | ⟨-, new⟩
    · exact List.mem_append_left _ (surrounded.only place mem apart name old)
    · exact List.mem_append_right _ new

/-- A new scope is entered. -/
theorem Surrounded.enter {kind : ScopeKind} (surrounded : Surrounded s scope outer around before)
    (creates : Ends (createScope (some scope) kind) s inner t)
    (entered : Stands t inner (scope :: outer) within) :
    Surrounded t inner (scope :: outer) within before := by
  have madeOfSteps : MadeOfSteps (firm σ) scope (createScope (some scope) kind) := fun s fit =>
    (unmetered_createScope _ _).continues_end fun _ _ ends => by
      obtain ⟨rfl, rfl⟩ := ends_createScope.1 ends
      exact (CheckStep.checkSteps (.create fit False.elim)).idle _ _ _ _
  obtain ⟨-, sound⟩ := surrounded.checkSteps madeOfSteps creates
  obtain ⟨rfl, rfl⟩ := ends_createScope.1 creates
  have created := s.scopes.created_create scope kind
  refine ⟨sound, entered, fun name mem => ?_, fun place mem apart name known => ?_⟩
  · obtain ⟨place, inside, known⟩ := surrounded.bound name mem
    exact ⟨place, List.mem_cons_of_mem _ inside, by rwa [created.bindings]⟩
  · rw [created.bindings] at known
    rcases List.mem_cons.1 mem with rfl | inside
    · simp [Scopes.binding?, Scopes.size] at known
    · exact surrounded.only place inside apart name known

/-! Sites. -/

/-- Each assignment that is new is at one of these sites. The blocks around it other than the file have
bound nothing but what is declared before it or behind it. -/
def Sited (sites : List Site) (behind : List String) (s t : Checker Empty σ) : Prop :=
  ∀ (id : DraftId) d names, s.drafts.length ≤ id → t.drafts[id]? = some d →
    d.work.shape = .assigns names → ∃ site ∈ sites, ∃ outer, Waits id d.scope outer site t ∧
      (∀ name ∈ behind, name ∈ site.behind) ∧ ∀ place ∈ d.scope :: outer, place ≠ 0 →
        ∀ name, (t.scopes.binding? place name).isSome = true → name ∈ site.before ∨ name ∈ site.behind

theorem sited_of_sized (sized : t.drafts.length = s.drafts.length) : Sited sites behind s t := by
  intro id d names new here
  exact absurd (List.getElem?_eq_some_iff.1 here).1 (by omega)

theorem Sited.since (sited : Sited sites behind m t) (sized : m.drafts.length = s.drafts.length) :
    Sited sites behind s t :=
  fun id d names new => sited id d names (sized ▸ new)

/-- What is declared afterwards is behind. -/
theorem Sited.trans (first : Sited sites more s m) (checkSteps : CheckSteps (firm σ) m t)
    (comes : ∀ place name, place ≠ 0 → (m.scopes.parent? place).isSome = true →
      (t.scopes.binding? place name).isSome = true →
      (m.scopes.binding? place name).isSome = true ∨ name ∈ more)
    (less : ∀ name ∈ behind, name ∈ more) (second : Sited others behind m t) :
    Sited (sites ++ others) behind s t := by
  intro id d names new here assigns
  rcases Nat.lt_or_ge id m.drafts.length with old | later
  · obtain ⟨e, there, same, passes⟩ := checkSteps.draftsKept.drafts id _ (List.getElem?_eq_getElem old)
    obtain rfl := Option.some.inj (there.symm.trans here)
    obtain ⟨site, mem, outer, waits, sub, only⟩ := first id _ names new
      (List.getElem?_eq_getElem old) (passes.shape.symm.trans assigns)
    rw [← same] at waits only
    refine ⟨site, List.mem_append_left _ mem, outer, checkSteps.waits waits,
      fun name mem => sub name (less name mem), fun place inside apart name known => ?_⟩
    rcases comes place name apart (waits.held.way.isSome_parent? inside) known with old | new
    · exact only place inside apart name old
    · exact .inr (sub name new)
  · obtain ⟨site, mem, rest⟩ := second id d names later here assigns
    exact ⟨site, List.mem_append_right _ mem, rest⟩

/-! Statements. -/

section Walk

variable {options : Options} {importer : Importer σ}

theorem sited_leaf {content : Leaf} {leaf : OutlineLeaf} (fresh : content.isFresh = true)
    (surrounded : Surrounded s scope outer around before)
    (ends : Ends (checkLeaf (Env.plain options importer) scope content) s leaf t) :
    Sited (content.assignments before behind) behind s t := by
  intro id d names new here assigns
  -- There is at most one new draft, and it stands for the statement.
  have settles (work : List (Deferral Empty)) : Still ((Env.plain options importer).settle work) :=
    still_runWave (fun task => task.elim) work
  obtain rfl : leaf = .draft id := by
    simpa [eq_comm] using
      (gathers_leaf settles (.of_ends ends)).added id (List.getElem?_eq_some_iff.1 here).1 new
  have told : d.work.leaf.erase = content.erase := by
    simpa [Checker.unfold, Typed.Tree.unfoldAll, Typed.Tree.unfold, Checker.leafOf, here,
      Stmt.eraseAll, Stmt.erase] using (tells_leaf (.of_ends ends) t (.refl t)).erased
  obtain ⟨place, work⟩ := d
  cases work with
  | declaration | returns | evaluation => cases assigns
  | assignment b later =>
    cases content with
    | assign a =>
      obtain ⟨-, sound⟩ := surrounded.checkSteps (madeOfSteps_checkLeaf
        (suits_firm (by simpa [Stmt.areFresh, Stmt.isFresh] using fresh))) ends
      simp only [checkLeaf, ends_bind, ends_pure] at ends
      obtain ⟨_, _, adds, _, _, checks, same, rfl⟩ := ends
      obtain rfl := OutlineLeaf.draft.inj same
      obtain ⟨types, _, _, looked⟩ :=
        looked_checkAssignment (List.getElem?_eq_some_iff.1 (drafts_addDraft adds)).1 checks
      obtain ⟨rfl, rfl⟩ := ends_addDraft.1 adds
      have calm := looked.calm
      obtain ⟨rfl, rfl, rfl⟩ : scope = place ∧ _ := by simpa using looked.putAt.here.symm.trans here
      simp only [Leaf.isFresh, Bool.and_eq_true] at fresh
      refine ⟨_, List.mem_cons_self, outer, ⟨sound, ⟨_, here, looked.looks.passes.shape⟩, ?_⟩,
        fun _ => id, fun place mem apart name known => .inl ?_⟩
      · have nobody : Held s.drafts.length (scope :: outer) ⟨a.names, before, behind⟩ s.scopes :=
          ⟨surrounded.stands.path, surrounded.bound, fun _ _ _ mem _ errand => by
            obtain ⟨_, there, _⟩ := surrounded.sound.tallied.awaits_of_live (mem_live_of_waiter mem) errand
            simp at there⟩
        refine looked.held surrounded.sound.rooted nobody fun _ =>
          ⟨rfl, ⟨?_, ?_⟩, rfl, rfl⟩
        · rintro _ ⟨rfl⟩
          exact Expr.faithful_of_isFresh fresh.2
        · rintro _ ⟨rfl⟩
          exact Target.faithful_of_isFresh fresh.1
      · exact surrounded.only place mem apart name (by rwa [calm.bindings] at known)
    | _ => simp [Work.leaf, Leaf.erase] at told

variable {body : List Stmt}

/-- The body of a statement other than a function. -/
theorem sited_body {kind : ScopeKind}
    (walk : ∀ {outer around}, Surrounded m inner outer around before →
      Sited (Stmt.blockAssignments true before behind body) behind m t)
    (own : around.EntersAs within kind.kind) (surrounded : Surrounded s scope outer around before)
    (creates : Ends (createScope (some scope) kind) s inner m) :
    Sited (Stmt.blockAssignments true before behind body) behind s t :=
  (walk (surrounded.enter creates (surrounded.stands.enterBody own creates))).since
    (sized_createScope creates)

end Walk

mutual

theorem sited_stmt {options : Options} {importer : Importer σ} :
    ∀ {scope chain stmt s outlines after t},
    StmtRun (Env.plain options importer) scope chain stmt s outlines after t → stmt.isFresh = true →
    ∀ {before behind outer around}, Surrounded s scope outer around before →
    Sited (stmt.assignments before behind) behind s t
  | _, _, _, _, _, _, _, .leaf ends, fresh, _, _, _, _, surrounded => by
    rw [Stmt.assignments]
    exact sited_leaf fresh surrounded ends
  | _, _, _, _, _, _, _, .branch _ creates walks _, fresh, _, _, _, around, surrounded => by
    simp only [Stmt.isFresh, Bool.and_eq_true] at fresh
    rw [Stmt.assignments]
    exact sited_body (sited_block walks fresh.2 (by simp)) around.entersAs_inBlock surrounded creates
  | _, _, _, _, _, _, _, .elseIf _ creates walks _, fresh, _, _, _, around, surrounded => by
    simp only [Stmt.isFresh, Bool.and_eq_true] at fresh
    rw [Stmt.assignments]
    exact sited_body (sited_block walks fresh.2 (by simp)) around.entersAs_inBlock surrounded creates
  | _, _, _, s, _, _, _, @StmtRun.otherwise _ _ _ _ _ _ body _ _ journal _ _ n creates walks, fresh,
      before, behind, _, around, surrounded => by
    have sited : Sited (Stmt.blockAssignments true before behind body) behind s n :=
      sited_body (sited_block walks fresh (by simp)) around.entersAs_inBlock surrounded creates
    have nothing : Sited [] behind n { n with journal } := sited_of_sized rfl
    simpa [Stmt.assignments] using
      sited.trans (CheckSteps.idle .refl _ _ _ journal) (fun _ _ _ _ => .inl) (fun _ => id) nothing
  | _, _, _, _, _, _, _, .loop _ creates walks _, fresh, _, _, _, around, surrounded => by
    simp only [Stmt.isFresh, Bool.and_eq_true] at fresh
    rw [Stmt.assignments]
    exact sited_body (sited_block walks fresh.2 (by simp)) around.entersAs_inLoop surrounded creates
  | _, _, _, _, _, _, t, @StmtRun.function _ _ _ _ inner _ signature body _ _ _ _ n o _ onTop checked
      creates parameters ends walks closes, fresh, before, behind, _, _, surrounded => by
    obtain ⟨rfl, rfl, -, entered⟩ := surrounded.stands.enterFunction onTop creates
    have settles (work : List (Deferral Empty)) : Still ((Env.plain options importer).settle work) :=
      still_runWave (fun task => task.elim) work
    have made := surrounded.enter creates entered
    have named := bindsNames_defineParameters ownersKept_runWave made.sound.owned parameters
    obtain ⟨-, sound⟩ := made.checkSteps (madeOfSteps_defineParameters inner _ _) parameters
    have opened := made.after sound named
    obtain ⟨-, sound⟩ := opened.checkSteps
      (madeOfSteps_checkBlock body inner none (suits_firm fresh)) ends
    have walked := kept_block ownersKept_runWave walks opened.stands opened.sound.owned
    have back := opened.after sound walked.bindsNames
    obtain ⟨checkSteps, -⟩ :=
      back.checkSteps (madeOfSteps_closeFunction (areConcrete_of_checkParameters checked)) closes
    obtain ⟨closed, -⟩ := bindsNames_closeFunction ownersKept_runWave sound.owned (fun _ => rfl) closes
    have sited : Sited (Stmt.blockAssignments true (before ++ signature.parameters.map (·.1)) behind
        body) behind n o := sited_block walks fresh (by simp) opened
    have sized := ((still_defineParameters _ _ settles _).sized parameters).trans
      (sized_createScope creates)
    -- Around a function there is only the file, whose names do not count behind.
    have nothing : Sited [] behind o t := sited_of_sized (sized_closeFunction settles closes)
    simpa [Stmt.assignments] using (sited.trans checkSteps (fun place name apart made known =>
      .inl ((closed.only place name made known).resolve_right fun new => apart new.1)) (fun _ => id)
      nothing).since sized

theorem sited_block {options : Options} {importer : Importer σ} :
    ∀ {scope chain program s outlines t},
    BlockRun (Env.plain options importer) scope chain program s outlines t →
    Stmt.areFresh program = true → ∀ {inner before behind outer around}, (inner = false → scope = 0) →
    Surrounded s scope outer around before →
    Sited (Stmt.blockAssignments inner before behind program) behind s t
  | _, _, _, _, _, _, .nil ends, _, _, _, _, _, _, _, _ =>
    sited_of_sized ((small_endChain _).sized ends)
  | scope, chain, _, s, _, _, @BlockRun.cons _ _ _ _ _ still after stmt rest _ _ _ left _ m _ _ closes
      _ ends run later walks, fresh, inner, before, _, outer, around, file, surrounded => by
    have suits : (firm σ).Suits importer (stmt :: rest) := suits_firm fresh
    simp only [Stmt.areFresh, Bool.and_eq_true] at fresh
    have sized : m.drafts.length = s.drafts.length := (small_endChainBefore _ _).sized closes
    obtain ⟨checkSteps, -⟩ := surrounded.checkSteps (madeOfSteps_endChainBefore stmt chain) closes
    have ticked := checkSteps.idle m.firing left m.store m.journal
    have here : Surrounded { m with budget := left } scope outer around before := by
      have first : BindsNames scope [] [] s { m with budget := left } :=
        .of_ownersKept surrounded.sound.owned
          ((ownersKept_endChainBefore scope closes).1.until rfl rfl rfl)
      simpa using surrounded.after (ticked.later surrounded.sound).2 first
    obtain ⟨-, sound⟩ := here.checkSteps (madeOfSteps_checkStmt stmt scope still suits.head) ends
    have next := here.after sound
      (kept_stmt ownersKept_runWave run here.stands here.sound.owned).bindsNames
    obtain ⟨checkSteps, -⟩ := next.checkSteps (madeOfSteps_checkBlock rest scope after suits.tail)
      later
    have kept := kept_block ownersKept_runWave walks next.stands next.sound.owned
    refine ((sited_stmt run fresh.1 here).trans checkSteps (fun place name apart made known =>
      (kept.bindsNames.only place name made known).imp_right fun new => List.mem_append_left _ ?_)
      (fun _ => List.mem_append_right _) (sited_block walks fresh.2 file next)).since sized
    cases inner with
    | false => exact absurd (new.1.trans (file rfl)) apart
    | true => exact new.2

end

end Check

end Hoist
