import Hoist.Proofs.Recheck.Quiet
import Hoist.Proofs.Typed.Forget

/-!
Simple statements with all their types in them. Whatever the types are, a quiet checker accepts
such a statement or refuses it at once, and what it makes of the statement can be checked again in
its place: the same comes of it.

Main statement: `quiet_leaf`.
-/
namespace Hoist

/-- An annotation that is known is the type of the declaration. -/
theorem Declaration.withType_known {e d : Declaration} {type : Ty}
    (written : e.written.isConcrete = true) (known : type.isConcrete = true)
    (typed : e.withType type = .ok d) : type = e.written ∧ d = { e with type } := by
  obtain ⟨same, agrees⟩ := Declaration.withType_eq_ok typed
  rcases agrees written with pending | agrees
  · simp [Ty.isPending_of_isConcrete known] at pending
  · exact ⟨agrees.symm, same⟩

theorem Declaration.withType_lawful {e : Declaration} {type : Ty} {cause : Cause}
    (refused : e.withType type = .error cause) : cause.isLawful = true := by
  unfold Declaration.withType at refused
  split at refused
  · exact Except.error.inj refused ▸ rfl
  · simp at refused

namespace Check

theorem assignable_lawful {op : AssignOp} {target value : Ty} {cause : Cause}
    (refused : assignable op target value = .error cause) : cause.isLawful = true := by
  unfold assignable at refused
  split at refused
  · exact Except.error.inj refused ▸ rfl
  · split at refused
    · exact Except.error.inj refused ▸ rfl
    · simp at refused

variable {σ α τ : Type} {store : σ} {short : Prop} {ahead : Nat} {scope : ScopeId}
  {outer : List ScopeId} {s t : Checker Empty σ}

/-- After a step the checker is quiet again. What can be read off the outcome leads, in its place,
to the same outcome. -/
structure Repeats (store : σ) (short : Prop) (ahead : Nat) (ids : List ScopeId)
    (again : τ → Check Empty σ α) (read : Checker Empty σ → α → Except Halt τ)
    (s : Checker Empty σ) (value : α) (t : Checker Empty σ) : Prop where
  quiet : Quiet store short ahead ids t
  appends : Appends s t
  again : ∀ later typed, Appends t later → read later value = .ok typed →
    Ends (again typed) s value t

/-- A draft was added, and the checker is quiet. -/
structure Drafts (store : σ) (short : Prop) (ahead : Nat) (ids : List ScopeId) (draft : Draft)
    (s : Checker Empty σ) (id : DraftId) (t : Checker Empty σ) : Prop where
  quiet : Quiet store short ahead ids t
  id : id = s.drafts.length
  drafts : t.drafts = s.drafts ++ [draft]
  signatures : t.signatures = s.signatures
  results : ∀ id, t.scopes.result? id = s.scopes.result? id

theorem Drafts.repeats {env : Env Empty σ} {ids : List ScopeId} {work : Work} {id : DraftId}
    (drafts : Drafts store short ahead ids ⟨scope, work⟩ s id t)
    (again : Ends (checkLeaf env scope work.leaf) s (.draft id) t) :
    Repeats store short ahead ids (fun leaf => checkLeaf env scope (Typed.Leaf.forget leaf))
      Checker.completeLeaf s (.draft id) t where
  quiet := drafts.quiet
  appends := ⟨drafts.drafts ▸ List.prefix_append _ _, drafts.signatures ▸ List.prefix_refl _,
    fun id _ kept => (drafts.results id).trans kept⟩
  again later typed appends completes := by
    have here : t.drafts[id]? = some ⟨scope, work⟩ := by simp [drafts.drafts, drafts.id]
    rw [appends.completeLeaf here] at completes
    rw [Work.forget_complete completes]
    exact again

variable (client : Empty → Check Empty σ Unit)

/-! Declarations. -/

theorem quiet_bindDeclaration (quiet : Quiet store short ahead (scope :: outer) s)
    (d : Typed.Declaration) :
    Yields (bindDeclaration (runWave client) scope d.forget) s
      (Drafts store short ahead (scope :: outer) ⟨scope, .declaration d.forget⟩ s)
      (Spares short) := by
  unfold bindDeclaration
  simp only [yields_bind, yields_view]
  refine quiet.looks d.value _ _ fun type look known => ?_
  have same : (d.forget.value.resolve (s.scopes.view scope)).2 = d.forget.value :=
    (d.value.firm_toExpr (s.scopes.view scope)).same
  have settled : type.pendingOn = none := Ty.pendingOn_eq_none_of_isConcrete known
  rw [same, yields_ofCause]
  constructor
  · intro declaration typed
    obtain ⟨rfl, rfl⟩ := Declaration.withType_known d.type.isConcrete_toTy known typed
    refine quiet.binds client _ d.type.isConcrete_toTy fun scopes journal later results => ?_
    simp only [yields_addDraft, deferDeclaration, settled, yields_pure]
    exact ⟨later.redraft _ _, rfl, rfl, rfl, results⟩
  · intro cause refused
    exact quiet.refuses (Cause.isLate_of_isLawful (Declaration.withType_lawful refused))

theorem quiet_declaration (quiet : Quiet store short ahead (scope :: outer) s)
    (d : Typed.Declaration) :
    Yields (checkDeclaration (runWave client) scope d.forget) s
      (Drafts store short ahead (scope :: outer) ⟨scope, .declaration d.forget⟩ s)
      (Spares short) := by
  rw [checkDeclaration_eq, yields_bind]
  have binds := quiet_bindDeclaration client quiet d
  unfold checkExport
  split
  · exact quiet.demands quiet.path.isTopLevel_eq rfl binds
  · exact yields_pure.2 binds

/-! Assignments. -/

theorem ends_checkAssignment {id : DraftId} {a : Assignment} {awaited : List String} {done : Unit} :
    Ends (checkAssignment id scope a awaited) s done t ↔
      ∃ binding targetType target valueType value,
        s.scopes.lookup scope a.target.root = .ok (some binding) ∧
        (binding.constant && a.target.isSymbol) = false ∧
        a.target.resolve (s.scopes.view scope) = (.ok targetType, target) ∧
        a.value.resolve (s.scopes.view scope) = (.ok valueType, value) ∧
        assignable a.op targetType valueType = .ok () ∧
        Ends (awaitEach id scope { a with target, value } awaited
            ([targetType, valueType].filterMap Ty.pendingOn))
          { s with
            drafts := s.drafts.set id ⟨scope, .assignment { a with target, value } awaited⟩ }
          done t := by
  simp only [checkAssignment, ends_bind, ends_checkRoot, ends_view, ends_setDraft, ends_ofFault,
    ends_ofCause, and_assoc, exists_and_left, exists_eq_left, List.set_set]
  constructor
  · rintro ⟨⟨binding, found, free⟩, _, _, targetType, onTarget, _, valueType, onValue, _, agrees,
      ends⟩
    exact ⟨binding, found, free, targetType, _, Prod.ext onTarget rfl, valueType, _,
      Prod.ext onValue rfl, agrees, ends⟩
  · rintro ⟨binding, found, free, targetType, target, onTarget, valueType, value, onValue, agrees,
      ends⟩
    simp only [onTarget, onValue]
    exact ⟨⟨binding, found, free⟩, (), (), targetType, rfl, (), valueType, rfl, (), agrees, ends⟩

theorem Quiet.roots (quiet : Quiet store short ahead (scope :: outer) s) (target : Target)
    (position : Position) {good : Unit → Checker Empty σ → Prop}
    (next : ∀ binding, s.scopes.lookup scope target.root = .ok (some binding) → good () s) :
    Yields (checkRoot scope target position) s good (Spares short) := by
  unfold checkRoot
  rw [yields_bind, yields_scopes, yields_bind, quiet.path.lookup_eq, yields_ofFault]
  refine ⟨fun found look => ?_, by simp⟩
  cases found with
  | none => exact yields_reject.2 (quiet.refuses rfl)
  | some binding =>
    have ends := next binding (by rw [quiet.path.lookup_eq, look])
    by_cases fixed : (binding.constant && target.isSymbol) = true
    · simpa only [fixed, ↓reduceIte, yields_reject] using quiet.refuses rfl
    · simpa only [fixed, Bool.false_eq_true, ↓reduceIte, yields_pure] using ends

/-- Neither side of an assignment has a name to wait for. -/
theorem Quiet.nothing_pending (quiet : Quiet store short ahead (scope :: outer) s)
    {a : Typed.Assignment} {binding : Binding} {targetType valueType : Ty}
    (found : s.scopes.lookup scope a.forget.target.root = .ok (some binding))
    (onTarget : (a.forget.target.resolve (s.scopes.view scope)).1 = .ok targetType)
    (onValue : (a.forget.value.resolve (s.scopes.view scope)).1 = .ok valueType) :
    [targetType, valueType].filterMap Ty.pendingOn = [] := by
  have valueKnown := (a.value.firm_toExpr (s.scopes.view scope)).known valueType onValue
  have targetKnown : targetType.isConcrete = true := by
    rw [Typed.Assignment.forget, Typed.Target.root_toTarget] at found
    obtain ⟨start, concrete⟩ := quiet.view_eq found
    exact Typed.Target.known_of_look start concrete (Prod.ext onTarget rfl)
  simp [Ty.pendingOn_eq_none_of_isConcrete targetKnown,
    Ty.pendingOn_eq_none_of_isConcrete valueKnown]

/-- An assignment that ends does not wait, and what it has found is found again. -/
theorem ends_assignment (quiet : Quiet store short ahead (scope :: outer) s)
    {a : Typed.Assignment} {id : DraftId} {done : Unit}
    (ends : Ends (checkAssignment id scope a.forget []) s done t) : ∃ target,
      t = { s with drafts := s.drafts.set id ⟨scope, .assignment { a.forget with target } []⟩ } ∧
      ∀ drafts, Ends (checkAssignment id scope { a.forget with target } []) { s with drafts } done
        { s with drafts := drafts.set id ⟨scope, .assignment { a.forget with target } []⟩ } := by
  obtain ⟨binding, targetType, target, valueType, value, found, free, onTarget, onValue, agrees,
    ends⟩ := ends_checkAssignment.1 ends
  have firm := a.value.firm_toExpr (s.scopes.view scope)
  obtain rfl : a.forget.value = value := firm.same.symm.trans (congrArg Prod.snd onValue)
  have nothing := quiet.nothing_pending found (congrArg Prod.fst onTarget)
    (congrArg Prod.fst onValue)
  rw [nothing, awaitEach, ends_pure] at ends
  obtain ⟨rfl, rfl⟩ := ends
  obtain ⟨_, root, bare⟩ := Desk.target_of_look onTarget
  refine ⟨target, rfl, fun drafts => ends_checkAssignment.2 ⟨binding, targetType, target, valueType,
    a.forget.value, root ▸ found, bare ▸ free, Typed.Target.resolve_again onTarget, onValue, agrees,
    ?_⟩⟩
  rw [nothing, awaitEach, ends_pure]
  exact ⟨rfl, rfl⟩

theorem quiet_checkAssignment (quiet : Quiet store short ahead (scope :: outer) s)
    (a : Typed.Assignment) (id : DraftId) :
    Yields (checkAssignment id scope a.forget []) s (fun _ _ => True) (Spares short) := by
  unfold checkAssignment
  simp only [yields_bind]
  refine quiet.roots _ _ fun binding found => ?_
  have lawful := Target.resolve_lawful (s.scopes.view scope) a.forget.target
  have lawful' := Expr.resolve_lawful (s.scopes.view scope) a.forget.value
  simp only [yields_view, yields_setDraft, yields_ofFault, yields_ofCause]
  refine ⟨fun targetType onTarget => ⟨fun valueType onValue => ⟨fun _ _ => ?_, fun cause refused =>
    ?_⟩, fun fault failed => ?_⟩, fun fault failed => ?_⟩
  · rw [quiet.nothing_pending found onTarget onValue, awaitEach, yields_pure]
    trivial
  · exact (quiet.redraft _ _).refuses (Cause.isLate_of_isLawful (assignable_lawful refused))
  · exact (quiet.redraft _ _).fails (lawful' fault failed)
  · exact (quiet.redraft _ _).fails (lawful fault failed)

theorem quiet_assignment (quiet : Quiet store short ahead (scope :: outer) s)
    (a : Typed.Assignment) (env : Env Empty σ) :
    Yields (checkLeaf env scope (.assign a.forget)) s
      (Repeats store short ahead (scope :: outer)
        (fun leaf => checkLeaf env scope (Typed.Leaf.forget leaf)) Checker.completeLeaf s)
      (Spares short) := by
  rw [checkLeaf, yields_bind, yields_addDraft, yields_bind]
  have later := quiet.redraft (s.drafts ++ [⟨scope, .assignment a.forget []⟩]) s.signatures
  refine (quiet_checkAssignment later a _).and_ends.mono (fun done t ends => ?_) fun _ _ bad => bad
  obtain ⟨target, rfl, again⟩ := ends_assignment later ends.1
  rw [yields_pure]
  have drafts : Drafts store short ahead (scope :: outer)
      ⟨scope, .assignment { a.forget with target } []⟩ s s.drafts.length
      { s with drafts := s.drafts ++ [⟨scope, .assignment { a.forget with target } []⟩] } :=
    ⟨quiet.redraft _ _, rfl, rfl, rfl, fun _ => rfl⟩
  have state : ∀ draft : Draft, (s.drafts ++ [draft]).set s.drafts.length
      ⟨scope, .assignment { a.forget with target } []⟩ =
      s.drafts ++ [⟨scope, .assignment { a.forget with target } []⟩] := by simp
  simp only [state]
  refine drafts.repeats ?_
  simp only [Work.leaf, checkLeaf, ends_bind, ends_addDraft, ends_pure]
  refine ⟨_, _, ⟨rfl, rfl⟩, _, _, again _, rfl, ?_⟩
  simp only [state]

/-! Returns and expressions. -/

theorem set_getElem? {drafts : List Draft} {id : DraftId} {draft : Draft}
    (here : drafts[id]? = some draft) : drafts.set id draft = drafts := by
  obtain ⟨inside, rfl⟩ := List.getElem?_eq_some_iff.1 here
  exact List.set_getElem_self inside

theorem quiet_lookAtReturn (quiet : Quiet store short ahead (scope :: outer) s)
    (value : Option Typed.Expr) (span : Span) {id : DraftId}
    (here : s.drafts[id]? = some ⟨scope, .returns ⟨value.map Typed.Expr.toExpr, span⟩⟩)
    {good : Ty → Checker Empty σ → Prop} (next : ∀ type, type.isConcrete = true → good type s) :
    Yields (lookAtReturn id scope ⟨value.map Typed.Expr.toExpr, span⟩) s good (Spares short) := by
  cases value with
  | none => exact yields_pure.2 (next .void rfl)
  | some value =>
    have same := (value.firm_toExpr (s.scopes.view scope)).same
    have unchanged := set_getElem? here
    rw [Option.map_some] at unchanged
    simp only [lookAtReturn, Option.map_some, yields_bind, yields_view, yields_setDraft, same,
      unchanged]
    exact quiet.looks value _ _ fun type _ known => next type known

theorem quiet_checkReturn (quiet : Quiet store short ahead (scope :: outer) s)
    (value : Option Typed.Expr) (span : Span) {id : DraftId}
    (here : s.drafts[id]? = some ⟨scope, .returns ⟨value.map Typed.Expr.toExpr, span⟩⟩) :
    Yields (checkReturn (runWave client) id scope ⟨value.map Typed.Expr.toExpr, span⟩) s
      (fun _ t => t = s) (Spares short) := by
  simp only [checkReturn_eq, yields_bind, yields_scopes]
  rcases quiet.resultType_eq with known | ⟨result, known⟩
  · rw [known, yields_ofFault]
    refine ⟨fun found same => ?_, by simp⟩
    obtain rfl := Except.ok.inj same
    exact yields_reject.2 (quiet.refuses rfl)
  · rw [known, yields_ofFault]
    refine ⟨fun found same => ?_, by simp⟩
    obtain rfl := Except.ok.inj same
    rw [yields_bind]
    refine quiet_lookAtReturn quiet value span here fun type known => ?_
    simp only [finishReturn, Ty.pendingOn_eq_none_of_isConcrete known, result.isConcrete_toTy,
      Bool.not_true, Bool.false_eq_true, ↓reduceIte]
    split
    · exact yields_reject.2 (quiet.refuses rfl)
    · exact yields_pure.2 rfl

theorem quiet_checkEvaluation (quiet : Quiet store short ahead (scope :: outer) s)
    (value : Typed.Expr) (span : Span) {id : DraftId}
    (here : s.drafts[id]? = some ⟨scope, .evaluation ⟨value.toExpr, span⟩⟩) :
    Yields (checkEvaluation id scope ⟨value.toExpr, span⟩) s (fun _ t => t = s)
      (Spares short) := by
  have same := (value.firm_toExpr (s.scopes.view scope)).same
  simp only [checkEvaluation, yields_bind, yields_view, yields_setDraft, same, set_getElem? here]
  refine quiet.looks value _ _ fun type _ known => ?_
  rw [Ty.pendingOn_eq_none_of_isConcrete known]
  exact yields_pure.2 rfl

/-! Imports. -/

theorem Quiet.imports {ids : List ScopeId} (quiet : Quiet store short ahead ids s)
    (options : Options) {importer : Importer σ} (prepared : importer.Prepared store)
    (name source : String) (position : Position) {good : Ty → Checker Empty σ → Prop}
    (next : ∀ type : ConcreteTy, good type.toTy s) :
    Yields (importType (Env.plain options importer) name source position) s good
      (Spares short) := by
  obtain ⟨scopes, drafts, signatures, queue, firing, budget, kept, journal⟩ := s
  obtain rfl : kept = store := quiet.store
  obtain ⟨answers⟩ := importer
  simp only [importType, Env.plain, yields_bind, yields_get, yields_set]
  rcases prepared name source position with ⟨type, answer⟩ | answer
  · rw [show answers name source position kept = _ from answer]
    exact yields_pure.2 (next type)
  · rw [show answers name source position kept = _ from answer]
    exact yields_throw.2 (quiet.refuses rfl)

theorem quiet_importNames (quiet : Quiet store short ahead (scope :: outer) s) (options : Options)
    {importer : Importer σ} (prepared : importer.Prepared store) (source : String)
    (position : Position) (names : List String) :
    Yields (importNames (Env.plain options importer) scope source position names) s
      (fun imported t => Quiet store short ahead (scope :: outer) t ∧ t.drafts = s.drafts ∧
        t.signatures = s.signatures ∧ (∀ id, t.scopes.result? id = s.scopes.result? id) ∧
        imported.map (·.1) = names) (Spares short) := by
  induction names generalizing s with
  | nil => exact yields_pure.2 ⟨quiet, rfl, rfl, fun _ => rfl, rfl⟩
  | cons name rest ih =>
    rw [importNames, yields_bind]
    refine quiet.imports options prepared name source position fun type => ?_
    simp only [ConcreteTy.ofTy_toTy, ofCause, yields_bind, yields_pure]
    refine quiet.binds _ _ type.isConcrete_toTy fun scopes journal later kept => ?_
    refine (ih later).mono (fun imported t ends => ?_) fun _ _ bad => bad
    obtain ⟨quiet', drafts, signatures, results, same⟩ := ends
    exact ⟨quiet', drafts, signatures, fun id => (results id).trans (kept id),
      by rw [List.map_cons, same]⟩

/-! All simple statements. -/

variable {env : Env Empty σ} {ids : List ScopeId} {leaf : Typed.Leaf}

/-- A statement that is drafted as it stands. -/
theorem repeats_of_drafts (work : Work) (same : leaf.forget = work.leaf)
    (yields : Yields (checkLeaf env scope leaf.forget) s
      (fun outline t => ∃ id, outline = .draft id ∧
        Drafts store short ahead ids ⟨scope, work⟩ s id t) (Spares short)) :
    Yields (checkLeaf env scope leaf.forget) s
      (Repeats store short ahead ids (fun leaf => checkLeaf env scope (Typed.Leaf.forget leaf))
        Checker.completeLeaf s) (Spares short) := by
  refine yields.and_ends.mono (fun outline t ends => ?_) fun _ _ bad => bad
  obtain ⟨ends, id, rfl, drafts⟩ := ends
  exact drafts.repeats (same ▸ ends)

/-- A statement that is not drafted at all. -/
theorem repeats_of_plain (yields : Yields (checkLeaf env scope leaf.forget) s
      (fun outline t => ∃ typed, outline = .plain typed ∧ typed.forget = leaf.forget ∧
        Quiet store short ahead ids t ∧ t.drafts = s.drafts ∧ t.signatures = s.signatures ∧
        ∀ id, t.scopes.result? id = s.scopes.result? id) (Spares short)) :
    Yields (checkLeaf env scope leaf.forget) s
      (Repeats store short ahead ids (fun leaf => checkLeaf env scope (Typed.Leaf.forget leaf))
        Checker.completeLeaf s) (Spares short) := by
  refine yields.and_ends.mono (fun outline t ends => ?_) fun _ _ bad => bad
  obtain ⟨ends, typed, rfl, same, quiet, drafts, signatures, results⟩ := ends
  refine ⟨quiet, ⟨drafts ▸ List.prefix_refl _, signatures ▸ List.prefix_refl _,
    fun id _ kept => (results id).trans kept⟩, ?_⟩
  intro later other _ completes
  obtain rfl : typed = other := Except.ok.inj completes
  exact same ▸ ends

theorem quiet_leaf (quiet : Quiet store short ahead (scope :: outer) s) (options : Options)
    {importer : Importer σ} (prepared : importer.Prepared store) (leaf : Typed.Leaf) :
    Yields (checkLeaf (Env.plain options importer) scope leaf.forget) s
      (Repeats store short ahead (scope :: outer)
        (fun leaf => checkLeaf (Env.plain options importer) scope (Typed.Leaf.forget leaf))
        Checker.completeLeaf s)
      (Spares short) := by
  cases leaf with
  | assign a => exact quiet_assignment quiet a _
  | declare d =>
    refine repeats_of_drafts (.declaration d.forget) rfl ?_
    rw [Typed.Leaf.forget, checkLeaf, yields_bind]
    refine (quiet_declaration _ quiet d).mono (fun id t drafts => ?_) fun _ _ bad => bad
    exact yields_pure.2 ⟨id, rfl, drafts⟩
  | returns value span =>
    refine repeats_of_drafts (.returns ⟨value.map Typed.Expr.toExpr, span⟩) rfl ?_
    rw [Typed.Leaf.forget, checkLeaf, yields_bind, yields_addDraft, yields_bind]
    have added := quiet.redraft (s.drafts ++ [⟨scope, .returns ⟨value.map Typed.Expr.toExpr, span⟩⟩])
      s.signatures
    refine (quiet_checkReturn _ added value span (by simp)).mono (fun _ t same => ?_)
      fun _ _ bad => bad
    exact yields_pure.2 ⟨_, rfl, same ▸ added, rfl, same ▸ rfl, same ▸ rfl, fun _ => same ▸ rfl⟩
  | evaluate value span =>
    refine repeats_of_drafts (.evaluation ⟨value.toExpr, span⟩) rfl ?_
    rw [Typed.Leaf.forget, checkLeaf, yields_bind, yields_addDraft, yields_bind]
    have added := quiet.redraft (s.drafts ++ [⟨scope, .evaluation ⟨value.toExpr, span⟩⟩])
      s.signatures
    refine (quiet_checkEvaluation added value span (by simp)).mono (fun _ t same => ?_)
      fun _ _ bad => bad
    exact yields_pure.2 ⟨_, rfl, same ▸ added, rfl, same ▸ rfl, same ▸ rfl, fun _ => same ▸ rfl⟩
  | breakLoop span | continueLoop span =>
    refine repeats_of_plain ?_
    rw [Typed.Leaf.forget, checkLeaf, yields_bind, checkInLoop_eq]
    refine quiet.demands quiet.path.isInsideLoop_eq rfl ?_
    exact yields_pure.2 ⟨_, rfl, rfl, quiet, rfl, rfl, fun _ => rfl⟩
  | imports names source span =>
    refine repeats_of_plain ?_
    rw [Typed.Leaf.forget, checkLeaf_imports, yields_bind]
    refine quiet.demands quiet.path.isTopLevel_eq rfl ?_
    rw [yields_map]
    refine (quiet_importNames quiet options prepared source span.start _).mono
      (fun imported t ends => ?_) fun _ _ bad => bad
    obtain ⟨later, drafts, signatures, results, same⟩ := ends
    exact ⟨_, rfl, by simp only [Typed.Leaf.forget, same], later, drafts, signatures, results⟩
  | endOfFile =>
    refine repeats_of_plain ?_
    exact yields_pure.2 ⟨_, rfl, rfl, quiet, rfl, rfl, fun _ => rfl⟩

end Check

end Hoist
