import Hoist.Check.Outline
import Hoist.Proofs.Outcome

/-!
Why reading the types off a checked statement fails: only ever because one of them is missing.

Main statements: `Work.unread_complete`, `Signature.unread_complete`, and for whole files
`Checker.fails_complete`.
-/
namespace Hoist

def Cause.isUnread : Cause → Bool
  | .unresolvedType _ => true
  | _ => false

/-- The outcome is a failure only if a type is missing. -/
abbrev Unread {α : Type} (outcome : Except Cause α) : Prop :=
  Fails (fun cause : Cause => cause.isUnread = true) outcome

mutual

theorem ConcreteTy.unread_ofTy : ∀ type : Ty, Unread (ofTy type)
  | .number | .boolean | .string _ | .void | .named _ | .unresolved | .unannotated
  | .pending _ => by simp [ofTy, Cause.isUnread]
  | .array base _ => (unread_ofTy base).bind fun _ => fails_pure _
  | .record fields => (unread_ofFields fields).bind fun _ => fails_pure _
  | .function parameters result =>
    (unread_ofFields parameters).bind fun _ => (unread_ofTy result).bind fun _ => fails_pure _

theorem ConcreteTy.unread_ofFields : ∀ fields : List (String × Ty), Unread (ofFields fields)
  | [] => fails_ok _
  | (_, type) :: rest =>
    (unread_ofTy type).bind fun _ => (unread_ofFields rest).bind fun _ => fails_pure _

end

namespace Typed

theorem Expr.unread_indexType (type : ConcreteTy) : Unread (indexType type) := by
  cases type <;> simp [indexType, Cause.isUnread]

theorem Expr.unread_memberType (field : String) (type : ConcreteTy) :
    Unread (memberType field type) := by
  unfold memberType
  split
  · split <;> simp [Cause.isUnread]
  · simp [Cause.isUnread]

theorem Expr.unread_callType (type : ConcreteTy) : Unread (callType type) := by
  cases type <;> simp [callType, Cause.isUnread]

mutual

theorem Expr.unread_ofExpr : ∀ value : Hoist.Expr, Unread (ofExpr value)
  | .number _ | .boolean _ | .string _ => by simp [ofExpr]
  | .symbol _ slot => (ConcreteTy.unread_ofTy slot).bind fun _ => fails_pure _
  | .record fields slot =>
    (unread_ofFields fields).bind fun _ => (ConcreteTy.unread_ofTy slot).bind fun _ => fails_pure _
  | .array elements slot =>
    (unread_ofExprs elements).bind fun _ => (ConcreteTy.unread_ofTy slot).bind fun _ => fails_pure _
  | .unary _ operand => (unread_ofExpr operand).bind fun _ => fails_pure _
  | .binary _ left right =>
    (unread_ofExpr left).bind fun _ => (unread_ofExpr right).bind fun _ => fails_pure _
  | .index left position =>
    (unread_ofExpr left).bind fun _ => (unread_indexType _).bind fun _ =>
      (unread_ofExpr position).bind fun _ => fails_pure _
  | .member left field =>
    (unread_ofExpr left).bind fun _ => (unread_memberType field _).bind fun _ => fails_pure _
  | .call callee arguments =>
    (unread_ofExpr callee).bind fun _ => (unread_callType _).bind fun _ =>
      (unread_ofExprs arguments).bind fun _ => fails_pure _

theorem Expr.unread_ofFields : ∀ fields : List (String × Hoist.Expr), Unread (ofFields fields)
  | [] => fails_ok _
  | (_, value) :: rest =>
    (unread_ofExpr value).bind fun _ => (unread_ofFields rest).bind fun _ => fails_pure _

theorem Expr.unread_ofExprs : ∀ values : List Hoist.Expr, Unread (ofExprs values)
  | [] => fails_ok _
  | value :: rest =>
    (unread_ofExpr value).bind fun _ => (unread_ofExprs rest).bind fun _ => fails_pure _

end

theorem Target.unread_ofTarget : ∀ target : Hoist.Target, Unread (ofTarget target)
  | .symbol _ => fails_ok _
  | .member left _ slot =>
    (unread_ofTarget left).bind fun _ => (ConcreteTy.unread_ofTy slot).bind fun _ => fails_pure _
  | .index left position slot =>
    (unread_ofTarget left).bind fun _ => (ConcreteTy.unread_ofTy slot).bind fun _ =>
      (Expr.unread_ofExpr position).bind fun _ => fails_pure _

end Typed

theorem Work.unread_complete (work : Work) : Unread work.complete := by
  cases work with
  | declaration d =>
    exact (ConcreteTy.unread_ofTy _).bind fun _ => (Typed.Expr.unread_ofExpr _).bind fun _ =>
      fails_pure _
  | assignment a awaited =>
    exact (Typed.Target.unread_ofTarget _).bind fun _ => (Typed.Expr.unread_ofExpr _).bind fun _ =>
      fails_pure _
  | returns r =>
    obtain ⟨value, span⟩ := r
    cases value with
    | none => exact fails_pure _
    | some value => exact (Typed.Expr.unread_ofExpr value).bind fun _ => fails_pure _
  | evaluation e => exact (Typed.Expr.unread_ofExpr _).bind fun _ => fails_pure _

theorem Signature.unread_complete (signature : Signature) : Unread signature.complete :=
  (ConcreteTy.unread_ofFields _).bind fun _ => (ConcreteTy.unread_ofTy _).bind fun _ =>
    fails_pure _

/-! Whole files. -/

namespace Typed

variable {α β φ ψ ε : Type} {allowed : ε → Prop} {onLeaf : α → Except ε β} {onHead : φ → Except ε ψ}

mutual

theorem Tree.fails_complete (leaves : ∀ leaf, Fails allowed (onLeaf leaf))
    (heads : ∀ head, Fails allowed (onHead head)) :
    ∀ tree, Fails allowed (Tree.complete onLeaf onHead tree)
  | .leaf content => (leaves content).bind fun _ => fails_pure _
  | .branch _ body _ rest =>
    (Tree.fails_completeAll leaves heads body).bind fun _ =>
      (Chain.fails_complete leaves heads rest).bind fun _ => fails_pure _
  | .loop _ body _ => (Tree.fails_completeAll leaves heads body).bind fun _ => fails_pure _
  | .function head body =>
    (heads head).bind fun _ => (Tree.fails_completeAll leaves heads body).bind fun _ => fails_pure _

theorem Chain.fails_complete (leaves : ∀ leaf, Fails allowed (onLeaf leaf))
    (heads : ∀ head, Fails allowed (onHead head)) :
    ∀ chain, Fails allowed (Chain.complete onLeaf onHead chain)
  | .done => fails_ok _
  | .otherwise body _ => (Tree.fails_completeAll leaves heads body).bind fun _ => fails_pure _
  | .elseIf _ body _ rest =>
    (Tree.fails_completeAll leaves heads body).bind fun _ =>
      (Chain.fails_complete leaves heads rest).bind fun _ => fails_pure _

theorem Tree.fails_completeAll (leaves : ∀ leaf, Fails allowed (onLeaf leaf))
    (heads : ∀ head, Fails allowed (onHead head)) :
    ∀ trees, Fails allowed (Tree.completeAll onLeaf onHead trees)
  | [] => fails_ok _
  | tree :: rest =>
    (Tree.fails_complete leaves heads tree).bind fun _ =>
      (Tree.fails_completeAll leaves heads rest).bind fun _ => fails_pure _

end

end Typed

/-- Why a draft is not finished: a type is missing, or the draft is. -/
def Halt.isUnread : Halt → Bool
  | .rejected diagnostic => diagnostic.cause.isUnread
  | .dangling => true
  | .exhausted => false

theorem fails_atPosition {α : Type} {outcome : Except Cause α} (position : Position)
    (unread : Unread outcome) :
    Fails (fun halt : Halt => halt.isUnread = true) (atPosition position outcome) := by
  cases outcome with
  | error cause =>
    have missing : cause.isUnread = true := unread cause rfl
    simpa [atPosition, Halt.isUnread] using missing
  | ok value => simp [atPosition]

theorem Checker.fails_complete {κ σ : Type} (state : Checker κ σ) (outlines : List Outline) :
    Fails (fun halt : Halt => halt.isUnread = true) (state.complete outlines) := by
  refine Typed.Tree.fails_completeAll (fun leaf => ?_) (fun id => ?_) outlines
  · cases leaf with
    | plain leaf => exact fails_ok leaf
    | draft id =>
      rw [Checker.completeLeaf]
      split
      · simp [Halt.isUnread]
      · exact fails_atPosition _ (Work.unread_complete _)
  · rw [Checker.completeHead]
    split
    · simp [Halt.isUnread]
    · exact fails_atPosition _ (Signature.unread_complete _)

end Hoist
