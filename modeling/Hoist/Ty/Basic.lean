import Hoist.Table

/-!
Types as far as they are known. Beside the types of the language there are three placeholders:
`unresolved` for a slot nobody has looked at, `unannotated` where no annotation was written, and
`pending` for what depends on a name that has no type yet. A type without a placeholder anywhere
in it is concrete.

Types are compared by structure: records with the same fields in the same order, functions with
the same parameters, names included.
-/
namespace Hoist

/-- The length of a string is a machine word: a sum that is too large wraps around. -/
def Length : Type := UInt64

namespace Length

def ofNat : Nat → Length := UInt64.ofNat

instance : DecidableEq Length := inferInstanceAs (DecidableEq UInt64)
instance : Add Length := inferInstanceAs (Add UInt64)
instance (n : Nat) : OfNat Length n := inferInstanceAs (OfNat UInt64 n)
instance : ToString Length := inferInstanceAs (ToString UInt64)

end Length

inductive Ty
  | number
  | boolean
  | string (length : Length)
  | array (base : Ty) (length : Nat)
  | record (fields : List (String × Ty))
  | function (parameters : List (String × Ty)) (result : Ty)
  | void
  | named (name : String)
  | unresolved
  | unannotated
  | pending (name : String)

namespace Ty

mutual

/-- No placeholder anywhere. -/
def isConcrete : Ty → Bool
  | unresolved => false
  | unannotated => false
  | pending _ => false
  | array base _ => isConcrete base
  | record fields => areConcrete fields
  | function parameters result => areConcrete parameters && isConcrete result
  | number => true
  | boolean => true
  | string _ => true
  | void => true
  | named _ => true

def areConcrete : List (String × Ty) → Bool
  | [] => true
  | (_, type) :: rest => isConcrete type && areConcrete rest

end

/-- The name this type waits for. A type that only mentions such a name inside does not wait. -/
def pendingOn : Ty → Option String
  | pending name => some name
  | _ => none

def isPending (type : Ty) : Bool :=
  type.pendingOn.isSome

def isFunction : Ty → Bool
  | function _ _ => true
  | _ => false

/-- The first field of that name, of a record. -/
def field? (type : Ty) (name : String) : Option Ty :=
  match type with
  | record fields => Table.first? name fields
  | _ => none

end Ty

end Hoist
