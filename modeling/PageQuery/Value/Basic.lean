import PageQuery.Calendar.DateTime
import PageQuery.Number.Binary
import PageQuery.Number.Decimal

/-!
# Values

The values that records hold, that requests ask for and that responses show.  Records are known by
an identity of their own and carry named attributes; an attribute that is not there is absent, which
reads as `none`.  A member of an enumeration either stands for itself or, where the enumeration is
mixed with a type of data, also for its value.
-/

namespace PageQuery

/-- What the members of an enumeration are besides members of it.  Dates and moments are told apart
from other data because fields are classified by them. -/
inductive Mixin where
  | plain
  | text
  | number
  | date
  | moment
  | other
  deriving DecidableEq, Repr, Inhabited

def Mixin.isDated : Mixin → Bool
  | date | moment => true
  | _ => false

/-- What a record is told apart by.  Types differ in how their records are compared: a record may be
equal to itself only, or to every record of its type that holds the same. -/
inductive Identity where
  | own (n : Nat)
  | shared (n : Nat)
  deriving DecidableEq, Repr, Inhabited

def Identity.isShared : Identity → Bool
  | own _ => false
  | shared _ => true

/-- A dynamic value. -/
inductive Value where
  | none
  | bool (b : Bool)
  | int (n : Int)
  | float (x : Binary64)
  | decimal (d : Decimal)
  | uuid (n : Nat)
  | text (s : String)
  | bytes (octets : List UInt8)
  | datetime (t : DateTime)
  | date (d : Date)
  | time (t : Time) (offset : Option Int)
  | duration (micros : Int)
  | list (items : List Value)
  | tuple (items : List Value)
  | set (items : List Value)
  | mapping (entries : List (String × Value))
  | member (enumeration name : String) (mixin : Mixin) (value : Value)
  | record (identity : Identity) (type : String) (attributes : List (String × Value))
  | row (model : String) (key : Int)
  | related (model : String) (keys : List Int)
  deriving Inhabited

namespace Value

/-- A value seen through the mixin of its enumeration. -/
def bare : Value → Value
  | .member e n .plain v => .member e n .plain v
  | .member _ _ _ v => v
  | v => v

/-- The text that a value is, members of text enumerations included. -/
def asText? (v : Value) : Option String :=
  match v.bare with
  | .text s => some s
  | _ => Option.none

/-- The moment that a value is, members of enumerations of moments included. -/
def asDateTime? (v : Value) : Option DateTime :=
  match v.bare with
  | .datetime t => some t
  | _ => Option.none

def isMember : Value → Bool
  | .member .. => true
  | _ => false

def isNone : Value → Bool
  | .none => true
  | _ => false

def ofText? : Option String → Value
  | Option.none => .none
  | some s => .text s

/-- Whether a value counts as true: not absent, not zero and not empty. -/
def isTruthy (v : Value) : Bool :=
  match v.bare with
  | .none => false
  | .bool b => b
  | .int n => n != 0
  | .float (.finite _ m _) => m != 0
  | .decimal d => !d.isZero
  | .text s => !s.isEmpty
  | .bytes os => !os.isEmpty
  | .duration n => n != 0
  | .list xs | .tuple xs | .set xs => !xs.isEmpty
  | .mapping es => !es.isEmpty
  | _ => true

/-- Reads an attribute by name from something that has attributes. -/
abbrev Reader := Value → String → Value

/-- The attribute of a record; whatever is missing or has no attributes gives `none`. -/
def readAttribute : Reader
  | .record _ _ attributes, name => (attributes.lookup name).getD .none
  | _, _ => .none

/-- The whole number that a value is, if it is one and no truth value. -/
def asInt? (v : Value) : Option Int :=
  match v.bare with
  | .int n => some n
  | _ => Option.none

/-- The whole number that a value counts as, if any; a truth value counts as one or zero. -/
def asCount? (v : Value) : Option Int :=
  match v.bare with
  | .int n => some n
  | .bool b => some (if b then 1 else 0)
  | _ => Option.none

end Value

/-- A whole number as it was given: a number, or a member of an enumeration of numbers. -/
structure Whole where
  given : Value
  number : Int
  deriving Inhabited

namespace Whole

def ofInt (n : Int) : Whole := ⟨.int n, n⟩

/-- The whole number that a value is, if it is one and no truth value. -/
def ofValue? (v : Value) : Option Whole :=
  v.asInt?.map fun n => ⟨v, n⟩

def ofCount? (v : Value) : Option Whole :=
  v.asCount?.map fun n => ⟨v, n⟩

end Whole
end PageQuery
