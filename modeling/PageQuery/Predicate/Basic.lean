import PageQuery.Fault
import PageQuery.Value.Literal

/-!
# Predicates

A predicate is a tree of tests on the fields of a record.  Fields are given by the names that lead
to them; within `any` they are relative to the element, and no names mean the element itself.  The
two connectives of this module keep the tree flat: joining a conjunction with something extends
it.
-/

namespace PageQuery

open PageQuery.Text

/-- A test on a record. -/
inductive Predicate where
  /-- The field equals the value. -/
  | equals (field : List String) (value : Value)
  /-- The field is a text that contains the text, letter case aside. -/
  | contains (field : List String) (text : String)
  /-- The field lies between two bounds, either of which may be absent. -/
  | range (field : List String) (lower upper : Value)
  /-- Some element of the collection satisfies the inner predicate. -/
  | any (collection : List String) (inner : Predicate)
  | and (items : List Predicate)
  | or (items : List Predicate)
  /-- No predicate, which asks for nothing. -/
  | absent
  /-- Something that is no predicate. -/
  | unknown
  deriving Inhabited

namespace Predicate

def conjuncts : Predicate → List Predicate
  | .and items => items
  | p => [p]

def disjuncts : Predicate → List Predicate
  | .or items => items
  | p => [p]

def isProper : Predicate → Bool
  | .absent | .unknown => false
  | _ => true

def both (p q : Predicate) : Predicate :=
  .and (p.conjuncts ++ q.conjuncts)

def either (p q : Predicate) : Predicate :=
  .or (p.disjuncts ++ q.disjuncts)

/-- Joins two predicates by an operator, which belongs to the left one. -/
def operate (operator : Predicate → Predicate → Predicate) (p q : Predicate) :
    Except Fault Predicate :=
  if p.isProper then .ok (operator p q) else .error .badType

/-- Several predicates joined by a connective; a single one stays as it is. -/
def combine (connective : List Predicate → Predicate) : List Predicate → Option Predicate
  | [] => none
  | [p] => some p
  | ps => some (connective ps)

def namesLiteral (names : List String) : String :=
  (Value.tuple (names.map .text)).literal

def tupleOf (items : List String) : String :=
  "(" ++ commaList items ++ (if items.length = 1 then ",)" else ")")

mutual

def literal : Predicate → String
  | .equals field value =>
    "Equals(field=" ++ namesLiteral field ++ ", value=" ++ value.literal ++ ")"
  | .contains field text =>
    "Contains(field=" ++ namesLiteral field ++ ", value=" ++ quoted text ++ ")"
  | .range field lower upper =>
    "Range(field=" ++ namesLiteral field ++ ", lower=" ++ lower.literal ++ ", upper=" ++
      upper.literal ++ ")"
  | .any collection inner =>
    "Any(collection=" ++ namesLiteral collection ++ ", inner=" ++ inner.literal ++ ")"
  | .and items => "And(items=" ++ tupleOf (literals items) ++ ")"
  | .or items => "Or(items=" ++ tupleOf (literals items) ++ ")"
  | .absent => "None"
  | .unknown => "_Unknown()"

def literals : List Predicate → List String
  | [] => []
  | p :: ps => p.literal :: literals ps

end

def literal? : Option Predicate → String
  | none => "None"
  | some p => p.literal

mutual

/-- Whether the values that a predicate compares with can be written. -/
def hasLiteral : Predicate → Bool
  | .equals _ value => value.hasLiteral
  | .range _ lower upper => lower.hasLiteral && upper.hasLiteral
  | .any _ inner => inner.hasLiteral
  | .and items | .or items => haveLiterals items
  | _ => true

def haveLiterals : List Predicate → Bool
  | [] => true
  | p :: ps => p.hasLiteral && haveLiterals ps

end

end Predicate
end PageQuery
