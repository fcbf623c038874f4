import PageQuery.Failure
import PageQuery.Predicate.Basic
import PageQuery.Request.Sort
import PageQuery.Store.Test

/-!
# Conditions of predicates

A predicate is lowered to a condition that a store evaluates itself.  A test on some element of a
collection becomes a search for the keys of the rows that have such an element, so a row is never
selected twice.  A search is prepared as soon as it is made, so what is wrong with it comes up
before what is wrong with a later part of the predicate.
-/

namespace PageQuery

/-- A value as a store is given it: a naive moment gets the local zone. -/
def Store.given (s : Store) : Value → Value
  | .datetime t =>
    if s.zoned && !t.isAware then .datetime { t with offset := some s.zone } else .datetime t
  | v => v

namespace Condition

/-- Joins several conditions from left to right; there has to be one. -/
def joinAll (connective : Connective) : List Condition → Except Failure Condition
  | [] => .error (.fault .badType)
  | c :: cs => .ok (cs.foldl (Formula.join connective) c)

def ofTest (path : List String) (comparison : Comparison) (v : Value) : Condition :=
  .single (.test ⟨path, comparison, v⟩)

/-- A test of a bound, or nothing if it is open. -/
def ofBound (s : Store) (path : List String) (comparison : Comparison)
    (bound : Value) : Condition :=
  if bound.isNone then .empty else ofTest path comparison (s.given bound)

mutual

/-- The condition of a predicate on the rows of `model` in a store; the names before its fields are
`before`. -/
def ofPredicate (s : Store) (model : String) (before : List String) :
    Predicate → Except Failure Condition
  | .and items =>
    match ofPredicates s model before items with
    | .error e => .error e
    | .ok cs => joinAll .and cs
  | .or items =>
    match ofPredicates s model before items with
    | .error e => .error e
    | .ok cs => joinAll .or cs
  | .any collection inner =>
    match ofPredicate s model (before ++ collection) inner with
    | .error e => .error e
    | .ok c =>
      match s.prepare model c with
      | .error f => .error (.fault f)
      | .ok _ => .ok (.single (.keyAmong model c))
  | .contains field text => .ok (ofTest (before ++ field) .containing (.text text))
  | .equals field value => .ok (ofTest (before ++ field) .equal (s.given value))
  | .range field lower upper =>
    let path := before ++ field
    .ok (Formula.join .and (Formula.join .and .empty (ofBound s path .atLeast lower))
      (ofBound s path .atMost upper))
  | .absent => .error (.unknownPredicate "NoneType")
  | .unknown => .error (.unknownPredicate "_Unknown")

def ofPredicates (s : Store) (model : String) (before : List String) :
    List Predicate → Except Failure (List Condition)
  | [] => .ok []
  | p :: ps =>
    match ofPredicate s model before p with
    | .error e => .error e
    | .ok c =>
      match ofPredicates s model before ps with
      | .error e => .error e
      | .ok cs => .ok (c :: cs)

end

def ofPredicate? (s : Store) (model : String) (p : Option Predicate) :
    Except Failure Condition :=
  match p with
  | none | some .absent => .ok .empty
  | some p => ofPredicate s model [] p

end Condition

/-- The name of a column to order by, with a minus for descending order. -/
def SortKey.columnOrder (k : SortKey) : String :=
  (if k.descending then "-" else "") ++ lookupName k.field

end PageQuery
