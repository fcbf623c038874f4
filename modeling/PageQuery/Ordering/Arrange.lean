import PageQuery.Ordering.Stable
import PageQuery.Predicate.Holds
import PageQuery.Request.Sort

/-!
# Sorting records

Records are sorted by several keys, the first of which decides and each later one only breaks
ties.  This is done by stable sorts from the last key to the first.  An absent value stands before
any other value, and a member of an enumeration is compared by its value.
-/

namespace PageQuery

namespace Value

/-- Whether two values are the same member of an enumeration, and so need not be compared. -/
def isSameMember : Value → Value → Bool
  | .member e m _ _, .member f n _ _ => e == f && m == n
  | _, _ => false

/-- What a value is compared by. -/
def sortValue : Value → Value
  | .member _ _ _ v => v
  | v => v

/-- Whether a value stands before another one.  Equal values are not compared any further, so only
different ones need an order. -/
def before (u v : Value) : Except Fault Bool :=
  if u.isNone then .ok !v.isNone
  else if v.isNone then .ok false
  else
    match u.same v with
    | .error f => .error f
    | .ok true => .ok false
    | .ok false => u.less v

end Value

namespace SortKey

def valueOf (k : SortKey) (record : Value) : Value :=
  record.follow k.field

/-- Whether a record stands before another one under an ascending key. -/
def before (k : SortKey) (a b : Value) : Except Fault Bool :=
  if (k.valueOf a).isSameMember (k.valueOf b) then .ok false
  else (k.valueOf a).sortValue.before (k.valueOf b).sortValue

def arrange (k : SortKey) (records : List Value) : Except Fault (List Value) :=
  if k.descending then Ordering.sortDescending k.before records else Ordering.sort k.before records

/-- Sorts records by several keys, the first one being the primary one. -/
def arrangeAll : List SortKey → List Value → Except Fault (List Value)
  | [], records => .ok records
  | k :: ks, records =>
    match arrangeAll ks records with
    | .error f => .error f
    | .ok records => k.arrange records

end SortKey
end PageQuery
