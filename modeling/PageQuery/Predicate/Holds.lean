import PageQuery.Failure
import PageQuery.Predicate.Basic
import PageQuery.Shortcut
import PageQuery.Text.Case
import PageQuery.Value.Order

/-!
# Testing records

Evaluates a predicate on a record in memory.  Connectives and collections are tested from left to
right and stop as soon as the outcome is known; comparing values that cannot be compared is a
failure.  Bounds of a range are first brought to the awareness of the moment that they are compared
with.
-/

namespace PageQuery

open PageQuery.Text

/-- The offset of the local time zone in microseconds. -/
abbrev LocalZone := Int

namespace Value

/-- Follows names from a value; the absent value has nothing to follow. -/
def follow (v : Value) : List String → Value
  | [] => v
  | name :: names => follow (v.readAttribute name) names

/-- A member of an enumeration of moments as a bound.  Only its zone can be set: the moment of another
zone would have to be a new member. -/
def alignMember (zone : LocalZone) (bound : Value) (b v : DateTime) : Except Fault Value :=
  if b.isAware = v.isAware then .ok bound
  else if b.isAware then .error (if (b.atOffset? 0).isSome then .badType else .overflow)
  else .ok (((b.align? zone v).map Value.datetime).getD bound)

/-- A bound brought to the awareness of a value; only moments are changed. -/
def alignBound (zone : LocalZone) (bound value : Value) : Except Fault Value :=
  match bound.asDateTime?, value.asDateTime? with
  | some b, some v =>
    if bound.isMember then alignMember zone bound b v
    else
      match b.align? zone v with
      | some t => .ok (.datetime t)
      | Option.none => .error .overflow
  | _, _ => .ok bound

/-- Whether a value lies between two bounds; an absent value never does, an absent bound is open. -/
def inRange (zone : LocalZone) (value lower upper : Value) : Except Fault Bool :=
  if value.isNone then .ok false
  else do
    let lower ← alignBound zone lower value
    let upper ← alignBound zone upper value
    let below ← if lower.isNone then .ok false else value.less lower
    if below then .ok false
    else
      let above ← if upper.isNone then .ok false else upper.less value
      .ok !above

/-- Whether a value is a text that contains another one, letter case aside. -/
def containsText (value : Value) (text : String) : Bool :=
  match value.asText? with
  | some s => occursIn (fold text) (fold s)
  | Option.none => false

/-- What a value consists of: the items of a list, the characters of a text, the octets of a run of
octets, the keys of a mapping.  Other values consist of nothing that could be listed. -/
def parts (v : Value) : Except Fault (List Value) :=
  match v.bare with
  | .list xs | .tuple xs | .set xs => .ok xs
  | .text s => .ok (s.toList.map fun c => .text (String.singleton c))
  | .bytes os => .ok (os.map fun o => .int o.toNat)
  | .mapping es => .ok (es.map fun e => .text e.1)
  | _ => .error .badType

/-- The elements of a value that is tested as a collection: its parts, or nothing if it is empty or
absent. -/
def elements (v : Value) : Except Fault (List Value) :=
  if v.isTruthy then v.parts else .ok []

end Value

namespace Predicate

mutual

def holds (zone : LocalZone) : Predicate → Value → Except Failure Bool
  | .and items, v => holdsAll zone items v
  | .or items, v => holdsSome zone items v
  | .any collection inner, v =>
    match (v.follow collection).elements with
    | .ok elements => anyHolds (holds zone inner) elements
    | .error f => .error (.fault f)
  | .contains field text, v => .ok ((v.follow field).containsText text)
  | .equals field value, v => ((v.follow field).same value).mapError .fault
  | .range field lower upper, v =>
    (Value.inRange zone (v.follow field) lower upper).mapError .fault
  | .absent, _ => .ok true
  | .unknown, _ => .error (.unknownPredicate "_Unknown")

def holdsAll (zone : LocalZone) : List Predicate → Value → Except Failure Bool
  | [], _ => .ok true
  | p :: ps, v =>
    match holds zone p v with
    | .ok true => holdsAll zone ps v
    | r => r

def holdsSome (zone : LocalZone) : List Predicate → Value → Except Failure Bool
  | [], _ => .ok false
  | p :: ps, v =>
    match holds zone p v with
    | .ok false => holdsSome zone ps v
    | r => r

end

/-- Whether a record satisfies a predicate that may be absent; an absent one asks for nothing. -/
def holds? (zone : LocalZone) (p : Option Predicate) (v : Value) : Except Failure Bool :=
  match p with
  | none => .ok true
  | some p => p.holds zone v

end Predicate
end PageQuery
