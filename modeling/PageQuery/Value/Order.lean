import PageQuery.Fault
import PageQuery.Shortcut
import PageQuery.Value.Basic

/-!
# Equality and order of values

Numbers of all kinds are compared by value; texts, octets, moments, lists and tuples each among
themselves; sets by inclusion; records by identity or by what they hold, private attributes included,
as their type has it.  Equality is defined on all pairs and only fails on a signalling decimal.  Order
fails on a pair of values that have none: values of different kinds, records, naive with aware moments,
and any decimal that is not-a-number.
-/

namespace PageQuery

-- Powers are the core library's own, whatever other instances are in scope.
attribute [local instance (high)] instPowNat

/-- A number of any kind. -/
inductive Num where
  | whole (n : Int)
  | binary (x : Binary64)
  | decimal (d : Decimal)
  deriving DecidableEq, Repr

namespace Num

/-- The number written in decimal, which is always exact. -/
def toDecimal : Num → Decimal
  | .whole n => .ofInt n
  | .decimal d => d
  | .binary .nan => .nan false false 0
  | .binary (.infinite negative) => .infinite negative
  | .binary (.finite negative m e) =>
    if 0 ≤ e then .finite negative (m * 2 ^ e.toNat) 0
    else .finite negative (m * 5 ^ (-e).toNat) e

def isDecimal : Num → Bool
  | .decimal _ => true
  | _ => false

/-- Whether two numbers are equal.  Nothing equals not-a-number, and a signalling one may not be
compared at all. -/
def same (a b : Num) : Except Fault Bool :=
  if a.toDecimal.isSignalling || b.toDecimal.isSignalling then .error .invalidOperation
  else .ok (a.toDecimal.order b.toDecimal == some .eq)

def less (a b : Num) : Except Fault Bool :=
  match a.toDecimal.order b.toDecimal with
  | some o => .ok (o == .lt)
  | none => if a.isDecimal || b.isDecimal then .error .invalidOperation else .ok false

end Num

namespace Value

/-- The number that a value is; truth values count as one and zero. -/
def asNum? (v : Value) : Option Num :=
  match v.bare with
  | .bool b => some (.whole (if b then 1 else 0))
  | .int n => some (.whole n)
  | .float x => some (.binary x)
  | .decimal d => some (.decimal d)
  | _ => Option.none

/-- Microseconds since midnight of universal time; the clock of a naive time counts as universal.
Only the whole seconds of an offset count, rounded down. -/
def timeMicros (t : Time) (offset : Option Int) : Int :=
  t.micros - offset.getD 0 / 1000000 * 1000000

/-- Equality of values other than numbers, containers and records. -/
def sameAtom : Value → Value → Bool
  | .none, .none => true
  | .text s, .text t => s == t
  | .bytes s, .bytes t => s == t
  | .uuid m, .uuid n => m == n
  | .datetime s, .datetime t => s.order? t == some .eq
  | .date s, .date t => s == t
  | .time s o, .time t p => o.isSome == p.isSome && timeMicros s o == timeMicros t p
  | .duration m, .duration n => m == n
  | .member e s .plain _, .member f t .plain _ => e == f && s == t
  | .row s m, .row t n => s == t && m == n
  | _, _ => false

mutual

def same : Value → Value → Except Fault Bool
  | .list xs, v => match v.bare with
    | .list ys => if xs.length = ys.length then sameItems xs ys else .ok false
    | _ => .ok false
  | .tuple xs, v => match v.bare with
    | .tuple ys => sameItems xs ys
    | _ => .ok false
  | .set xs, v => match v.bare with
    | .set ys => if xs.length = ys.length then subset xs ys else .ok false
    | _ => .ok false
  | .mapping es, v => match v.bare with
    | .mapping fs => if es.length = fs.length then sameEntries es fs else .ok false
    | _ => .ok false
  | .record i type es, v => match v with
    | .record j type' fs =>
      if i = j then .ok true
      else if i.isShared && j.isShared && type == type' && es.length == fs.length then
        sameEntries es fs
      else .ok false
    | _ => .ok false
  | .member _ _ .other u, v => same u v
  | u, v =>
    match u.asNum?, v.asNum? with
    | some a, some b => a.same b
    | _, _ => .ok (sameAtom u.bare v.bare)

/-- Whether two rows of values are equal place by place. -/
def sameItems : List Value → List Value → Except Fault Bool
  | [], [] => .ok true
  | x :: xs, y :: ys =>
    match same x y with
    | .ok true => sameItems xs ys
    | r => r
  | _, _ => .ok false

/-- Whether every entry has an equal value in another mapping. -/
def sameEntries : List (String × Value) → List (String × Value) → Except Fault Bool
  | [], _ => .ok true
  | (key, x) :: es, fs =>
    match fs.lookup key with
    | Option.none => .ok false
    | some y =>
      match same x y with
      | .ok true => sameEntries es fs
      | r => r

/-- Whether every value equals some value of a set. -/
def subset : List Value → List Value → Except Fault Bool
  | [], _ => .ok true
  | x :: xs, ys =>
    match anyHolds (same x) ys with
    | .ok true => subset xs ys
    | r => r

end

def isAmong (v : Value) (vs : List Value) : Bool :=
  vs.any fun u => match u.same v with
    | .ok b => b
    | .error _ => false

/-- The set of some values: of equal ones the first is kept. -/
def setOf (vs : List Value) : Value :=
  .set (vs.foldl (fun kept v => if v.isAmong kept then kept else kept ++ [v]) [])

def lessOctets : List UInt8 → List UInt8 → Bool
  | _, [] => false
  | [], _ :: _ => true
  | a :: as, b :: bs => a < b || (a == b && lessOctets as bs)

/-- Order of values other than numbers and containers. -/
def lessAtom : Value → Value → Except Fault Bool
  | .text s, .text t => .ok (s < t)
  | .bytes s, .bytes t => .ok (lessOctets s t)
  | .uuid m, .uuid n => .ok (m < n)
  | .datetime s, .datetime t =>
    match s.order? t with
    | some o => .ok (o == .lt)
    | Option.none => .error .badType
  | .date s, .date t => .ok (s.order t == .lt)
  | .time s o, .time t p =>
    if o.isSome == p.isSome then .ok (timeMicros s o < timeMicros t p) else .error .badType
  | .duration m, .duration n => .ok (m < n)
  | _, _ => .error .badType

mutual

def less : Value → Value → Except Fault Bool
  | .list xs, v => match v.bare with
    | .list ys => lessItems xs ys
    | _ => .error .badType
  | .tuple xs, v => match v.bare with
    | .tuple ys => lessItems xs ys
    | _ => .error .badType
  | .set xs, v => match v.bare with
    | .set ys => if xs.length < ys.length then subset xs ys else .ok false
    | _ => .error .badType
  | .member _ _ .other u, v => less u v
  | u, v =>
    match u.asNum?, v.asNum? with
    | some a, some b => a.less b
    | _, _ => lessAtom u.bare v.bare

/-- The lexicographic order: the first place where two rows differ decides, otherwise their
lengths. -/
def lessItems : List Value → List Value → Except Fault Bool
  | [], ys => .ok (!ys.isEmpty)
  | _ :: _, [] => .ok false
  | x :: xs, y :: ys =>
    match same x y with
    | .ok true => lessItems xs ys
    | .ok false => less x y
    | r => r

end

end Value
end PageQuery
