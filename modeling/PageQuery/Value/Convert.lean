import PageQuery.Fault
import PageQuery.Number.Significant
import PageQuery.Value.Basic

/-!
# Values as numbers

A value of one kind may be asked for as a number of another: a text that writes a number, octets
that do, a number with a fraction.  What denotes no number of the kind asked for is a bad value, and
what has nothing to do with numbers is a bad type.
-/

namespace PageQuery.Value

-- Powers are the core library's own, whatever other instances are in scope.
attribute [local instance (high)] instPowNat

def asciiText? (octets : List UInt8) : Option String :=
  if octets.all (· < 128) then some (String.ofList (octets.map fun o => Char.ofNat o.toNat))
  else Option.none

/-- The outcome of reading a text that should denote something. -/
def denoted {α : Type} : Option α → Except Fault α
  | some a => .ok a
  | Option.none => .error .badValue

/-- What is left of a binary number without its fraction. -/
def truncated (x : Binary64) : Except Fault Int :=
  match x, x.truncated? with
  | _, some n => .ok n
  | .nan, Option.none => .error .badValue
  | _, Option.none => .error .overflow

/-- What is left of a decimal number without its fraction. -/
def truncatedDecimal : Decimal → Except Fault Int
  | .nan .. => .error .badValue
  | .infinite _ => .error .overflow
  | .finite negative c e =>
    let whole : Int := if 0 ≤ e then c * 10 ^ e.toNat
      else if Number.digitCount c ≤ e.natAbs then 0 else c / 10 ^ e.natAbs
    .ok (if negative then -whole else whole)

/-- The whole number that a value denotes; a fraction is dropped. -/
def toWhole (v : Value) : Except Fault Int :=
  match v.bare with
  | .bool b => .ok (if b then 1 else 0)
  | .int n => .ok n
  | .float x => truncated x
  | .decimal d => truncatedDecimal d
  | .uuid n => .ok n
  | .text s => denoted (Number.readInteger s)
  | .bytes os => denoted ((asciiText? os).bind Number.readInteger)
  | _ => .error .badType

def binaryOfWhole (n : Int) : Except Fault Binary64 :=
  match Binary64.ofRatio (decide (n < 0)) n.natAbs 1 with
  | .infinite _ => .error .overflow
  | x => .ok x

def toBinary (v : Value) : Except Fault Binary64 :=
  match v.bare with
  | .bool b => binaryOfWhole (if b then 1 else 0)
  | .int n => binaryOfWhole n
  | .float x => .ok x
  | .decimal (.finite negative c e) => .ok (Binary64.ofNumeral negative ⟨c, e⟩)
  | .decimal (.infinite negative) => .ok (.infinite negative)
  | .decimal (.nan _ signalling _) => if signalling then .error .badValue else .ok .nan
  | .text s => denoted (Binary64.read s)
  | .bytes os => denoted ((asciiText? os).bind Binary64.read)
  | _ => .error .badType

/-- The decimal number that a value denotes; a binary one keeps `count` significant digits. -/
def toDecimal? (count : Nat) (v : Value) : Option Decimal :=
  match v.bare with
  | .bool b => some (Decimal.ofInt (if b then 1 else 0))
  | .int n => some (Decimal.ofInt n)
  | .float x => some (Decimal.ofBinary count x)
  | .decimal d => some d
  | .text s => Decimal.read s
  | _ => Option.none

end PageQuery.Value
