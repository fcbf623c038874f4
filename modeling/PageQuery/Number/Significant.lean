import PageQuery.Number.Binary
import PageQuery.Number.Decimal

/-!
# Significant digits

Numbers cut down to some count of significant decimal digits, or to some count of places after the
point.  Which way a half goes is left to the caller: a decimal takes the even neighbour, a number
that is shown as text goes up.
-/

namespace PageQuery

open PageQuery.Text PageQuery.Number

-- Powers are the core library's own, whatever other instances are in scope.
attribute [local instance (high)] instPowNat

/-- `n / d` rounded to the nearest whole number, a half upwards. -/
def roundHalfUp (n d : Nat) : Nat :=
  (2 * n + d) / (2 * d)

/-- The first `count` decimal digits of a positive quotient `n / d`, rounded by `round`, and the
place of the last of them. -/
def leadingDigits (round : Nat → Nat → Nat) (count n d : Nat) : Nat × Int :=
  let place := Binary64.leadingPlace n d - (count : Int) + 1
  let (a, b) :=
    if 0 ≤ place then (n, d * 10 ^ place.toNat) else (n * 10 ^ (-place).toNat, d)
  let value := round a b
  if value = 10 ^ count then (10 ^ (count - 1), place + 1) else (value, place)

namespace Decimal

/-- A quotient `n / d` with `count` significant digits, a half to the even neighbour. -/
def ofQuotient (count : Nat) (negative : Bool) (n d : Nat) : Decimal :=
  if n = 0 then .finite negative 0 0
  else
    let (value, place) := leadingDigits Binary64.roundHalfEven count n d
    .finite negative value place

/-- A binary number with `count` significant digits, a half to the even neighbour. -/
def ofBinary (count : Nat) : Binary64 → Decimal
  | .nan => .nan false false 0
  | .infinite negative => .infinite negative
  | .finite negative m e =>
    let (n, d) := Binary64.ratio m e
    ofQuotient count negative n d

/-- A number rounded to some places after the point, a half to the even neighbour. -/
def toPlaces (places : Nat) (d : Decimal) : Decimal :=
  match d with
  | .finite negative c e =>
    match d.withPlaces places with
    | some d => d
    | none =>
      let dropped := (-(e + (places : Int))).toNat
      let kept :=
        if digitCount c < dropped then 0 else Binary64.roundHalfEven c (10 ^ dropped)
      .finite negative kept (-(places : Int))
  | d => d

/-- A number rounded to some places after the point, unless it then has more digits than are
allowed or is not finite. -/
def fitted? (digits places : Nat) (d : Decimal) : Option Decimal :=
  match d.toPlaces places with
  | .finite negative c e =>
    if c = 0 || digitCount c ≤ digits then some (.finite negative c e) else none
  | _ => none

end Decimal

namespace Binary64

/-- How many digits the short text of a number has at most. -/
def shortDigits : Nat := 15

/-- The short text of a positive magnitude: its first fifteen digits without zeros at the end, but
always with a digit behind the point; very large and very small magnitudes with a power of ten. -/
def shortMagnitude (m : Nat) (e : Int) : String :=
  let (n, d) := ratio m e
  let (value, place) := leadingDigits roundHalfUp shortDigits n d
  let digits := (dropZeros (Nat.toDigits 10 value)).1
  let power := place + (shortDigits : Int) - 1
  let pad (cs : List Char) : List Char := if cs.isEmpty then ['0'] else cs
  if power < -4 || (shortDigits : Int) ≤ power then
    String.ofList (digits.take 1 ++ '.' :: pad (digits.drop 1)) ++
      (if power < 0 then "e-" else "e+") ++ padZeros 2 (toString power.natAbs)
  else if power < 0 then
    String.ofList ('0' :: '.' :: List.replicate (power.natAbs - 1) '0' ++ digits)
  else
    let width := power.toNat + 1
    let filled := digits ++ List.replicate (width - digits.length) '0'
    String.ofList (filled.take width ++ '.' :: pad (filled.drop width))

def shortText : Binary64 → String
  | .nan => "NaN"
  | .infinite negative => if negative then "-Inf" else "Inf"
  | .finite negative m e =>
    if m = 0 then "0.0" else (if negative then "-" else "") ++ shortMagnitude m e

/-- What is left of a number without its fraction; a number that is not finite has nothing left. -/
def truncated? : Binary64 → Option Int
  | .finite negative m e =>
    let (n, d) := ratio m e
    let whole : Int := n / d
    some (if negative then -whole else whole)
  | _ => none

end Binary64
end PageQuery
