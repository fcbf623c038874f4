import PageQuery.Number.Numeral

/-!
# Decimal numbers

Numbers of decimal floating point: a sign, a coefficient and a power of ten, so that `1.5` and
`1.50` are two numbers of one value; two infinities; and quiet and signalling not-a-numbers that may
carry a payload.  Numbers are kept as they are written, never rounded.
-/

namespace PageQuery

open PageQuery.Text PageQuery.Number

-- Powers are the core library's own, whatever other instances are in scope.
attribute [local instance (high)] instPowNat

/-- A decimal number as it is written. -/
inductive Decimal where
  | finite (negative : Bool) (coefficient : Nat) (exponent : Int)
  | infinite (negative : Bool)
  | nan (negative signalling : Bool) (payload : Nat)
  deriving DecidableEq, Repr

namespace Decimal

/-- The largest power of ten that the leading digit of a number may have. -/
def maxExponent : Int := 999999999999999999

/-- The smallest power of ten that the last digit of a number may have. -/
def minExponent : Int := -1999999999999999997

/-- A numeral is in range when its last digit is not too small and its leading digit not too
large. -/
def inRange (n : Numeral) : Bool :=
  minExponent ≤ n.exponent && n.exponent + digitCount n.coefficient - 1 ≤ maxExponent

def ofInt (n : Int) : Decimal :=
  .finite (n < 0) n.natAbs 0

/-- Reads the payload of a not-a-number: digits only, possibly none. -/
def readPayload (cs : List Char) : Option Nat :=
  match takeDigits cs with
  | (digits, []) => some (ofDigits 10 digits)
  | _ => none

def readUnsigned (negative : Bool) (cs : List Char) : Option Decimal :=
  if isWord "inf" cs || isWord "infinity" cs then some (.infinite negative)
  else if isWord "nan" (cs.take 3) then (readPayload (cs.drop 3)).map (.nan negative false)
  else if isWord "snan" (cs.take 4) then (readPayload (cs.drop 4)).map (.nan negative true)
  else
    match readNumeral cs with
    | none => none
    | some n => if inRange n then some (.finite negative n.coefficient n.exponent) else none

/-- Reads a decimal number.  Blanks may surround it, underscores count for nothing wherever they
stand, and digits may come from any script. -/
def read (s : String) : Option Decimal :=
  let (negative, cs) := takeSign ((trimChars s.toList).filter (· ≠ '_'))
  readUnsigned negative cs

def signed (n : Int) : String :=
  (if n < 0 then "-" else "+") ++ toString n.natAbs

/-- The text of a finite magnitude: without a power of ten while no digit has to be made up on the
right and at most six zeros stand before the first digit, otherwise with one digit before the
point. -/
def magnitudeText (coefficient : Nat) (exponent : Int) : String :=
  let digits := Nat.toDigits 10 coefficient
  let left := exponent + digits.length
  let point : Int := if exponent ≤ 0 && left > -6 then left else 1
  let (whole, fraction) :=
    if point ≤ 0 then (['0'], List.replicate point.natAbs '0' ++ digits)
    else if digits.length ≤ point then
      (digits ++ List.replicate (point.toNat - digits.length) '0', [])
    else (digits.take point.toNat, digits.drop point.toNat)
  let tail := if fraction.isEmpty then [] else '.' :: fraction
  let power := if left = point then "" else "E" ++ signed (left - point)
  String.ofList (whole ++ tail) ++ power

def text : Decimal → String
  | .finite negative c e => (if negative then "-" else "") ++ magnitudeText c e
  | .infinite negative => if negative then "-Infinity" else "Infinity"
  | .nan negative signalling payload =>
    (if negative then "-" else "") ++ (if signalling then "sNaN" else "NaN") ++
      (if payload = 0 then "" else toString payload)

/-- The order of two positive magnitudes.  The places of the leading digits decide first, so no
power of ten larger than a number's own length is ever formed. -/
def compareMagnitude (c : Nat) (e : Int) (c' : Nat) (e' : Int) : Ordering :=
  if c = 0 then (if c' = 0 then .eq else .lt)
  else if c' = 0 then .gt
  else
    match compare (e + digitCount c) (e' + digitCount c') with
    | .lt => .lt
    | .gt => .gt
    | .eq =>
      if e' ≤ e then compare (c * 10 ^ (e - e').toNat) c'
      else compare c (c' * 10 ^ (e' - e).toNat)

def isSignalling : Decimal → Bool
  | .nan _ signalling _ => signalling
  | _ => false

/-- Whether a number is zero, with either sign. -/
def isZero : Decimal → Bool
  | .finite _ c _ => c == 0
  | _ => false

/-- The order by value; nothing is said about not-a-numbers. -/
def order : Decimal → Decimal → Option Ordering
  | .nan .., _ => none
  | _, .nan .. => none
  | .infinite n, .infinite n' => some (if n = n' then .eq else if n then .lt else .gt)
  | .infinite n, _ => some (if n then .lt else .gt)
  | _, .infinite n => some (if n then .gt else .lt)
  | .finite n c e, .finite n' c' e' =>
    if c = 0 && c' = 0 then some .eq
    else
      match n && c != 0, n' && c' != 0 with
      | false, false => some (compareMagnitude c e c' e')
      | true, true => some (compareMagnitude c' e' c e)
      | true, false => some .lt
      | false, true => some .gt

/-- The digits and exponent of a number brought to `places` digits after the point, if it has that
many or fewer. -/
def withPlaces (places : Nat) : Decimal → Option Decimal
  | .finite n c e =>
    if -(places : Int) ≤ e then
      some (.finite n (c * 10 ^ (e + places).toNat) (-(places : Int)))
    else none
  | _ => none

end Decimal
end PageQuery
