import PageQuery.Number.Numeral

/-!
# Binary floating-point numbers

Numbers of the 64-bit binary format, kept as sign, significand and power of two.  Every operation is
exact arithmetic on whole numbers followed by one rounding to the nearest number of the format, ties
to the even significand, so all results can be computed and reasoned about without a machine float.
-/

namespace PageQuery

open PageQuery.Text PageQuery.Number

-- Powers are the core library's own, whatever other instances are in scope.
attribute [local instance (high)] instPowNat

/-- A number of the 64-bit binary format.  A finite one is `significand * 2 ^ exponent` with at most
53 significant bits and an exponent from -1074 to 971. -/
inductive Binary64 where
  | nan
  | infinite (negative : Bool)
  | finite (negative : Bool) (significand : Nat) (exponent : Int)
  deriving DecidableEq, Repr

namespace Binary64

def ofBits (bits : Nat) : Binary64 :=
  let negative := (bits / 2 ^ (63 : Nat)) % 2 == 1
  let field : Nat := (bits / 2 ^ (52 : Nat)) % 2 ^ (11 : Nat)
  let fraction := bits % 2 ^ (52 : Nat)
  if field = 2047 then (if fraction = 0 then .infinite negative else .nan)
  else if field = 0 then .finite negative fraction (-1074)
  else .finite negative (2 ^ (52 : Nat) + fraction) ((field : Int) - 1075)

def toBits : Binary64 → Nat
  | .nan => 2047 * 2 ^ (52 : Nat) + 2 ^ (51 : Nat)
  | .infinite negative => (if negative then 2 ^ (63 : Nat) else 0) + 2047 * 2 ^ (52 : Nat)
  | .finite negative m e =>
    (if negative then 2 ^ (63 : Nat) else 0) +
      (if m < 2 ^ (52 : Nat) then m
        else (e + 1075).toNat * 2 ^ (52 : Nat) + (m - 2 ^ (52 : Nat)))

/-- `n / d` rounded to the nearest whole number, a half to the even neighbour. -/
def roundHalfEven (n d : Nat) : Nat :=
  let q := n / d
  let r := n % d
  if 2 * r < d then q else if d < 2 * r then q + 1 else q + q % 2

/-- The quotient `n / d` in units of `2 ^ e`, as a fraction of whole numbers. -/
def inUnits (n d : Nat) (e : Int) : Nat × Nat :=
  if 0 ≤ e then (n, d * 2 ^ e.toNat) else (n * 2 ^ (-e).toNat, d)

/-- The power of two whose multiples the quotient `n / d` is rounded to: the quotient has 53 bits
above it, unless it is too small for that. -/
def unitExponent (n d : Nat) : Int :=
  let e : Int := (Nat.log2 n : Int) - Nat.log2 d - 53
  let (a, b) := inUnits n d e
  max (if b * 2 ^ (53 : Nat) ≤ a then e + 1 else e) (-1074)

/-- The number of the format nearest to `n / d`, where `d` is positive. -/
def ofRatio (negative : Bool) (n d : Nat) : Binary64 :=
  if n = 0 then .finite negative 0 (-1074)
  else
    let e := unitExponent n d
    let (a, b) := inUnits n d e
    let m := roundHalfEven a b
    let (m, e) := if m = 2 ^ (53 : Nat) then (2 ^ (52 : Nat), e + 1) else (m, e)
    if 971 < e then .infinite negative else .finite negative m e

/-- The number of the format nearest to a numeral.  A numeral far outside the format's range goes to
infinity or zero without its power of ten being formed. -/
def ofNumeral (negative : Bool) (n : Numeral) : Binary64 :=
  let top := n.exponent + digitCount n.coefficient
  if n.coefficient = 0 || top < -330 then .finite negative 0 (-1074)
  else if 310 < top then .infinite negative
  else if 0 ≤ n.exponent then ofRatio negative (n.coefficient * 10 ^ n.exponent.toNat) 1
  else ofRatio negative n.coefficient (10 ^ (-n.exponent).toNat)

/-- Drops underscores that stand between two digits; one that stands elsewhere spoils the text. -/
def dropUnderscores (previous : Option Char) : List Char → Option (List Char)
  | [] => if previous = some '_' then none else some []
  | c :: cs =>
    let afterDigit := previous.any isDigit
    if c = '_' then (if afterDigit then dropUnderscores (some c) cs else none)
    else if previous = some '_' && !isDigit c then none
    else (dropUnderscores (some c) cs).map (c :: ·)

/-- Reads a floating-point number: a decimal numeral, an infinity or not-a-number. -/
def read (s : String) : Option Binary64 :=
  match dropUnderscores none (trimNumber s.toList) with
  | none => none
  | some cs =>
    let (negative, cs) := takeSign cs
    if isWord "inf" cs || isWord "infinity" cs then some (.infinite negative)
    else if isWord "nan" cs then some .nan
    else (readNumeral cs).map (ofNumeral negative)

/-- The value of a finite magnitude as a fraction of whole numbers. -/
def ratio (m : Nat) (e : Int) : Nat × Nat :=
  if 0 ≤ e then (m * 2 ^ e.toNat, 1) else (m, 2 ^ (-e).toNat)

/-- The place of the leading decimal digit of `n / d`: the quotient lies from `10 ^ t` up to, but
not including, `10 ^ (t + 1)`. -/
def leadingPlace (n d : Nat) : Int :=
  let t : Int := (digitCount n : Int) - digitCount d
  let reached := if 0 ≤ t then d * 10 ^ t.toNat ≤ n else d ≤ n * 10 ^ (-t).toNat
  if reached then t else t - 1

/-- The digits at the decimal place `p` just below `n / d`, and whether the next ones above lie
nearer. -/
def gridBelow (n d : Nat) (p : Int) : Nat × Bool :=
  let (a, b) := if 0 ≤ p then (n, d * 10 ^ p.toNat) else (n * 10 ^ (-p).toNat, d)
  (a / b, b < 2 * (a % b) || (b == 2 * (a % b) && a / b % 2 == 1))

/-- The fewest digits that read back as the magnitude `m * 2 ^ e`, tried for each count of digits
up to `count`; of two candidates the nearer. -/
def shortestFrom (m : Nat) (e : Int) (count : Nat) : Nat → Nat × Int
  | 0 => (0, 0)
  | left + 1 =>
    let (n, d) := ratio m e
    let p := leadingPlace n d - ((count - left : Nat) : Int) + 1
    let (below, nearerAbove) := gridBelow n d p
    let reads (digits : Nat) : Bool := ofNumeral false ⟨digits, p⟩ == .finite false m e
    if reads (if nearerAbove then below + 1 else below) then
      (if nearerAbove then below + 1 else below, p)
    else if reads (if nearerAbove then below else below + 1) then
      (if nearerAbove then below else below + 1, p)
    else shortestFrom m e count left

/-- The fewest digits that read back as a positive magnitude, with the place of the last one. -/
def shortest (m : Nat) (e : Int) : Nat × Int :=
  shortestFrom m e 17 17

/-- The digits of a number without the zeros at its end, and how many those were. -/
def dropZeros (digits : List Char) : List Char × Nat :=
  let kept := (digits.reverse.dropWhile (· = '0')).reverse
  (kept, digits.length - kept.length)

/-- The text of a positive magnitude: positional from `0.0001` up to below `10 ^ 16`, always with a
point, otherwise with one digit before the point and an exponent of two or more digits. -/
def magnitudeText (m : Nat) (e : Int) : String :=
  let (value, place) := shortest m e
  let (digits, zeros) := dropZeros (Nat.toDigits 10 value)
  let last := place + zeros
  let point := last + digits.length
  if -4 < point && point ≤ 16 then
    if point ≤ 0 then String.ofList ('0' :: '.' :: List.replicate point.natAbs '0' ++ digits)
    else if digits.length ≤ point then
      String.ofList (digits ++ List.replicate (point.toNat - digits.length) '0' ++ ['.', '0'])
    else String.ofList (digits.take point.toNat ++ '.' :: digits.drop point.toNat)
  else
    let tail := digits.drop 1
    let power := point - 1
    String.ofList (digits.take 1 ++ (if tail.isEmpty then [] else '.' :: tail)) ++
      (if power < 0 then "e-" else "e+") ++ padZeros 2 (toString power.natAbs)

/-- The text of a floating-point number: the fewest digits that read back as it. -/
def text : Binary64 → String
  | .nan => "nan"
  | .infinite negative => if negative then "-inf" else "inf"
  | .finite negative m e =>
    (if negative then "-" else "") ++ (if m = 0 then "0.0" else magnitudeText m e)

/-- The least whole number that is not below a number; a number that is not finite has none. -/
def ceil? : Binary64 → Option Int
  | .finite negative m e =>
    let (n, d) := ratio m e
    let v : Int := if negative then -(n : Int) else n
    some (-((-v) / (d : Int)))
  | _ => none

end Binary64
end PageQuery
