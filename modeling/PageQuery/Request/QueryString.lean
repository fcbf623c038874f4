import PageQuery.Text.Blank

/-!
# Query strings

The text behind the question mark of an address: names and values joined by `=`, pairs joined by
`&`.  A plus stands for a blank, and `%` with two hexadecimal digits for an octet; octets are
decoded as UTF-8, with a replacement character for each sequence that is not well formed.
-/

namespace PageQuery.QueryString

open PageQuery.Text

def hexValue? (c : Char) : Option Nat :=
  if '0' ≤ c && c ≤ '9' then some (c.toNat - 48)
  else if 'a' ≤ c && c ≤ 'f' then some (c.toNat - 87)
  else if 'A' ≤ c && c ≤ 'F' then some (c.toNat - 55)
  else none

/-- The character that stands for octets that are not well formed. -/
def replacement : Char := Char.ofNat 0xFFFD

/-- What a leading octet asks for: how many octets follow, the bits that it contributes, and the
range of the octet after it. -/
def leading? (o : Nat) : Option (Nat × Nat × Nat × Nat) :=
  if o < 0x80 then some (0, o, 0, 0)
  else if 0xC2 ≤ o && o ≤ 0xDF then some (1, o - 0xC0, 0x80, 0xBF)
  else if o = 0xE0 then some (2, 0, 0xA0, 0xBF)
  else if o = 0xED then some (2, 0xD, 0x80, 0x9F)
  else if 0xE1 ≤ o && o ≤ 0xEF then some (2, o - 0xE0, 0x80, 0xBF)
  else if o = 0xF0 then some (3, 0, 0x90, 0xBF)
  else if 0xF1 ≤ o && o ≤ 0xF3 then some (3, o - 0xF0, 0x80, 0xBF)
  else if o = 0xF4 then some (3, 4, 0x80, 0x8F)
  else none

/-- Decodes octets.  `wanted` octets are still to follow the ones whose bits are `bits`, the next of
them between `low` and `high`. -/
def decodeFrom (wanted bits low high : Nat) : List Nat → List Char
  | [] => if wanted = 0 then [] else [replacement]
  | o :: os =>
    if wanted ≠ 0 && low ≤ o && o ≤ high then
      let bits := bits * 64 + (o - 0x80)
      if wanted = 1 then Char.ofNat bits :: decodeFrom 0 0 0 0 os
      else decodeFrom (wanted - 1) bits 0x80 0xBF os
    else
      let cut := if wanted = 0 then [] else [replacement]
      match leading? o with
      | none => cut ++ replacement :: decodeFrom 0 0 0 0 os
      | some (0, bits, _, _) => cut ++ Char.ofNat bits :: decodeFrom 0 0 0 0 os
      | some (more, bits, low, high) => cut ++ decodeFrom more bits low high os

/-- The octets that a run of ASCII characters stands for. -/
def octetsOf : List Char → List Nat
  | '%' :: a :: b :: cs =>
    match hexValue? a, hexValue? b with
    | some x, some y => (16 * x + y) :: octetsOf cs
    | _, _ => '%'.toNat :: octetsOf (a :: b :: cs)
  | c :: cs => c.toNat :: octetsOf cs
  | [] => []

/-- Decodes a text.  `run` holds the ASCII characters before the current place, last one first;
characters beyond ASCII stand for themselves. -/
def decodeRuns (run : List Char) : List Char → List Char
  | [] => decodeFrom 0 0 0 0 (octetsOf run.reverse)
  | c :: cs =>
    if c.toNat < 128 then decodeRuns (c :: run) cs
    else decodeFrom 0 0 0 0 (octetsOf run.reverse) ++ c :: decodeRuns [] cs

def decode (cs : List Char) : String :=
  String.ofList (decodeRuns [] (cs.map fun c => if c = '+' then ' ' else c))

/-- The pair that stands between two separators; a name without `=` has an empty value. -/
def pair? (part : List Char) : Option (String × String) :=
  if part.isEmpty then none
  else some (decode (part.takeWhile (· ≠ '=')), decode ((part.dropWhile (· ≠ '=')).drop 1))

def pairs (s : String) : List (String × String) :=
  (splitChars '&' s.toList).filterMap pair?

/-- The value of a name; the last one of several. -/
def value? (s : String) (name : String) : Option String :=
  ((pairs s).reverse.find? (·.1 == name)).map (·.2)

end PageQuery.QueryString
