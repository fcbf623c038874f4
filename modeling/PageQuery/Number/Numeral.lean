import PageQuery.Text.Blank
import PageQuery.Text.Digit

/-!
# Numerals

The written forms of numbers: a whole number with underscores between its digits, and a decimal
numeral with a fraction and a power of ten.  The readers take the digits of every script and tell
apart only what stands in the text; which value a numeral denotes is left to the number types.
-/

namespace PageQuery.Number

open PageQuery.Text

/-- A blank that may surround a number: the ASCII ones and every blank beyond ASCII. -/
def isNumberBlank (c : Char) : Bool :=
  let n := c.toNat
  (9 ≤ n && n ≤ 13) || n == 32 || (128 ≤ n && isBlankChar c)

/-- The text of a number without surrounding blanks. -/
def trimNumber (cs : List Char) : List Char :=
  ((cs.dropWhile isNumberBlank).reverse.dropWhile isNumberBlank).reverse

/-- The sign in front of a number, whether it is a minus, and the rest. -/
def takeSign : List Char → Bool × List Char
  | '-' :: cs => (true, cs)
  | '+' :: cs => (false, cs)
  | cs => (false, cs)

/-- The digits of a run in which single underscores may stand between digits. -/
def underscoredDigits (digit? : Char → Option Nat) (cs : List Char) : Option (List Nat) :=
  let parts := splitChars '_' cs
  if parts.any List.isEmpty then none
  else parts.flatten.mapM digit?

def ofDigits (base : Nat) (digits : List Nat) : Nat :=
  digits.foldl (fun n d => base * n + d) 0

/-- The longest whole number that is read has this many digits. -/
def maxDigits : Nat := 4300

/-- Reads a whole number: an optional sign and at most `maxDigits` digits of any script. -/
def readInteger (s : String) : Option Int :=
  let (negative, cs) := takeSign (trimNumber s.toList)
  match underscoredDigits digitValue? cs with
  | none => none
  | some digits =>
    if digits.length > maxDigits then none
    else if negative then some (-(ofDigits 10 digits)) else some (ofDigits 10 digits)

/-- The value of a hexadecimal digit; a decimal digit may come from any script. -/
def hexDigit? (c : Char) : Option Nat :=
  if 'a' ≤ c && c ≤ 'f' then some (c.toNat - 87)
  else if 'A' ≤ c && c ≤ 'F' then some (c.toNat - 55)
  else digitValue? c

/-- Reads a whole number in hexadecimal, with an optional `0x` before its digits. -/
def readHexadecimal (cs : List Char) : Option Int :=
  let (negative, cs) := takeSign (trimNumber cs)
  let cs := match cs with
    | '0' :: x :: '_' :: rest => if x = 'x' || x = 'X' then rest else cs
    | '0' :: x :: rest => if x = 'x' || x = 'X' then rest else cs
    | _ => cs
  (underscoredDigits hexDigit? cs).map fun digits =>
    if negative then -(ofDigits 16 digits) else ofDigits 16 digits

/-- A decimal numeral without its sign: `coefficient` times ten to the power `exponent`. -/
structure Numeral where
  coefficient : Nat
  exponent : Int
  deriving DecidableEq, Repr

/-- The digits at the head of a text and the rest. -/
def takeDigits : List Char → List Nat × List Char
  | [] => ([], [])
  | c :: cs =>
    match digitValue? c with
    | none => ([], c :: cs)
    | some d => let (ds, rest) := takeDigits cs; (d :: ds, rest)

/-- Reads the power of ten that ends a numeral; nothing stands for the power zero. -/
def readExponent : List Char → Option Int
  | [] => some 0
  | c :: cs =>
    if c = 'e' || c = 'E' then
      let (negative, cs) := takeSign cs
      match takeDigits cs with
      | ([], _) => none
      | (ds, []) => some (if negative then -(ofDigits 10 ds) else ofDigits 10 ds)
      | _ => none
    else none

/-- Reads digits, an optional point with more digits, and an optional power of ten.  One digit
before the power is enough, on either side of the point. -/
def readNumeral (cs : List Char) : Option Numeral :=
  let (whole, rest) := takeDigits cs
  let (fraction, rest) := match rest with
    | '.' :: rest => takeDigits rest
    | _ => ([], rest)
  if whole.isEmpty && fraction.isEmpty then none
  else (readExponent rest).map fun e =>
    ⟨ofDigits 10 (whole ++ fraction), e - fraction.length⟩

/-- How many decimal digits a number has; zero has one. -/
def digitCount (n : Nat) : Nat :=
  (Nat.toDigits 10 n).length

/-- Whether a whole number can be written: longer ones are no more written than read. -/
def isWritable (n : Int) : Bool :=
  digitCount n.natAbs ≤ maxDigits

/-- Whether a text is the ASCII word `word` in any letter case. -/
def isWord (word : String) (cs : List Char) : Bool :=
  cs.map Char.toLower == word.toList

end PageQuery.Number
