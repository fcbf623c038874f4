import PageQuery.Text.Blank
import PageQuery.Text.Printable

/-!
# Quoted texts

Messages and log lines show values as literals.  A text literal stands in single quotes, or in
double quotes if that avoids escaping; what cannot be printed is written by number.  Octets are
written the same way behind a `b`, with everything outside printable ASCII by number.
-/

namespace PageQuery.Text

/-- The lower-case hexadecimal digits of `n`, padded with zeros to `width`. -/
def hexDigits (width n : Nat) : List Char :=
  let digits := Nat.toDigits 16 n
  List.replicate (width - digits.length) '0' ++ digits

/-- The quote around a literal: a double quote exactly when the text holds a single quote and no
double quote. -/
def quoteFor (cs : List Char) : Char :=
  if cs.contains '\'' && !cs.contains '"' then '"' else '\''

/-- The escape of a character by its number, with two, four or eight digits. -/
def escapeByNumber (n : Nat) : List Char :=
  if n < 0x100 then '\\' :: 'x' :: hexDigits 2 n
  else if n < 0x10000 then '\\' :: 'u' :: hexDigits 4 n
  else '\\' :: 'U' :: hexDigits 8 n

/-- A character as it stands in a literal between the quotes `quote`. -/
def escapeChar (quote c : Char) : List Char :=
  if c = quote || c = '\\' then ['\\', c]
  else if c = '\n' then ['\\', 'n']
  else if c = '\r' then ['\\', 'r']
  else if c = '\t' then ['\\', 't']
  else if isPrintable c then [c]
  else escapeByNumber c.toNat

def quoted (s : String) : String :=
  let quote := quoteFor s.toList
  String.ofList (quote :: s.toList.flatMap (escapeChar quote) ++ [quote])

/-- An octet as it stands in a literal between the quotes `quote`. -/
def escapeOctet (quote : Char) (octet : UInt8) : List Char :=
  if octet.toNat < 127 then escapeChar quote (Char.ofNat octet.toNat)
  else escapeByNumber octet.toNat

def quotedOctets (octets : List UInt8) : String :=
  let quote := quoteFor (octets.map fun octet => Char.ofNat octet.toNat)
  String.ofList ('b' :: quote :: octets.flatMap (escapeOctet quote) ++ [quote])

end PageQuery.Text
