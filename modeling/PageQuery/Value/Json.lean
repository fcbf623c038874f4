import PageQuery.Fault
import PageQuery.Text.Quoted
import PageQuery.Value.Literal

/-!
# JSON texts

A value built from nothing, truth values, numbers, texts, lists and mappings is kept in a free-form
column as a JSON text, in ASCII: whatever is not printable ASCII is escaped by its number in units
of sixteen bits.  Other values have no such text, and neither have whole numbers that cannot be
written.
-/

namespace PageQuery.Value

open PageQuery.Text

def escapedUnit (n : Nat) : List Char :=
  '\\' :: 'u' :: hexDigits 4 n

def jsonChar (c : Char) : List Char :=
  let n := c.toNat
  if c = '"' || c = '\\' then ['\\', c]
  else if c = '\n' then ['\\', 'n']
  else if c = '\r' then ['\\', 'r']
  else if c = '\t' then ['\\', 't']
  else if n = 8 then ['\\', 'b']
  else if n = 12 then ['\\', 'f']
  else if 32 ≤ n && n < 127 then [c]
  else if n < 0x10000 then escapedUnit n
  else
    escapedUnit (0xD800 + (n - 0x10000) / 0x400) ++ escapedUnit (0xDC00 + (n - 0x10000) % 0x400)

def jsonQuoted (s : String) : String :=
  String.ofList ('"' :: s.toList.flatMap jsonChar ++ ['"'])

def jsonNumber : Binary64 → String
  | .nan => "NaN"
  | .infinite negative => if negative then "-Infinity" else "Infinity"
  | x => x.text

/-- The JSON text of a value that holds no other values. -/
def jsonAtom (v : Value) : Except Fault String :=
  match v.bare with
  | .none => .ok "null"
  | .bool b => .ok (if b then "true" else "false")
  | .int n => if Number.isWritable n then .ok (toString n) else .error .badValue
  | .float x => .ok (jsonNumber x)
  | .text s => .ok (jsonQuoted s)
  | _ => .error .badType

mutual

def json : Value → Except Fault String
  | .list xs | .tuple xs => (jsonItems xs).map fun texts => "[" ++ commaList texts ++ "]"
  | .mapping es => (jsonEntries es).map fun texts => "\x7b" ++ commaList texts ++ "\x7d"
  | .member _ _ .other v => json v
  | v => jsonAtom v

def jsonItems : List Value → Except Fault (List String)
  | [] => .ok []
  | x :: xs =>
    match json x with
    | .error f => .error f
    | .ok item => (jsonItems xs).map (item :: ·)

def jsonEntries : List (String × Value) → Except Fault (List String)
  | [] => .ok []
  | (key, x) :: es =>
    match json x with
    | .error f => .error f
    | .ok item => (jsonEntries es).map ((jsonQuoted key ++ ": " ++ item) :: ·)

end

mutual

/-- A value as it is read back from its JSON text: a tuple becomes a list, and a member of an
enumeration the value that it stands for. -/
def fromJson : Value → Value
  | .list xs | .tuple xs => .list (fromJsonItems xs)
  | .mapping es => .mapping (fromJsonEntries es)
  | .member _ _ .other v => fromJson v
  | v => v.bare

def fromJsonItems : List Value → List Value
  | [] => []
  | x :: xs => fromJson x :: fromJsonItems xs

/-- The entries of a mapping as they are read back. -/
def fromJsonEntries : List (String × Value) → List (String × Value)
  | [] => []
  | (key, x) :: es => (key, fromJson x) :: fromJsonEntries es

end

end PageQuery.Value
