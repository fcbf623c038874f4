import PageQuery.Calendar.Duration
import PageQuery.Failure
import PageQuery.Number.Numeral
import PageQuery.Text.Case
import PageQuery.Value.Convert
import PageQuery.Value.Literal
import PageQuery.Value.Order

/-!
# Parsers of filter values

The values of a filter arrive as texts.  A field that can be compared has a parser, which turns such
a text into a value of the field's type.  Members of enumerations are found by name first and by
value second, choices by stored value or label, all without regard to letter case.  A search by value
writes one value after the other, so it fails at the first one that cannot be written.
-/

namespace PageQuery

open PageQuery.Text

/-- Whether a value is one that members of enumerations of a mixin can have. -/
def Mixin.holds : Mixin → Value → Bool
  | .plain, _ => true
  | .text, .text _ => true
  | .number, .int _ => true
  | .date, .date _ => true
  | .moment, .datetime _ => true
  | .other, .float _ | .other, .decimal _ | .other, .bytes _ | .other, .time .. => true
  | .other, .duration _ | .other, .list _ | .other, .tuple _ | .other, .set _ => true
  | .other, .mapping _ => true
  | _, _ => false

/-- A named set of members, each with a value of the type that the enumeration is mixed with; a member
whose value repeats an earlier one is only another name for that one. -/
structure Enumeration where
  name : String
  mixin : Mixin := .plain
  members : List (String × Value)
  fits : ∀ m ∈ members, mixin.holds m.2 = true := by decide

namespace Enumeration

/-- The value of a member: where members are also texts or numbers, the text or the number that the
given value denotes. -/
def memberValue (mixin : Mixin) (v : Value) : Except Fault Value :=
  match mixin with
  | .text => (v.writePlain).map .text
  | .number => v.toWhole.map .int
  | _ => .ok v

def ofMembers (name : String) (mixin : Mixin) (members : List (String × Value)) :
    Except Fault Enumeration := do
  let members ← members.mapM fun m => (memberValue mixin m.2).map fun v => (m.1, v)
  if fits : ∀ m ∈ members, mixin.holds m.2 = true then .ok { name, mixin, members, fits }
  else .error .badType

def sameValue (u v : Value) : Bool :=
  match u.same v with
  | .ok b => b
  | .error _ => false

/-- The members without the further names. -/
def distinctMembers (e : Enumeration) : List (String × Value) :=
  e.members.foldl
    (fun kept m => if kept.any fun k => sameValue k.2 m.2 then kept else kept ++ [m]) []

def member? (e : Enumeration) (name : String) : Option Value :=
  match e.members.lookup name with
  | none => none
  | some v =>
    let found := (e.distinctMembers.find? (·.1 == name)).orElse fun _ =>
      e.distinctMembers.find? fun m => sameValue m.2 v
    found.map fun m => .member e.name m.1 e.mixin m.2

end Enumeration

/-- How the texts of a field are read. -/
inductive Parser where
  | text
  | integer
  | float
  | boolean
  | decimal
  | uuid
  | dateTime
  | date
  | time
  | member (e : Enumeration)
  | choice (options : List (Value × Value))
  | duration
  | verbatim

namespace Parser

def trueWords : List String := ["true", "t", "yes", "y", "on", "1"]

def falseWords : List String := ["false", "f", "no", "n", "off", "0"]

def readBoolean (raw : String) : Except Failure Value :=
  let word := lower (trim raw)
  if trueWords.contains word then .ok (.bool true)
  else if falseWords.contains word then .ok (.bool false)
  else .error (.unreadable (.boolean raw))

/-- Removes every occurrence of a word, from left to right. -/
def removeWord (word : List Char) : Nat → List Char → List Char
  | 0, cs => cs
  | _, [] => []
  | fuel + 1, c :: cs =>
    if word.isPrefixOf (c :: cs) then removeWord word fuel ((c :: cs).drop word.length)
    else c :: removeWord word fuel cs

def without (word : String) (cs : List Char) : List Char :=
  removeWord word.toList (cs.length + 1) cs

/-- Reads an identifier: 32 hexadecimal digits.  Hyphens count for nothing, braces may surround it,
and the words that mark such identifiers in resource names are passed over. -/
def readUuid (raw : String) : Option Nat :=
  let cs := without "uuid:" (without "urn:" raw.toList)
  let isBrace (c : Char) : Bool := c == '\x7b' || c == '\x7d'
  let cs := ((cs.dropWhile isBrace).reverse.dropWhile isBrace).reverse.filter (· ≠ '-')
  if cs.length = 32 then
    match Number.readHexadecimal cs with
    | some (.ofNat n) => some n
    | _ => none
  else none

/-- Whether the plain text of a value is `wanted` in lower case. -/
def displays (wanted : String) (v : Value) : Except Fault Bool :=
  v.writePlain.map fun text => lower text == wanted

/-- The first item that passes a test; a test that fails ends the search. -/
def search {α : Type} (test : α → Except Fault Bool) : List α → Except Fault (Option α)
  | [] => .ok none
  | a :: rest =>
    match test a with
    | .ok true => .ok (some a)
    | .ok false => search test rest
    | .error f => .error f

/-- Finds a member by name, or else by value. -/
def findMember (e : Enumeration) (wanted : String) : Except Fault (Option (String × Value)) :=
  match e.distinctMembers.find? fun m => lower m.1 == wanted with
  | some m => .ok (some m)
  | none => search (fun m => displays wanted m.2) e.distinctMembers

def readMember (e : Enumeration) (raw : String) : Except Failure Value :=
  match findMember e (lower (trim raw)) with
  | .ok (some m) => .ok (.member e.name m.1 e.mixin m.2)
  | .ok none => .error (.unreadable (.member raw e.name))
  | .error f => .error (.fault f)

/-- Whether the stored value or the label of a choice is `wanted`. -/
def offers (wanted : String) (o : Value × Value) : Except Fault Bool :=
  match displays wanted o.1 with
  | .ok false => displays wanted o.2
  | r => r

/-- Finds a choice by stored value or label; the first match wins and gives the stored value. -/
def readChoice (options : List (Value × Value)) (raw : String) : Except Failure Value :=
  match search (offers (lower (trim raw))) options with
  | .ok (some o) => .ok o.1
  | .ok none => .error (.unreadable (.choice raw))
  | .error f => .error (.fault f)

/-- The outcome of a calendar reading: an impossible day or time is a fault, a text of no known form
is reported. -/
def ofReading {α : Type} (wrap : α → Value) (unreadable : Unreadable) :
    Reading α → Except Failure Value
  | .value a => .ok (wrap a)
  | .impossible => .error (.fault .badValue)
  | .unreadable => .error (.unreadable unreadable)

def orBadValue : Option Value → Except Failure Value
  | some v => .ok v
  | none => .error (.fault .badValue)

def run (p : Parser) (raw : String) : Except Failure Value :=
  match p with
  | .text | .verbatim => .ok (.text raw)
  | .integer => orBadValue ((Number.readInteger raw).map .int)
  | .float => orBadValue ((Binary64.read raw).map .float)
  | .boolean => readBoolean raw
  | .decimal =>
    match Decimal.read raw with
    | some d => .ok (.decimal d)
    | none => .error (.unreadable (.decimal raw))
  | .uuid => orBadValue ((readUuid raw).map .uuid)
  | .dateTime => ofReading .datetime (.dateTime raw) (Written.dateTimeOrDate raw)
  | .date => ofReading .date (.date raw) (Written.dateOrDateTime raw)
  | .time => ofReading (fun t => .time t none) (.time raw) (Written.time raw)
  | .member e => readMember e raw
  | .choice options => readChoice options raw
  | .duration => orBadValue ((Duration.read raw).map .duration)

end Parser
end PageQuery
