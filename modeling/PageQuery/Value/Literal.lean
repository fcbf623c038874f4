import PageQuery.Fault
import PageQuery.Number.Numeral
import PageQuery.Text.Quoted
import PageQuery.Value.Basic

/-!
# Texts of values

A value has two texts.  Its literal shows what kind of value it is, with quotes around texts, and is
used in messages and log lines.  Its plain text is what a reader wants to see; it differs from the
literal only where the literal names the kind.

A whole number of more digits than are ever read is not written either, so a value has its texts only
if all whole numbers in them can be written.  Whoever shows a value has to reckon with that.
-/

namespace PageQuery

open PageQuery.Text

def commaList (items : List String) : String :=
  String.intercalate ", " items

namespace Duration

/-- The days, seconds and microseconds of a duration; only the days may be negative. -/
def parts (micros : Int) : Int × Nat × Nat :=
  let days := micros / Time.microsPerDay
  let rest := (micros % Time.microsPerDay).toNat
  (days, rest / 1000000, rest % 1000000)

/-- The literal of a duration names its parts that are not zero. -/
def literal (micros : Int) : String :=
  let (days, seconds, rest) := parts micros
  let named :=
    (if days = 0 then [] else ["days=" ++ toString days]) ++
    (if seconds = 0 then [] else ["seconds=" ++ toString seconds]) ++
    (if rest = 0 then [] else ["microseconds=" ++ toString rest])
  "datetime.timedelta(" ++ (if named.isEmpty then "0" else commaList named) ++ ")"

/-- The plain text of a duration: days and a clock. -/
def text (micros : Int) : String :=
  let (days, seconds, rest) := parts micros
  let dayText :=
    if days = 0 then ""
    else toString days ++ (if days.natAbs = 1 then " day, " else " days, ")
  dayText ++ toString (seconds / 3600) ++ ":" ++ padZeros 2 (toString (seconds / 60 % 60)) ++
    ":" ++ padZeros 2 (toString (seconds % 60)) ++
    (if rest = 0 then "" else "." ++ padZeros 6 (toString rest))

end Duration

def offsetLiteral (offset : Int) (labelled : Bool) : String :=
  if labelled then
    let minutes := offset.natAbs / 60000000
    let label := (if offset < 0 then "-" else "+") ++ padZeros 2 (toString (minutes / 60)) ++
      padZeros 2 (toString (minutes % 60))
    "datetime.timezone(" ++ Duration.literal offset ++ ", " ++ quoted label ++ ")"
  else if offset = 0 then "datetime.timezone.utc"
  else "datetime.timezone(" ++ Duration.literal offset ++ ")"

/-- The fields of a clock in a literal; seconds are left out when nothing follows the minutes. -/
def Time.fields (t : Time) : List String :=
  [toString t.hour, toString t.minute] ++
    (if t.microsecond = 0 then (if t.second = 0 then [] else [toString t.second])
      else [toString t.second, toString t.microsecond])

def zoneField (offset : Option Int) (labelled : Bool) : List String :=
  match offset with
  | none => []
  | some o => ["tzinfo=" ++ offsetLiteral o labelled]

def Date.fields (d : Date) : List String :=
  [toString d.year, toString d.month, toString d.day]

/-- Groups of 8, 4, 4, 4 and 12 hexadecimal digits with hyphens between them. -/
def uuidText (n : Nat) : String :=
  let digits := hexDigits 32 n
  let group (start count : Nat) := (digits.drop start).take count
  String.ofList (group 0 8 ++ '-' :: group 8 4 ++ '-' :: group 12 4 ++ '-' :: group 16 4 ++
    '-' :: group 20 12)

namespace Value

def atomLiteral : Value → String
  | .none => "None"
  | .bool b => if b then "True" else "False"
  | .int n => toString n
  | .float x => x.text
  | .decimal d => "Decimal('" ++ d.text ++ "')"
  | .uuid n => "UUID('" ++ uuidText n ++ "')"
  | .text s => quoted s
  | .bytes os => quotedOctets os
  | .datetime t => "datetime.datetime(" ++
      commaList (t.date.fields ++ t.time.fields ++ zoneField t.offset t.labelled) ++ ")"
  | .date d => "datetime.date(" ++ commaList d.fields ++ ")"
  | .time t offset => "datetime.time(" ++ commaList (t.fields ++ zoneField offset false) ++ ")"
  | .duration n => Duration.literal n
  | .row model key => "<" ++ model ++ ": " ++ model ++ " object (" ++ toString key ++ ")>"
  | _ => ""

mutual

def literal : Value → String
  | .list xs => "[" ++ commaList (literals xs) ++ "]"
  | .tuple xs =>
    "(" ++ commaList (literals xs) ++ (if xs.length = 1 then ",)" else ")")
  | .set xs => if xs.isEmpty then "set()" else "\x7b" ++ commaList (literals xs) ++ "\x7d"
  | .mapping es => "\x7b" ++ commaList (entryLiterals es) ++ "\x7d"
  | .member enumeration name _ v =>
    "<" ++ enumeration ++ "." ++ name ++ ": " ++ literal v ++ ">"
  | .record (.own _) type _ => "<" ++ type ++ " object>"
  | .record (.shared _) type es => type ++ "(" ++ commaList (attributeLiterals es) ++ ")"
  | v => atomLiteral v

def literals : List Value → List String
  | [] => []
  | x :: xs => literal x :: literals xs

def entryLiterals : List (String × Value) → List String
  | [] => []
  | (key, v) :: es => (quoted key ++ ": " ++ literal v) :: entryLiterals es

def attributeLiterals : List (String × Value) → List String
  | [] => []
  | (name, v) :: es => (name ++ "=" ++ literal v) :: attributeLiterals es

end

def plainText : Value → String
  | .text s => s
  | .decimal d => d.text
  | .uuid n => uuidText n
  | .datetime t => t.date.text ++ " " ++ t.time.text ++ (t.offset.map DateTime.offsetText).getD ""
  | .date d => d.text
  | .time t offset => t.text ++ (offset.map DateTime.offsetText).getD ""
  | .duration n => Duration.text n
  | .member enumeration name _ _ => enumeration ++ "." ++ name
  | .row model key => model ++ " object (" ++ toString key ++ ")"
  | v => v.literal

/-! ## Values without texts -/

mutual

/-- Whether every whole number in the literal of a value can be written. -/
def hasLiteral : Value → Bool
  | .int n => Number.isWritable n
  | .row _ key => Number.isWritable key
  | .list xs | .tuple xs | .set xs => haveLiterals xs
  | .mapping es => entriesHaveLiterals es
  | .member _ _ _ v => hasLiteral v
  | .record (.shared _) _ es => entriesHaveLiterals es
  | _ => true

def haveLiterals : List Value → Bool
  | [] => true
  | x :: xs => hasLiteral x && haveLiterals xs

def entriesHaveLiterals : List (String × Value) → Bool
  | [] => true
  | (_, x) :: es => hasLiteral x && entriesHaveLiterals es

end

/-- Whether a value has a plain text.  A member of an enumeration is named without its value. -/
def hasPlainText : Value → Bool
  | .member .. => true
  | v => v.hasLiteral

def writePlain (v : Value) : Except Fault String :=
  if v.hasPlainText then .ok v.plainText else .error .badValue

end Value

def Whole.text (n : Whole) : String := n.given.plainText

def Whole.hasText (n : Whole) : Bool := n.given.hasPlainText

end PageQuery
