import PageQuery.Calendar.Iso
import PageQuery.Text.Digit

/-!
# Dates and times as people write them

A text is first read in its standard form.  If it has none, a looser form is tried: digits of any
script, months, days, hours and minutes of one or two digits, a blank between date and time, blanks
before the offset, and one line break at the end.  A text in the looser form that names no day or
time of the calendar is an error of its own, told apart from a text of no known form.
-/

namespace PageQuery

open PageQuery.Text

-- Powers are the core library's own, whatever other instances are in scope.
attribute [local instance (high)] instPowNat

/-- What became of reading a text. -/
inductive Reading (α : Type) where
  | value (a : α)
  | impossible
  | unreadable
  deriving Repr

namespace Reading

/-- A looser form that was found: its value, or an impossible one. -/
def ofFound {α : Type} : Option α → Reading α
  | some a => .value a
  | none => .impossible

/-- The reading of another text form, tried when none was found. -/
def orElse {α : Type} (r : Reading α) (other : Unit → Reading α) : Reading α :=
  match r with
  | .unreadable => other ()
  | r => r

def map {α β : Type} (f : α → β) : Reading α → Reading β
  | .value a => .value (f a)
  | .impossible => .impossible
  | .unreadable => .unreadable

end Reading

namespace Written

/-- Takes digits off the front, at least `low` and at most `high` of them. -/
def digits? (low high : Nat) (cs : List Char) : Option (List Char × List Char) :=
  let run := (cs.take high).takeWhile isDigit
  if run.length < low then none else some (run, cs.drop run.length)

def char? (c : Char) : List Char → Option (List Char)
  | [] => none
  | d :: cs => if c = d then some cs else none

/-- Whether nothing stands any more, or only a line break. -/
def atEnd (cs : List Char) : Bool :=
  cs == [] || cs == ['\n']

/-- Year, month and day with hyphens between them. -/
def dateFields? (cs : List Char) : Option ((Nat × Nat × Nat) × List Char) := do
  let (year, cs) ← digits? 4 4 cs
  let cs ← char? '-' cs
  let (month, cs) ← digits? 1 2 cs
  let cs ← char? '-' cs
  let (day, cs) ← digits? 1 2 cs
  some ((digitsValue year, digitsValue month, digitsValue day), cs)

/-- The microseconds that the digits of a fraction write; only the first six count. -/
def microsOf (digits : List Char) : Nat :=
  digitsValue (digits.take 6) * 10 ^ (6 - digits.length)

/-- The fraction of a second, if one stands; at most twelve digits. -/
def fraction (cs : List Char) : Nat × List Char :=
  match cs with
  | c :: rest =>
    if c = '.' || c = ',' then
      match digits? 1 12 rest with
      | some (ds, rest) => (microsOf ds, rest)
      | none => (0, cs)
    else (0, cs)
  | [] => (0, cs)

def seconds (cs : List Char) : (Nat × Nat) × List Char :=
  match (char? ':' cs).bind (digits? 1 2) with
  | some (ds, rest) =>
    let (micro, rest) := fraction rest
    ((digitsValue ds, micro), rest)
  | none => ((0, 0), cs)

/-- Hours and minutes with a colon between them, then optional seconds. -/
def timeFields? (cs : List Char) : Option ((Nat × Nat × Nat × Nat) × List Char) := do
  let (hour, cs) ← digits? 1 2 cs
  let cs ← char? ':' cs
  let (minute, cs) ← digits? 1 2 cs
  let ((second, micro), cs) := seconds cs
  some ((digitsValue hour, digitsValue minute, second, micro), cs)

/-- What stands for the zone at the end of a moment. -/
inductive Zone where
  | none
  | universal
  | minutes (m : Int)

/-- The zone at the end of a moment: nothing, `Z`, or a sign with hours and optional minutes. -/
def zone? (cs : List Char) : Option Zone :=
  match cs.dropWhile isBlankChar with
  | [] => some .none
  | sign :: cs =>
    if sign = 'Z' then (if atEnd cs then some .universal else none)
    else if sign = '+' || sign = '-' then
      match digits? 2 2 cs with
      | none => none
      | some (hours, cs) =>
        let signed (minutes : Nat) : Int := if sign = '-' then -minutes else minutes
        if atEnd cs then some (.minutes (signed (60 * digitsValue hours)))
        else
          match digits? 2 2 ((char? ':' cs).getD cs) with
          | none => none
          | some (minutes, cs) =>
            if atEnd cs then some (.minutes (signed (60 * digitsValue hours + digitsValue minutes)))
            else none
    else none

def looseDate (s : String) : Reading Date :=
  match dateFields? s.toList with
  | some ((year, month, day), rest) =>
    if atEnd rest then .ofFound (Date.make? year month day) else .unreadable
  | none => .unreadable

def looseTime (s : String) : Reading Time :=
  match timeFields? s.toList with
  | some ((hour, minute, second, micro), rest) =>
    if atEnd rest then .ofFound (Time.make? hour minute second micro) else .unreadable
  | none => .unreadable

/-- The looser form of a moment, taken apart. -/
def dateTimeFields? (cs : List Char) :
    Option ((Nat × Nat × Nat) × (Nat × Nat × Nat × Nat) × Zone) := do
  let (date, cs) ← dateFields? cs
  let cs ← (char? 'T' cs).orElse fun _ => char? ' ' cs
  let (time, cs) ← timeFields? cs
  let zone ← zone? cs
  some (date, time, zone)

/-- The moment of the fields, if there is such a day and time and the offset is below a day. -/
def dateTimeOf? : (Nat × Nat × Nat) × (Nat × Nat × Nat × Nat) × Zone → Option DateTime
  | ((year, month, day), (hour, minute, second, micro), zone) => do
    let date ← Date.make? year month day
    let time ← Time.make? hour minute second micro
    match zone with
    | .none => some { date, time, offset := none }
    | .universal => some { date, time, offset := some 0 }
    | .minutes m =>
      if m.natAbs < 1440 then
        some { date, time, offset := some (m * 60000000), labelled := true }
      else none

def looseDateTime (s : String) : Reading DateTime :=
  match dateTimeFields? s.toList with
  | some fields => .ofFound (dateTimeOf? fields)
  | none => .unreadable

def date (s : String) : Reading Date :=
  match Iso.readDate s with
  | some d => .value d
  | none => looseDate s

def time (s : String) : Reading Time :=
  match Iso.readTime s with
  | some t => .value t
  | none => looseTime s

def dateTime (s : String) : Reading DateTime :=
  match Iso.readDateTime s with
  | some t => .value t
  | none => looseDateTime s

/-- Reads a moment; a bare date is its midnight. -/
def dateTimeOrDate (s : String) : Reading DateTime :=
  (dateTime s).orElse fun _ =>
    (date s).map fun d => { date := d, time := Time.midnight, offset := none }

/-- Reads a date; of a moment its day is taken. -/
def dateOrDateTime (s : String) : Reading Date :=
  (date s).orElse fun _ => (dateTime s).map (·.date)

end Written
end PageQuery
