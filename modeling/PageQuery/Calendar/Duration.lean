import PageQuery.Calendar.Time
import PageQuery.Calendar.Written
import PageQuery.Number.Binary

/-!
# Durations

A duration is a whole number of microseconds.  Three text forms are read: days and a clock
(`3 days, 10:30:00.5`), the international form (`P3DT10H30M`), and days followed by a signed clock
(`3 days -10:30:00`).  Each number of a text becomes a binary floating-point number first, so a
fraction of a day or an hour is as exact as that format allows and no more.
-/

namespace PageQuery.Duration

open PageQuery PageQuery.Text

/-- The bounds of a duration: 999999999 days back, and just under one day more ahead. -/
def inRange? (micros : Int) : Option Int :=
  let limit : Int := 999999999 * Time.microsPerDay
  if -limit ≤ micros && micros < limit + Time.microsPerDay then some micros else none

/-- The fraction `n / d` after rounding to a binary floating-point number. -/
def nearest (n d : Nat) : Nat × Nat :=
  match Binary64.ofRatio false n d with
  | .finite _ m e => Binary64.ratio m e
  | _ => (0, 1)

/-- Microseconds added up so far: whole ones, and a fraction that was left over. -/
structure Sum where
  whole : Nat
  leftover : Nat × Nat

/-- Adds a number of units of `unit` microseconds.  The fraction of a unit is turned into
microseconds with one rounding, and what is left of a microsecond is collected. -/
def Sum.add (s : Sum) (unit : Nat) : Binary64 → Option Sum
  | .finite _ m e =>
    let (n, d) := Binary64.ratio m e
    let whole := s.whole + n / d * unit
    let (p, q) := nearest (n % d * unit) d
    let (a, b) := s.leftover
    some ⟨whole + p / q, nearest (a * q + p % q * b) (b * q)⟩
  | _ => none

/-- The number of microseconds of a sum, the fraction rounded to even. -/
def Sum.total (s : Sum) : Nat :=
  let (n, d) := s.leftover
  Binary64.roundHalfEven (s.whole * d + n) d

/-- The numbers of a duration text; each is absent or a text of digits with an optional point. -/
structure Parts where
  negative : Bool := false
  negativeDays : Bool := false
  days : Option (List Char) := none
  hours : Option (List Char) := none
  minutes : Option (List Char) := none
  seconds : Option (List Char) := none
  micros : Option (List Char) := none

def addText (unit : Nat) (text : Option (List Char)) (s : Sum) : Option Sum :=
  match text with
  | none => some s
  | some cs => (Binary64.read (String.ofList cs)).bind (s.add unit)

/-- The duration of the parts: the days with a sign of their own, the rest with the common sign. -/
def total? (p : Parts) : Option Int := do
  let zero : Sum := ⟨0, (0, 1)⟩
  let days ← addText Time.microsPerDay p.days zero
  let days ← inRange? (if p.negativeDays then -(days.total : Int) else days.total)
  let rest ← addText 1 p.micros zero
  let rest ← addText 1000000 p.seconds rest
  let rest ← addText 60000000 p.minutes rest
  let rest ← addText 3600000000 p.hours rest
  let rest ← inRange? rest.total
  let rest ← inRange? (if p.negative then -rest else rest)
  inRange? (days + rest)

/-- Takes the digits off the front; there has to be one at least. -/
def digits1? (cs : List Char) : Option (List Char × List Char) :=
  Written.digits? 1 cs.length cs

def word? (word : String) (cs : List Char) : Option (List Char) :=
  if word.toList.isPrefixOf cs then some (cs.drop word.length) else none

/-- Takes a word off the front if it stands there. -/
def skip (word : String) (cs : List Char) : List Char :=
  (word? word cs).getD cs

/-- A signed number of days and the blank behind it. -/
def days? (cs : List Char) : Option (Bool × List Char × List Char) := do
  let (negative, cs) := match cs with
    | '-' :: cs => (true, cs)
    | cs => (false, cs)
  let (days, cs) ← digits1? cs
  let cs ← Written.char? ' ' cs
  some (negative, days, cs)

/-- The six digits of a fraction, filled up with zeros. -/
def sixDigits (digits : List Char) : List Char :=
  let kept := digits.take 6
  kept ++ List.replicate (6 - kept.length) '0'

/-- The fraction behind the seconds, if it stands, with at most `most` digits. -/
def fractionDigits (points : List Char) (most : Nat) (cs : List Char) :
    Option (List Char) × List Char :=
  match cs with
  | c :: rest =>
    if points.contains c then
      match Written.digits? 1 most rest with
      | some (ds, rest) => (some (sixDigits ds), rest)
      | none => (none, cs)
    else (none, cs)
  | [] => (none, cs)

def field? (cs : List Char) : Option (List Char × List Char) := do
  let (digits, cs) ← digits1? cs
  let cs ← Written.char? ':' cs
  some (digits, cs)

/-- Whether two numbers with a colon between them stand in front. -/
def twoFields (cs : List Char) : Bool :=
  ((field? cs).bind fun (_, cs) => digits1? cs).isSome

/-- Hours, minutes and seconds, of which the former two may be missing. -/
def clock? (p : Parts) (cs : List Char) : Option Parts := do
  let (hours, cs) := match field? cs with
    | some (digits, rest) => if twoFields rest then (some digits, rest) else (none, cs)
    | none => (none, cs)
  let (minutes, cs) := match field? cs with
    | some (digits, rest) => (some digits, rest)
    | none => (none, cs)
  let (seconds, cs) ← digits1? cs
  let (micros, cs) := fractionDigits ['.', ','] 12 cs
  if Written.atEnd cs then
    some { p with hours := hours, minutes := minutes, seconds := some seconds, micros := micros }
  else none

def standard? (cs : List Char) : Option Parts :=
  let (p, cs) := match days? cs with
    | some (negative, days, rest) =>
      ({ negativeDays := negative, days := some days : Parts },
        (word? "days, " rest).getD (skip "day, " rest))
    | none => ({}, cs)
  match cs with
  | '-' :: rest => clock? { p with negative := true } rest
  | _ => clock? p cs

/-- A number with an optional fraction before the letter of its unit; the fraction may follow a
point or a comma. -/
def unit? (letter : Char) (cs : List Char) : Option (List Char) × List Char :=
  let found : Option (List Char × List Char) := do
    let (whole, rest) ← digits1? cs
    let (number, rest) := match rest with
      | c :: tail =>
        if c = '.' || c = ',' then
          match digits1? tail with
          | some (ds, tail) => (whole ++ '.' :: ds, tail)
          | none => (whole, rest)
        else (whole, rest)
      | [] => (whole, rest)
    let rest ← Written.char? letter rest
    some (number, rest)
  match found with
  | some (number, rest) => (some number, rest)
  | none => (none, cs)

def international? (cs : List Char) : Option Parts := do
  let (negative, cs) := Number.takeSign cs
  let cs ← Written.char? 'P' cs
  let (days, cs) := unit? 'D' cs
  let p : Parts := { negative := negative, negativeDays := negative, days := days }
  match Written.char? 'T' cs with
  | none => if Written.atEnd cs then some p else none
  | some cs =>
    let (hours, cs) := unit? 'H' cs
    let (minutes, cs) := unit? 'M' cs
    let (seconds, cs) := unit? 'S' cs
    if Written.atEnd cs then
      some { p with hours := hours, minutes := minutes, seconds := seconds }
    else none

/-- A clock of hours and two digits each of minutes and seconds. -/
def fullClock? (p : Parts) (cs : List Char) : Option Parts := do
  let (hours, cs) ← field? cs
  let (minutes, cs) ← Written.digits? 2 2 cs
  let cs ← Written.char? ':' cs
  let (seconds, cs) ← Written.digits? 2 2 cs
  let (micros, cs) := fractionDigits ['.'] 6 cs
  if Written.atEnd cs then
    some { p with
      hours := some hours, minutes := some minutes, seconds := some seconds, micros := micros }
  else none

/-- The form of days followed by a signed clock, each of which may be missing. -/
def interval? (cs : List Char) : Option Parts :=
  let plain : Parts × List Char := ({}, cs)
  let (p, cs) := match days? cs with
    | some (negative, days, rest) =>
      match word? "day" rest with
      | some rest => ({ negativeDays := negative, days := some days }, skip " " (skip "s" rest))
      | none => plain
    | none => plain
  if Written.atEnd cs then some p
  else
    let (negative, cs) := Number.takeSign cs
    fullClock? { p with negative := negative } cs

/-- Reads a duration in microseconds; the three forms are tried in turn. -/
def read (s : String) : Option Int :=
  let cs := s.toList
  ((standard? cs).orElse fun _ => (international? cs).orElse fun _ => interval? cs).bind total?

end PageQuery.Duration
