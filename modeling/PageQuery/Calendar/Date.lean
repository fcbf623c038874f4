import PageQuery.Text.Blank

/-!
# Dates

Days of the Gregorian calendar, extended over the years 1 to 9999.  A date is counted by its
ordinal, the number of days up to and including it since the first day of year 1, so that
durations and time zone shifts become arithmetic on whole numbers.
-/

namespace PageQuery

open PageQuery.Text

/-- A day of the calendar. -/
structure Date where
  year : Nat
  month : Nat
  day : Nat
  deriving DecidableEq, Repr

namespace Date

/-- Every fourth year is a leap year, except for full centuries that are not divisible by 400. -/
def isLeap (year : Nat) : Bool :=
  year % 4 == 0 && (year % 100 != 0 || year % 400 == 0)

def daysInMonth (year month : Nat) : Nat :=
  if month = 2 then (if isLeap year then 29 else 28)
  else if month = 4 || month = 6 || month = 9 || month = 11 then 30
  else 31

/-- The number of days from the first day of year 1 to the last one before `year`. -/
def daysBeforeYear (year : Nat) : Nat :=
  let y := year - 1
  365 * y + y / 4 - y / 100 + y / 400

def daysBeforeMonth (year : Nat) : Nat → Nat
  | 0 => 0
  | 1 => 0
  | month + 1 => daysBeforeMonth year month + daysInMonth year month

/-- Whether the three numbers name a day of the years 1 to 9999. -/
def isValid (d : Date) : Bool :=
  1 ≤ d.year && d.year ≤ 9999 && 1 ≤ d.month && d.month ≤ 12 &&
    1 ≤ d.day && d.day ≤ daysInMonth d.year d.month

def make? (year month day : Nat) : Option Date :=
  let d : Date := ⟨year, month, day⟩
  if d.isValid then some d else none

/-- The number of days up to and including a date since the first day of year 1. -/
def ordinal (d : Date) : Nat :=
  daysBeforeYear d.year + daysBeforeMonth d.year d.month + d.day

/-- The ordinal of the last day of year 9999. -/
def maxOrdinal : Nat := 3652059

/-- Splits the day of a year, counted from zero, into month and day, beginning at `month`. -/
def monthAndDay (year : Nat) : Nat → Nat → Nat → Nat × Nat
  | 0, month, rest => (month, rest + 1)
  | left + 1, month, rest =>
    if rest < daysInMonth year month then (month, rest + 1)
    else monthAndDay year left (month + 1) (rest - daysInMonth year month)

/-- The date of an ordinal.  Years repeat every 400; within such a cycle the last year of the cycle,
of a four-year group and of a century take up the odd days. -/
def ofOrdinal (n : Nat) : Date :=
  let n := n - 1
  let cycle := n / 146097
  let rest := n % 146097
  let century := min 3 (rest / 36524)
  let rest := rest - 36524 * century
  let group := rest / 1461
  let rest := rest % 1461
  let single := min 3 (rest / 365)
  let year := 400 * cycle + 100 * century + 4 * group + single + 1
  let (month, day) := monthAndDay year 11 1 (rest - 365 * single)
  ⟨year, month, day⟩

/-- The date of an ordinal within the years 1 to 9999. -/
def ofOrdinal? (n : Int) : Option Date :=
  if 1 ≤ n && n ≤ maxOrdinal then some (ofOrdinal n.toNat) else none

/-- The day of the week, Monday being zero. -/
def weekday (d : Date) : Nat :=
  (d.ordinal + 6) % 7

/-- Whether a year has a fifty-third week: its first day is a Thursday, or it is a leap year that
begins on a Wednesday. -/
def hasLongYear (year : Nat) : Bool :=
  let first := weekday ⟨year, 1, 1⟩
  first == 3 || (first == 2 && isLeap year)

/-- The date of a day of a week of a year.  Weeks begin on Monday, and the first week of a year is
the one that holds its first Thursday. -/
def ofWeek? (year week day : Nat) : Option Date :=
  if year = 0 || week = 0 || 53 < week || (week = 53 && !hasLongYear year) ||
      day = 0 || 7 < day then none
  else
    let first : Date := ⟨year, 1, 1⟩
    let monday : Int := (first.ordinal : Int) - first.weekday
    let monday := if first.weekday > 3 then monday + 7 else monday
    ofOrdinal? (monday + 7 * ((week : Int) - 1) + ((day : Int) - 1))

/-- The text of a date: year, month and day with hyphens between them. -/
def text (d : Date) : String :=
  padZeros 4 (toString d.year) ++ "-" ++ padZeros 2 (toString d.month) ++ "-" ++
    padZeros 2 (toString d.day)

def order (a b : Date) : Ordering :=
  (compare a.year b.year).then ((compare a.month b.month).then (compare a.day b.day))

end Date
end PageQuery
