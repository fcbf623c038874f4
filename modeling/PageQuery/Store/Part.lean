import PageQuery.Calendar.DateTime
import PageQuery.Schema.Model
import PageQuery.Store.Cell

/-!
# Parts of days, moments and times

A condition may ask for a part of what a cell holds: the year of a day, the hour of a moment, the
day of a moment.  The parts of a moment are those of the local clock.  Weeks begin on Monday, and
the first week of a year is the one that holds its first Thursday.
-/

namespace PageQuery

namespace Date

/-- The Thursday of the week of a day, which tells the year that the week belongs to. -/
def thursday (d : Date) : Date :=
  ofOrdinal (d.ordinal + 3 - d.weekday)

/-- The number of a day's week in the year that the week belongs to. -/
def week (d : Date) : Nat :=
  let t := d.thursday
  (daysBeforeMonth t.year t.month + t.day - 1) / 7 + 1

end Date

/-- A part of a day, a moment or a time of day. -/
inductive Part where
  | year
  | weekYear
  | quarter
  | month
  | week
  | day
  /-- The day of the week, Sunday being the first. -/
  | dayFromSunday
  /-- The day of the week, Monday being the first. -/
  | dayFromMonday
  | hour
  | minute
  | second
  | date
  | time
  deriving DecidableEq, Repr

namespace Part

def word : Part → String
  | year => "year"
  | weekYear => "iso_year"
  | quarter => "quarter"
  | month => "month"
  | week => "week"
  | day => "day"
  | dayFromSunday => "week_day"
  | dayFromMonday => "iso_week_day"
  | hour => "hour"
  | minute => "minute"
  | second => "second"
  | date => "date"
  | time => "time"

def ofDay : List Part :=
  [year, weekYear, quarter, month, week, day, dayFromSunday, dayFromMonday]

def ofClock : List Part := [hour, minute, second]

def ofType : ColumnType → List Part
  | .date => ofDay
  | .dateTime => ofDay ++ ofClock ++ [date, time]
  | .time => ofClock
  | _ => []

def named? (type : ColumnType) (word : String) : Option Part :=
  (ofType type).find? (·.word == word)

def type : Part → ColumnType
  | date => .date
  | time => .time
  | _ => .integer

def isYear (p : Part) : Bool :=
  p = year || p = weekYear

def takeDay (d : Date) : Part → Cell
  | year => .whole d.year
  | weekYear => .whole d.thursday.year
  | quarter => .whole ((d.month + 2) / 3)
  | month => .whole d.month
  | week => .whole d.week
  | day => .whole d.day
  | dayFromSunday => .whole ((d.weekday + 1) % 7 + 1)
  | dayFromMonday => .whole (d.weekday + 1)
  | date => .day d
  | _ => .absent

def takeClock (t : Time) : Part → Cell
  | hour => .whole t.hour
  | minute => .whole t.minute
  | second => .whole t.second
  | time => .clock t
  | _ => .absent

/-- A part of what a cell holds, where the local clock is ahead of that of the store. -/
def take (ahead : Int) (p : Part) : Cell → Cell
  | .day d => p.takeDay d
  | .clock t => p.takeClock t
  | .moment d t =>
    let kept : DateTime := { date := d, time := t, offset := none }
    match DateTime.ofWall? (kept.wall + ahead) none with
    | none => .absent
    | some t => if (ofClock ++ [time]).contains p then p.takeClock t.time else p.takeDay t.date
  | _ => .absent

end Part
end PageQuery
