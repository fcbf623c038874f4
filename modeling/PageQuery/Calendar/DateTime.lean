import PageQuery.Calendar.Date
import PageQuery.Calendar.Time

/-!
# Moments

A moment is a date and a time of day, read off a clock on the wall.  A naive moment says no more; an
aware one also carries the offset of that clock from universal time.  Two aware moments are compared
as instants, two naive ones by their wall clocks, and a naive one cannot be compared with an aware
one: `align` brings a bound to the awareness of the value that it is compared with.
-/

namespace PageQuery

open PageQuery.Text

/-- A moment; the offset from universal time is in microseconds east.  A zone that was written as a
sign and minutes keeps that label, which only a literal of the moment shows. -/
structure DateTime where
  date : Date
  time : Time
  offset : Option Int
  labelled : Bool := false
  deriving DecidableEq, Repr

namespace DateTime

def isAware (t : DateTime) : Bool :=
  t.offset.isSome

/-- The wall clock as microseconds since the beginning of year 1. -/
def wall (t : DateTime) : Int :=
  ((t.date.ordinal : Int) - 1) * Time.microsPerDay + t.time.micros

/-- The moment of a wall clock, if it lies within the years 1 to 9999. -/
def ofWall? (wall : Int) (offset : Option Int) : Option DateTime :=
  (Date.ofOrdinal? (wall / Time.microsPerDay + 1)).map fun date =>
    { date, time := Time.ofMicros (wall % Time.microsPerDay).toNat, offset }

/-- Microseconds of universal time since the beginning of year 1; the clock of a naive moment counts
as universal. -/
def instant (t : DateTime) : Int :=
  t.wall - t.offset.getD 0

/-- The same instant on a clock at `offset`.  The step through universal time has to stay within the
years 1 to 9999 as well. -/
def atOffset? (offset : Int) (t : DateTime) : Option DateTime :=
  match ofWall? t.instant (some 0) with
  | none => none
  | some _ => ofWall? (t.instant + offset) (some offset)

/-- The order of two moments of the same awareness. -/
def order? (a b : DateTime) : Option Ordering :=
  if a.isAware = b.isAware then some (compare a.instant b.instant) else none

/-- A bound brought to the awareness of a value: a naive bound is read at the value's offset, an
aware one becomes the naive local time at the offset `zone`. -/
def align? (zone : Int) (bound value : DateTime) : Option DateTime :=
  match value.offset, bound.offset with
  | some offset, none => some { bound with offset := some offset, labelled := value.labelled }
  | none, some _ => (bound.atOffset? zone).map fun shifted => { shifted with offset := none }
  | _, _ => some bound

/-- The text of an offset: sign, hours and minutes, then seconds and their fraction unless zero. -/
def offsetText (offset : Int) : String :=
  let t := Time.ofMicros offset.natAbs
  (if offset < 0 then "-" else "+") ++ padZeros 2 (toString t.hour) ++ ":" ++
    padZeros 2 (toString t.minute) ++
    (if t.second = 0 && t.microsecond = 0 then "" else ":" ++ padZeros 2 (toString t.second)) ++
    (if t.microsecond = 0 then "" else "." ++ padZeros 6 (toString t.microsecond))

/-- The text of a moment: the date, a `T`, the time and the offset of an aware one. -/
def text (t : DateTime) : String :=
  t.date.text ++ "T" ++ t.time.text ++ (t.offset.map offsetText).getD ""

end DateTime
end PageQuery
