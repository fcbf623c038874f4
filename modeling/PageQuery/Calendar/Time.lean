import PageQuery.Text.Blank

/-!
# Times of day

A time of day is exact to the microsecond and may be counted as microseconds since midnight.
-/

namespace PageQuery

open PageQuery.Text

/-- A time of day. -/
structure Time where
  hour : Nat
  minute : Nat
  second : Nat
  microsecond : Nat
  deriving DecidableEq, Repr

namespace Time

def midnight : Time := ⟨0, 0, 0, 0⟩

def microsPerDay : Nat := 86400000000

/-- Whether the four numbers name a time of day. -/
def isValid (t : Time) : Bool :=
  t.hour < 24 && t.minute < 60 && t.second < 60 && t.microsecond < 1000000

def make? (hour minute second microsecond : Nat) : Option Time :=
  let t : Time := ⟨hour, minute, second, microsecond⟩
  if t.isValid then some t else none

def micros (t : Time) : Nat :=
  ((t.hour * 60 + t.minute) * 60 + t.second) * 1000000 + t.microsecond

/-- The time of day that lies `n` microseconds after midnight. -/
def ofMicros (n : Nat) : Time :=
  let seconds := n / 1000000
  ⟨seconds / 3600, seconds / 60 % 60, seconds % 60, n % 1000000⟩

/-- Hours, minutes and seconds with colons, and six digits of a second unless they are all zero. -/
def text (t : Time) : String :=
  padZeros 2 (toString t.hour) ++ ":" ++ padZeros 2 (toString t.minute) ++ ":" ++
    padZeros 2 (toString t.second) ++
    (if t.microsecond = 0 then "" else "." ++ padZeros 6 (toString t.microsecond))

end Time
end PageQuery
