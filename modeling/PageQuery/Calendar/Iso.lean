import PageQuery.Calendar.DateTime

/-!
# Standard date and time texts

Readers of the international standard forms: `2022-09-21` and `20220921`, week dates such as
`2022-W38-3`, times with or without colons and with a fraction, and moments made of both with an
offset at the end.  They work on the octets of the text, because the place of the separator between
date and time is found by counting octets.  An octet read past the end of the text is zero.
-/

namespace PageQuery.Iso

open PageQuery

-- Powers are the core library's own, whatever other instances are in scope.
attribute [local instance (high)] instPowNat

def octets (s : String) : List UInt8 :=
  s.toList.flatMap String.utf8EncodeChar

def code (c : Char) : UInt8 := c.val.toUInt8

/-- The value of an octet that is a decimal digit. -/
def digit? (o : UInt8) : Option Nat :=
  if 48 ≤ o && o ≤ 57 then some (o.toNat - 48) else none

def digits? : Nat → Nat → List UInt8 → Option (Nat × List UInt8)
  | 0, value, os => some (value, os)
  | count + 1, value, o :: os => (digit? o).bind fun d => digits? count (10 * value + d) os
  | _ + 1, _, [] => none

def first (os : List UInt8) : UInt8 := os.headD 0

/-- Takes a hyphen off the front where one is required. -/
def hyphen? (required : Bool) (os : List UInt8) : Option (List UInt8) :=
  if required then (if first os = code '-' then some (os.drop 1) else none) else some os

/-- Reads the day of a week date; it is Monday when nothing more stands. -/
def weekDay? (hyphens : Bool) (os : List UInt8) : Option Nat :=
  if os.isEmpty then some 1
  else (hyphen? hyphens os).bind fun os => (digits? 1 0 os).map (·.1)

/-- Reads a date at the head of a text; whatever follows it is not looked at. -/
def date? (os : List UInt8) : Option Date := do
  let (year, os) ← digits? 4 0 os
  let hyphens := first os == code '-'
  let os := if hyphens then os.drop 1 else os
  if first os = code 'W' then
    let (week, os) ← digits? 2 0 (os.drop 1)
    let day ← weekDay? hyphens os
    Date.ofWeek? year week day
  else
    let (month, os) ← digits? 2 0 os
    let os ← hyphen? hyphens os
    let (day, _) ← digits? 2 0 os
    Date.make? year month day

/-- Reads a text as a date.  Only texts of seven, eight or ten octets are dates; two octets may
stand behind a date without hyphens. -/
def readDate (s : String) : Option Date :=
  let os := octets s
  if os.length = 7 || os.length = 8 || os.length = 10 then date? os else none

/-- The fields of a clock reading, and whether octets were left over behind it. -/
structure Clock where
  hour : Nat
  minute : Nat
  second : Nat
  microsecond : Nat
  leftover : Bool

/-- Reads the fraction of a second: up to six digits count, further ones are passed over.  `after`
is the octet behind the clock text. -/
def fraction? (after : UInt8) (os : List UInt8) : Option (Nat × Bool) :=
  let count := min 6 os.length
  (digits? count 0 os).map fun (value, os) =>
    let os := os.dropWhile fun o => (digit? o).isSome
    (value * 10 ^ (6 - count), os.headD after != 0)

/-- Reads the clock from the `index`-th of hour, minute and second on; `fields` are the ones read so
far.  The octet behind the hour decides whether colons are used throughout. -/
def clockFrom (after : UInt8) (colons : Bool) (fields : List Nat) :
    Nat → List UInt8 → Option (List Nat × Nat × Bool)
  | 0, os => (fraction? after os).map fun (micro, leftover) => (fields, micro, leftover)
  | left + 1, os =>
    match digits? 2 0 os with
    | none => none
    | some (value, rest) =>
      let fields := fields ++ [value]
      let next := rest.headD after
      let colons := if left = 2 then next == code ':' else colons
      match rest with
      | [] | [_] => some (fields, 0, next != 0)
      | _ :: rest' =>
        if colons && next = code ':' then clockFrom after colons fields left rest'
        else if next = code '.' || next = code ',' then
          (fraction? after rest').map fun (micro, leftover) => (fields, micro, leftover)
        else if colons then none
        else clockFrom after colons fields left rest

/-- Reads a clock: hour, then optionally minute, second and fraction. -/
def clock? (after : UInt8) (os : List UInt8) : Option Clock :=
  (clockFrom after false [] 3 os).map fun (fields, micro, leftover) =>
    ⟨fields.getD 0 0, fields.getD 1 0, fields.getD 2 0, micro, leftover⟩

def beginsOffset (o : UInt8) : Bool :=
  o == code '+' || o == code '-' || o == code 'Z'

/-- A whole day in microseconds, the bound on offsets. -/
def day : Int := Time.microsPerDay

/-- Reads an offset from universal time of less than a day.  One of less than a second counts as
none. -/
def offset? (os : List UInt8) : Option Int :=
  match os with
  | [] => none
  | sign :: os =>
    if sign = code 'Z' then (if first os = 0 then some 0 else none)
    else
      match clock? 0 os with
      | none => none
      | some c =>
        if c.leftover then none
        else
          let seconds := (c.hour * 60 + c.minute) * 60 + c.second
          let size : Int := seconds * 1000000 + c.microsecond
          let offset := if sign = code '-' then -size else size
          if seconds = 0 then some 0
          else if -day < offset && offset < day then some offset else none

def timeAndOffset? (os : List UInt8) : Option (Time × Option Int) := do
  let body := os.takeWhile fun o => !beginsOffset o
  let tail := os.dropWhile fun o => !beginsOffset o
  let c ← clock? (first tail) body
  if tail.isEmpty then
    if c.leftover then none
    else (Time.make? c.hour c.minute c.second c.microsecond).map fun t => (t, none)
  else
    let offset ← offset? tail
    (Time.make? c.hour c.minute c.second c.microsecond).map fun t => (t, some offset)

/-- Reads a time of day that is the whole text.  A `T` may stand in front, and an offset behind it
is dropped. -/
def readTime (s : String) : Option Time :=
  let os := octets s
  (timeAndOffset? (if first os = code 'T' then os.drop 1 else os)).map (·.1)

def isDigitAt (os : List UInt8) (i : Nat) : Bool :=
  (digit? (os.getD i 0)).isSome

/-- Where the date ends in a text of at least eight octets that begins with a year and a hyphen. -/
def hyphenatedEnd (os : List UInt8) : Option Nat :=
  if os.getD 5 0 = code 'W' then
    if os.getD 8 0 = code '-' then
      if os.length = 9 then none
      else if 10 < os.length && isDigitAt os 10 then some 8 else some 10
    else some 8
  else some 10

/-- Where the date ends in a text of at least eight octets that begins with a year and no hyphen.
After a week number the run of digits decides whether it holds a day of the week. -/
def compactEnd (os : List UInt8) : Nat :=
  if os.getD 4 0 = code 'W' then
    let stop := 7 + ((os.drop 7).takeWhile fun o => (digit? o).isSome).length
    if stop < 9 then stop else if stop % 2 = 0 then 7 else 8
  else 8

def dateEnd (os : List UInt8) : Option Nat :=
  if os.length < 7 then none
  else if os.length = 7 then some 7
  else if os.getD 4 0 = code '-' then hyphenatedEnd os
  else some (compactEnd os)

/-- How many octets the character beginning with an octet takes. -/
def charWidth (o : UInt8) : Nat :=
  if o < 0x80 then 1 else if o < 0xE0 then 2 else if o < 0xF0 then 3 else 4

/-- Reads a moment: a date, then any one character and a time with an optional offset. -/
def readDateTime (s : String) : Option DateTime := do
  let os := octets s
  let stop ← dateEnd os
  let date ← date? (os.take stop)
  match os.drop stop with
  | [] => some { date, time := Time.midnight, offset := none }
  | o :: rest =>
    let (time, offset) ← timeAndOffset? ((o :: rest).drop (charWidth o))
    some { date, time, offset }

end PageQuery.Iso
