import PageQuery.Schema.Model
import PageQuery.Schema.Parser
import PageQuery.Store.Cell
import PageQuery.Value.Convert
import PageQuery.Value.Json

/-!
# Columns

A value goes into a cell in two steps.  It is fitted to the type of the column, which is done when a
condition is made or a row is stored, and the fitted value is encoded, which is done when the cell
is needed.  The other way a cell is decoded to the value that a reader of the row sees.  Where
moments are zoned, cells keep them in universal time; otherwise they are naive.
-/

namespace PageQuery

open PageQuery.Text

-- Powers are the core library's own, whatever other instances are in scope.
attribute [local instance (high)] instPowNat

def Reading.fitted {α : Type} (wrap : α → Value) : Reading α → Except Fault Value
  | .value a => .ok (wrap a)
  | _ => .error .invalidValue

namespace ColumnType

/-- The wall clock of an aware moment in universal time. -/
def universal (t : DateTime) : Except Fault DateTime :=
  match t.atOffset? 0 with
  | some t => .ok t
  | none => .error .overflow

/-- A naive moment is universal where moments are zoned. -/
def withZone (zoned : Bool) (t : DateTime) : DateTime :=
  if zoned && !t.isAware then { t with offset := some 0 } else t

/-- A truth value: one that equals true or false, or one of the words for them. -/
def fitBoolean (v : Value) : Except Fault Value :=
  match v.same (.bool true), v.same (.bool false) with
  | .error f, _ | _, .error f => .error f
  | .ok true, _ => .ok (.bool true)
  | _, .ok true => .ok (.bool false)
  | _, _ =>
    if (v.asText?.map ["t", "True", "1"].contains).getD false then .ok (.bool true)
    else if (v.asText?.map ["f", "False", "0"].contains).getD false then .ok (.bool false)
    else .error .invalidValue

/-- A day: that of a moment, in universal time if it has a zone, or one that a text writes. -/
def fitDate (zoned : Bool) (v : Value) : Except Fault Value :=
  match v, v.asText? with
  | .datetime t, _ =>
    if zoned && t.isAware then (universal t).map fun t => .date t.date else .ok (.date t.date)
  | .date d, _ => .ok (.date d)
  | _, some s => (Written.date s).fitted .date
  | _, none => .error .badType

/-- A moment, the midnight of a day, or a moment or day that a text writes. -/
def fitDateTime (zoned : Bool) (v : Value) : Except Fault Value :=
  let midnight (d : Date) : DateTime := { date := d, time := Time.midnight, offset := none }
  let moment (t : DateTime) : Value := .datetime (withZone zoned t)
  match v, v.asText? with
  | .datetime t, _ => .ok (moment t)
  | .date d, _ => .ok (moment (midnight d))
  | _, some s => (Written.dateTimeOrDate s).fitted moment
  | _, none => .error .badType

/-- A time of day, that of a moment, or one that a text writes. -/
def fitTime (v : Value) : Except Fault Value :=
  match v, v.asText? with
  | .time t offset, _ => .ok (.time t offset)
  | .datetime t, _ => .ok (.time t.time none)
  | _, some s => (Written.time s).fitted fun t => .time t none
  | _, none => .error .badType

/-- An identifier, or one that a number or a text denotes. -/
def fitIdentifier (v : Value) : Except Fault Value :=
  let small (n : Int) : Except Fault Value :=
    if 0 ≤ n && n < 2 ^ (128 : Nat) then .ok (.uuid n.toNat) else .error .invalidValue
  match v.bare with
  | .uuid n => .ok (.uuid n)
  | .bool b => small (if b then 1 else 0)
  | .int n => small n
  | .text s =>
    match Parser.readUuid s with
    | some n => .ok (.uuid n)
    | none => .error .invalidValue
  | .bytes _ | .date _ | .datetime _ | .time .. => .error .badType
  | _ => .error .invalidValue

/-- A value that is there, fitted to the type of a column.  Durations and free-form values are
taken as they are. -/
def fit (zoned : Bool) (type : ColumnType) (v : Value) : Except Fault Value :=
  match type with
  | .text => .ok (.text (v.asText?.getD v.plainText))
  | .integer | .natural | .reference => v.toWhole.map .int
  | .float => v.toBinary.map .float
  | .decimal digits _ =>
    match v.toDecimal? digits with
    | some (.finite negative c e) => .ok (.decimal (.finite negative c e))
    | _ => .error .invalidValue
  | .boolean => fitBoolean v
  | .date => fitDate zoned v
  | .dateTime => fitDateTime zoned v
  | .time => fitTime v
  | .uuid => fitIdentifier v
  | .duration | .json => .ok v

/-- A value, which may be absent, fitted to the type of a column. -/
def fit? (zoned : Bool) (type : ColumnType) (v : Value) : Except Fault Value :=
  if v.isNone then .ok .none else type.fit zoned v

/-- The cell of a moment, for which an aware one has to be where moments are zoned. -/
def encodeMoment (zoned : Bool) (t : DateTime) : Except Fault Cell :=
  if !t.isAware then .ok (.moment t.date t.time)
  else if zoned then (universal t).map fun t => .moment t.date t.time
  else .error .badValue

/-- The cell of a fitted value.  An absent value of a free-form column is one as any other. -/
def encode (zoned : Bool) (type : ColumnType) (v : Value) : Except Fault Cell :=
  match type, v with
  | .json, v => v.json.map .text
  | _, .none => .ok .absent
  | .duration, .duration n => .ok (.whole n)
  | .duration, _ => .error .noAttribute
  | _, .text s => .ok (.text s)
  | _, .int n => .ok (.whole n)
  | _, .float x => .ok (Cell.ofBinary x)
  | _, .decimal d => .ok (Cell.ofDecimal d)
  | _, .bool b => .ok (.whole (if b then 1 else 0))
  | _, .date d => .ok (.day d)
  | _, .datetime t => encodeMoment zoned t
  | _, .time t none => .ok (.clock t)
  | _, .time _ (some _) => .error .badValue
  | _, .uuid n => .ok (.identifier n)
  | _, _ => .error .badType

def store (zoned : Bool) (type : ColumnType) (v : Value) : Except Fault Cell :=
  if v.isNone then .ok .absent
  else
    match type.fit zoned v with
    | .error f => .error f
    | .ok v =>
      match type.encode zoned v with
      | .error f => .error f
      | .ok c => c.checked

/-- The decimal number of a cell: fifteen digits of it count. -/
def decimalOf : Cell → Decimal
  | .real x => Decimal.ofBinary Binary64.shortDigits x
  | .whole n => Decimal.ofQuotient Binary64.shortDigits (decide (n < 0)) n.natAbs 1
  | _ => .nan false false 0

def decode (zoned : Bool) (type : ColumnType) (c : Cell) : Except Fault Value :=
  match type, c with
  | _, .absent => .ok .none
  | .decimal digits places, c =>
    match (decimalOf c).fitted? digits places with
    | some d => .ok (.decimal d)
    | none => .error .invalidOperation
  | .boolean, .whole n => .ok (if n = 1 then .bool true else if n = 0 then .bool false else .int n)
  | .duration, .whole n => .ok (.duration n)
  | _, .whole n => .ok (.int n)
  | _, .real x => .ok (.float x)
  | _, .text s => .ok (.text s)
  | _, .identifier n => .ok (.uuid n)
  | _, .day d => .ok (.date d)
  | _, .moment d t => .ok (.datetime (withZone zoned { date := d, time := t, offset := none }))
  | _, .clock t => .ok (.time t none)

/-- The least and the greatest number of a column of numbers. -/
def bounds? : ColumnType → Option (Int × Int)
  | .integer => some (-(2 ^ (63 : Nat)), 2 ^ (63 : Nat) - 1)
  | .natural => some (0, 2 ^ (63 : Nat) - 1)
  | _ => none

end ColumnType
end PageQuery
