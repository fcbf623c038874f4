import PageQuery.Store.Place

/-!
# Tests

A lookup is prepared for a model before any row is read: its names are resolved to a column and a
comparison, and its value is fitted to the column.  Whatever is wrong with the names or the value
comes up here.  An equality with nothing asks whether the cell is missing; every other comparison
needs a value.
-/

namespace PageQuery

/-- A comparison with a fitted value: of the column at a place, or of a part of what it holds. -/
structure Test where
  place : Place
  parts : List Part
  comparison : Comparison
  value : Value

namespace Test

/-- Whether the key of a related row can be compared in a way. -/
def isForKeys : Comparison → Bool
  | .equal | .above | .atLeast | .below | .atMost | .among | .missing => true
  | _ => false

def comparison? (type : ColumnType) (word : String) : Option Comparison :=
  (Comparison.named? word).filter fun c => type != .reference || isForKeys c

/-- The parts and the comparison that the names behind a column of a type ask for: the last name
may be that of a comparison. -/
def asked (type : ColumnType) : List String → Except Fault (List Part × Comparison)
  | [] => .ok ([], .equal)
  | word :: rest =>
    match rest, comparison? type word, Part.named? type word with
    | [], some c, _ => .ok ([], c)
    | _, _, none => .error .unknownColumn
    | _, _, some p => (asked p.type rest).map fun (ps, c) => (p :: ps, c)

/-- The parts that the names behind a column of a type ask for. -/
def orderParts (type : ColumnType) : List String → Option (List Part)
  | [] => some []
  | word :: rest =>
    (Part.named? type word).bind fun p => (orderParts p.type rest).map (p :: ·)

def partType (type : ColumnType) (parts : List Part) : ColumnType :=
  (parts.getLast?.map Part.type).getD type

/-- Whether years are compared, for which a bound is no number but a year. -/
def isYearly (parts : List Part) (comparison : Comparison) : Bool :=
  (parts.getLast?.map Part.isYear).getD false &&
    [Comparison.equal, .above, .atLeast, .below, .atMost].contains comparison

/-- What is compared with a key: of several values the first. -/
def keyOf : Value → Except Fault Value
  | .tuple [] => .error .noItem
  | .tuple (v :: _) => .ok v
  | v => .ok v

/-- A number with a fraction is rounded up where whole numbers are compared with it as a bound that
they reach or stay below. -/
def boundOf (type : ColumnType) (comparison : Comparison) (v : Value) : Except Fault Value :=
  match v with
  | .float x =>
    if type.bounds?.isSome && (comparison = .atLeast || comparison = .below) then
      match x.ceil? with
      | some n => .ok (.int n)
      | none => (Value.truncated x).map .int
    else .ok v
  | v => .ok v

/-- A value, which may be absent, fitted to a column that is compared with it. -/
def operand (zoned : Bool) (type : ColumnType) (comparison : Comparison) (v : Value) :
    Except Fault Value := do
  let v ← if type = .reference then keyOf v else .ok v
  let v ← boundOf type comparison v
  type.fit? zoned v

def partsOf (v : Value) : Except Fault (List Value) :=
  match v.bare with
  | .list vs | .tuple vs | .set vs => .ok vs
  | .text s => .ok (s.toList.map fun c => .text (String.singleton c))
  | .bytes os => .ok (os.map fun o => .int o.toNat)
  | .mapping es => .ok (es.map fun e => .text e.1)
  | _ => .error .badType

def prepare (zoned : Bool) (type : ColumnType) (comparison : Comparison) (v : Value) :
    Except Fault (Comparison × Value) :=
  let given (v : Value) : Except Fault (Comparison × Value) :=
    if v.isNone then .error .badValue else .ok (comparison, v)
  match comparison with
  | .missing => given v
  | .alike =>
    if v.isNone then .ok (.missing, .bool true) else .ok (comparison, .text v.plainText)
  | .containing | .beginning | .ending =>
    if v.isNone then .error .badValue else .ok (comparison, .text v.plainText)
  | .among | .between => do
    let parts ← partsOf v
    let parts ← parts.mapM (operand zoned type comparison)
    pure (comparison, .list parts)
  | .equal => do
    let v ← operand zoned type comparison v
    pure (if v.isNone && type != .json then (.missing, .bool true) else (.equal, v))
  | .above | .atLeast | .below | .atMost => do
    let v ← operand zoned type comparison v
    given v

def prepareYear (comparison : Comparison) (v : Value) : Except Fault (Comparison × Value) :=
  if v.isNone then
    if comparison = .equal then .ok (.missing, .bool true) else .error .badValue
  else v.toWhole.map fun n => (comparison, .int n)

end Test

namespace Store

def test (s : Store) (m : Model) (l : Lookup) : Except Fault Test := do
  let p ← s.place m (lookupNames l.name)
  let (parts, comparison) ← Test.asked p.type p.rest
  let type := Test.partType p.type parts
  let (comparison, v) ←
    if Test.isYearly parts comparison then Test.prepareYear comparison l.value
    else Test.prepare s.zoned type comparison l.value
  pure ⟨{ p with rest := [] }, parts, comparison, v⟩

mutual

def prepare (s : Store) (model : String) : Condition → Except Fault (Formula Test)
  | .test l =>
    match s.model? model with
    | none => .error .unknownColumn
    | some m => (s.test m l).map .test
  | .keyAmong model inner => (s.prepare model inner).map (.keyAmong model)
  | .group connective items => (s.prepareAll model items).map (.group connective)

def prepareAll (s : Store) (model : String) : List Condition → Except Fault (List (Formula Test))
  | [] => .ok []
  | c :: cs =>
    match s.prepare model c with
    | .error f => .error f
    | .ok c => (s.prepareAll model cs).map (c :: ·)

end

end Store
end PageQuery
