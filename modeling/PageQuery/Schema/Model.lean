import PageQuery.Value.Basic

/-!
# Stored models

A model describes the rows of one table of a store: columns of a type, of which some admit only
certain choices, and relations to other models.  A relation that the rows themselves hold is a
column with the key of the related row; its other end is found by searching that column.
-/

namespace PageQuery

/-- The type of a column. -/
inductive ColumnType where
  | text
  | integer
  /-- A whole number that is not negative. -/
  | natural
  /-- The key of a row. -/
  | reference
  | float
  /-- A number with so many digits at most, of which some are places after the point. -/
  | decimal (digits places : Nat)
  | boolean
  | date
  | dateTime
  | time
  | uuid
  | duration
  | json
  deriving DecidableEq, Repr

/-- What a field of a model is. -/
inductive ModelField where
  | column (type : ColumnType) (choices : List (Value × Value)) (default : Value)
  /-- A key of a row of `target`, or none. -/
  | toOne (target : String)
  /-- The one row of `target` whose field `via` points back. -/
  | ownerOf (target via : String)
  /-- The rows of `target` whose field `via` points back. -/
  | ownersOf (target via : String)
  /-- Rows of `target`, linked through the lists of keys stored here. -/
  | linked (target : String)
  /-- Rows of `target` whose field `via` lists this row. -/
  | linkedFrom (target via : String)
  /-- One row of any model, told by two other columns.  There is no one model that it leads to. -/
  | toAny

/-- A model and its fields by name, in order; the rows of some fields must have a value. -/
structure Model where
  name : String
  fields : List (String × ModelField)
  required : List String := []

namespace ModelField

def target? : ModelField → Option String
  | .column .. | .toAny => none
  | .toOne t | .ownerOf t _ | .ownersOf t _ | .linked t | .linkedFrom t _ => some t

/-- Whether a relation leads to at most one row. -/
def isSingle : ModelField → Bool
  | .toOne _ | .ownerOf .. | .toAny => true
  | _ => false

end ModelField

def Model.field? (m : Model) (name : String) : Option ModelField :=
  m.fields.lookup name

/-- The name of the column that holds the key of a related row. -/
def keyColumn (name : String) : String := name ++ "_id"

/-- The relation whose key column has a given name. -/
def Model.ofKeyColumn? (m : Model) (column : String) : Option (String × ModelField) :=
  m.fields.find? fun f =>
    match f.2 with
    | .toOne _ => keyColumn f.1 == column
    | _ => false

end PageQuery
