import PageQuery.Schema.Catalogue
import PageQuery.Schema.Parser

/-!
# Fields

A field is a public property of a record type: its name, its kind, the type of its values, the
record type that it leads to if any, and the parser for filter values if its values can be
compared.  Fields are made from hints and from the fields of models.
-/

namespace PageQuery

/-- What a field holds, which decides how it is filtered and traversed. -/
inductive FieldKind where
  | scalar
  | string
  | datetime
  | enum
  | relation
  | collection
  deriving DecidableEq, Repr

/-- A public property of a record type. -/
structure Field where
  name : String
  kind : FieldKind
  type : Option Hint := none
  target : Option TypeRef := none
  parser : Option Parser := none

namespace FieldKind

def name : FieldKind → String
  | scalar => "scalar"
  | string => "string"
  | datetime => "datetime"
  | enum => "enum"
  | relation => "relation"
  | collection => "collection"

end FieldKind

/-- The kind of a field whose values have the type of a hint. -/
def Hint.kind (c : Catalogue) : Hint → FieldKind
  | .type (.builtin "str") => .string
  | .type (.builtin "date") => .datetime
  | .type (.builtin "datetime") => .datetime
  | .type (.enumeration name) => if c.isDated name then .datetime else .enum
  | .type t => if c.isRecordType t then .relation else .scalar
  | _ => .scalar

def Hint.isRecord (c : Catalogue) : Hint → Bool
  | .type t => c.isRecordType t
  | _ => false

def builtinParser? : String → Option Parser
  | "str" => some .text
  | "int" => some .integer
  | "float" => some .float
  | "bool" => some .boolean
  | "Decimal" => some .decimal
  | "UUID" => some .uuid
  | "datetime" => some .dateTime
  | "date" => some .date
  | "time" => some .time
  | _ => none

def Hint.parser? (c : Catalogue) : Hint → Option Parser
  | .type (.enumeration name) => (c.enumeration? name).map .member
  | .type (.builtin name) => builtinParser? name
  | _ => none

def Hint.asType? : Hint → Option TypeRef
  | .type t => some t
  | _ => none

namespace Field

def typeName (f : Field) : String :=
  match f.target, f.type with
  | some t, _ => t.name
  | none, some h => h.shownName
  | none, none => "None"

def isCollection (f : Field) : Bool :=
  f.kind == .collection

def isRelation (f : Field) : Bool :=
  f.kind == .relation

/-- A field that holds one value of a given hint, which its parser is looked up by. -/
def ofSingle (c : Catalogue) (name : String) (h : Hint) : Except Fault Field :=
  if h.kind c = .relation then
    .ok { name := name, kind := .relation, type := some h, target := h.asType? }
  else if h.isHashable then
    .ok { name := name, kind := h.kind c, type := some h, parser := h.parser? c }
  else .error .badType

/-- The field that an element of a collection is by itself. -/
def element (c : Catalogue) (f : Field) : Except Fault Field :=
  match f.type with
  | none => .ok { name := f.name, kind := .scalar }
  | some h =>
    if h.isHashable then
      .ok { name := f.name, kind := h.kind c, type := some h, parser := h.parser? c }
    else .error .badType

def ofElement (c : Catalogue) (name : String) (element : Hint) : Field :=
  { name := name
    kind := .collection
    type := match element with
      | .nothing => none
      | h => some h
    target := if element.isRecord c then element.asType? else none }

/-- The field that a hint declares.  A collection without an element type holds anything. -/
def ofHint (c : Catalogue) (name : String) (h : Hint) : Except Fault Field :=
  match h.withoutAbsent with
  | .collection _ generic arguments =>
    let elements := arguments.filter fun g => !g.alike .andSoOn
    let element := elements.headD (.type (.builtin "object"))
    .ok (ofElement c name (if generic then element.inside else element).withoutAbsent)
  | single => ofSingle c name single

/-- The type of the values of a column; durations and free-form columns have none. -/
def columnHint : ColumnType → Option Hint
  | .text => some (.type (.builtin "str"))
  | .integer | .natural | .reference => some (.type (.builtin "int"))
  | .float => some (.type (.builtin "float"))
  | .decimal .. => some (.type (.builtin "Decimal"))
  | .boolean => some (.type (.builtin "bool"))
  | .date => some (.type (.builtin "date"))
  | .dateTime => some (.type (.builtin "datetime"))
  | .time => some (.type (.builtin "time"))
  | .uuid => some (.type (.builtin "UUID"))
  | .duration | .json => none

def ofColumn (c : Catalogue) (name : String) (type : ColumnType) (choices : List (Value × Value)) :
    Field :=
  if !choices.isEmpty then
    { name := name, kind := .enum, type := columnHint type, parser := some (.choice choices) }
  else
    match columnHint type with
    | some h => { name := name, kind := h.kind c, type := some h, parser := h.parser? c }
    | none =>
      { name := name
        kind := .scalar
        parser := some (if type = .duration then .duration else .verbatim) }

/-- The field that a field of a model is; a relation to no one model cannot be followed, so it is no
field. -/
def ofModelField? (c : Catalogue) (name : String) : ModelField → Option Field
  | .column type choices _ => some (ofColumn c name type choices)
  | .toOne t | .ownerOf t _ =>
    some { name := name
           kind := .relation
           type := some (.type (.model t))
           target := some (.model t) }
  | .ownersOf t _ | .linked t | .linkedFrom t _ =>
    some { name := name
           kind := .collection
           type := some (.type (.model t))
           target := some (.model t) }
  | .toAny => none

end Field
end PageQuery
