import PageQuery.Store.Formula
import PageQuery.Store.Part
import PageQuery.Store.Rows

/-!
# Places

The names of a lookup lead from a model through relations to a column.  Such a place is given by the
relations that rows have to be followed along, and by the column at the end.  The key of a related
row stands in the row that refers to it, so the last relation to one row need not be followed for
it.  Names behind the column are left over; they name parts of what it holds and tell how these are
compared.
-/

namespace PageQuery

/-- Where names lead. -/
structure Place where
  relations : List String
  column : String
  type : ColumnType
  rest : List String
  deriving DecidableEq, Repr

namespace Place

/-- The place of the rows that a relation leads to: their keys. -/
def ofRelation (name : String) (f : ModelField) (rest : List String) : Place :=
  match f with
  | .toOne _ => ⟨[], keyColumn name, .reference, rest⟩
  | _ => ⟨[name], "id", .reference, rest⟩

/-- A place seen from the other end of a relation. -/
def through (name : String) (f : ModelField) (p : Place) : Place :=
  match f with
  | .toOne _ =>
    if p.relations.isEmpty && p.column = "id" then { p with column := keyColumn name }
    else { p with relations := name :: p.relations }
  | _ => { p with relations := name :: p.relations }

end Place

namespace Model

/-- The field that a name in a lookup denotes: a field, the key, or a relation by the column of its
keys. -/
def denoted? (m : Model) (name : String) : Option (String × ModelField) :=
  if name = "pk" then (m.field? "id").map fun f => ("id", f)
  else
    match m.field? name with
    | some f => some (name, f)
    | none => m.ofKeyColumn? name

end Model

namespace Store

/-- Where names lead from a model.  The first one has to be a field; a name behind a relation that
is no field of the related model is left over. -/
def place (s : Store) (m : Model) : List String → Except Fault Place
  | [] => .error .unknownColumn
  | name :: rest =>
    match m.denoted? name with
    | none => .error .unknownColumn
    | some (name, .column type _ _) => .ok ⟨[], name, type, rest⟩
    | some (name, f) =>
      match f.target?.bind s.model? with
      | none => .error .unknownColumn
      | some target =>
        if (rest.head?.bind target.denoted?).isSome then
          (s.place target rest).map (Place.through name f)
        else .ok (Place.ofRelation name f rest)

def modelAt (s : Store) (m : Option Model) (relations : List String) : Option Model :=
  relations.foldl
    (fun m name => (m.bind (·.field? name)).bind fun f => f.target?.bind s.model?) m

def relationAt? (s : Store) (m : Option Model) (path : List String) : Option ModelField :=
  (s.modelAt m path.dropLast).bind fun m => path.getLast?.bind fun name => m.field? name

end Store
end PageQuery
