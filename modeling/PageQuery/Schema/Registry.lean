import PageQuery.Schema.Table
import PageQuery.Failure
import PageQuery.Log

/-!
# The field registry

The registry keeps the tables of the types that were looked at.  A type is introspected at its first
look-up, unless fields were registered for it explicitly; both are noted in the log.  What a look-up
finds does not depend on what was looked up before.
-/

namespace PageQuery

/-- The tables of the types that are registered. -/
structure Registry where
  tables : List (TypeRef × Table) := []

def unknownField (t : TypeRef) (name : String) (path : Option String) : RequestError :=
  .unknownProperty name t.name (some (match path with
    | some p => if p.isEmpty then name else p
    | none => name))

namespace Registry

def isRegistered (r : Registry) (t : TypeRef) : Bool :=
  r.tables.any (·.1 == t)

/-- The registry with a table for a type, in place of an earlier one. -/
def put (r : Registry) (t : TypeRef) (table : Table) : Registry :=
  ⟨(t, table) :: r.tables.filter (·.1 != t)⟩

/-- The table of a type: the registered one, or the one of its declaration. -/
def table (c : Catalogue) (r : Registry) (t : TypeRef) : Except Fault Table :=
  match r.tables.lookup t with
  | some table => .ok table
  | none => c.table t

/-- The line that says how many fields a type has. -/
def countNote (t : TypeRef) (table : Table) : LogEntry :=
  ⟨.debug, "Registered " ++ toString table.size ++ " fields for " ++ t.name⟩

/-- The line that says why the annotations of a type stay unresolved. -/
def unresolvedNote (t : TypeRef) (reason : String) : LogEntry :=
  ⟨.warning, "get_type_hints failed for " ++ t.name ++ ": " ++ reason ++
    ". Falling back to __annotations__."⟩

def register (r : Registry) (t : TypeRef) (fields : List Field) : Registry × List LogEntry :=
  let table := Table.ofFields fields
  (r.put t table, [countNote t table])

/-- Registers the fields of a type's declaration.  Where they cannot be made, those that were
registered before stay; that the hints are unresolved is noted all the same. -/
def introspect (c : Catalogue) (r : Registry) (t : TypeRef) : Registry × List LogEntry :=
  let unresolved := ((c.unresolved? t).map (unresolvedNote t)).toList
  match c.fields t with
  | .error _ => (r, unresolved)
  | .ok fields =>
    let (r, notes) := r.register t fields
    (r, unresolved ++ notes)

/-- Makes sure that a type is registered. -/
def consult (c : Catalogue) (r : Registry) (t : TypeRef) : Registry × List LogEntry :=
  if r.isRegistered t then (r, []) else r.introspect c t

def consultAll (c : Catalogue) (r : Registry) (ts : List TypeRef) : Registry × List LogEntry :=
  ts.foldl (fun (r, notes) t => let (r, more) := r.consult c t; (r, notes ++ more)) (r, [])

def lookup (c : Catalogue) (r : Registry) (t : TypeRef) (name : String) (path : Option String) :
    Except Failure Field :=
  match r.table c t with
  | .error f => .error (.fault f)
  | .ok table =>
    match table.find? name with
    | some f => .ok f
    | none => .error (.request (unknownField t name path))

end Registry
end PageQuery
