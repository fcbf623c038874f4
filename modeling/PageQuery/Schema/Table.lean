import PageQuery.Schema.Field
import PageQuery.Schema.Forward
import PageQuery.Text.Case

/-!
# Field tables

The table of a type holds its public fields under their lower-case names, so that a property is
found in any letter case; of two fields that differ in case only, the later one stays.  The table
of a model comes from its fields, that of a record type from the annotations of the type and of
all types that it extends.
-/

namespace PageQuery

open PageQuery.Text

/-- Fields by lower-case name. -/
structure Table where
  entries : List (String × Field) := []

namespace Table

/-- Puts a field into a list of entries in place of one of the same key, or at the end. -/
def put (key : String) (f : Field) : List (String × Field) → List (String × Field)
  | [] => [(key, f)]
  | (k, g) :: rest => if k = key then (key, f) :: rest else (k, g) :: put key f rest

def insert (t : Table) (f : Field) : Table :=
  ⟨put (lower f.name) f t.entries⟩

def ofFields (fields : List Field) : Table :=
  fields.foldl insert {}

/-- The field of a name in any letter case. -/
def find? (t : Table) (name : String) : Option Field :=
  t.entries.lookup (lower name)

def size (t : Table) : Nat := t.entries.length

/-- The entries in the order of their keys. -/
def sorted (t : Table) : List (String × Field) :=
  t.entries.mergeSort fun a b => a.1 ≤ b.1

end Table

/-- The annotations of a type and the types that it extends: the basic type comes first, and a later
annotation of a name takes the place of an earlier one. -/
def Catalogue.annotations (c : Catalogue) (name : String) : List (String × Hint) :=
  let replace (kept : List (String × Hint)) (a : String × Hint) : List (String × Hint) :=
    if kept.any (·.1 == a.1) then kept.map fun k => if k.1 == a.1 then a else k else kept ++ [a]
  (c.lineage name).reverse.foldl (fun kept r => r.annotations.foldl replace kept) []

/-- Every annotation of a type and the types that it extends, replaced ones included, in the order
in which their texts are resolved. -/
def Catalogue.allAnnotations (c : Catalogue) (name : String) : List (String × Hint) :=
  (c.lineage name).reverse.flatMap (·.annotations)

/-- What stands in the way of resolving the annotations of a type. -/
def Catalogue.obstacle? (c : Catalogue) (name : String) : Option Obstacle :=
  (c.allAnnotations name).findSome? fun a =>
    match a.2.resolve c with
    | .error o => some o
    | .ok _ => none

def isPrivate (name : String) : Bool :=
  name.toList.head? == some '_'

/-- Whether an annotation declares a public field: its name is not private and it does not belong to
the type as a whole. -/
def isPublic (a : String × Hint) : Bool :=
  !isPrivate a.1 &&
    match a.2 with
    | .classWide _ => false
    | _ => true

/-- The hints of a type: resolved if every text denotes one, and otherwise all as they are.  A
fault in a text leaves no hints at all. -/
def Catalogue.hints (c : Catalogue) (name : String) : Except Fault (List (String × Hint)) :=
  let declared := c.annotations name
  match c.obstacle? name with
  | some (.broken f) => .error f
  | some _ => .ok declared
  | none => .ok (declared.map fun a =>
    match a.2.resolve c with
    | .ok h => (a.1, h)
    | .error _ => a)

def Catalogue.fields (c : Catalogue) : TypeRef → Except Fault (List Field)
  | .record name =>
    match c.hints name with
    | .error f => .error f
    | .ok hints => (hints.filter isPublic).mapM fun a => Field.ofHint c a.1 a.2
  | .model name =>
    match c.model? name with
    | none => .ok []
    | some m =>
      .ok ((m.fields.filter fun f => !isPrivate f.1).filterMap fun f =>
        Field.ofModelField? c f.1 f.2)
  | _ => .ok []

/-- The table of a type as its declaration gives it. -/
def Catalogue.table (c : Catalogue) (t : TypeRef) : Except Fault Table :=
  (c.fields t).map .ofFields

/-- Why the annotations of a type stay unresolved, if they do. -/
def Catalogue.unresolved? (c : Catalogue) : TypeRef → Option String
  | .record name => (c.obstacle? name).bind Obstacle.message?
  | _ => none

def Catalogue.check (c : Catalogue) : Except Fault Unit :=
  c.records.forM fun r => r.annotations.forM fun a => a.2.check

end PageQuery
