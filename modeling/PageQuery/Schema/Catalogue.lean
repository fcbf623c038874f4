import PageQuery.Schema.Hint
import PageQuery.Schema.Model
import PageQuery.Schema.Parser

/-!
# The catalogue of declared types

Enumerations, record types and models that hints may name.  A record type lists its own annotations
and may extend others, whose annotations it inherits and may replace.  Where several types are extended,
their lineages are merged: every type stands before the types that it extends, and these stand in the
order in which it names them.
-/

namespace PageQuery

/-- A declared record type.  A structured one is a record type whatever it declares, and so are the
types that extend it; any other one only if it declares an annotation itself. -/
structure RecordType where
  name : String
  structured : Bool := true
  bases : List String := []
  annotations : List (String × Hint)

/-- All declared types. -/
structure Catalogue where
  enumerations : List Enumeration := []
  records : List RecordType := []
  models : List Model := []

namespace Catalogue

def enumeration? (c : Catalogue) (name : String) : Option Enumeration :=
  c.enumerations.find? (·.name == name)

def record? (c : Catalogue) (name : String) : Option RecordType :=
  c.records.find? (·.name == name)

def model? (c : Catalogue) (name : String) : Option Model :=
  c.models.find? (·.name == name)

def declared? (c : Catalogue) (name : String) : Option TypeRef :=
  if (c.record? name).isSome then some (.record name)
  else if (c.enumeration? name).isSome then some (.enumeration name)
  else if (c.model? name).isSome then some (.model name)
  else none

/-- The first name at the head of some list that stands farther behind in none. -/
def nextName? (lists : List (List String)) : Option String :=
  (lists.filterMap List.head?).find? fun name => lists.all fun names => !names.tail.contains name

/-- Merges lists of names and keeps the order of each; it ends where they contradict each other. -/
def mergeNames : Nat → List (List String) → List String
  | 0, _ => []
  | fuel + 1, lists =>
    match nextName? lists with
    | none => []
    | some name =>
      name :: mergeNames fuel
        (lists.map fun names => if names.head? = some name then names.tail else names)

/-- The names of a record type and of the types that it extends, the nearest first. -/
def lineageNames (c : Catalogue) : Nat → String → List String
  | 0, _ => []
  | fuel + 1, name =>
    match c.record? name with
    | none => []
    | some r =>
      let lists := r.bases.map (lineageNames c fuel) ++ [r.bases]
      name :: mergeNames lists.flatten.length lists

/-- A record type and the types that it extends, the nearest first. -/
def lineage (c : Catalogue) (name : String) : List RecordType :=
  (c.lineageNames c.records.length name).filterMap c.record?

def isDated (c : Catalogue) (name : String) : Bool :=
  ((c.enumeration? name).map (·.mixin.isDated)).getD false

/-- Whether the instances of a type have fields of their own. -/
def isRecordType (c : Catalogue) : TypeRef → Bool
  | .model _ => true
  | .record name =>
    (c.lineage name).any (·.structured) ||
      ((c.record? name).map fun r => !r.annotations.isEmpty).getD false
  | _ => false

end Catalogue
end PageQuery
