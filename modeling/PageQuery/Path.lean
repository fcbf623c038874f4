import PageQuery.Schema.Registry
import PageQuery.Settings

/-!
# Property paths

A dotted path is resolved by walking from a record type over its field table to the next type.  A
walk ends at the first collection, at a name that is not found, or at a field that leads nowhere.
Paths up to the depth limit are always allowed; a longer one only if a collection lies on it
before its last segment, and at most one segment may stand behind a collection, to be applied to
each element.
-/

namespace PageQuery

open PageQuery.Text

/-- What a request is understood against: the declared types, the settings, the registered tables,
the offset of the local time zone, and whether stores keep moments with a zone. -/
structure Context where
  catalogue : Catalogue
  settings : Settings := {}
  registry : Registry := {}
  zone : Int := 0
  zoned : Bool := true

def Context.table (x : Context) (t : TypeRef) : Except Fault Table :=
  x.registry.table x.catalogue t

/-- The trimmed segments of a path; there has to be one at least. -/
def splitPath (path : Option String) : Except RequestError (List String) :=
  match ((split '.' (path.getD "")).map trim).filter (!·.isEmpty) with
  | [] => .error (.emptyPath path)
  | segments => .ok segments

/-- Where a walk ended. -/
inductive WalkEnd where
  /-- Every segment was found. -/
  | complete
  /-- A type has no field of the segment's name. -/
  | missing (type : TypeRef) (segment : String)
  /-- A segment follows a field that leads to no record. -/
  | noFields (segment : String)
  /-- A collection was met; the segments behind it remain. -/
  | collection (rest : List String)
  /-- A type has no field table. -/
  | broken (f : Fault)
  deriving DecidableEq, Repr

/-- A walk along a path: the types whose tables were looked at, the fields found, and the end. -/
structure Walk where
  types : List TypeRef
  fields : List Field
  stop : WalkEnd

def walk (tables : TypeRef → Except Fault Table) (t : TypeRef) : List String → Walk
  | [] => ⟨[], [], .complete⟩
  | segment :: rest =>
    match (tables t).map (·.find? segment) with
    | .error f => ⟨[t], [], .broken f⟩
    | .ok none => ⟨[t], [], .missing t segment⟩
    | .ok (some f) =>
      if f.isCollection then ⟨[t], [f], .collection rest⟩
      else
        match rest, f.target with
        | [], _ => ⟨[t], [f], .complete⟩
        | next :: _, none => ⟨[t], [f], .noFields next⟩
        | _ :: _, some target =>
          let w := walk tables target rest
          ⟨t :: w.types, f :: w.fields, w.stop⟩

/-- A resolved path: the fields up to the end or the first collection, the last segment, and the
segment that remains behind a collection. -/
structure ResolvedPath where
  path : Option String
  chain : List Field
  cleanPath : String
  residual : Option String

namespace ResolvedPath

def leaf (p : ResolvedPath) : Field :=
  p.chain.getLast?.getD { name := "", kind := .scalar }

def isCollection (p : ResolvedPath) : Bool :=
  p.leaf.isCollection

/-- The names of the fields as their types spell them. -/
def field (p : ResolvedPath) : List String :=
  p.chain.map (·.name)

def dotted (p : ResolvedPath) : String :=
  String.intercalate "." p.field

end ResolvedPath

namespace Context

/-- The segments whose walk decides whether a path is too deep: all but the last of a long one. -/
def depthSegments (limit : Whole) (segments : List String) : List String :=
  if segments.length ≤ limit.number then segments else segments.dropLast

/-- Checks that a long path has a collection before its last segment. -/
def checkDepth (x : Context) (root : TypeRef) (path : Option String) (limit : Whole)
    (segments : List String) : Except Failure Unit :=
  if segments.length ≤ limit.number then .ok ()
  else
    match (walk x.table root segments.dropLast).stop with
    | .collection _ => .ok ()
    | .missing t segment => .error (.request (unknownField t segment path))
    | .broken f => .error (.fault f)
    | _ => .error (.request (.tooDeep path limit))

/-- Resolves the segments of a path whose depth is allowed. -/
def resolveSegments (x : Context) (root : TypeRef) (path : Option String)
    (segments : List String) : Except Failure ResolvedPath :=
  let w := walk x.table root segments
  let name := (w.fields.getLast?.map (·.name)).getD ""
  let resolved (residual : Option String) : ResolvedPath :=
    { path := path
      chain := w.fields
      cleanPath := segments.getLast?.getD ""
      residual := residual }
  match w.stop with
  | .complete => .ok (resolved none)
  | .missing t segment => .error (.request (unknownField t segment path))
  | .noFields segment => .error (.request (.noFields segment path name))
  | .collection [] => .ok (resolved none)
  | .collection [segment] => .ok (resolved (some segment))
  | .collection _ => .error (.request (.pastCollection path name))
  | .broken f => .error (.fault f)

def resolve (x : Context) (root : TypeRef) (path : Option String) :
    Except Failure ResolvedPath := do
  let segments ← (splitPath path).mapError .request
  let limit ← x.settings.maxPathDepth
  x.checkDepth root path limit segments
  x.resolveSegments root path segments

/-- The field that a path which ended at a collection addresses in each element, and its names
there.  An element that is no record is the field itself. -/
def resolveElement (x : Context) (p : ResolvedPath) : Except Failure (Field × List String) :=
  match p.leaf.target with
  | none =>
    match p.residual with
    | some name => .error (.request (.noElementField name p.leaf.name p.path))
    | none => ((p.leaf.element x.catalogue).mapError .fault).map fun f => (f, [])
  | some t =>
    match (x.table t).map (·.find? p.cleanPath) with
    | .error f => .error (.fault f)
    | .ok (some f) => .ok (f, [f.name])
    | .ok none => .error (.request (unknownField t p.cleanPath p.path))

/-- The types whose tables are looked at while a path is resolved, in order. -/
def consulted (x : Context) (root : TypeRef) (path : Option String) : List TypeRef :=
  match splitPath path, x.settings.maxPathDepth with
  | .ok segments, .ok limit => (walk x.table root (depthSegments limit segments)).types
  | _, _ => []

/-- The type whose table is looked at for the elements of a resolved path. -/
def consultedElement (p : ResolvedPath) : List TypeRef :=
  if p.isCollection then p.leaf.target.toList else []

end Context
end PageQuery
