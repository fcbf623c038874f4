import PageQuery.Store.Column

/-!
# Rows

A store holds the rows of each model in the order of their keys.  A row has a cell for every column;
the column of a relation holds the key of the related row, and a linked collection is a list of
keys.  Attributes of a row are read the way a client names them: columns, related rows, related
collections, the keys of related rows, and the row's own key.
-/

namespace PageQuery

/-- A row: its key, the cells of its other columns, the values of its free-form columns, and the
keys of the rows that it is linked to. -/
structure Row where
  key : Int
  cells : List (String × Cell) := []
  free : List (String × Value) := []
  links : List (String × List Int) := []

namespace Row

def cell (r : Row) (column : String) : Cell :=
  if column = "id" then .whole r.key else (r.cells.lookup column).getD .absent

def relatedKey? (r : Row) (name : String) : Option Int :=
  (r.cell (keyColumn name)).whole?

def linkedKeys (r : Row) (name : String) : List Int :=
  (r.links.lookup name).getD []

def value (zoned : Bool) (r : Row) (name : String) (type : ColumnType) : Except Fault Value :=
  match type with
  | .json => .ok ((r.free.lookup name).getD .none)
  | _ => type.decode zoned (r.cell name)

end Row

/-- The models of a store, whether it keeps moments with a zone, the offset of the local clock, and
the rows of its models. -/
structure Store where
  models : List Model
  zoned : Bool := true
  zone : Int := 0
  tables : List (String × List Row) := []

namespace Store

def model? (s : Store) (name : String) : Option Model :=
  s.models.find? (·.name == name)

def rows (s : Store) (model : String) : List Row :=
  (s.tables.lookup model).getD []

def row? (s : Store) (model : String) (key : Int) : Option Row :=
  (s.rows model).find? (·.key == key)

def rowsWith (s : Store) (model via : String) (key : Int) : List Row :=
  (s.rows model).filter fun r => r.relatedKey? via == some key

/-- The rows that a relation leads to, in the order of their keys. -/
def related (s : Store) (r : Row) (name : String) : ModelField → List Row
  | .column .. | .toAny => []
  | .toOne target => ((r.relatedKey? name).bind (s.row? target)).toList
  | .ownerOf target via => (s.rowsWith target via r.key).take 1
  | .ownersOf target via => s.rowsWith target via r.key
  | .linked target => (s.rows target).filter fun t => (r.linkedKeys name).contains t.key
  | .linkedFrom target via => (s.rows target).filter fun t => (t.linkedKeys via).contains r.key

def attributeOf (s : Store) (m : Model) (r : Row) (name : String) : Value :=
  match m.field? name with
  | some (.column type _ _) =>
    match r.value s.zoned name type with
    | .ok v => v
    | .error _ => .none
  | some f =>
    match f.target? with
    | none => .none
    | some target =>
      let keys := (s.related r name f).map (·.key)
      if f.isSingle then (keys.head?.map (.row target)).getD .none else .related target keys
  | none =>
    if name = "pk" then .int r.key
    else if (m.ofKeyColumn? name).isSome then ((r.cell name).whole?.map .int).getD .none
    else .none

/-- Reads attributes of rows; anything else is read as a record. -/
def reader (s : Store) : Value.Reader
  | .row model key, name =>
    match s.model? model, s.row? model key with
    | some m, some r => s.attributeOf m r name
    | _, _ => .none
  | v, name => v.readAttribute name

def readable (s : Store) (m : Model) (r : Row) : Except Fault Unit :=
  m.fields.foldlM
    (fun _ f =>
      match f.2 with
      | .column type _ _ => (r.value s.zoned f.1 type).map fun _ => ()
      | _ => .ok ())
    ()

end Store

/-! ## Storing rows -/

namespace Row

/-- The key of a row that was given one; otherwise it gets the next one. -/
def keyFor (next : Int) (given : Value) : Except Fault Int :=
  if given.isNone then .ok next else given.toWhole

def withField (zoned : Bool) (given : List (String × Value)) (r : Row) (name : String) :
    ModelField → Except Fault Row
  | .column type _ default =>
    if name = "id" then .ok r
    else
      let v := (given.lookup name).getD default
      (type.store zoned v).map fun c =>
        { r with
          cells := r.cells ++ [(name, c)]
          free := if type = .json then r.free ++ [(name, v.fromJson)] else r.free }
  | .toOne _ =>
    let column := keyColumn name
    (ColumnType.reference.store zoned ((given.lookup column).getD .none)).map fun c =>
      { r with cells := r.cells ++ [(column, c)] }
  | .linked _ =>
    match (given.lookup name).getD .none with
    | .list keys =>
      (keys.mapM Value.toWhole).map fun keys => { r with links := r.links ++ [(name, keys)] }
    | _ => .ok r
  | _ => .ok r

def hasValue (r : Row) (name : String) : Bool :=
  !(r.cell name).isAbsent || !(r.cell (keyColumn name)).isAbsent

/-- The row of a model with the values given for its fields; a field that is given no value gets its
default. -/
def store (zoned : Bool) (m : Model) (next : Int) (given : List (String × Value)) :
    Except Fault Row :=
  match keyFor next ((given.lookup "id").getD .none) with
  | .error f => .error f
  | .ok key => do
    let bare : Row := { key := key }
    let r ← m.fields.foldlM (fun (r : Row) f => r.withField zoned given f.1 f.2) bare
    if m.required.all r.hasValue then pure r else .error .missingValue

/-- The rows of a model, stored one after the other behind those that are there. -/
def storeAll (zoned : Bool) (m : Model) (there : List Row) :
    List (List (String × Value)) → Except Fault (List Row)
  | [] => .ok there
  | given :: rest =>
    let last := there.foldl (fun n r => max n r.key) 0
    match store zoned m (last + 1) given with
    | .error f => .error f
    | .ok r => storeAll zoned m (there ++ [r]) rest

end Row

def Store.withRows (s : Store) (given : List (String × List (List (String × Value)))) :
    Except Fault Store :=
  given.foldlM
    (fun s (name, rows) =>
      match s.model? name with
      | none => .ok s
      | some m =>
        (Row.storeAll s.zoned m [] rows).map fun rows =>
          { s with tables := s.tables ++ [(name, rows.mergeSort fun a b => a.key ≤ b.key)] })
    s

end PageQuery
