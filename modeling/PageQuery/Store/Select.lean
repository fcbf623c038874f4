import PageQuery.Store.Depth

/-!
# Selecting rows

A condition is evaluated over bindings.  The paths of its checks lead through relations; a binding
gives one related row for each relation path, or none where there is none.  A row is selected once
for each of its bindings that satisfies the condition, so only a check through a collection outside
a search for keys can select a row several times.
-/

namespace PageQuery

/-- A relation path from the selected row and the related row that it is bound to. -/
abbrev Binding := List (List String × Option Row)

namespace Store

/-- The rows that a relation path leads to in a binding that covers the path before it. -/
def reached (s : Store) (root : Option Model) (b : Binding) (path : List String) :
    List (Option Row) :=
  match b.lookup path.dropLast, path.getLast? with
  | some (some r), some name =>
    match s.relationAt? root path with
    | none => [none]
    | some f =>
      match s.related r name f with
      | [] => [none]
      | rs => rs.map some
  | _, _ => [none]

/-- The bindings of a row for relation paths, each of which follows the path before it. -/
def bindings (s : Store) (root : Option Model) (r : Row) (paths : List (List String)) :
    List Binding :=
  paths.foldl
    (fun bs path => bs.flatMap fun b => (s.reached root b path).map fun t => (path, t) :: b)
    [[([], some r)]]

/-- The cell of a column of the row that relations lead to in a binding, or a part of it, if there
is such a row. -/
def cellAt (s : Store) (b : Binding) (relations : List String) (column : String)
    (parts : List Part) : Option Cell :=
  let ahead := if s.zoned then s.zone else 0
  ((b.lookup relations).getD none).map fun r =>
    parts.foldl (fun c p => p.take ahead c) (r.cell column)

mutual

/-- The relation paths of the tests of a formula.  A search for keys needs none. -/
def relationPaths : Formula Test → List (List String)
  | .test t => stages t.place.relations
  | .keyAmong _ _ => []
  | .group _ items => relationPathsOf items

def relationPathsOf : List (Formula Test) → List (List String)
  | [] => []
  | f :: fs => relationPaths f ++ relationPathsOf fs

end

mutual

/-- The relation paths of the checks of a condition.  A search for keys needs none. -/
def checkPaths : Formula Check → List (List String)
  | .test c => stages c.relations
  | .keyAmong _ _ => []
  | .group _ items => checkPathsOf items

def checkPathsOf : List (Formula Check) → List (List String)
  | [] => []
  | f :: fs => checkPaths f ++ checkPathsOf fs

end

mutual

def satisfies (s : Store) : Formula Check → Binding → Bool
  | .test c, b => c.demand.holds (s.cellAt b c.relations c.column c.parts)
  | .keyAmong model inner, b =>
    match b.lookup [] with
    | some (some r) =>
      (s.row? model r.key).any fun r =>
        (s.bindings (s.model? model) r (checkPaths inner).eraseDups).any fun b =>
          satisfies s inner b
    | _ => false
  | .group .and items, b => satisfiesAll s items b
  | .group .or items, b => items.isEmpty || satisfiesSome s items b

def satisfiesAll (s : Store) : List (Formula Check) → Binding → Bool
  | [], _ => true
  | f :: fs, b => satisfies s f b && satisfiesAll s fs b

def satisfiesSome (s : Store) : List (Formula Check) → Binding → Bool
  | [], _ => false
  | f :: fs, b => satisfies s f b || satisfiesSome s fs b

end

/-- A column, or a part of it, that rows are ordered by, behind relations. -/
structure OrderColumn where
  relations : List String
  column : String
  parts : List Part
  descending : Bool

/-- A row that was selected, with the cells that it is ordered by. -/
structure Selected where
  row : Row
  cells : List Cell

/-- Whether cells may stand before or beside other ones, the first difference deciding. -/
def cellsInOrder : List Bool → List Cell → List Cell → Bool
  | descending :: ds, c :: cs, d :: ds' =>
    match c.order d with
    | .lt => !descending
    | .gt => descending
    | .eq => cellsInOrder ds cs ds'
  | _, _, _ => true

/-- The rows of a model that satisfy a condition, once for each binding of the given relation paths
that does, ordered by columns and otherwise by the rows' own keys. -/
def select (s : Store) (model : String) (paths : List (List String)) (f : Formula Check)
    (columns : List OrderColumn) : List Row :=
  let root := s.model? model
  let paths := (paths ++ columns.flatMap fun o => stages o.relations).eraseDups
  let selected := (s.rows model).flatMap fun r =>
    ((s.bindings root r paths).filter (s.satisfies f)).map fun b =>
      (⟨r, columns.map fun o => (s.cellAt b o.relations o.column o.parts).getD .absent⟩ : Selected)
  let sorted := selected.mergeSort fun a b =>
    cellsInOrder (columns.map (·.descending)) a.cells b.cells
  sorted.map (·.row)

end Store
end PageQuery
