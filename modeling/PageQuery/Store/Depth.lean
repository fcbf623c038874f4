import PageQuery.Store.Verdict

/-!
# Depth

A store refuses conditions whose expressions are nested too deeply.  Joined tests nest to the left,
so each one more adds a level; a search for keys is a level above the condition inside; and every
table that a search has to join is a level too.
-/

namespace PageQuery

namespace Store

def maxDepth : Nat := 1000

/-- A table that is joined: the relations that lead to it, and whether it holds the related rows
or only the links to them. -/
abbrev JoinedTable := List String × Bool

/-- The tables that have to be joined for a column behind relations.  The links tell the keys of
linked rows already. -/
def joins (s : Store) (m : Option Model) (relations : List String) (column : String) :
    List JoinedTable :=
  (stages relations).flatMap fun path =>
    match s.relationAt? m path with
    | some (.linked _) | some (.linkedFrom ..) =>
      if path.length = relations.length && column = "id" then [(path, false)]
      else [(path, false), (path, true)]
    | _ => [(path, true)]

mutual

def joinsOf (s : Store) (m : Option Model) : Formula Check → List JoinedTable
  | .test c => s.joins m c.relations c.column
  | .keyAmong _ _ => []
  | .group _ items => joinsOfAll s m items

def joinsOfAll (s : Store) (m : Option Model) : List (Formula Check) → List JoinedTable
  | [] => []
  | f :: fs => joinsOf s m f ++ joinsOfAll s m fs

end

end Store

namespace Formula

mutual

def levels : Formula Check → Nat
  | .test c => c.depth
  | .keyAmong _ inner => 1 + max 2 (levels inner)
  | .group _ items => levelsOfAll 0 items

/-- The number of levels of joined expressions, behind ones with `before` levels. -/
def levelsOfAll (before : Nat) : List (Formula Check) → Nat
  | [] => before
  | f :: fs =>
    levelsOfAll (if before = 0 then levels f else 1 + max before (levels f)) fs

end

mutual

/-- The levels that the searches inside an expression add, the deepest one counting. -/
def innerLevels (s : Store) : Formula Check → Nat
  | .test _ => 0
  | .keyAmong model inner =>
    levels inner + (s.joinsOf (s.model? model) inner).eraseDups.length + innerLevels s inner
  | .group _ items => innerLevelsOfAll s items

/-- The levels that the searches inside several expressions add. -/
def innerLevelsOfAll (s : Store) : List (Formula Check) → Nat
  | [] => 0
  | f :: fs => max (innerLevels s f) (innerLevelsOfAll s fs)

end

/-- The depth of a condition, beside which some tables are joined. -/
def depth (s : Store) (model : String) (tables : List Store.JoinedTable) (f : Formula Check) :
    Nat :=
  f.levels + (tables ++ s.joinsOf (s.model? model) f).eraseDups.length + f.innerLevels s

mutual

/-- Whether a store can keep every number that a condition compares with. -/
def fits : Formula Check → Bool
  | .test c => c.demand.cells.all fun cell => (cell.whole?.map Cell.fits).getD true
  | .keyAmong _ inner => fits inner
  | .group _ items => allFit items

/-- Whether a store can keep every number that several conditions compare with. -/
def allFit : List (Formula Check) → Bool
  | [] => true
  | f :: fs => fits f && allFit fs

end

end Formula
end PageQuery
