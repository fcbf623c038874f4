import PageQuery.Value.Basic

/-!
# Formulas

A condition on the rows of a store is a tree of tests.  Joining conditions keeps the tree flat: an
empty one disappears, and one with the same connective or with a single test is dissolved into the
result.  A search for keys asks for the rows whose key is among those of the rows that satisfy
another condition.
-/

namespace PageQuery

/-- How conditions are joined. -/
inductive Connective where
  | and
  | or
  deriving DecidableEq, Repr

/-- A tree of tests on the rows of a model. -/
inductive Formula (α : Type) where
  | test (t : α)
  /-- The row's key is among those of the rows of `model` that satisfy a formula. -/
  | keyAmong (model : String) (inner : Formula α)
  | group (connective : Connective) (items : List (Formula α))

namespace Formula

variable {α : Type}

def empty : Formula α := .group .and []

def single (f : Formula α) : Formula α := .group .and [f]

def isEmpty : Formula α → Bool
  | .group _ [] => true
  | _ => false

def itemsFor (connective : Connective) : Formula α → List (Formula α)
  | .group c items => if c = connective || items.length = 1 then items else [.group c items]
  | f => [f]

def join (connective : Connective) (f g : Formula α) : Formula α :=
  if f.isEmpty then g
  else if g.isEmpty then f
  else .group connective (f.itemsFor connective ++ g.itemsFor connective)

end Formula

/-- How a cell is compared with a value. -/
inductive Comparison where
  | equal
  /-- As equal texts, but for the case of ASCII letters. -/
  | alike
  | containing
  | beginning
  | ending
  | above
  | atLeast
  | below
  | atMost
  | among
  | between
  | missing
  deriving DecidableEq, Repr

namespace Comparison

/-- The words for a comparison, the usual one first. -/
def words : Comparison → List String
  | equal => ["exact"]
  | alike => ["iexact"]
  | containing => ["icontains", "contains"]
  | beginning => ["istartswith", "startswith"]
  | ending => ["iendswith", "endswith"]
  | above => ["gt"]
  | atLeast => ["gte"]
  | below => ["lt"]
  | atMost => ["lte"]
  | among => ["in"]
  | between => ["range"]
  | missing => ["isnull"]

def all : List Comparison :=
  [equal, alike, containing, beginning, ending, above, atLeast, below, atMost, among, between,
    missing]

def named? (word : String) : Option Comparison :=
  all.find? fun c => c.words.contains word

/-- What stands behind a path to name a comparison; equality needs no name. -/
def marker : Comparison → String
  | equal => ""
  | c => "__" ++ c.words.headD ""

end Comparison

def lookupName (path : List String) : String :=
  String.intercalate "__" path

/-- The names of a path whose parts are parted by double underscores. -/
def lookupNames (lookup : String) : List String :=
  (go lookup.toList []).map String.ofList
where
  /-- Cuts characters at double underscores; `part` is the part so far, last character first. -/
  go : List Char → List Char → List (List Char)
    | [], part => [part.reverse]
    | '_' :: '_' :: cs, part => part.reverse :: go cs []
    | c :: cs, part => go cs (c :: part)

/-- A test as it is asked for: the path to a column, a comparison, and a value. -/
structure Lookup where
  path : List String
  comparison : Comparison
  value : Value

namespace Lookup

def name (l : Lookup) : String :=
  lookupName l.path ++ l.comparison.marker

end Lookup

/-- A condition on the rows of a model, as it is asked for. -/
abbrev Condition := Formula Lookup

end PageQuery
