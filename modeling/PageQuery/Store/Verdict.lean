import PageQuery.Store.Test

/-!
# Verdicts

Some tests are decided before any row is read: no number of a column reaches a bound beyond its
range, and every number stays below it.  A test that no row passes settles all that is joined to it
by `and`, and one that every row passes all that is joined to it by `or`, so that nothing behind it
is looked at any more.  What is left are demands on cells.
-/

namespace PageQuery

-- Powers are the core library's own, whatever other instances are in scope.
attribute [local instance (high)] instPowNat

/-- What is asked of a cell. -/
inductive Demand where
  | missing (yes : Bool)
  /-- The row of the cell is there. -/
  | reached
  | equal (c : Cell)
  | above (c : Cell)
  | atLeast (c : Cell)
  | below (c : Cell)
  | atMost (c : Cell)
  | among (cells : List Cell)
  | between (low high : Cell)
  | like (p : Pattern)
  deriving DecidableEq, Repr

namespace Demand

/-- Whether two cells, neither of which is absent, stand in an order. -/
def related (accepts : Ordering → Bool) (a b : Cell) : Bool :=
  !a.isAbsent && !b.isAbsent && accepts (a.order b)

/-- Whether a cell meets a demand.  An absent one, or one of a row that is not there, only ever
meets the demand that it is missing. -/
def holds (d : Demand) (cell : Option Cell) : Bool :=
  let a := cell.getD .absent
  match d with
  | missing yes => a.isAbsent == yes
  | reached => cell.isSome
  | equal b => related (· == .eq) a b
  | above b => related (· == .gt) a b
  | atLeast b => related (· != .lt) a b
  | below b => related (· == .lt) a b
  | atMost b => related (· != .gt) a b
  | among bs => bs.any fun b => related (· == .eq) a b
  | between b c => related (· != .lt) a b && related (· != .gt) a c
  | like p => (a.shown?.map p.matchesText).getD false

def cells : Demand → List Cell
  | missing _ | reached | like _ => []
  | equal c | above c | atLeast c | below c | atMost c => [c]
  | among cs => cs
  | between c d => [c, d]

end Demand

/-- A demand on the cell of a column of the row that relations lead to, or on a part of it, and the
depth of its expression. -/
structure Check where
  relations : List String
  column : String
  parts : List Part
  demand : Demand
  depth : Nat := 3

/-- What is known of a condition before any row is read. -/
inductive Verdict (α : Type) where
  | never
  | always
  | depends (a : α)

namespace Test

/-- The verdict on a number that is compared with another one: `tooLarge` or `tooSmall` if the
other one lies beyond the range of the column. -/
def byRange (type : ColumnType) (v : Value) (tooLarge tooSmall : Verdict Demand)
    (inside : Except Fault (Verdict Demand)) : Except Fault (Verdict Demand) :=
  match type.bounds?, v with
  | some (low, high), .int n =>
    if n < low then .ok tooSmall else if high < n then .ok tooLarge else inside
  | _, _ => inside

/-- The texts of a piece without hyphens, as identifiers are kept. -/
def piece (type : ColumnType) (s : String) : String :=
  if type = .uuid then String.ofList (s.toList.filter (· ≠ '-')) else s

def like (type : ColumnType) (begins ends : Bool) (v : Value) : Verdict Demand :=
  .depends (.like (Pattern.make begins ends (piece type v.plainText)))

def isYear : Value → Bool
  | .int n => 1 ≤ n && n ≤ 9999
  | _ => false

def yearFault : Value → Fault
  | .int n => if -(2 ^ (31 : Nat)) ≤ n && n < 2 ^ (31 : Nat) then .badValue else .overflow
  | _ => .badValue

def demand (zoned : Bool) (t : Test) : Except Fault (Verdict Demand) :=
  let type := partType t.place.type t.parts
  let encode := type.encode zoned
  let compared (wrap : Cell → Demand) : Except Fault (Verdict Demand) :=
    (encode t.value).map fun c => .depends (wrap c)
  if isYearly t.parts t.comparison && !isYear t.value then .error (yearFault t.value)
  else match t.comparison, t.value with
  | .missing, .bool yes => .ok (.depends (.missing yes))
  | .missing, _ => .error .badValue
  | .alike, v => .ok (like type true true v)
  | .containing, v => .ok (like type false false v)
  | .beginning, v => .ok (like type true false v)
  | .ending, v => .ok (like type false true v)
  | .equal, v => byRange type v .never .never (compared .equal)
  | .above, v => byRange type v .never .always (compared .above)
  | .atLeast, v => byRange type v .never .always (compared .atLeast)
  | .below, v => byRange type v .always .never (compared .below)
  | .atMost, v => byRange type v .always .never (compared .atMost)
  | .among, .list vs =>
    match vs.filter (!·.isNone) with
    | [] => .ok .never
    | vs => (vs.mapM encode).map fun cells => .depends (.among cells)
  | .between, .list [low, high] => do
    let low ← encode low
    let high ← encode high
    pure (.depends (.between low high))
  | _, _ => .error .badType

/-- The depth of the expression of a test: a column of truth values stands for itself. -/
def depth (t : Test) : Nat :=
  match t.place.type, t.comparison, t.value with
  | .boolean, .equal, .bool true => 2
  | _, _, _ => 3

def check (t : Test) (d : Demand) : Check :=
  ⟨t.place.relations, t.place.column, t.parts, d, t.depth⟩

/-- Whether a test asks for a missing cell, which that of a row that is not there is too. -/
def asksForNothing (t : Test) : Bool :=
  match t.comparison, t.value with
  | .missing, .bool true => true
  | _, _ => false

end Test

/-- The relations up to each one of a path, the outer ones first. -/
def stages (relations : List String) : List (List String) :=
  (List.range relations.length).map fun n => relations.take (n + 1)

namespace Formula

mutual

/-- The relation paths that have to lead to a row for any row to pass: what is joined by `and` needs
the paths of all items, and what is joined by `or` those that all items need. -/
def needed : Formula Test → List (List String)
  | .test t => if t.asksForNothing then [] else stages t.place.relations
  | .keyAmong _ _ => []
  | .group .and items => (neededBy items).flatten
  | .group .or items =>
    match neededBy items with
    | [] => []
    | paths :: others => paths.filter fun p => others.all (·.contains p)

def neededBy : List (Formula Test) → List (List (List String))
  | [] => []
  | f :: fs => needed f :: neededBy fs

end

mutual

/-- Settles a formula; `paths` are those that have to lead to a row.  A test that every number
passes still asks that its row be there if it has to be. -/
def settle (zoned : Bool) (paths : List (List String)) :
    Formula Test → Except Fault (Verdict (Formula Check))
  | .test t =>
    match t.demand zoned with
    | .error f => .error f
    | .ok .never => .ok .never
    | .ok .always =>
      if paths.contains t.place.relations then .ok (.depends (.test (t.check .reached)))
      else .ok .always
    | .ok (.depends d) => .ok (.depends (.test (t.check d)))
  | .keyAmong model inner =>
    match settle zoned (needed inner) inner with
    | .error f => .error f
    | .ok .never => .ok .never
    | .ok .always => .ok (.depends (.keyAmong model empty))
    | .ok (.depends f) => .ok (.depends (.keyAmong model f))
  | .group .and items =>
    match settleAll zoned paths items with
    | .error f => .error f
    | .ok none => .ok .never
    | .ok (some []) => .ok .always
    | .ok (some fs) => .ok (.depends (.group .and fs))
  | .group .or items =>
    match settleSome zoned paths items with
    | .error f => .error f
    | .ok none => .ok .always
    | .ok (some []) => .ok (if items.isEmpty then .always else .never)
    | .ok (some fs) => .ok (.depends (.group .or fs))

/-- Settles formulas that are joined by `and`; there is nothing left if one is never true. -/
def settleAll (zoned : Bool) (paths : List (List String)) :
    List (Formula Test) → Except Fault (Option (List (Formula Check)))
  | [] => .ok (some [])
  | f :: fs =>
    match settle zoned paths f with
    | .error e => .error e
    | .ok .never => .ok none
    | .ok .always => settleAll zoned paths fs
    | .ok (.depends g) => (settleAll zoned paths fs).map (·.map (g :: ·))

/-- Settles formulas that are joined by `or`; there is nothing left if one is always true. -/
def settleSome (zoned : Bool) (paths : List (List String)) :
    List (Formula Test) → Except Fault (Option (List (Formula Check)))
  | [] => .ok (some [])
  | f :: fs =>
    match settle zoned paths f with
    | .error e => .error e
    | .ok .always => .ok none
    | .ok .never => settleSome zoned paths fs
    | .ok (.depends g) => (settleSome zoned paths fs).map (·.map (g :: ·))

end

def verdict (zoned : Bool) (f : Formula Test) : Except Fault (Verdict (Formula Check)) :=
  f.settle zoned f.needed

end Formula
end PageQuery
