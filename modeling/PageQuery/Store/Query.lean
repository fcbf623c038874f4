import PageQuery.Store.Condition
import PageQuery.Store.Select

/-!
# Queries

A query names the rows that are wanted from a store: those of a model that satisfy a condition, in
some order, with related rows loaded along.  It is a value; nothing is read before its rows are
counted or sliced.  Some of what may be wrong with it comes up when it is made, and the rest when it
is counted or sliced.
-/

namespace PageQuery

/-- What is to be loaded along with the rows. -/
inductive Directives where
  | none
  /-- A relation path with double underscores between the names. -/
  | path (lookup : String)
  | paths (lookups : List String)
  /-- A change of the query that joins single relations. -/
  | joining (lookups : List String)
  deriving DecidableEq, Repr

def Directives.isNone : Directives → Bool
  | .none => true
  | .path lookup => lookup.isEmpty
  | .paths lookups => lookups.isEmpty
  | .joining _ => false

/-- A query on a store. -/
structure Query where
  store : Store
  model : String
  filter : Formula Test := .empty
  order : List (List String × Bool) := []
  joined : List String := []
  prefetched : List String := []

namespace Query

def model? (q : Query) : Option Model := q.store.model? q.model

/-! ## Making queries -/

/-- Whether the first relation of a path leads to one row; a name that is no field of the model
has no answer. -/
def isJoinable? (m : Model) (lookup : String) : Option Bool :=
  let name := (lookupNames lookup).headD ""
  match m.field? name with
  | some f => some f.isSingle
  | Option.none => (m.ofKeyColumn? name).map fun _ => true

/-- Sorts relation paths into those that are joined and those that are fetched apart. -/
def distribute (m : Model) : List String → Except Fault (List String × List String)
  | [] => .ok ([], [])
  | lookup :: lookups =>
    match isJoinable? m lookup with
    | Option.none => .error .unknownRelation
    | some single =>
      match distribute m lookups with
      | .error f => .error f
      | .ok (joined, apart) =>
        .ok (if single then (lookup :: joined, apart) else (joined, lookup :: apart))

/-- The query with the related rows of some paths loaded along. -/
def loadPaths (q : Query) (lookups : List String) : Except Fault Query :=
  match q.model? with
  | Option.none => .error .unknownRelation
  | some m =>
    (distribute m lookups).map fun (joined, apart) =>
      { q with joined := q.joined ++ joined, prefetched := q.prefetched ++ apart }

def load (q : Query) (d : Directives) : Except Fault Query :=
  if d.isNone then .ok q
  else
    match d with
    | .none => .ok q
    | .joining lookups => .ok { q with joined := q.joined ++ lookups }
    | .path lookup => q.loadPaths [lookup]
    | .paths lookups => q.loadPaths lookups

/-- The query for the rows that satisfy a condition as well. -/
def restrict (q : Query) (c : Condition) : Except Fault Query :=
  (q.store.prepare q.model c).map fun f => { q with filter := q.filter.join .and f }

def orderNames (k : SortKey) : List String × Bool :=
  match k.columnOrder.toList with
  | '-' :: name => (lookupNames (String.ofList name), true)
  | name => (lookupNames (String.ofList name), false)

def orderPlace (q : Query) (names : List String) : Except Fault Place :=
  match q.model? with
  | Option.none => .error .unknownColumn
  | some m => q.store.place m names

/-- The query for rows ordered by keys, the names of which have to begin with a field. -/
def orderBy (q : Query) (keys : List SortKey) : Except Fault Query :=
  let order := keys.map orderNames
  (order.mapM fun o => q.orderPlace o.1).map fun _ => { q with order := order }

/-! ## Loading related rows -/

def addJoined (tree : List (String × Value)) : List String → List (String × Value)
  | [] => tree
  | name :: names =>
    if tree.any (·.1 == name) then
      tree.map fun e =>
        match e with
        | (k, .mapping inner) => if k = name then (k, .mapping (addJoined inner names)) else e
        | e => e
    else tree ++ [(name, .mapping (addJoined [] names))]

def joinedTree (q : Query) : List (String × Value) :=
  q.joined.foldl (fun tree lookup => addJoined tree (lookupNames lookup)) []

/-- Whether a field leads to one row of a model. -/
def isJoined : ModelField → Bool
  | .toOne _ | .ownerOf .. => true
  | _ => false

/-- Checks that each name of a path to be joined is a relation to one row. -/
def checkJoined (s : Store) (m : Option Model) : List String → Except Fault Unit
  | [] => .ok ()
  | name :: names =>
    match m.bind (·.field? name) with
    | some f =>
      if isJoined f then checkJoined s (f.target?.bind s.model?) names else .error .unknownColumn
    | Option.none => .error .unknownColumn

/-- What a path to be fetched apart has come to. -/
inductive Fetched where
  | rows (model : String) (rows : List Row)
  /-- Values that nothing can be fetched for. -/
  | values

/-- Fetches one more relation of a path for rows; `last` tells whether it ends the path. -/
def fetchStep (s : Store) (name : String) (last : Bool) : Fetched → Except Fault Fetched
  | .values => .ok .values
  | .rows _ [] => .ok .values
  | .rows model rs =>
    match s.model? model with
    | Option.none => .error .noAttribute
    | some m =>
      match m.field? name with
      | some (.column ..) => if last then .error .badValue else .ok .values
      | some f =>
        match f.target? with
        | Option.none => .ok .values
        | some target => .ok (.rows target (rs.flatMap fun r => s.related r name f))
      | Option.none =>
        if name = "pk" || (m.ofKeyColumn? name).isSome then
          if last then .error .badValue else .ok .values
        else .error .noAttribute

def fetch (s : Store) : List String → Fetched → Except Fault Unit
  | [], _ => .ok ()
  | name :: names, there =>
    match fetchStep s name names.isEmpty there with
    | .error f => .error f
    | .ok there => fetch s names there

/-! ## Reading rows -/

/-- Settles what the rows of a query have to satisfy, beside which some tables are joined.  There is
nothing to be read if no row can. -/
def settled (q : Query) (tables : List Store.JoinedTable) :
    Except Fault (Option (Formula Check)) :=
  let checked (f : Formula Check) : Except Fault (Option (Formula Check)) :=
    if Store.maxDepth < f.depth q.store q.model tables then .error .tooComplex
    else if f.fits then .ok (some f)
    else .error .overflow
  match q.filter.verdict q.store.zoned with
  | .error f => .error f
  | .ok .never => .ok Option.none
  | .ok .always => checked .empty
  | .ok (.depends f) => checked f

def count (q : Query) : Except Fault Nat :=
  (q.settled []).map fun
    | Option.none => 0
    | some f => (q.store.select q.model (Store.relationPaths q.filter) f []).length

def orderColumns (q : Query) : Except Fault (List Store.OrderColumn) :=
  q.order.mapM fun (names, descending) =>
    match q.orderPlace names with
    | .error f => .error f
    | .ok p =>
      match Test.orderParts p.type p.rest with
      | Option.none => .error .unknownColumn
      | some parts => .ok ⟨p.relations, p.column, parts, descending⟩

/-- The tables that are joined for the order and for the rows that are loaded along. -/
def joinedTables (q : Query) (columns : List Store.OrderColumn) : List Store.JoinedTable :=
  (columns.flatMap fun o => q.store.joins q.model? o.relations o.column) ++
    q.joined.flatMap fun lookup => (stages (lookupNames lookup)).map fun path => (path, true)

/-- Checks the rows that were read, and fetches what is to be fetched apart. -/
def completed (q : Query) (rows : List Row) : Except Fault (List Value) := do
  (rows.forM fun r => match q.model? with
    | Option.none => .ok ()
    | some m => q.store.readable m r : Except Fault Unit)
  q.prefetched.forM fun lookup =>
    fetch q.store (lookupNames lookup) (.rows q.model rows)
  pure (rows.map fun r => .row q.model r.key)

/-- The rows from `start` up to, but not including, `stop`, neither of which may be negative. -/
def slice (q : Query) (start stop : Int) : Except Fault (List Value) :=
  if start < 0 || stop < 0 then .error .badValue
  else do
    q.joined.forM fun lookup => checkJoined q.store q.model? (lookupNames lookup)
    let columns ← q.orderColumns
    match ← q.settled (q.joinedTables columns) with
    | Option.none => pure []
    | some f =>
      if stop ≤ start then pure []
      else if !Cell.fits start || !Cell.fits (stop - start) then .error .outOfStore
      else
        let rows := q.store.select q.model (Store.relationPaths q.filter) f columns
        q.completed ((rows.take stop.toNat).drop start.toNat)

end Query
end PageQuery
