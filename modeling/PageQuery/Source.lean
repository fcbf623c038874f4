import PageQuery.Ordering.Arrange
import PageQuery.Path
import PageQuery.Trace

/-!
# Sources

A source offers records that can be filtered, ordered, counted and sliced: a list of records in
memory, or a query on a store.  Sources are values, so each operation gives a new one.  Every
operation is traced as a call; a source may be told to give up at a call, which is then its
outcome.
-/

namespace PageQuery

def Value.typeOf : Value → TypeRef
  | .none => .absent
  | .bool _ => .builtin "bool"
  | .int _ => .builtin "int"
  | .float _ => .builtin "float"
  | .decimal _ => .builtin "Decimal"
  | .uuid _ => .builtin "UUID"
  | .text _ => .builtin "str"
  | .bytes _ => .builtin "bytes"
  | .datetime _ => .builtin "datetime"
  | .date _ => .builtin "date"
  | .time _ _ => .builtin "time"
  | .duration _ => .builtin "timedelta"
  | .list _ => .builtin "list"
  | .tuple _ => .builtin "tuple"
  | .set _ => .builtin "set"
  | .mapping _ => .builtin "dict"
  | .member e _ _ _ => .enumeration e
  | .record _ t _ => .record t
  | .row m _ => .model m
  | .related _ _ => .builtin "list"

/-- Where the records of a source are. -/
inductive Holdings where
  | memory (records : List Value) (type : Option TypeRef)
  | store (query : Query)

/-- A source of records. -/
structure Source where
  holdings : Holdings
  failsAt : Option String := none

/-- What a caller offers as a source. -/
inductive Offer where
  | nothing
  | source (s : Source)
  | records (items : List Value)
  | unsupported (type : String)

namespace Source

/-- A source of records in memory; without a type given, the first record tells it. -/
def ofRecords (records : List Value) (type : Option TypeRef) : Source :=
  ⟨.memory records (type.orElse fun _ => records.head?.map Value.typeOf), none⟩

def ofQuery (q : Query) : Source := ⟨.store q, none⟩

def ofOffer (type : Option TypeRef) : Offer → Except RequestError Source
  | .nothing => .error .noSource
  | .source s => .ok s
  | .records items => .ok (ofRecords items type)
  | .unsupported t => .error (.unsupportedSource t)

def type? (s : Source) : Option TypeRef :=
  match s.holdings with
  | .memory _ t => t
  | .store q => some (.model q.model)

def typeName (s : Source) : String :=
  (s.type?.map TypeRef.name).getD "None"

def call (s : Source) (c : Call) : Traced Unit :=
  ⟨[.called c],
    if s.failsAt = some c.name then .error (.sourceFailed c.name) else .ok ()⟩

/-- The outcome of an operation that may meet a fault. -/
def attempt {α : Type} (r : Except Fault α) : Traced α :=
  .ofExcept (r.mapError .fault)

/-- Loads related records along; records in memory have theirs already. -/
def load (s : Source) (directives : Directives) : Traced Source := do
  s.call (.load directives)
  match s.holdings with
  | .memory _ _ => pure s
  | .store q => do
    let q ← attempt (q.load directives)
    pure { s with holdings := .store q }

def satisfying (zone : Int) (p : Predicate) : List Value → Except Failure (List Value)
  | [] => .ok []
  | r :: rs =>
    match p.holds zone r with
    | .error e => .error e
    | .ok keep =>
      match satisfying zone p rs with
      | .error e => .error e
      | .ok rs => .ok (if keep then r :: rs else rs)

/-- Keeps what satisfies a predicate; an absent one asks for nothing. -/
def restrict (x : Context) (s : Source) (predicate : Option Predicate) : Traced Source := do
  s.call (.restrict predicate)
  match predicate, s.holdings with
  | none, _ => pure s
  | some p, .memory records type => do
    let records ← .ofExcept (satisfying x.zone p records)
    pure { s with holdings := .memory records type }
  | some p, .store q => do
    let condition ← .ofExcept (Condition.ofPredicate q.store q.model [] p)
    let q ← attempt (q.restrict condition)
    pure { s with holdings := .store q }

def order (s : Source) (keys : List SortKey) : Traced Source := do
  s.call (.order keys)
  if keys.isEmpty then pure s
  else
    match s.holdings with
    | .memory records type => do
      let records ← attempt (SortKey.arrangeAll keys records)
      pure { s with holdings := .memory records type }
    | .store q => do
      let q ← attempt (q.orderBy keys)
      pure { s with holdings := .store q }

def count (s : Source) (awaited : Bool) : Traced Int := do
  s.call (.count awaited)
  match s.holdings with
  | .memory records _ => pure records.length
  | .store q => do
    let n ← attempt q.count
    pure n

/-- A position in a list of some length: negative ones count from its end, and none lies outside. -/
def position (length : Nat) (i : Int) : Nat :=
  (if i < 0 then max 0 (i + length) else min i length).toNat

/-- The items of a list from one position to another. -/
def between {α : Type} (xs : List α) (start stop : Int) : List α :=
  (xs.take (position xs.length stop)).drop (position xs.length start)

def slice (s : Source) (awaited : Bool) (offset limit : Int) : Traced (List Value) := do
  s.call (.slice awaited offset limit)
  match s.holdings with
  | .memory records _ => pure (between records offset (offset + limit))
  | .store q => attempt (q.slice offset (offset + limit))

end Source
end PageQuery
