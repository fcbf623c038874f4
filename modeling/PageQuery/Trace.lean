import PageQuery.Failure
import PageQuery.Schema.Registry
import PageQuery.Store.Query

/-!
# Traces

What an operation does on its way to an outcome: which tables it looks at, what it notes in the log,
and what it asks of a source.  A failure keeps the events before it.  The registry and the log of a
session follow from the events by replaying them.
-/

namespace PageQuery

/-- A call on a source. -/
inductive Call where
  | load (directives : Directives)
  | restrict (predicate : Option Predicate)
  | order (keys : List SortKey)
  | count (awaited : Bool)
  | slice (awaited : Bool) (offset limit : Int)

def Call.name : Call → String
  | load _ => "eager"
  | restrict _ => "predicate"
  | order _ => "ordering"
  | count awaited => if awaited then "acount" else "count"
  | slice awaited _ _ => if awaited then "aslice" else "slice"

/-- One thing that happened. -/
inductive Event where
  | looked (t : TypeRef)
  | noted (entry : LogEntry)
  | called (c : Call)

/-- An outcome and the events that led to it. -/
structure Traced (α : Type) where
  events : List Event
  outcome : Except Failure α

namespace Traced

def ofExcept {α : Type} (r : Except Failure α) : Traced α := ⟨[], r⟩

def event (e : Event) : Traced Unit := ⟨[e], .ok ()⟩

def note (level : LogLevel) (text : String) : Traced Unit := event (.noted ⟨level, text⟩)

def look (ts : List TypeRef) : Traced Unit := ⟨ts.map .looked, .ok ()⟩

/-- What is done with an outcome comes after the events that led to it. -/
def andThen {α β : Type} (t : Traced α) (f : α → Traced β) : Traced β :=
  match t.outcome with
  | .error e => ⟨t.events, .error e⟩
  | .ok a => let u := f a; ⟨t.events ++ u.events, u.outcome⟩

instance : Monad Traced where
  pure a := ⟨[], .ok a⟩
  bind := andThen

def calls {α : Type} (t : Traced α) : List Call :=
  t.events.filterMap fun
    | .called c => some c
    | _ => none

end Traced

def Registry.replayEvent (c : Catalogue) (r : Registry) : Event → Registry × List LogEntry
  | .looked t => r.consult c t
  | .noted entry => (r, [entry])
  | .called _ => (r, [])

/-- The registry and the lines of the log after some events. -/
def Registry.replay (c : Catalogue) (r : Registry) (events : List Event) :
    Registry × List LogEntry :=
  events.foldl
    (fun (r, log) e => let (r, more) := r.replayEvent c e; (r, log ++ more)) (r, [])

end PageQuery
