import PageQuery.Path
import PageQuery.Predicate.Basic
import PageQuery.Request.Filter

/-!
# From filters to predicates

Each item of a filter becomes one predicate.  Texts are tested for containment, dates against a
range with two slots, everything else for equality; several values of an item are alternatives,
and several items have to hold together.  A path that ends at a collection asks for some element
that passes.
-/

namespace PageQuery

open PageQuery.Text

/-- The value that a field's parser reads; every way in which it can fail is one error. -/
def Field.convert (f : Field) (raw : String) (path : Option String) : Except RequestError Value :=
  let path := match path with
    | some p => if p.isEmpty then some f.name else some p
    | none => some f.name
  match f.parser with
  | none => .error (.incomparable raw f.typeName path)
  | some p =>
    match p.run raw with
    | .ok v => .ok v
    | .error _ => .error (.unconvertible raw f.typeName path)

namespace Predicate

/-- Whether a slot of a date filter leaves its bound open: blank, or the placeholder. -/
def isOpenSlot (placeholder : Value) : Option String → Bool
  | none => true
  | some s =>
    isBlank s ||
      match (Value.text (trim s)).same placeholder with
      | .ok b => b
      | .error _ => false

/-- The bound that a slot of a date filter sets. -/
def bound (placeholder : Value) (f : Field) (property slot : Option String) :
    Except RequestError Value :=
  if isOpenSlot placeholder slot then .ok .none
  else f.convert (trim (slot.getD "")) property

/-- The range of a date filter, which has two slots and at least one bound. -/
def ofDates (settings : Settings) (f : Field) (field : List String) (item : FilterItem) :
    Except RequestError Predicate :=
  let placeholder := settings.datePlaceholder
  match item.values with
  | [low, high] => do
    let lower ← bound placeholder f item.property low
    let upper ← bound placeholder f item.property high
    if lower.isNone && upper.isNone then .error (.needsOneDate item.property)
    else .ok (.range field lower upper)
  | _ :: _ :: _ => .error (.tooManyDates item.property)
  | _ => .error (.needsTwoDates placeholder.plainText item.property)

/-- The values of an item that are not blank, trimmed. -/
def usableValues (item : FilterItem) : List String :=
  item.values.filterMap fun v =>
    if isBlank? v then none else v.map trim

/-- The tests of the usable values against a field. -/
def comparisons (f : Field) (field : List String) (item : FilterItem) :
    Except RequestError (List Predicate) :=
  if f.kind = .string then .ok ((usableValues item).map (.contains field))
  else (usableValues item).mapM fun v => (f.convert v item.property).map (.equals field)

/-- The predicate of an item on a field that its path leads to. -/
def ofLeaf (settings : Settings) (f : Field) (field : List String) (item : FilterItem) :
    Except RequestError Predicate :=
  match f.kind with
  | .datetime => ofDates settings f field item
  | .relation | .collection => .error (.notScalar item.property f.name)
  | _ => do
    let tests ← comparisons f field item
    match combine .or tests with
    | none => .error (.noUsableValue item.property)
    | some p => .ok p

def ofItem (x : Context) (root : TypeRef) (item : FilterItem) : Except Failure Predicate := do
  if item.values.isEmpty then .error (.request (.noValues item.property))
  else
    let p ← x.resolve root item.property
    if p.isCollection then
      let (f, field) ← x.resolveElement p
      let inner ← (ofLeaf x.settings f field item).mapError .request
      .ok (.any p.field inner)
    else (ofLeaf x.settings p.leaf p.field item).mapError .request

/-- The predicate of a filter: all its items have to hold.  Without items there is none. -/
def build (x : Context) (root : TypeRef) (items : List FilterItem) :
    Except Failure (Option Predicate) :=
  (items.mapM (ofItem x root)).map (combine .and)

/-- The types whose tables are looked at for an item. -/
def consultedByItem (x : Context) (root : TypeRef) (item : FilterItem) : List TypeRef :=
  if item.values.isEmpty then []
  else
    x.consulted root item.property ++
      match x.resolve root item.property with
      | .ok p => Context.consultedElement p
      | .error _ => []

/-- The types whose tables are looked at for a filter, up to the first item that fails. -/
def consulted (x : Context) (root : TypeRef) : List FilterItem → List TypeRef
  | [] => []
  | item :: items =>
    consultedByItem x root item ++
      match ofItem x root item with
      | .ok _ => consulted x root items
      | .error _ => []

end Predicate
end PageQuery
