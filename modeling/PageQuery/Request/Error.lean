import PageQuery.Fault
import PageQuery.Value.Literal

/-!
# Request errors

Everything that can be wrong with a request, by cause.  A cause knows its kind, its wording and the
details that a client is told; the kind knows its code.  All of these errors come up while a request
is being understood, before any record is looked at.
-/

namespace PageQuery

/-- The kinds of request errors. -/
inductive ErrorKind where
  | general
  | invalidArgument
  | validation
  | filterFormat
  | sortFormat
  | propertyNotFound
  | pathTooDeep
  | unsupportedSortPath
  | valueConversion
  | emptyFilterValues
  | valueRequired
  deriving DecidableEq, Repr

namespace ErrorKind

def code : ErrorKind → String
  | general => "PAGEABLE_ERROR"
  | invalidArgument => "INVALID_ARGUMENT"
  | validation => "VALIDATION_ERROR"
  | filterFormat => "FILTER_FORMAT_ERROR"
  | sortFormat => "SORT_FORMAT_ERROR"
  | propertyNotFound => "PROPERTY_NOT_FOUND"
  | pathTooDeep => "PATH_TOO_DEEP"
  | unsupportedSortPath => "UNSUPPORTED_SORT_PATH"
  | valueConversion => "VALUE_CONVERSION_ERROR"
  | emptyFilterValues => "EMPTY_FILTER_VALUES"
  | valueRequired => "VALUE_REQUIRED"

def isLookup : ErrorKind → Bool
  | propertyNotFound => true
  | _ => false

def isBadValue : ErrorKind → Bool
  | general | propertyNotFound => false
  | _ => true

end ErrorKind

/-- An error as it is reported. -/
structure Report where
  kind : ErrorKind
  message : Value := .text ""
  details : List (String × Value) := []

namespace Report

/-- Makes a report from a message and named details.  A detail named `message` is the message, so
there may not be both; no detail may be named like the report itself. -/
def make (kind : ErrorKind) (message : Option Value) (details : List (String × Value)) :
    Except Fault Report :=
  if (details.lookup "self").isSome then .error .badType
  else
    match message, details.lookup "message" with
    | some _, some _ => .error .badType
    | some m, none => .ok { kind := kind, message := m, details := details }
    | none, some m =>
      .ok { kind := kind, message := m, details := details.filter (·.1 != "message") }
    | none, none => .ok { kind := kind, details := details }

/-- The report as a client receives it; details are shown only if there are any. -/
def payload (r : Report) : Value :=
  .mapping ([("code", .text r.kind.code), ("message", r.message)] ++
    (if r.details.isEmpty then [] else [("details", .mapping r.details)]))

end Report

/-- The two numbers of a request. -/
inductive PageField where
  | page
  | size
  deriving DecidableEq, Repr

namespace PageField

def name : PageField → String
  | page => "page"
  | size => "size"

/-- The name of the number at the beginning of a sentence. -/
def title : PageField → String
  | page => "Page"
  | size => "Size"

end PageField

/-- What is wrong with a request. -/
inductive RequestError where
  | noSource
  | noParameters
  | noRecordType
  | unsupportedSource (type : String)
  | notInteger (field : PageField) (got : Value)
  | belowOne (field : PageField)
  | sizeAbove (limit : Whole)
  | noClause (filter : Value)
  | emptyPath (path : Option String)
  | tooManyDates (property : Option String)
  | noSortToken (sort : Value)
  | unknownProperty (name type : String) (path : Option String)
  | noFields (name : String) (path : Option String) (owner : String)
  | noElementField (name collection : String) (path : Option String)
  | tooDeep (path : Option String) (limit : Whole)
  | pastCollection (path : Option String) (collection : String)
  | sortThroughCollection (path collection : String)
  | sortByRelation (path relation : String)
  | incomparable (raw type : String) (property : Option String)
  | unconvertible (raw type : String) (property : Option String)
  | notScalar (property : Option String) (field : String)
  | noValues (property : Option String)
  | noUsableValue (property : Option String)
  | needsTwoDates (placeholder : String) (property : Option String)
  | needsOneDate (property : Option String)

namespace RequestError

/-- A text that may be absent, as messages show it. -/
def shown (s : Option String) : String :=
  s.getD "None"

def kind : RequestError → ErrorKind
  | noSource | noParameters | noRecordType | unsupportedSource _ => .invalidArgument
  | notInteger .. | belowOne _ | sizeAbove _ => .validation
  | noClause _ | emptyPath _ | tooManyDates _ => .filterFormat
  | noSortToken _ => .sortFormat
  | unknownProperty .. | noFields .. | noElementField .. => .propertyNotFound
  | tooDeep .. | pastCollection .. => .pathTooDeep
  | sortThroughCollection .. | sortByRelation .. => .unsupportedSortPath
  | incomparable .. | unconvertible .. | notScalar .. => .valueConversion
  | noValues _ | noUsableValue _ => .emptyFilterValues
  | needsTwoDates .. | needsOneDate _ => .valueRequired

def message : RequestError → String
  | noSource => "Source cannot be None."
  | noParameters => "Request parameters cannot be None."
  | noRecordType =>
    "Cannot filter or sort a source without a record type; pass model=..."
  | unsupportedSource type => "Unsupported source type: " ++ type
  | notInteger field got => field.title ++ " must be an integer, got " ++ got.literal ++ "."
  | belowOne field => field.title ++ " must be greater than or equal to 1."
  | sizeAbove limit => "Size must be less than or equal to " ++ limit.text ++ "."
  | noClause filter =>
    "Invalid filter format: '" ++ filter.plainText ++
      "'. Expected format: 'property[value]' or 'property[value1,value2]'."
  | emptyPath path => "Invalid property path '" ++ shown path ++ "'"
  | tooManyDates property =>
    "Date filter accepts exactly 2 values (lower, upper). Property: '" ++ shown property ++ "'."
  | noSortToken sort =>
    "Sort '" ++ sort.plainText ++ "' must contain at least one valid property."
  | unknownProperty name type path =>
    "Cannot find property '" ++ name ++ "' on type '" ++ type ++ "' for path '" ++
      shown path ++ "'"
  | noFields name path owner =>
    "Cannot find property '" ++ name ++ "' for path '" ++ shown path ++ "': '" ++ owner ++
      "' has no fields"
  | noElementField name collection path =>
    "Cannot find property '" ++ name ++ "' on elements of '" ++ collection ++ "' for path '" ++
      shown path ++ "'"
  | tooDeep path limit =>
    "Property path '" ++ shown path ++ "' exceeds maximum depth of " ++ limit.text ++
      " levels. Example: 'address.city' is valid, but 'address.city.country' is not."
  | pastCollection path collection =>
    "Property path '" ++ shown path ++ "' goes more than one level past collection '" ++
      collection ++ "'."
  | sortThroughCollection path collection =>
    "Cannot sort by '" ++ path ++ "': ordering through collection '" ++ collection ++
      "' is not supported."
  | sortByRelation path relation =>
    "Cannot sort by '" ++ path ++ "': '" ++ relation ++ "' is a relation."
  | incomparable raw type property =>
    "Cannot convert value '" ++ raw ++ "' for property '" ++ shown property ++
      "': field of type '" ++ type ++ "' cannot be compared"
  | unconvertible raw type property =>
    "Cannot convert value '" ++ raw ++ "' to type '" ++ type ++ "' for property '" ++
      shown property ++ "'."
  | notScalar property field =>
    "Cannot filter property '" ++ shown property ++ "' by value: '" ++ field ++
      "' is not a scalar field."
  | noValues property =>
    "Filter values cannot be empty for property '" ++ shown property ++ "'."
  | noUsableValue property =>
    "Filter must have at least one valid value for property '" ++ shown property ++ "'."
  | needsTwoDates placeholder property =>
    "Date filter requires 2 values (use '" ++ placeholder ++ "' as placeholder). Property: '" ++
      shown property ++ "'."
  | needsOneDate property =>
    "Date filter must have at least one valid date value for property '" ++ shown property ++ "'."

/-- The details of an error: the argument, field, text or property that it is about. -/
def details : RequestError → List (String × Value)
  | noSource | unsupportedSource _ => [("argument", .text "source")]
  | noParameters => [("argument", .text "params")]
  | noRecordType => [("argument", .text "model")]
  | notInteger field _ | belowOne field => [("field", .text field.name)]
  | sizeAbove _ => [("field", .text PageField.size.name)]
  | noClause filter => [("filter", filter)]
  | noSortToken sort => [("sort", sort)]
  | incomparable raw _ property | unconvertible raw _ property =>
    [("property", .ofText? property), ("value", .text raw)]
  | emptyPath path | unknownProperty _ _ path | noFields _ path _ | noElementField _ _ path
  | tooDeep path _ | pastCollection path _ => [("property", .ofText? path)]
  | sortThroughCollection path _ | sortByRelation path _ => [("property", .text path)]
  | tooManyDates property | notScalar property _ | noValues property | noUsableValue property
  | needsTwoDates _ property | needsOneDate property => [("property", .ofText? property)]

def report (e : RequestError) : Report :=
  { kind := e.kind, message := .text e.message, details := e.details }

end RequestError
end PageQuery
