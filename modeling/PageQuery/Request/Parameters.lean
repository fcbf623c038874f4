import PageQuery.Number.Numeral
import PageQuery.Request.Filter
import PageQuery.Settings

/-!
# Request parameters

A request asks for a page of a certain size, and may carry a filter and a sort.  Page and size are
checked whenever they are set, so parameters never hold numbers out of range; filter and sort are
kept as they come and are read when they are used.
-/

namespace PageQuery

open PageQuery.Text

/-- The parameters of a request. -/
structure Parameters where
  page : Whole
  size : Whole
  sort : Value := .none
  filter : Value := .none

namespace Parameters

def atLeastOne (field : PageField) (v : Value) : Except Failure Whole :=
  match Whole.ofValue? v with
  | none => .error ((Failure.request (.notInteger field v)).showing v.hasLiteral)
  | some n => if n.number < 1 then .error (.request (.belowOne field)) else .ok n

def checkPage (v : Value) : Except Failure Whole :=
  atLeastOne .page v

def checkSize (s : Settings) (v : Value) : Except Failure Whole :=
  match Whole.ofValue? v with
  | none => .error ((Failure.request (.notInteger .size v)).showing v.hasLiteral)
  | some _ => do
    let limit ← s.maxSize
    let n ← atLeastOne .size v
    if limit.number < n.number then
      .error ((Failure.request (.sizeAbove limit)).showing limit.hasText)
    else .ok n

def setPage (p : Parameters) (v : Value) : Except Failure Parameters :=
  (checkPage v).map fun n => { p with page := n }

def setSize (s : Settings) (p : Parameters) (v : Value) : Except Failure Parameters :=
  (checkSize s v).map fun n => { p with size := n }

def orDefault (default : Except Failure Whole) (v : Value) : Except Failure Value :=
  if v.isNone then default.map (·.given) else .ok v

/-- Makes parameters; an absent page or size has its default. -/
def make (s : Settings) (page size sort filter : Value) : Except Failure Parameters := do
  let page ← orDefault s.defaultPage page
  let page ← checkPage page
  let size ← orDefault s.defaultSize size
  let size ← checkSize s size
  .ok { page, size, sort, filter }

/-- Reads a number of a query, which is written as a text first.  An absent or blank one is left to the
default. -/
def queryNumber (field : PageField) (raw : Value) : Except Failure Value :=
  if raw.isNone then .ok .none
  else
    match raw.writePlain with
    | .error f => .error (.fault f)
    | .ok text =>
      if isBlank text then .ok .none
      else
        match Number.readInteger (trim text) with
        | some n => .ok (.int n)
        | none => .error ((Failure.request (.notInteger field raw)).showing raw.hasLiteral)

def orNone (v : Value) : Value :=
  if v.isTruthy then v else .none

/-- Makes parameters from a query, which gives a value for each name. -/
def ofQuery (s : Settings) (query : String → Value) : Except Failure Parameters := do
  let page ← queryNumber .page (query "page")
  let size ← queryNumber .size (query "size")
  make s page size (orNone (query "sort")) (orNone (query "filter"))

def offset (p : Parameters) : Int :=
  (p.page.number - 1) * p.size.number

/-- Octets that are ASCII white space. -/
def isBlankOctet (o : UInt8) : Bool :=
  (9 ≤ o && o ≤ 13) || o == 32

/-- Whether a filter or sort is there and not blank.  Something that is no text cannot be told to be
blank. -/
def isGiven (v : Value) : Except Failure Bool :=
  if !v.isTruthy then .ok false
  else
    match v.bare with
    | .text s => .ok (!isBlank s)
    | .bytes os => .ok (!os.all isBlankOctet)
    | _ => .error (.fault .noAttribute)

def hasFilter (p : Parameters) : Except Failure Bool := isGiven p.filter

def hasSort (p : Parameters) : Except Failure Bool := isGiven p.sort

def filterItems (p : Parameters) : Except Failure (List FilterItem) := do
  if ← p.hasFilter then
    match p.filter.asText? with
    | some s => (Filter.parseAs p.filter s).mapError .request
    | none => .error (.fault .badType)
  else .ok []

/-- Whether a page, a size, a sort and a filter can all be written. -/
def hasLiteral (p : Parameters) : Bool :=
  Value.haveLiterals [p.page.given, p.size.given, p.sort, p.filter]

def write (p : Parameters) : Except Fault String :=
  if p.hasLiteral then
    .ok ("RequestParameters(page=" ++ p.page.given.literal ++ ", size=" ++ p.size.given.literal ++
      ", sort=" ++ p.sort.literal ++ ", filter=" ++ p.filter.literal ++ ")")
  else .error .badValue

end Parameters
end PageQuery
