import PageQuery.Fault
import PageQuery.Number.Binary
import PageQuery.Response

/-!
# Pages

A page is one slice of the records with the counters that a client needs to move on: its number,
its size, how many records there are in all and how many pages they fill.  The number of pages is
computed with one floating-point division, so it is exact as long as the counters are.
-/

namespace PageQuery

/-- The number of pages that some records fill; none without records. -/
def totalPages (elements size : Int) : Except Fault Int :=
  if elements ≤ 0 then .ok 0
  else if size = 0 then .error .divisionByZero
  else
    match (Binary64.ofRatio (decide (size < 0)) elements.natAbs size.natAbs).ceil? with
    | some n => .ok n
    | none => .error .overflow

/-- One page of results. -/
structure Page where
  data : List Value
  current : Whole
  size : Whole
  elements : Whole
  pages : Int

namespace Page

def of (data : List Value) (current size elements : Whole) : Except Fault Page :=
  (totalPages elements.number size.number).map fun pages =>
    { data, current, size, elements, pages }

/-- A page with every record changed; the counters stay. -/
def project (f : Value → Except Fault Value) (p : Page) : Except Fault Page :=
  (p.data.mapM f).map fun data => { p with data := data }

/-- Whether what a page was asked by can be written.  There is no doubt about the numbers of records and
of pages, which count what is there. -/
def hasNote (p : Page) : Bool :=
  p.current.hasText && p.size.hasText

def hasNext (p : Page) : Bool := p.current.number < p.pages

def hasPrevious (p : Page) : Bool := 1 < p.current.number

/-- The records as a response shows them.  With requested fields each becomes a nested mapping. -/
def shown (read : Value.Reader) (fields : List String) (p : Page) : Except Fault (List Value) :=
  if fields.isEmpty then .ok p.data else p.data.mapM fun r => Response.nested read r fields

def toMapping (read : Value.Reader) (fields : List String) (p : Page) :
    Except Fault (List (String × Value)) :=
  (p.shown read fields).map fun data =>
    [("data", .list data), ("current", p.current.given), ("size", p.size.given),
      ("elements", p.elements.given), ("pages", .int p.pages)]

end Page
end PageQuery
