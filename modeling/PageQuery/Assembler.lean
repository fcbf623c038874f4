import PageQuery.Ordering.Build
import PageQuery.Page
import PageQuery.Predicate.Build
import PageQuery.Request.Parameters
import PageQuery.Source

/-!
# Assembling pages

A page is assembled in steps: related records are loaded along, the filter becomes a predicate that
restricts the source, the sort becomes keys that order it, the records are counted, and one slice is
read.  Everything that can be wrong with the request comes up before records are counted or read.
-/

namespace PageQuery

/-- What a caller asks the assembler for. -/
structure PageRequest where
  parameters : Option Parameters
  directives : Directives := .none
  type : Option TypeRef := none
  awaited : Bool := false

namespace Assembler

def checkArguments (offer : Offer) (parameters : Option Parameters) :
    Except RequestError Parameters :=
  match offer, parameters with
  | .nothing, _ => .error .noSource
  | _, none => .error .noParameters
  | _, some p => .ok p

/-- The record type of a source, without which nothing can be filtered or sorted. -/
def recordType (s : Source) : Except RequestError TypeRef :=
  match s.type? with
  | none => .error .noRecordType
  | some t => .ok t

/-- An outcome that is wrong only with the request. -/
def asked {α : Type} (r : Except RequestError α) : Traced α :=
  .ofExcept (r.mapError .request)

/-- Notes something in the log, if it can be written. -/
def noteIf (writable : Bool) (level : LogLevel) (text : String) : Traced Unit :=
  if writable then Traced.note level text else Source.attempt (.error .badValue)

/-- Builds the predicate of a filter, and notes it in the log if that is asked for. -/
def buildPredicate (x : Context) (root : TypeRef) (items : List FilterItem) :
    Traced (Option Predicate) := do
  Traced.look (Predicate.consulted x root items)
  let p ← .ofExcept (Predicate.build x root items)
  if x.settings.logsQueries then
    noteIf (p.all Predicate.hasLiteral) .info
      ("Built predicate for " ++ root.name ++ ": " ++ Predicate.literal? p)
  pure p

/-- Builds the keys of a sort, and notes them in the log if that is asked for. -/
def buildOrdering (x : Context) (root : TypeRef) (sort : Value) : Traced (List SortKey) := do
  Traced.look (SortKey.consulted x root sort)
  let keys ← .ofExcept (SortKey.build x root sort)
  if x.settings.logsQueries then
    Traced.note .info ("Built ordering for " ++ root.name ++ ": " ++ SortKey.literals keys)
  pure keys

/-- Restricts a source to what the filter asks for, if there is one. -/
def applyFilter (x : Context) (p : Parameters) (s : Source) : Traced Source := do
  if ← .ofExcept p.hasFilter then
    let root ← asked (recordType s)
    let items ← .ofExcept p.filterItems
    let predicate ← buildPredicate x root items
    s.restrict x predicate
  else pure s

def applySort (x : Context) (p : Parameters) (s : Source) : Traced Source := do
  if ← .ofExcept p.hasSort then
    let root ← asked (recordType s)
    let keys ← buildOrdering x root p.sort
    s.order keys
  else pure s

def prepare (x : Context) (offer : Offer) (r : PageRequest) (ordered : Bool) :
    Traced (Parameters × Source) := do
  let p ← asked (checkArguments offer r.parameters)
  let s ← asked (Source.ofOffer r.type offer)
  let s ← s.load r.directives
  let s ← applyFilter x p s
  let s ← if ordered then applySort x p s else pure s
  pure (p, s)

/-- One page of the records that a request asks for.  It is noted in the log whether or not the log is
kept, so its counters have to be ones that can be written. -/
def page (x : Context) (offer : Offer) (r : PageRequest) : Traced Page := do
  let (p, s) ← prepare x offer r true
  let elements ← s.count r.awaited
  let data ← s.slice r.awaited p.offset p.size.number
  let page ← Source.attempt (Page.of data p.page p.size (.ofInt elements))
  noteIf page.hasNote .debug ("Paged " ++ s.typeName ++ ": page=" ++ page.current.text ++ " size=" ++
    page.size.text ++ " elements=" ++ page.elements.text ++ " pages=" ++ toString page.pages)
  pure page

/-- The number of records that satisfy the filter of a request; its sort is not looked at. -/
def count (x : Context) (offer : Offer) (r : PageRequest) : Traced Int := do
  let (_, s) ← prepare x offer { r with directives := .none } false
  let elements ← s.count r.awaited
  Traced.note .debug ("Counted " ++ toString elements ++ " " ++ s.typeName ++ " records")
  pure elements

end Assembler
end PageQuery
