import Mathlib
import PageQuery.Proofs.Outcome

/-!
# What a request selects

The filter of a request stands for a predicate and its sort for a list of keys, and neither depends
on the page that is asked for.  Together they select a list of records.  A page of records in memory
is a slice of the selection, and the count of a request is the length of what its filter keeps.
-/

namespace PageQuery

/-- Whether a predicate, if there is one, holds on a value. -/
def Predicate.passes (zone : Int) (p : Option Predicate) (v : Value) : Bool :=
  match p with
  | none => true
  | some p => match p.holds zone v with
    | .ok verdict => verdict
    | .error _ => false

namespace Assembler

def predicateOf (x : Context) (type : Option TypeRef) (p : Parameters) :
    Except Failure (Option Predicate) := do
  if ← p.hasFilter then
    let root ← (recordType (.ofRecords [] type)).mapError .request
    let items ← p.filterItems
    let predicate ← Predicate.build x root items
    noted x predicate
  else pure none

/-- The keys that a sort stands for; none without a sort. -/
def keysOf (x : Context) (type : Option TypeRef) (p : Parameters) :
    Except Failure (List SortKey) := do
  if ← p.hasSort then
    let root ← (recordType (.ofRecords [] type)).mapError .request
    SortKey.build x root p.sort
  else pure []

/-- The records that a predicate keeps, which fails if it cannot be told for one of them. -/
def kept (zone : Int) (p : Option Predicate) (records : List Value) :
    Except Failure (List Value) :=
  match p with
  | none => .ok records
  | some p => Source.satisfying zone p records

/-- The records that a request selects, in the order that it asks for. -/
def selection (x : Context) (type : Option TypeRef) (p : Parameters) (records : List Value) :
    Except Failure (List Value) := do
  let predicate ← predicateOf x type p
  let chosen ← kept x.zone predicate records
  let keys ← keysOf x type p
  (SortKey.arrangeAll keys chosen).mapError .fault

/-! ## What a predicate keeps -/

theorem satisfying_eq_ok {zone : Int} {p : Predicate} {records chosen : List Value}
    (h : Source.satisfying zone p records = .ok chosen) :
    chosen = records.filter (Predicate.passes zone (some p)) := by
  induction records generalizing chosen with
  | nil =>
      rw [Source.satisfying, Except.ok.injEq] at h
      exact h.symm
  | cons record records ih =>
      rw [Source.satisfying] at h
      cases hrecord : p.holds zone record with
      | error e => simp [hrecord] at h
      | ok verdict =>
          cases hrest : Source.satisfying zone p records with
          | error e => simp [hrecord, hrest] at h
          | ok rest =>
              simp only [hrecord, hrest, Except.ok.injEq] at h
              rw [List.filter_cons, ← ih hrest, ← h]
              simp [Predicate.passes, hrecord]

theorem kept_eq_ok {zone : Int} {p : Option Predicate} {records chosen : List Value}
    (h : kept zone p records = .ok chosen) :
    chosen = records.filter (Predicate.passes zone p) := by
  cases p with
  | none =>
      rw [kept, Except.ok.injEq] at h
      exact h ▸ (List.filter_eq_self.mpr fun _ _ => rfl).symm
  | some p => exact satisfying_eq_ok h

/-! ## Records in memory -/

section Memory

variable (x : Context) (p : Parameters) (records : List Value) (type : Option TypeRef)

def inMemory (records : List Value) (type : Option TypeRef) : Source :=
  ⟨.memory records type, none⟩

theorem recordType_inMemory :
    recordType (inMemory records type) = recordType (.ofRecords [] type) := by
  cases type <;> rfl

theorem outcome_load (directives : Directives) :
    ((inMemory records type).load directives).outcome = .ok (inMemory records type) := by
  simp [Source.load, Source.outcome_call, inMemory]

theorem outcome_restrict (predicate : Option Predicate) :
    ((inMemory records type).restrict x predicate).outcome =
      (kept x.zone predicate records).map fun chosen => inMemory chosen type := by
  cases predicate with
  | none => simp [Source.restrict, Source.outcome_call, inMemory, kept, Except.map]
  | some predicate =>
      simp only [Source.restrict, Traced.outcome_bind, Source.outcome_call, inMemory,
        Outcome.ok_bind, kept, Traced.outcome_ofExcept, Traced.outcome_pure]
      cases Source.satisfying x.zone predicate records <;> rfl

theorem outcome_order (keys : List SortKey) :
    ((inMemory records type).order keys).outcome =
      ((SortKey.arrangeAll keys records).mapError .fault).map fun sorted =>
        inMemory sorted type := by
  cases keys with
  | nil => simp [Source.order, Source.outcome_call, inMemory, SortKey.arrangeAll]; rfl
  | cons key keys =>
      simp only [Source.order, Traced.outcome_bind, Source.outcome_call, inMemory,
        Outcome.ok_bind, List.isEmpty_cons, Bool.false_eq_true, if_false,
        Source.outcome_attempt, Traced.outcome_pure]
      cases SortKey.arrangeAll (key :: keys) records <;> rfl

theorem outcome_applyFilter :
    (applyFilter x p (inMemory records type)).outcome = (do
      let predicate ← predicateOf x type p
      (kept x.zone predicate records).map fun chosen => inMemory chosen type) := by
  simp only [applyFilter, Traced.outcome_bind, Traced.outcome_ofExcept, predicateOf]
  cases p.hasFilter with
  | error e => rfl
  | ok given =>
      cases given
      · simp [kept, Except.map]
      · simp [recordType_inMemory, outcome_restrict]

theorem outcome_applySort :
    (applySort x p (inMemory records type)).outcome = (do
      let keys ← keysOf x type p
      ((SortKey.arrangeAll keys records).mapError .fault).map fun sorted =>
        inMemory sorted type) := by
  simp only [applySort, Traced.outcome_bind, Traced.outcome_ofExcept, keysOf]
  cases p.hasSort with
  | error e => rfl
  | ok given =>
      cases given
      · simp [SortKey.arrangeAll, Except.map, Except.mapError]
      · simp [recordType_inMemory, outcome_order]

/-- The type of the records that a request is about: the given one, or that of the first record. -/
def typeFor (type : Option TypeRef) (records : List Value) : Option TypeRef :=
  type.orElse fun _ => records.head?.map Value.typeOf

/-- An ordered source holds the selection of its request. -/
theorem outcome_prepare {r : PageRequest} (hp : r.parameters = some p) :
    (prepare x (.records records) r true).outcome =
      (selection x (typeFor r.type records) p records).map fun chosen =>
        (p, inMemory chosen (typeFor r.type records)) := by
  have hsource : Source.ofRecords records r.type = inMemory records (typeFor r.type records) := rfl
  simp only [prepare, checkArguments, hp, Source.ofOffer, hsource, Traced.outcome_bind,
    outcome_asked, Except.mapError, Outcome.ok_bind, outcome_load, outcome_applyFilter, if_true,
    Traced.outcome_pure, selection]
  cases predicateOf x (typeFor r.type records) p with
  | error e => rfl
  | ok predicate =>
      cases hchosen : kept x.zone predicate records with
      | error e => simp [hchosen, Except.map]
      | ok chosen =>
          simp only [hchosen, Outcome.ok_bind, Except.map, outcome_applySort]
          cases keysOf x (typeFor r.type records) p with
          | error e => rfl
          | ok keys =>
              simp only [Outcome.ok_bind]
              cases SortKey.arrangeAll keys chosen <;> rfl

/-- A source that is left unordered holds what the filter of its request keeps. -/
theorem outcome_prepare_unordered {r : PageRequest} (hp : r.parameters = some p) :
    (prepare x (.records records) r false).outcome = (do
      let predicate ← predicateOf x (typeFor r.type records) p
      (kept x.zone predicate records).map fun chosen =>
        (p, inMemory chosen (typeFor r.type records))) := by
  have hsource : Source.ofRecords records r.type = inMemory records (typeFor r.type records) := rfl
  simp only [prepare, checkArguments, hp, Source.ofOffer, hsource, Traced.outcome_bind,
    outcome_asked, Except.mapError, Outcome.ok_bind, outcome_load, outcome_applyFilter,
    Bool.false_eq_true, if_false, Traced.outcome_pure]
  cases predicateOf x (typeFor r.type records) p with
  | error e => rfl
  | ok predicate =>
      cases hchosen : kept x.zone predicate records with
      | error e => simp [hchosen, Except.map]
      | ok chosen => simp [hchosen, Except.map]

/-- A page that is handed out is noted in the log, so its counters have to be ones that can be
written. -/
def handedOut (page : Page) : Except Failure Page :=
  if page.hasNote then .ok page else .error (.fault .badValue)

/-- A page is the slice of the selection that its number and size tell. -/
theorem outcome_page {r : PageRequest} (hp : r.parameters = some p) :
    (page x (.records records) r).outcome = (do
      let chosen ← selection x (typeFor r.type records) p records
      let page ← (Page.of (Source.between chosen p.offset (p.offset + p.size.number)) p.page p.size
        (.ofInt chosen.length)).mapError .fault
      handedOut page) := by
  simp only [page, Traced.outcome_bind, outcome_prepare x p records hp]
  cases selection x (typeFor r.type records) p records with
  | error e => rfl
  | ok chosen =>
      simp only [Except.map, Outcome.ok_bind, Source.count, Source.slice, Traced.outcome_bind,
        inMemory, Source.outcome_call, Traced.outcome_pure, Source.outcome_attempt,
        outcome_noteIf]
      cases Page.of (Source.between chosen p.offset (p.offset + p.size.number)) p.page p.size
        (.ofInt chosen.length) with
      | error f => rfl
      | ok page =>
          simp only [Except.mapError, Outcome.ok_bind, handedOut]
          split <;> rfl

/-- The count of a request is the number of records that its filter keeps. -/
theorem outcome_count {r : PageRequest} (hp : r.parameters = some p) :
    (count x (.records records) r).outcome = (do
      let predicate ← predicateOf x (typeFor r.type records) p
      (kept x.zone predicate records).map fun chosen => (chosen.length : Int)) := by
  have hp' : ({ r with directives := .none } : PageRequest).parameters = some p := hp
  simp only [count, Traced.outcome_bind, outcome_prepare_unordered x p records hp']
  cases predicateOf x (typeFor r.type records) p with
  | error e => rfl
  | ok predicate =>
      cases hchosen : kept x.zone predicate records with
      | error e => simp [hchosen, Except.map]
      | ok chosen => simp [hchosen, Except.map, Source.count, inMemory, Source.outcome_call]

end Memory

end Assembler
end PageQuery
