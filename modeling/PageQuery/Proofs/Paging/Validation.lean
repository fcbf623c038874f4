import Mathlib
import PageQuery.Proofs.Paging.Selection

/-!
# Requests that are refused

The filter of a request is validated, and after it the sort.  A request that is wrong in either is
refused before its records are counted or read.  A list in memory, however, is filtered as soon as
its filter has been validated.  So a request whose sort is wrong is refused for its sort where the
predicate of the filter has a verdict on every record; otherwise the first record without a verdict
comes in between, and the request fails with what went wrong there.
-/

namespace PageQuery

/-! ## Calls -/

namespace Traced

variable {α β : Type}

theorem calls_bind (t : Traced α) (f : α → Traced β) :
    (t >>= f).calls = t.calls ++ match t.outcome with
      | .ok a => (f a).calls
      | .error _ => [] := by
  change (t.andThen f).calls = _
  rw [andThen]
  cases h : t.outcome with
  | error e => simp [calls]
  | ok a => simp [calls]

/-- What holds of the calls of a step, and of what is done with its outcome, holds of both together. -/
theorem forall_calls_bind {t : Traced α} {f : α → Traced β} {P : Call → Prop}
    (ht : ∀ c ∈ t.calls, P c) (hf : ∀ a, t.outcome = .ok a → ∀ c ∈ (f a).calls, P c) :
    ∀ c ∈ (t >>= f).calls, P c := by
  intro c hc
  rw [calls_bind, List.mem_append] at hc
  rcases hc with hc | hc
  · exact ht c hc
  · cases h : t.outcome with
    | error e => simp [h] at hc
    | ok a => exact hf a h c (by simpa [h] using hc)

@[simp]
theorem calls_pure (a : α) : (pure a : Traced α).calls = [] := rfl

@[simp]
theorem calls_ofExcept (r : Except Failure α) : (ofExcept r).calls = [] := rfl

@[simp]
theorem calls_note (level : LogLevel) (text : String) : (note level text).calls = [] := rfl

@[simp]
theorem calls_look (ts : List TypeRef) : (look ts).calls = [] := by
  simp [calls, look, List.filterMap_map]

end Traced

/-! ## Records without a verdict -/

/-- A filter fails on a list as its verdicts do when they are asked for in order. -/
theorem Source.satisfying_eq_error {zone : ℤ} {p : Predicate} {records : List Value} {e : Failure} :
    Source.satisfying zone p records = .error e ↔ records.mapM (p.holds zone) = .error e := by
  induction records with
  | nil => simp [satisfying, List.mapM_nil, pure, Except.pure]
  | cons record records ih =>
      rw [satisfying, List.mapM_cons]
      cases hrecord : p.holds zone record with
      | error e' => simp
      | ok verdict =>
          rw [Outcome.ok_bind, Outcome.bind_eq_error, ← ih]
          cases hrest : satisfying zone p records <;> simp [pure, Except.pure]

namespace Assembler

section Refused

variable {x : Context} {p : Parameters} {type : Option TypeRef} {records : List Value}

theorem exists_kept {predicate : Option Predicate}
    (h : ∀ q, predicate = some q → ∀ record ∈ records, ∃ b, q.holds x.zone record = .ok b) :
    ∃ chosen, kept x.zone predicate records = .ok chosen := by
  cases predicate with
  | none => exact ⟨records, rfl⟩
  | some q =>
      cases hkept : Source.satisfying x.zone q records with
      | ok chosen => exact ⟨chosen, hkept⟩
      | error e =>
          obtain ⟨record, hmem, hrecord⟩ :=
            Outcome.exists_of_mapM_eq_error (Source.satisfying_eq_error.mp hkept)
          obtain ⟨verdict, hverdict⟩ := h q rfl record hmem
          rw [hrecord] at hverdict
          cases hverdict

/-- Checks the filter of a request, and after it the sort. -/
def validate (x : Context) (type : Option TypeRef) (p : Parameters) : Except Failure Unit := do
  let _ ← predicateOf x type p
  let _ ← keysOf x type p
  pure ()

theorem validate_eq_error {e : Failure} (h : validate x type p = .error e) :
    predicateOf x type p = .error e ∨
      ∃ predicate, predicateOf x type p = .ok predicate ∧ keysOf x type p = .error e := by
  rcases Outcome.bind_eq_error.mp h with hfilter | ⟨predicate, hpredicate, hsort⟩
  · exact .inl hfilter
  · rcases Outcome.bind_eq_error.mp hsort with hsort | ⟨keys, -, hdone⟩
    · exact .inr ⟨predicate, hpredicate, hsort⟩
    · cases hdone

/-- A call that loads related records along or hands over the predicate. -/
def IsEarly (c : Call) : Prop :=
  (∃ directives, c = .load directives) ∨ ∃ predicate, c = .restrict predicate

theorem calls_call (s : Source) {c : Call} (hc : IsEarly c) : ∀ d ∈ (s.call c).calls, IsEarly d := by
  intro d hd
  obtain rfl : d = c := by simpa [Source.call, Traced.calls] using hd
  exact hc

theorem calls_load (s : Source) (directives : Directives) :
    ∀ c ∈ (s.load directives).calls, IsEarly c := by
  refine Traced.forall_calls_bind (calls_call s (.inl ⟨directives, rfl⟩)) fun _ _ => ?_
  cases s.holdings with
  | memory records type => simp
  | store q => exact Traced.forall_calls_bind (by simp [Source.attempt]) (by simp)

theorem calls_restrict (s : Source) (predicate : Option Predicate) :
    ∀ c ∈ (s.restrict x predicate).calls, IsEarly c := by
  refine Traced.forall_calls_bind (calls_call s (.inr ⟨predicate, rfl⟩)) fun _ _ => ?_
  cases predicate with
  | none => simp
  | some q =>
      cases s.holdings with
      | memory records type => exact Traced.forall_calls_bind (by simp) (by simp)
      | store query =>
          exact Traced.forall_calls_bind (by simp) fun _ _ =>
            Traced.forall_calls_bind (by simp [Source.attempt]) (by simp)

@[simp]
theorem calls_noteIf (writable : Bool) (level : LogLevel) (text : String) :
    (noteIf writable level text).calls = [] := by
  cases writable <;> rfl

@[simp]
theorem calls_buildPredicate (root : TypeRef) (items : List FilterItem) :
    (buildPredicate x root items).calls = [] := by
  rw [buildPredicate]
  cases Predicate.build x root items with
  | error e => simp [Traced.calls_bind]
  | ok p =>
      cases x.settings.logsQueries with
      | false => simp [Traced.calls_bind]
      | true => cases hwritable : p.all Predicate.hasLiteral <;> simp [Traced.calls_bind, hwritable]

@[simp]
theorem calls_buildOrdering (root : TypeRef) (sort : Value) :
    (buildOrdering x root sort).calls = [] := by
  rw [buildOrdering]
  cases SortKey.build x root sort <;> simp [Traced.calls_bind]
  split <;> rfl

theorem calls_applyFilter (s : Source) : ∀ c ∈ (applyFilter x p s).calls, IsEarly c := by
  refine Traced.forall_calls_bind (by simp) fun given _ => ?_
  cases given with
  | false => simp
  | true =>
      refine Traced.forall_calls_bind (by simp [asked]) fun root _ => ?_
      refine Traced.forall_calls_bind (by simp) fun items _ => ?_
      exact Traced.forall_calls_bind (by simp) fun predicate _ => calls_restrict s predicate

/-- A sort that is refused is not handed over. -/
theorem calls_applySort {e : Failure} (h : keysOf x type p = .error e) :
    ∀ c ∈ (applySort x p (inMemory records type)).calls, IsEarly c := by
  refine Traced.forall_calls_bind (by simp) fun given hgiven => ?_
  rw [Traced.outcome_ofExcept] at hgiven
  cases given with
  | false => simp
  | true =>
      refine Traced.forall_calls_bind (by simp [asked]) fun root hroot => ?_
      rw [outcome_asked, recordType_inMemory] at hroot
      refine Traced.forall_calls_bind (by simp) fun keys hkeys => ?_
      rw [outcome_buildOrdering] at hkeys
      have hok : keysOf x type p = .ok keys := by
        rw [keysOf, hgiven, Outcome.ok_bind, if_pos rfl, hroot, Outcome.ok_bind, hkeys]
      rw [h] at hok
      cases hok

/-- A request that is refused gets as far as handing over its predicate. -/
theorem calls_prepare {r : PageRequest} (hp : r.parameters = some p) {e : Failure}
    (hinvalid : validate x (typeFor r.type records) p = .error e) :
    ∀ c ∈ (prepare x (.records records) r true).calls, IsEarly c := by
  refine Traced.forall_calls_bind (by simp [asked]) fun q hq => ?_
  obtain rfl : p = q := by
    simpa [checkArguments, hp, Except.mapError] using hq
  refine Traced.forall_calls_bind (by simp [asked]) fun s hs => ?_
  obtain rfl : inMemory records (typeFor r.type records) = s := Except.ok.inj hs
  refine Traced.forall_calls_bind (calls_load _ r.directives) fun s hs => ?_
  obtain rfl : inMemory records (typeFor r.type records) = s := by
    simpa [outcome_load] using hs
  refine Traced.forall_calls_bind (calls_applyFilter _) fun s hs => ?_
  rw [outcome_applyFilter] at hs
  obtain ⟨predicate, hpredicate, hs⟩ := Outcome.bind_eq_ok.mp hs
  obtain ⟨chosen, -, rfl⟩ := Outcome.map_eq_ok.mp hs
  have hkeys : keysOf x (typeFor r.type records) p = .error e := by
    rcases validate_eq_error hinvalid with hfilter | ⟨-, -, hsort⟩
    · rw [hpredicate] at hfilter
      cases hfilter
    · exact hsort
  exact Traced.forall_calls_bind (calls_applySort hkeys) (by simp)

theorem selection_of_invalid {e : Failure} (hinvalid : validate x type p = .error e)
    (records : List Value) :
    ∃ e', selection x type p records = .error e' := by
  rcases validate_eq_error hinvalid with hfilter | ⟨predicate, hfilter, hsort⟩
  · exact ⟨e, by rw [selection, hfilter, Outcome.error_bind]⟩
  · rw [selection, hfilter, Outcome.ok_bind]
    cases kept x.zone predicate records with
    | error e' => exact ⟨e', rfl⟩
    | ok chosen => exact ⟨e, by rw [Outcome.ok_bind, hsort, Outcome.error_bind]⟩

/-- A request whose filter or sort is wrong is refused before its records are counted, ordered or
read.  It fails for what is wrong with it, whatever the records are, unless the filter is right and
its predicate has no verdict on some record: then it fails as the predicate does on the first such
record. -/
theorem page_of_invalid {r : PageRequest} (hp : r.parameters = some p) {root : TypeRef}
    (htype : r.type = some root) {e : Failure} (hinvalid : validate x (some root) p = .error e)
    (records : List Value) :
    ((∀ predicate, predicateOf x (some root) p = .ok (some predicate) →
        ∀ record ∈ records, ∃ verdict, predicate.holds x.zone record = .ok verdict) →
      (page x (.records records) r).outcome = .error e) ∧
    (∀ predicate before record after e',
      predicateOf x (some root) p = .ok (some predicate) → records = before ++ record :: after →
      (∀ earlier ∈ before, ∃ verdict, predicate.holds x.zone earlier = .ok verdict) →
      predicate.holds x.zone record = .error e' →
      (page x (.records records) r).outcome = .error e') ∧
    ∀ c ∈ (page x (.records records) r).calls, IsEarly c := by
  have hroot : typeFor r.type records = some root := by rw [htype]; rfl
  refine ⟨fun hverdicts => ?_, ?_, ?_⟩
  · rw [outcome_page x p records hp, hroot, selection]
    rcases validate_eq_error hinvalid with hfilter | ⟨predicate, hfilter, hsort⟩
    · simp only [hfilter, Outcome.error_bind]
    · obtain ⟨chosen, hchosen⟩ : ∃ chosen, kept x.zone predicate records = .ok chosen :=
        exists_kept fun q hq => hverdicts q (hq ▸ hfilter)
      simp only [hfilter, Outcome.ok_bind, hchosen, hsort, Outcome.error_bind]
  · intro predicate before record after e' hfilter hrecords hbefore hrecord
    have hkept : kept x.zone (some predicate) records = .error e' :=
      Source.satisfying_eq_error.mpr
        (Outcome.mapM_eq_error.mpr ⟨before, record, after, hrecords, hbefore, hrecord⟩)
    rw [outcome_page x p records hp, hroot, selection]
    simp only [hfilter, Outcome.ok_bind, hkept, Outcome.error_bind]
  · rw [← hroot] at hinvalid
    refine Traced.forall_calls_bind (calls_prepare hp hinvalid) fun prepared hprepared => ?_
    obtain ⟨e', hselected⟩ := selection_of_invalid hinvalid records
    rw [outcome_prepare x p records hp, hselected] at hprepared
    cases hprepared

end Refused

/-- A registry with the table of items, which have a price. -/
def stall : Context where
  catalogue := {}
  registry :=
    { tables := [(.record "Item", .ofFields
        [{ name := "price", kind := .scalar, parser := some .decimal }])] }

/-- A right filter for items with a sort by what they do not have. -/
def sortedByNothing : Parameters :=
  ⟨.ofInt 1, .ofInt 10, .text "nope", .text "price[1]"⟩

/-- An item whose price is a signalling not-a-number, which equals nothing and differs from nothing. -/
def unpriced : Value :=
  .record (.own 1) "Item" [("price", .decimal (.nan false true 0))]

/-- Asked for items by what they do not have, an empty list refuses the sort; a list with such a
price fails over the price. -/
theorem page_of_invalid_stall :
    ∃ e, validate stall (some (.record "Item")) sortedByNothing = .error (.request e) ∧
      (page stall (.records []) ⟨some sortedByNothing, .none, some (.record "Item"), false⟩).outcome =
        .error (.request e) ∧
      (page stall (.records [unpriced])
        ⟨some sortedByNothing, .none, some (.record "Item"), false⟩).outcome =
        .error (.fault .invalidOperation) := by
  have hrefused :
      (Outcome.request? (validate stall (some (.record "Item")) sortedByNothing)).isSome := by
    decide +kernel
  obtain ⟨e, he⟩ := Option.isSome_iff_exists.mp hrefused
  replace he := Outcome.request?_eq_some.mp he
  have hfails : ((predicateOf stall (some (.record "Item")) sortedByNothing).toOption.join.bind
      fun predicate => Outcome.fault? (predicate.holds stall.zone unpriced)) =
        some .invalidOperation := by decide +kernel
  obtain ⟨predicate, hfilter, hprice⟩ := Option.bind_eq_some_iff.mp hfails
  replace hfilter := Outcome.toOption_eq_some.mp (Option.join_eq_some_iff.mp hfilter)
  replace hprice := Outcome.fault?_eq_some.mp hprice
  refine ⟨e, he, ?_, ?_⟩
  · refine (page_of_invalid ?_ rfl he []).1 fun _ _ _ hmem => absurd hmem List.not_mem_nil
    rfl
  · refine (page_of_invalid ?_ rfl he [unpriced]).2.1 _ [] unpriced [] _ hfilter rfl
      (fun _ h => absurd h List.not_mem_nil) hprice
    rfl

end Assembler
end PageQuery
