import Mathlib
import PageQuery.Proofs.Number.Figures
import PageQuery.Proofs.Outcome
import PageQuery.Request.Parameters

/-!
# Parameters over time

A client makes parameters, from values or from a query, and assigns to them as it likes.  Whatever it
does, and whatever values it gives, the parameters that it holds have a page and a size in range: a step
that would put one out of range fails and leaves things as they were.  It fails with a validation error,
unless the error would show a value that cannot be written; then writing it is what fails.
-/

namespace PageQuery

open PageQuery.Text

/-- A whole number, none that only counts as one, that is positive. -/
def Whole.IsPositive (n : Whole) : Prop :=
  n.given.asInt? = some n.number ∧ 1 ≤ n.number

/-- A failure that says what is wrong with a page or a size. -/
def Failure.IsValidation (e : Failure) : Prop :=
  ∃ r : RequestError, e = .request r ∧ r.kind = .validation

/-- A failure that says what is wrong with a page or a size, or that could not be worded. -/
def Failure.IsRefusal (e : Failure) : Prop :=
  e.IsValidation ∨ e = .fault .badValue

theorem Failure.isRefusal_showing {r : RequestError} (hr : r.kind = .validation) (writable : Bool) :
    ((Failure.request r).showing writable).IsRefusal := by
  cases writable with
  | true => exact .inl ⟨r, rfl, hr⟩
  | false => exact .inr rfl

/-- Settings of which those that have to be positive whole numbers are. -/
def Settings.Valid (s : Settings) : Prop :=
  ∀ name ∈ positiveSettings, ∃ v, s.get name = .ok v

/-- What is read as a whole number is that number. -/
theorem Whole.eq_of_ofValue? {v : Value} {n : Whole} (h : Whole.ofValue? v = some n) :
    n.given = v ∧ v.asInt? = some n.number := by
  obtain ⟨number, hnumber, rfl⟩ := Option.map_eq_some_iff.mp h
  exact ⟨rfl, hnumber⟩

theorem Whole.isPositive_of_ofValue? {v : Value} {n : Whole} (h : Whole.ofValue? v = some n)
    (hpositive : 1 ≤ n.number) : n.IsPositive := by
  obtain ⟨rfl, hnumber⟩ := eq_of_ofValue? h
  exact ⟨hnumber, hpositive⟩

theorem Whole.ofValue?_of_asInt? {v : Value} {n : ℤ} (h : v.asInt? = some n) :
    Whole.ofValue? v = some ⟨v, n⟩ := by
  rw [ofValue?, h]
  rfl

/-- What is read of a setting that has to be positive is. -/
theorem Settings.isPositive_of_getPositive {s : Settings} {name : String}
    (hname : name ∈ positiveSettings) {n : Whole} (h : s.getPositive name = .ok n) : n.IsPositive := by
  obtain ⟨v, hv, rfl⟩ := Outcome.map_eq_ok.mp h
  have hpositive : (positive? v).isSome = true := by
    rw [get, readSetting] at hv
    split at hv
    · cases hv
    · dsimp only at hv
      split at hv
      · cases hv
      · rename_i hcheck
        obtain rfl := Except.ok.inj hv
        simpa [hname, Option.isSome_iff_ne_none] using hcheck
  obtain ⟨n, hn⟩ := Option.isSome_iff_exists.mp hpositive
  obtain ⟨hnumber, hn⟩ := Option.filter_eq_some_iff.mp hn
  rw [Whole.ofValue?_of_asInt? hnumber]
  exact ⟨hnumber, of_decide_eq_true hn⟩

/-- A setting that has to be positive is. -/
theorem Settings.Valid.exists_positive {s : Settings} (hs : s.Valid) {name : String}
    (hname : name ∈ positiveSettings) : ∃ n, s.getPositive name = .ok n ∧ n.IsPositive := by
  obtain ⟨v, hv⟩ := hs name hname
  have hread : s.getPositive name = .ok ((Whole.ofValue? v).getD (.ofInt 1)) := by
    rw [getPositive, hv]
    rfl
  exact ⟨_, hread, isPositive_of_getPositive hname hread⟩

namespace Parameters

variable {s : Settings} {p q : Parameters} {v : Value} {e : Failure} {n limit : Whole}

/-- Parameters whose page and size are positive whole numbers, the size up to a limit. -/
structure InRange (limit : Whole) (p : Parameters) : Prop where
  page : p.page.IsPositive
  size : p.size.IsPositive
  limit : p.size.number ≤ limit.number

theorem InRange.offset_nonneg (h : p.InRange limit) : 0 ≤ p.offset :=
  Int.mul_nonneg (Int.sub_nonneg_of_le h.page.2) (Int.le_trans Int.one_nonneg h.size.2)

/-! ## Checks -/

theorem atLeastOne_eq_ok {field : PageField} :
    atLeastOne field v = .ok n ↔ Whole.ofValue? v = some n ∧ 1 ≤ n.number := by
  rw [atLeastOne]
  cases Whole.ofValue? v with
  | none => simp
  | some m =>
      dsimp only
      split
      · rename_i hsmall
        simp only [reduceCtorEq, Option.some.injEq, false_iff]
        rintro ⟨rfl, hpositive⟩
        omega
      · rename_i hlarge
        simp only [Except.ok.injEq, Option.some.injEq, iff_self_and]
        rintro rfl
        omega

theorem isRefusal_of_atLeastOne {field : PageField} (h : atLeastOne field v = .error e) :
    e.IsRefusal := by
  rw [atLeastOne] at h
  split at h
  · exact Except.error.inj h ▸ Failure.isRefusal_showing rfl _
  · split at h
    · exact .inl ⟨_, (Except.error.inj h).symm, rfl⟩
    · cases h

/-- A whole number is refused with words. -/
theorem isValidation_of_atLeastOne {field : PageField} (hv : (Whole.ofValue? v).isSome = true)
    (h : atLeastOne field v = .error e) : e.IsValidation := by
  rw [atLeastOne] at h
  split at h
  · rename_i hnone
    simp [hnone] at hv
  · split at h
    · exact ⟨_, (Except.error.inj h).symm, rfl⟩
    · cases h

/-- A size passes exactly if it is a positive whole number up to the limit. -/
theorem checkSize_eq_ok (hlimit : s.maxSize = .ok limit) :
    checkSize s v = .ok n ↔ Whole.ofValue? v = some n ∧ 1 ≤ n.number ∧ n.number ≤ limit.number := by
  rw [checkSize]
  cases hwhole : Whole.ofValue? v with
  | none => simp
  | some m =>
      dsimp only
      rw [hlimit, Outcome.ok_bind, Outcome.bind_eq_ok, ← and_assoc, ← hwhole]
      constructor
      · rintro ⟨n', hn', h⟩
        split at h
        · cases h
        · rename_i hsmall
          obtain rfl := Except.ok.inj h
          exact ⟨atLeastOne_eq_ok.mp hn', Int.not_lt.mp hsmall⟩
      · rintro ⟨hn, hsmall⟩
        exact ⟨n, atLeastOne_eq_ok.mpr hn, if_neg (Int.not_lt.mpr hsmall)⟩

theorem isRefusal_of_checkSize (hlimit : s.maxSize = .ok limit) (h : checkSize s v = .error e) :
    e.IsRefusal := by
  rw [checkSize] at h
  split at h
  · exact Except.error.inj h ▸ Failure.isRefusal_showing rfl _
  · rw [hlimit, Outcome.ok_bind] at h
    rcases Outcome.bind_eq_error.mp h with h | ⟨m, -, h⟩
    · exact isRefusal_of_atLeastOne h
    · split at h
      · exact Except.error.inj h ▸ Failure.isRefusal_showing rfl _
      · cases h

/-- A size that is a whole number is refused without words exactly if it is above a limit that cannot be
written. -/
theorem checkSize_eq_fault (hlimit : s.maxSize = .ok limit) (hlimit' : limit.IsPositive)
    (hv : Whole.ofValue? v = some n) {f : Fault} :
    checkSize s v = .error (.fault f) ↔
      f = .badValue ∧ limit.number < n.number ∧ limit.hasText = false := by
  have hpositive := hlimit'.2
  simp only [checkSize, atLeastOne, hv, hlimit, Outcome.ok_bind]
  by_cases hsmall : n.number < 1
  · rw [if_pos hsmall, Outcome.error_bind]
    refine iff_of_false (by simp) ?_
    rintro ⟨-, habove, -⟩
    omega
  · rw [if_neg hsmall, Outcome.ok_bind]
    by_cases habove : limit.number < n.number
    · cases limit.hasText <;> simp [habove, Failure.showing, eq_comm]
    · simp [habove]

/-! ## Assignments -/

/-- A page is set exactly to a positive whole number; nothing else changes. -/
theorem setPage_eq_ok :
    p.setPage v = .ok q ↔ ∃ n, v.asInt? = some n ∧ 1 ≤ n ∧ q = { p with page := ⟨v, n⟩ } := by
  rw [setPage, Outcome.map_eq_ok]
  constructor
  · rintro ⟨n, hn, rfl⟩
    obtain ⟨hwhole, hpositive⟩ := atLeastOne_eq_ok.mp hn
    obtain ⟨rfl, hnumber⟩ := Whole.eq_of_ofValue? hwhole
    exact ⟨n.number, hnumber, hpositive, rfl⟩
  · rintro ⟨n, hnumber, hpositive, rfl⟩
    exact ⟨⟨v, n⟩, atLeastOne_eq_ok.mpr ⟨Whole.ofValue?_of_asInt? hnumber, hpositive⟩, rfl⟩

/-- A size is set exactly to a positive whole number up to the limit; nothing else changes. -/
theorem setSize_eq_ok (hlimit : s.maxSize = .ok limit) :
    setSize s p v = .ok q ↔
      ∃ n, v.asInt? = some n ∧ 1 ≤ n ∧ n ≤ limit.number ∧ q = { p with size := ⟨v, n⟩ } := by
  rw [setSize, Outcome.map_eq_ok]
  constructor
  · rintro ⟨n, hn, rfl⟩
    obtain ⟨hwhole, hpositive, hsmall⟩ := (checkSize_eq_ok hlimit).mp hn
    obtain ⟨rfl, hnumber⟩ := Whole.eq_of_ofValue? hwhole
    exact ⟨n.number, hnumber, hpositive, hsmall, rfl⟩
  · rintro ⟨n, hnumber, hpositive, hsmall, rfl⟩
    exact ⟨⟨v, n⟩, (checkSize_eq_ok hlimit).mpr
      ⟨Whole.ofValue?_of_asInt? hnumber, hpositive, hsmall⟩, rfl⟩

/-- A page is refused exactly if it is no positive whole number. -/
theorem setPage_eq_error : (∃ e, p.setPage v = .error e) ↔ ∀ n, v.asInt? = some n → n < 1 := by
  rw [Outcome.exists_error_iff]
  constructor
  · intro h n hnumber
    by_contra hpositive
    exact h _ (setPage_eq_ok.mpr ⟨n, hnumber, Int.not_lt.mp hpositive, rfl⟩)
  · intro h q hq
    obtain ⟨n, hnumber, hpositive, -⟩ := setPage_eq_ok.mp hq
    exact Int.not_lt.mpr hpositive (h n hnumber)

/-- A size is refused exactly if it is no positive whole number up to the limit. -/
theorem setSize_eq_error (hlimit : s.maxSize = .ok limit) :
    (∃ e, setSize s p v = .error e) ↔ ∀ n, v.asInt? = some n → n < 1 ∨ limit.number < n := by
  rw [Outcome.exists_error_iff]
  constructor
  · intro h n hnumber
    by_contra hrange
    obtain ⟨hpositive, hsmall⟩ := not_or.mp hrange
    exact h _ ((setSize_eq_ok hlimit).mpr
      ⟨n, hnumber, Int.not_lt.mp hpositive, Int.not_lt.mp hsmall, rfl⟩)
  · intro h q hq
    obtain ⟨n, hnumber, hpositive, hsmall, -⟩ := (setSize_eq_ok hlimit).mp hq
    exact (h n hnumber).elim (Int.not_lt.mpr hpositive) (Int.not_lt.mpr hsmall)

/-! ## Making parameters -/

theorem exists_orDefault {default : Except Failure Whole} (h : default = .ok n) (v : Value) :
    ∃ w, orDefault default v = .ok w := by
  rw [orDefault, h]
  split <;> exact ⟨_, rfl⟩

/-- A value in a query that has to be written and cannot be: to be read as a number, or to be shown as
one that was not read. -/
def Unwritten (raw : Value) : Prop :=
  raw.isNone = false ∧ (raw.hasPlainText = false ∨
    raw.hasLiteral = false ∧ isBlank raw.plainText = false ∧
      Number.readInteger (trim raw.plainText) = none)

theorem unwritten_natCast {n : ℕ} (h : 10 ^ Number.maxDigits ≤ n) : Unwritten (.int n) :=
  ⟨rfl, .inl (Bool.eq_false_iff.mpr fun hwritable =>
    absurd (Number.isWritable_natCast.mp hwritable) (Nat.not_lt.mpr h))⟩

/-- A value of a query is read as nothing or as a whole number, or it is refused; it is refused without
words exactly if it has to be written and cannot be. -/
theorem queryNumber_cases (field : PageField) (raw : Value) :
    (¬ Unwritten raw ∧ (queryNumber field raw = .ok .none ∨ ∃ n, queryNumber field raw = .ok (.int n))) ∨
    (¬ Unwritten raw ∧ ∃ e, queryNumber field raw = .error e ∧ e.IsValidation) ∨
      Unwritten raw ∧ queryNumber field raw = .error (.fault .badValue) := by
  rw [queryNumber, Unwritten]
  cases raw.isNone with
  | true => simp
  | false =>
      rw [if_neg Bool.false_ne_true, Value.writePlain]
      cases raw.hasPlainText with
      | false => simp
      | true =>
          rw [if_pos rfl]
          dsimp only
          cases isBlank raw.plainText with
          | true => simp
          | false =>
              cases Number.readInteger (trim raw.plainText) with
              | some n => simp
              | none =>
                  cases raw.hasLiteral with
                  | false => simp [Failure.showing]
                  | true => exact .inr (.inl ⟨by simp, _, rfl, _, rfl, rfl⟩)

theorem queryNumber_eq_fault {field : PageField} {raw : Value} {f : Fault} :
    queryNumber field raw = .error (.fault f) ↔ f = .badValue ∧ Unwritten raw := by
  rcases queryNumber_cases field raw with ⟨hraw, h | ⟨n, h⟩⟩ | ⟨hraw, e, h, r, rfl, -⟩ | ⟨hraw, h⟩ <;>
    simp [h, hraw, eq_comm]

theorem isRefusal_of_queryNumber {field : PageField} {raw : Value}
    (h : queryNumber field raw = .error e) : e.IsRefusal := by
  rcases queryNumber_cases field raw with ⟨-, h' | ⟨n, h'⟩⟩ | ⟨-, e', h', hvalid⟩ | ⟨-, h'⟩
  · cases h'.symm.trans h
  · cases h'.symm.trans h
  · obtain rfl := Except.error.inj (h'.symm.trans h)
    exact .inl hvalid
  · exact .inr (Except.error.inj (h'.symm.trans h)).symm

/-- What a query is refused for without words: a value in it that has to be written and cannot be, or a
size, its own or the default one, above a limit that cannot be written. -/
inductive MeetsUnwritten (s : Settings) (limit : Whole) (query : String → Value) : Prop
  | page (hpage : Unwritten (query "page"))
  | size {page : Value} (hpage : queryNumber .page (query "page") = .ok page)
      (hsize : Unwritten (query "size"))
  | limit {page size v w : Value} {m n : Whole} (hpage : queryNumber .page (query "page") = .ok page)
      (hsize : queryNumber .size (query "size") = .ok size)
      (hfirst : orDefault s.defaultPage page = .ok v) (hm : checkPage v = .ok m)
      (husual : orDefault s.defaultSize size = .ok w) (hn : Whole.ofValue? w = some n)
      (habove : limit.number < n.number) (hlimit : limit.hasText = false)

/-- What a query is read as, or else the default, is a whole number. -/
theorem exists_orDefault_of_queryNumber {default : Except Failure Whole} {usual : Whole}
    (hdefault : default = .ok usual) (husual : usual.IsPositive) {field : PageField} {raw v : Value}
    (h : queryNumber field raw = .ok v) :
    ∃ w n, orDefault default v = .ok w ∧ Whole.ofValue? w = some n := by
  rcases queryNumber_cases field raw with ⟨-, h' | ⟨n, h'⟩⟩ | ⟨-, e', h', -⟩ | ⟨-, h'⟩
  · obtain rfl := Except.ok.inj (h'.symm.trans h)
    exact ⟨usual.given, _, by rw [orDefault, hdefault]; rfl, Whole.ofValue?_of_asInt? husual.1⟩
  · obtain rfl := Except.ok.inj (h'.symm.trans h)
    exact ⟨.int n, _, rfl, rfl⟩
  · cases h'.symm.trans h
  · cases h'.symm.trans h

section Making

variable {page size sort filter : Value} (hlimit : s.maxSize = .ok limit)

include hlimit

theorem inRange_of_make (h : make s page size sort filter = .ok p) : p.InRange limit := by
  obtain ⟨_, -, h⟩ := Outcome.bind_eq_ok.mp h
  obtain ⟨m, hpage, h⟩ := Outcome.bind_eq_ok.mp h
  obtain ⟨_, -, h⟩ := Outcome.bind_eq_ok.mp h
  obtain ⟨n, hsize, h⟩ := Outcome.bind_eq_ok.mp h
  obtain rfl := Except.ok.inj h
  obtain ⟨hm, hpage⟩ := atLeastOne_eq_ok.mp hpage
  obtain ⟨hn, hsize, hsmall⟩ := (checkSize_eq_ok hlimit).mp hsize
  exact ⟨Whole.isPositive_of_ofValue? hm hpage, Whole.isPositive_of_ofValue? hn hsize, hsmall⟩

/-- Making parameters fails, if it does, because of the page or the size. -/
theorem isRefusal_of_make (hs : s.Valid) (h : make s page size sort filter = .error e) :
    e.IsRefusal := by
  obtain ⟨first, hfirst, -⟩ := hs.exists_positive (show "DEFAULT_PAGE" ∈ positiveSettings by decide)
  obtain ⟨usual, husual, -⟩ := hs.exists_positive (show "DEFAULT_SIZE" ∈ positiveSettings by decide)
  obtain ⟨v, hv⟩ := exists_orDefault hfirst page
  obtain ⟨w, hw⟩ := exists_orDefault husual size
  rcases Outcome.bind_eq_error.mp h with h | ⟨v', -, h⟩
  · cases hv.symm.trans h
  rcases Outcome.bind_eq_error.mp h with h | ⟨m, -, h⟩
  · exact isRefusal_of_atLeastOne h
  rcases Outcome.bind_eq_error.mp h with h | ⟨w', -, h⟩
  · cases hw.symm.trans h
  rcases Outcome.bind_eq_error.mp h with h | ⟨n, -, h⟩
  · exact isRefusal_of_checkSize hlimit h
  · cases h

theorem inRange_of_ofQuery {query : String → Value} (h : ofQuery s query = .ok p) :
    p.InRange limit := by
  obtain ⟨page, -, h⟩ := Outcome.bind_eq_ok.mp h
  obtain ⟨size, -, h⟩ := Outcome.bind_eq_ok.mp h
  exact inRange_of_make hlimit h

theorem isRefusal_of_ofQuery (hs : s.Valid) {query : String → Value}
    (h : ofQuery s query = .error e) : e.IsRefusal := by
  rcases Outcome.bind_eq_error.mp h with h | ⟨page, -, h⟩
  · exact isRefusal_of_queryNumber h
  rcases Outcome.bind_eq_error.mp h with h | ⟨size, -, h⟩
  · exact isRefusal_of_queryNumber h
  · exact isRefusal_of_make hlimit hs h

/-- A query is refused without words exactly for what cannot be written. -/
theorem ofQuery_eq_fault (hs : s.Valid) (hlimit' : limit.IsPositive) {query : String → Value} {f : Fault} :
    ofQuery s query = .error (.fault f) ↔ f = .badValue ∧ MeetsUnwritten s limit query := by
  obtain ⟨first, hfirst, hfirst'⟩ :=
    hs.exists_positive (show "DEFAULT_PAGE" ∈ positiveSettings by decide)
  obtain ⟨usual, husual, husual'⟩ :=
    hs.exists_positive (show "DEFAULT_SIZE" ∈ positiveSettings by decide)
  constructor
  · intro h
    rcases Outcome.bind_eq_error.mp h with h | ⟨page, hpage, h⟩
    · exact (queryNumber_eq_fault.mp h).imp_right .page
    rcases Outcome.bind_eq_error.mp h with h | ⟨size, hsize, h⟩
    · exact (queryNumber_eq_fault.mp h).imp_right (.size hpage)
    obtain ⟨v, m, hv, hm⟩ := exists_orDefault_of_queryNumber hfirst hfirst' hpage
    obtain ⟨w, n, hw, hn⟩ := exists_orDefault_of_queryNumber husual husual' hsize
    rcases Outcome.bind_eq_error.mp h with h | ⟨v', hv', h⟩
    · cases hv.symm.trans h
    obtain rfl := Except.ok.inj (hv.symm.trans hv')
    rcases Outcome.bind_eq_error.mp h with h | ⟨m', hm', h⟩
    · obtain ⟨r, hr, -⟩ := isValidation_of_atLeastOne (by rw [hm]; rfl) h
      cases hr
    rcases Outcome.bind_eq_error.mp h with h | ⟨w', hw', h⟩
    · cases hw.symm.trans h
    obtain rfl := Except.ok.inj (hw.symm.trans hw')
    rcases Outcome.bind_eq_error.mp h with h | ⟨n', -, h⟩
    · obtain ⟨hf, habove, htext⟩ := (checkSize_eq_fault hlimit hlimit' hn).mp h
      exact ⟨hf, .limit hpage hsize hv hm' hw hn habove htext⟩
    · cases h
  · rintro ⟨rfl, hpage | ⟨hpage, hsize⟩ | ⟨hpage, hsize, hv, hm, hw, hn, habove, htext⟩⟩
    · exact Outcome.bind_eq_error.mpr (.inl (queryNumber_eq_fault.mpr ⟨rfl, hpage⟩))
    · have hfails : queryNumber .size (query "size") = .error (.fault .badValue) :=
        queryNumber_eq_fault.mpr ⟨rfl, hsize⟩
      simp only [ofQuery, hpage, hfails, Outcome.ok_bind, Outcome.error_bind]
    · have hfails := (checkSize_eq_fault hlimit hlimit' hn).mpr ⟨rfl, habove, htext⟩
      simp only [ofQuery, make, hpage, hsize, hv, hm, hw, hfails, Outcome.ok_bind, Outcome.error_bind]

end Making

/-! ## Steps -/

/-- What a client does to the parameters that it holds. -/
inductive Step where
  | make (page size sort filter : Value)
  | ofQuery (query : String → Value)
  | setPage (v : Value)
  | setSize (v : Value)
  | setSort (v : Value)
  | setFilter (v : Value)

/-- The parameters that a client comes to hold by a step.  Nothing can be assigned to while it holds
none. -/
def Step.outcome (s : Settings) (held : Option Parameters) : Step → Except Failure (Option Parameters)
  | make page size sort filter => (Parameters.make s page size sort filter).map some
  | ofQuery query => (Parameters.ofQuery s query).map some
  | setPage v => held.mapM fun p => p.setPage v
  | setSize v => held.mapM fun p => Parameters.setSize s p v
  | setSort v => .ok (held.map fun p => { p with sort := v })
  | setFilter v => .ok (held.map fun p => { p with filter := v })

/-- The parameters that a client holds after a step.  A step that fails leaves it what it held. -/
def Step.after (s : Settings) (held : Option Parameters) (step : Step) : Option Parameters :=
  match step.outcome s held with
  | .ok next => next
  | .error _ => held

/-- The parameters that a client holds after some steps. -/
def held (s : Settings) (steps : List Step) : Option Parameters :=
  steps.foldl (fun held step => step.after s held) none

theorem held_concat (s : Settings) (steps : List Step) (step : Step) :
    held s (steps ++ [step]) = step.after s (held s steps) := by
  rw [held, List.foldl_concat]
  rfl

theorem mapM_eq_ok {f : Parameters → Except Failure Parameters} {held next : Option Parameters}
    (h : held.mapM f = .ok next) {q : Parameters} (hq : q ∈ next) : ∃ p ∈ held, f p = .ok q := by
  cases held with
  | none =>
      obtain rfl := Except.ok.inj h
      cases hq
  | some p =>
      obtain ⟨q', hq', rfl⟩ := Outcome.map_eq_ok.mp h
      obtain rfl := Option.mem_some.mp hq
      exact ⟨p, rfl, hq'⟩

theorem mapM_eq_error {f : Parameters → Except Failure Parameters} {held : Option Parameters}
    (h : held.mapM f = .error e) : ∃ p ∈ held, f p = .error e := by
  cases held with
  | none => cases h
  | some p => exact ⟨p, rfl, Outcome.map_eq_error.mp h⟩

/-- A step puts no page and no size out of range. -/
theorem inRange_of_outcome (hlimit : s.maxSize = .ok limit) {held next : Option Parameters}
    (hheld : ∀ p ∈ held, p.InRange limit) {step : Step} (h : step.outcome s held = .ok next) :
    ∀ p ∈ next, p.InRange limit := by
  intro q hq
  cases step with
  | make page size sort filter =>
      obtain ⟨p, hp, rfl⟩ := Outcome.map_eq_ok.mp h
      obtain rfl := Option.mem_some.mp hq
      exact inRange_of_make hlimit hp
  | ofQuery query =>
      obtain ⟨p, hp, rfl⟩ := Outcome.map_eq_ok.mp h
      obtain rfl := Option.mem_some.mp hq
      exact inRange_of_ofQuery hlimit hp
  | setPage v =>
      obtain ⟨p, hp, hset⟩ := mapM_eq_ok h hq
      obtain ⟨n, hnumber, hpositive, rfl⟩ := setPage_eq_ok.mp hset
      exact { hheld p hp with page := ⟨hnumber, hpositive⟩ }
  | setSize v =>
      obtain ⟨p, hp, hset⟩ := mapM_eq_ok h hq
      obtain ⟨n, hnumber, hpositive, hsmall, rfl⟩ := (setSize_eq_ok hlimit).mp hset
      exact { hheld p hp with size := ⟨hnumber, hpositive⟩, limit := hsmall }
  | setSort v =>
      obtain rfl := Except.ok.inj h
      obtain ⟨p, hp, rfl⟩ := Option.mem_map.mp hq
      exact { hheld p hp with }
  | setFilter v =>
      obtain rfl := Except.ok.inj h
      obtain ⟨p, hp, rfl⟩ := Option.mem_map.mp hq
      exact { hheld p hp with }

/-- A step fails, if it does, because of a page or a size. -/
theorem isRefusal_of_outcome (hs : s.Valid) (hlimit : s.maxSize = .ok limit)
    {held : Option Parameters} {step : Step} (h : step.outcome s held = .error e) :
    e.IsRefusal := by
  cases step with
  | make page size sort filter =>
      exact isRefusal_of_make hlimit hs (Outcome.map_eq_error.mp h)
  | ofQuery query => exact isRefusal_of_ofQuery hlimit hs (Outcome.map_eq_error.mp h)
  | setPage v =>
      obtain ⟨p, -, hset⟩ := mapM_eq_error h
      exact isRefusal_of_atLeastOne (Outcome.map_eq_error.mp hset)
  | setSize v =>
      obtain ⟨p, -, hset⟩ := mapM_eq_error h
      exact isRefusal_of_checkSize hlimit (Outcome.map_eq_error.mp hset)
  | setSort v => cases h
  | setFilter v => cases h

/-- A client holds no page and no size out of range. -/
theorem inRange_held (hlimit : s.maxSize = .ok limit) (steps : List Step) :
    ∀ p ∈ held s steps, p.InRange limit := by
  induction steps using List.reverseRecOn with
  | nil => nofun
  | append_singleton steps step ih =>
      rw [held_concat, Step.after]
      cases h : step.outcome s (held s steps) with
      | ok next => exact inRange_of_outcome hlimit ih h
      | error e => exact ih

/-- Settings whose default size is above their limit. -/
def crowded : Settings where
  entries := [("DEFAULT_SIZE", .int 50), ("MAX_SIZE", .int 10)]

def thirdPage : String → Value
  | "page" => .text " ٣ "
  | "size" => .text "1_0"
  | _ => .none

/-- A query for a page whose number has one digit more than are ever written. -/
def endless : String → Value
  | "page" => .int ((10 ^ Number.maxDigits : ℕ) : ℤ)
  | _ => .none

end Parameters
end PageQuery
