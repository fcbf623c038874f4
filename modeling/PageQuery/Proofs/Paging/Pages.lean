import Mathlib
import PageQuery.Proofs.Number.Figures
import PageQuery.Proofs.Ordering.Permutation
import PageQuery.Proofs.Paging.Count
import PageQuery.Proofs.Paging.Selection

/-!
# Pages tile the selection

Asking for one page after another gives every selected record once and in order.  A page is a slice
whose bounds only depend on its number and size, so the slices of consecutive pages meet without a
gap or an overlap, and the number of pages, computed with a rounded quotient, is the number of the
last slice that is not empty.
-/

namespace PageQuery

namespace Source

theorem position_natCast (length n : ℕ) : position length n = min n length := by
  unfold position
  rw [if_neg (by omega)]
  omega

/-- The records between two positions, the first of which may lie past the end. -/
theorem between_natCast {α : Type} (xs : List α) (start size : ℕ) :
    between xs start (start + size) = (xs.drop start).take size := by
  have hstop : ((start : ℤ) + size) = ((start + size : ℕ) : ℤ) := by push_cast; rfl
  rw [between, hstop, position_natCast, position_natCast]
  have htake : xs.take (min (start + size) xs.length) = xs.take (start + size) := by
    rw [List.take_eq_take_iff]
    omega
  rw [htake, List.drop_take]
  rcases Nat.le_total start xs.length with hle | hle
  · rw [Nat.min_eq_left hle, Nat.add_sub_cancel_left]
  · rw [Nat.min_eq_right hle, List.drop_length, List.drop_eq_nil_of_le hle, List.take_nil,
      List.take_nil]

end Source

namespace Page

def slice (records : List Value) (size i : ℕ) : List Value :=
  (records.drop (i * size)).take size

theorem length_slice (records : List Value) (size i : ℕ) :
    (slice records size i).length = min size (records.length - i * size) := by
  rw [slice, List.length_take, List.length_drop]

theorem slice_eq_nil_iff {records : List Value} {size i : ℕ} (hsize : 0 < size) :
    slice records size i = [] ↔ records.length ≤ i * size := by
  rw [← List.length_eq_zero_iff, length_slice]
  omega

/-- The first `count` slices together are an initial part of the records. -/
theorem flatMap_slice (records : List Value) (size count : ℕ) :
    (List.range count).flatMap (slice records size) = records.take (count * size) := by
  induction count with
  | zero => simp
  | succ count ih =>
      rw [List.range_succ, List.flatMap_append, ih, Nat.succ_mul, List.take_add]
      simp [slice]

/-- Pages numbered from one on show the same records without a gap or an overlap: `pages k` is the
page with the number `k`. -/
structure Tiling (records : List Value) (size : ℤ) (pages : ℤ → Page) : Prop where
  current_eq : ∀ k ≥ 1, (pages k).current = .ofInt k
  size_eq : ∀ k ≥ 1, (pages k).size = .ofInt size
  elements_eq : ∀ k ≥ 1, (pages k).elements = .ofInt records.length
  pages_eq : ∀ k ≥ 1, (pages k).pages = ⌈(records.length : ℚ) / size⌉
  complete : (List.range (pages 1).pages.toNat).flatMap (fun i : ℕ => (pages (i + 1)).data) = records
  full : ∀ k ≥ 1, k < (pages k).pages → (pages k).data.length = size
  beyond : ∀ k ≥ 1, (pages k).pages < k → (pages k).data = []
  hasNext_iff : ∀ k ≥ 1, (pages k).hasNext = true ↔ (pages (k + 1)).data ≠ []

def ofSelection (records : List Value) (size : ℕ) (k : ℤ) : Page where
  data := slice records size (k.toNat - 1)
  current := .ofInt k
  size := .ofInt size
  elements := .ofInt records.length
  pages := ⌈(records.length : ℚ) / size⌉

/-- The first `k` pages do not hold all records exactly when a page follows them. -/
theorem lt_pages_iff (length k : ℕ) {size : ℕ} (hsize : 0 < size) :
    (k : ℤ) < ⌈(length : ℚ) / size⌉ ↔ k * size < length := by
  have hsizeq : (0 : ℚ) < size := by exact_mod_cast hsize
  rw [Int.lt_ceil, lt_div_iff₀ hsizeq]
  exact_mod_cast Iff.rfl

theorem tiling_ofSelection (records : List Value) {size : ℕ} (hsize : 0 < size) :
    Tiling records size (ofSelection records size) := by
  obtain ⟨n, hn⟩ : ∃ n : ℤ, n = ⌈(records.length : ℚ) / size⌉ := ⟨_, rfl⟩
  have hlt (k : ℕ) : (k : ℤ) < n ↔ k * size < records.length := by
    rw [hn]
    exact lt_pages_iff records.length k hsize
  have hpages (k : ℤ) : (ofSelection records size k).pages = n := hn.symm
  refine
    { current_eq := fun _ _ => rfl
      size_eq := fun _ _ => rfl
      elements_eq := fun _ _ => rfl
      pages_eq := fun _ _ => rfl
      complete := ?_
      full := ?_
      beyond := ?_
      hasNext_iff := ?_ }
  · have hcovers : records.length ≤ n.toNat * size := by
      rw [← Nat.not_lt, ← hlt]
      omega
    calc (List.range (ofSelection records size 1).pages.toNat).flatMap
          (fun i : ℕ => (ofSelection records size (i + 1)).data)
        = (List.range n.toNat).flatMap (slice records size) := by
          have hdata (i : ℕ) : (ofSelection records size (i + 1)).data = slice records size i := by
            simp [ofSelection]
          rw [hpages, funext hdata]
      _ = records := by rw [flatMap_slice, List.take_of_length_le hcovers]
  · intro k hk hnext
    obtain ⟨i, rfl⟩ : ∃ i : ℕ, k = i + 1 := ⟨k.toNat - 1, by omega⟩
    rw [hpages] at hnext
    have hfull : (i + 1) * size < records.length := (hlt (i + 1)).mp (by exact_mod_cast hnext)
    rw [Nat.succ_mul] at hfull
    simp only [ofSelection, Int.toNat_natCast_add_one, Nat.add_sub_cancel, length_slice]
    omega
  · intro k hk hlast
    obtain ⟨i, rfl⟩ : ∃ i : ℕ, k = i + 1 := ⟨k.toNat - 1, by omega⟩
    rw [hpages] at hlast
    simp only [ofSelection, Int.toNat_natCast_add_one, Nat.add_sub_cancel]
    rw [slice_eq_nil_iff hsize, ← Nat.not_lt, ← hlt]
    omega
  · intro k hk
    obtain ⟨i, rfl⟩ : ∃ i : ℕ, k = i + 1 := ⟨k.toNat - 1, by omega⟩
    have hdata : (ofSelection records size ((i : ℤ) + 1 + 1)).data = slice records size (i + 1) :=
      rfl
    rw [hdata, ne_eq, slice_eq_nil_iff hsize, Nat.not_le, ← hlt, hasNext, decide_eq_true_iff,
      hpages]
    exact_mod_cast Iff.rfl

/-- A page is computed without a fault as long as its counters are exact. -/
theorem of_slice {records : List Value} {size : ℕ} (hsize : 0 < size) (hsize' : size ≤ 2 ^ 53)
    (hlength : records.length ≤ 2 ^ 53) {k : ℤ} (hk : 1 ≤ k) :
    Page.of (Source.between records ((k - 1) * size) ((k - 1) * size + size)) (.ofInt k)
      (.ofInt size) (.ofInt records.length) = .ok (ofSelection records size k) := by
  obtain ⟨i, rfl⟩ : ∃ i : ℕ, k = i + 1 := ⟨k.toNat - 1, by omega⟩
  have hoffset : ((i : ℤ) + 1 - 1) * size = ((i * size : ℕ) : ℤ) := by
    push_cast
    ring
  have hone : 1 ≤ (size : ℤ) := by omega
  have hcount : totalPages records.length size = .ok ⌈(records.length : ℚ) / size⌉ := by
    simpa using totalPages_eq_ceil hlength hone (by omega)
  rw [hoffset, Source.between_natCast]
  simp only [Page.of, Whole.ofInt, hcount, Except.map]
  rfl

end Page

/-! ## Requests for one page after another -/

namespace Parameters

theorem checkPage_int (page : ℤ) :
    checkPage (.int page) =
      if page < 1 then .error (.request (.belowOne .page)) else .ok (.ofInt page) := rfl

theorem checkSize_int (s : Settings) (size : ℤ) :
    checkSize s (.int size) = s.maxSize >>= fun limit =>
      if size < 1 then .error (.request (.belowOne .size))
      else if limit.number < size then
        .error ((Failure.request (.sizeAbove limit)).showing limit.hasText)
      else .ok (.ofInt size) := by
  have hsize : atLeastOne .size (.int size) =
      if size < 1 then .error (.request (.belowOne .size)) else .ok (.ofInt size) := rfl
  change (s.maxSize >>= fun limit => atLeastOne .size (.int size) >>= fun n =>
    if limit.number < n.number then
      .error ((Failure.request (.sizeAbove limit)).showing limit.hasText)
    else .ok n) = _
  rw [hsize]
  split <;> rfl

/-- Parameters are made exactly of a page from one on and a size between one and the limit. -/
theorem make_int_eq_ok {s : Settings} {page size : ℤ} {sort filter : Value} {p : Parameters} :
    make s (.int page) (.int size) sort filter = .ok p ↔
      (1 ≤ page ∧ 1 ≤ size ∧ ∃ limit, s.maxSize = .ok limit ∧ size ≤ limit.number) ∧
        p = ⟨.ofInt page, .ofInt size, sort, filter⟩ := by
  have hmake : make s (.int page) (.int size) sort filter =
      (checkPage (.int page) >>= fun page => checkSize s (.int size) >>= fun size =>
        .ok ⟨page, size, sort, filter⟩) := rfl
  rw [hmake, checkPage_int, checkSize_int]
  by_cases hpage : page < 1
  · simp [hpage, Int.not_le.mpr hpage]
  · rw [if_neg hpage, Outcome.ok_bind]
    cases s.maxSize with
    | error e => simp
    | ok limit =>
        by_cases hsize : size < 1
        · simp [hsize, Int.not_le.mpr hsize]
        · by_cases hlimit : limit.number < size
          · simp [hsize, hlimit, Int.not_le.mpr hlimit]
          · simp [hsize, hlimit, Int.not_lt.mp hpage, Int.not_lt.mp hsize, Int.not_lt.mp hlimit,
              eq_comm]

end Parameters

namespace Assembler

variable (x : Context) (records : List Value)

/-- The page of some records in memory that is asked for by its number and size. -/
def listing (x : Context) (records : List Value) (r : PageRequest) (sort filter : Value)
    (size page : ℤ) : Except Failure Page := do
  let p ← Parameters.make x.settings (.int page) (.int size) sort filter
  (Assembler.page x (.records records) { r with parameters := some p }).outcome

theorem predicateOf_congr (type : Option TypeRef) {p q : Parameters} (h : p.filter = q.filter) :
    predicateOf x type p = predicateOf x type q := by
  simp only [predicateOf, Parameters.filterItems, Parameters.hasFilter, h]

theorem keysOf_congr (type : Option TypeRef) {p q : Parameters} (h : p.sort = q.sort) :
    keysOf x type p = keysOf x type q := by
  simp only [keysOf, Parameters.hasSort, h]

theorem selection_congr (type : Option TypeRef) {p q : Parameters} (hfilter : p.filter = q.filter)
    (hsort : p.sort = q.sort) : selection x type p records = selection x type q records := by
  simp only [selection, predicateOf_congr x type hfilter, keysOf_congr x type hsort]

theorem selection_eq_ok {type : Option TypeRef} {p : Parameters} {chosen : List Value}
    (h : selection x type p records = .ok chosen) :
    ∃ predicate keys, predicateOf x type p = .ok predicate ∧ keysOf x type p = .ok keys ∧
      kept x.zone predicate records = .ok (records.filter (Predicate.passes x.zone predicate)) ∧
      SortKey.arrangeAll keys (records.filter (Predicate.passes x.zone predicate)) =
        .ok chosen := by
  obtain ⟨predicate, hpredicate, h⟩ := Outcome.bind_eq_ok.mp h
  obtain ⟨left, hleft, h⟩ := Outcome.bind_eq_ok.mp h
  obtain ⟨keys, hkeys, h⟩ := Outcome.bind_eq_ok.mp h
  obtain rfl := kept_eq_ok hleft
  exact ⟨predicate, keys, hpredicate, hkeys, hleft, Outcome.mapError_eq_ok.mp h⟩

/-- Of the counters of a page only its number can be too long to be written. -/
theorem handedOut_ofSelection {size : ℕ} (hsize : size ≤ 2 ^ 53) {k : ℤ} (hk : 0 ≤ k) :
    handedOut (Page.ofSelection records size k) =
      if k < 10 ^ Number.maxDigits then .ok (Page.ofSelection records size k)
      else .error (.fault .badValue) := by
  obtain ⟨n, rfl⟩ := Int.eq_ofNat_of_zero_le hk
  have hnote : (Page.ofSelection records size n).hasNote = Number.isWritable n :=
    (congrArg _ (Number.isWritable_of_le hsize)).trans (Bool.and_true _)
  have hbound : (n : ℤ) < 10 ^ Number.maxDigits ↔ n < 10 ^ Number.maxDigits := by norm_cast
  rw [handedOut, hnote, if_congr (Number.isWritable_natCast.trans hbound.symm) rfl rfl]

/-- If one page can be had, the selection of the request is what all its pages are cut from.  Only a page
whose number cannot be written is not handed out. -/
theorem listing_of_selection {r : PageRequest} {sort filter : Value} {size : ℤ}
    {p : Parameters} {chosen : List Value}
    (hmade : Parameters.make x.settings (.int 1) (.int size) sort filter = .ok p)
    (hchosen : selection x (typeFor r.type records) p records = .ok chosen)
    (hsize : size ≤ 2 ^ 53) (hlength : chosen.length ≤ 2 ^ 53) {k : ℤ} (hk : 1 ≤ k) :
    listing x records r sort filter size k =
      if k < 10 ^ Number.maxDigits then .ok (Page.ofSelection chosen size.toNat k)
      else .error (.fault .badValue) := by
  obtain ⟨⟨-, hone, hlimit⟩, rfl⟩ := Parameters.make_int_eq_ok.mp hmade
  obtain ⟨d, rfl⟩ := Int.eq_ofNat_of_zero_le (by omega : 0 ≤ size)
  have hmade' : Parameters.make x.settings (.int k) (.int d) sort filter =
      .ok ⟨.ofInt k, .ofInt d, sort, filter⟩ :=
    Parameters.make_int_eq_ok.mpr ⟨⟨hk, hone, hlimit⟩, rfl⟩
  have hsame := selection_congr x records (typeFor r.type records)
    (p := ⟨.ofInt k, .ofInt d, sort, filter⟩) (q := ⟨.ofInt 1, .ofInt d, sort, filter⟩) rfl rfl
  rw [listing, hmade', Outcome.ok_bind, outcome_page x _ records rfl, hsame, hchosen,
    Outcome.ok_bind]
  have hpos : 0 < d := by omega
  have hpage := Page.of_slice hpos (by omega) hlength hk
  simp only [Parameters.offset, Whole.ofInt] at hpage ⊢
  rw [hpage, Except.mapError, Outcome.ok_bind]
  exact handedOut_ofSelection chosen (by omega) (by omega)

/-- A registry with the table of one record type. -/
def dogs : Context where
  catalogue := {}
  registry :=
    { tables := [(.record "Dog", .ofFields
        [{ name := "name", kind := .string },
          { name := "age", kind := .scalar, parser := some .integer }])] }

/-- Four records, three of which have the same age. -/
def fourDogs : List Value :=
  [.record (.own 1) "Dog" [("name", .text "Rex"), ("age", .int 3)],
    .record (.own 2) "Dog" [("name", .text "Ada"), ("age", .int 5)],
    .record (.own 3) "Dog" [("name", .text "Kim"), ("age", .int 3)],
    .record (.own 4) "Dog" [("name", .text "Bob"), ("age", .int 3)]]

end Assembler
end PageQuery
