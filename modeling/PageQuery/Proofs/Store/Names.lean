import Mathlib
import PageQuery.Ordering.Build
import PageQuery.Store.Query
import PageQuery.Proofs.Text.Parts

/-!
# Names that can be told apart

Lookups join the names of a path by double underscores, and sort keys join them by points.  Names that
hold neither, begin with no minus and are not the word for the key of every model come apart again as
they were, whatever comparison or direction is written beside them.
-/

namespace PageQuery

open PageQuery.Text

/-! ## Names of lookups -/

/-- Whether characters keep together when they are joined to others by double underscores. -/
def isUnbroken : List Char → Bool
  | [] => true
  | [c] => c != '_'
  | c :: d :: cs => (c != '_' || d != '_') && isUnbroken (d :: cs)

theorem isUnbroken_tail {c : Char} {cs : List Char} (h : isUnbroken (c :: cs) = true) :
    isUnbroken cs = true := by
  cases cs with
  | nil => rfl
  | cons d cs =>
      rw [isUnbroken, Bool.and_eq_true] at h
      exact h.2

theorem go_of_isUnbroken {cs : List Char} (h : isUnbroken cs = true) (part rest : List Char) :
    lookupNames.go (cs ++ '_' :: '_' :: rest) part =
      (part.reverse ++ cs) :: lookupNames.go rest [] := by
  induction cs generalizing part with
  | nil => simp [lookupNames.go]
  | cons c cs ih =>
      have hstep : lookupNames.go (c :: (cs ++ '_' :: '_' :: rest)) part =
          lookupNames.go (cs ++ '_' :: '_' :: rest) (c :: part) := by
        rw [lookupNames.go]
        rintro cs' rfl hcs
        cases cs with
        | nil => simp [isUnbroken] at h
        | cons d cs =>
            obtain rfl := (List.cons.inj hcs).1
            simp [isUnbroken] at h
      rw [List.cons_append, hstep, ih (isUnbroken_tail h)]
      simp

theorem go_of_isUnbroken_last {cs : List Char} (h : isUnbroken cs = true) (part : List Char) :
    lookupNames.go cs part = [part.reverse ++ cs] := by
  induction cs generalizing part with
  | nil => simp [lookupNames.go]
  | cons c cs ih =>
      have hstep : lookupNames.go (c :: cs) part = lookupNames.go cs (c :: part) := by
        rw [lookupNames.go]
        rintro cs' rfl rfl
        simp [isUnbroken] at h
      rw [hstep, ih (isUnbroken_tail h)]
      simp

/-- Joined names that keep together are told apart again. -/
theorem lookupNames_lookupName {path : List String} (hpath : path ≠ [])
    (h : ∀ name ∈ path, isUnbroken name.toList = true) : lookupNames (lookupName path) = path := by
  induction path with
  | nil => exact absurd rfl hpath
  | cons name path ih =>
      obtain ⟨hname, hnames⟩ := List.forall_mem_cons.mp h
      cases path with
      | nil =>
          rw [lookupName, String.intercalate_singleton, lookupNames, go_of_isUnbroken_last hname]
          simp
      | cons next path =>
          have hnext := ih (List.cons_ne_nil _ _) hnames
          have hjoined : (lookupName (name :: next :: path)).toList =
              name.toList ++ '_' :: '_' :: (lookupName (next :: path)).toList := by
            rw [lookupName, String.intercalate_cons_cons]
            simp [lookupName]
          rw [lookupNames] at hnext ⊢
          rw [hjoined, go_of_isUnbroken hname]
          simp [hnext]

/-- The words that a comparison adds to the names of a lookup. -/
def Comparison.suffix : Comparison → List String
  | .equal => []
  | c => [c.words.headD ""]

theorem Comparison.isUnbroken_suffix (c : Comparison) :
    ∀ word ∈ c.suffix, isUnbroken word.toList = true := by
  cases c <;> decide +kernel

/-- The name of a lookup is made of the names of its path and the word for its comparison. -/
theorem Lookup.lookupNames_name {l : Lookup} (hpath : l.path ≠ [])
    (h : ∀ name ∈ l.path, isUnbroken name.toList = true) :
    lookupNames l.name = l.path ++ l.comparison.suffix := by
  have hname : l.name = lookupName (l.path ++ l.comparison.suffix) := by
    obtain ⟨path, comparison, value⟩ := l
    rw [Lookup.name]
    dsimp only at hpath ⊢
    cases comparison with
    | equal => simp [Comparison.marker, Comparison.suffix]
    | _ =>
        simp only [Comparison.suffix, lookupName]
        rw [String.intercalate_append_of_ne_nil hpath (List.cons_ne_nil _ _)]
        simp [Comparison.marker, String.append_assoc]
  rw [hname]
  refine lookupNames_lookupName (by simp [hpath]) fun name hmem => ?_
  rcases List.mem_append.mp hmem with hmem | hmem
  · exact h name hmem
  · exact l.comparison.isUnbroken_suffix name hmem

/-! ## Names of sort keys -/

/-- Whether the name of a field comes apart from the names beside it in lookups and sorts. -/
def isSeparable (name : String) : Bool :=
  isUnbroken name.toList && !name.toList.contains '.' && name.toList.head? != some '-' &&
    name != "pk"

theorem isSeparable_iff {name : String} :
    isSeparable name = true ↔ isUnbroken name.toList = true ∧ '.' ∉ name.toList ∧
      name.toList.head? ≠ some '-' ∧ name ≠ "pk" := by
  simp [isSeparable, and_assoc]

/-- The names of a key and its direction are told apart again from the name of its column order. -/
theorem Query.orderNames_eq {names : List String} (hnames : names ≠ [])
    (h : ∀ name ∈ names, isSeparable name = true) (descending : Bool) :
    orderNames ⟨String.intercalate "." names, descending⟩ = (names, descending) := by
  have hfield : (SortKey.mk (String.intercalate "." names) descending).field = names :=
    split_intercalate rfl hnames fun name hname => (isSeparable_iff.mp (h name hname)).2.1
  have hlookup : lookupNames (lookupName names) = names :=
    lookupNames_lookupName hnames fun name hname => (isSeparable_iff.mp (h name hname)).1
  rw [orderNames, SortKey.columnOrder, hfield]
  cases descending with
  | true => simp [hlookup]
  | false =>
      have hhead : (lookupName names).toList.head? ≠ some '-' := by
        obtain ⟨name, rest, rfl⟩ := List.exists_cons_of_ne_nil hnames
        have hname := (isSeparable_iff.mp (h name List.mem_cons_self)).2.2.1
        cases rest with
        | nil => simpa [lookupName] using hname
        | cons next rest =>
            rw [lookupName, String.intercalate_cons_cons]
            cases hchars : name.toList with
            | nil => simp [hchars]
            | cons c cs => simpa [hchars] using hname
      dsimp only
      rw [if_neg Bool.false_ne_true, String.empty_append]
      split
      · rename_i cs hcs
        rw [hcs] at hhead
        exact absurd rfl hhead
      · rw [String.ofList_toList, hlookup]

end PageQuery
