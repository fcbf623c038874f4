import Mathlib
import PageQuery.Response
import PageQuery.Proofs.Outcome
import PageQuery.Proofs.Predicate.Testing
import PageQuery.Proofs.Text.Parts

/-!
# Two ways along a path

A response reads a dotted path and goes through every collection that it meets, element by element.  A
filter follows names and goes through none; where it searches a collection, it follows names again in
each element.  Up to the first collection both come to the same value, and behind it the response shows
the very values that the search tests.
-/

namespace PageQuery

open PageQuery.Text

namespace Value

variable {read : Reader} {v : Value} {items : List Value} {name : String} {names : List String}

def isCollection : Value → Bool
  | .list _ | .tuple _ | .related _ _ => true
  | .member _ _ .other (.list _) | .member _ _ .other (.tuple _) => true
  | _ => false

def followBy (read : Reader) (v : Value) : List String → Value
  | [] => v
  | name :: names => followBy read (if v.isNone then .none else read v name) names

def dotted (names : List String) : String :=
  String.intercalate "." names

/-! ## Steps of a response -/

theorem steps_cons (read : Reader) (v : Value) (name : String) (names : List String) :
    v.steps read (name :: names) = (v.step read name).steps read names := rfl

theorem steps_append (read : Reader) (v : Value) (names more : List String) :
    v.steps read (names ++ more) = (v.steps read names).steps read more :=
  List.foldl_append

theorem stepAll_eq_map (read : Reader) (name : String) (items : List Value) :
    stepAll read name items = items.map fun v => v.step read name := by
  induction items with
  | nil => rfl
  | cons v items ih => rw [stepAll, ih, List.map_cons]

/-- The steps through a list are those through each of its elements. -/
theorem steps_list (read : Reader) (items : List Value) (names : List String) :
    (list items).steps read names = .list (items.map fun v => v.steps read names) := by
  induction names generalizing items with
  | nil => exact congrArg list (List.map_id items).symm
  | cons name names ih =>
      rw [steps_cons, step, stepAll_eq_map, ih, List.map_map]
      rfl

/-- After the first step a tuple is a list. -/
theorem steps_tuple (read : Reader) (items : List Value) (hnames : names ≠ []) :
    (tuple items).steps read names = .list (items.map fun v => v.steps read names) := by
  obtain ⟨name, names, rfl⟩ := List.exists_cons_of_ne_nil hnames
  rw [← steps_list, steps_cons, steps_cons, step, step]

theorem atPath_append (read : Reader) (v : Value) (p q : String) :
    v.atPath read (p ++ "." ++ q) = (v.atPath read p).atPath read q := by
  have hsplit : split '.' (p ++ "." ++ q) = split '.' p ++ split '.' q := by
    have hpoint : ".".toList = ['.'] := rfl
    rw [split, String.toList_append, String.toList_append, hpoint, List.append_assoc,
      List.singleton_append, splitChars_append_cons, List.map_append]
    rfl
  rw [atPath, hsplit, steps_append]
  rfl

theorem atPath_dotted (read : Reader) (v : Value) (hnames : names ≠ [])
    (hpoints : ∀ name ∈ names, '.' ∉ name.toList) :
    v.atPath read (dotted names) = v.steps read names := by
  rw [atPath, dotted, split_intercalate rfl hnames hpoints]

/-! ## Steps of a filter -/

theorem followBy_readAttribute (v : Value) (names : List String) :
    v.followBy readAttribute names = v.follow names := by
  induction names generalizing v with
  | nil => rfl
  | cons name names ih =>
      rw [followBy, follow, ih]
      cases v <;> rfl

/-- Outside collections a response steps as a filter does. -/
theorem step_of_not_isCollection (h : v.isCollection = false) :
    v.step read name = if v.isNone then .none else read v name := by
  cases v with
  | list | tuple | related => cases h
  | member enumeration key mixin v =>
      cases mixin with
      | other =>
          cases v with
          | list | tuple => cases h
          | _ => rfl
      | _ => rfl
  | _ => rfl

/-- A response and a filter come to the same value if no collection is met before the end. -/
theorem steps_eq_followBy
    (h : ∀ k < names.length, (v.followBy read (names.take k)).isCollection = false) :
    v.steps read names = v.followBy read names := by
  induction names generalizing v with
  | nil => rfl
  | cons name names ih =>
      have hhere : v.isCollection = false := h 0 (Nat.succ_pos _)
      rw [steps_cons, step_of_not_isCollection hhere, followBy]
      exact ih fun k hk => h (k + 1) (Nat.succ_lt_succ hk)

theorem readAttribute_of_isCollection (h : v.isCollection = true) (name : String) :
    v.readAttribute name = .none := by
  cases v <;> first | rfl | cases h

/-- Names that lead to some value in a record meet no collection before. -/
theorem not_isCollection_of_follow (h : (v.follow names).isNone = false) {k : ℕ}
    (hk : k < names.length) : (v.follow (names.take k)).isCollection = false := by
  by_contra hmet
  rw [Bool.not_eq_false] at hmet
  rw [← List.take_append_drop k names, follow_append, List.drop_eq_getElem_cons hk, follow,
    readAttribute_of_isCollection hmet, follow_none] at h
  cases h

/-- A response lists what a filter follows a name to in the elements of a collection. -/
theorem steps_concat_of_follow {last : String}
    (h : v.follow names = .list items ∨ v.follow names = .tuple items)
    (hitems : ∀ e ∈ items, e.isCollection = false) :
    v.steps readAttribute (names ++ [last]) = .list (items.map fun e => e.follow [last]) := by
  have hsome : (v.follow names).isNone = false := by
    rcases h with h | h <;> rw [h] <;> rfl
  have hreach : v.steps readAttribute names = v.follow names := by
    rw [← followBy_readAttribute]
    refine steps_eq_followBy fun k hk => ?_
    rw [followBy_readAttribute]
    exact not_isCollection_of_follow hsome hk
  have helements : (list items).steps readAttribute [last] =
      .list (items.map fun e => e.follow [last]) := by
    rw [steps_list]
    refine congrArg list (List.map_congr_left fun e he => ?_)
    rw [← followBy_readAttribute]
    refine steps_eq_followBy fun k hk => ?_
    obtain rfl : k = 0 := Nat.lt_one_iff.mp hk
    exact hitems e he
  rw [steps_append, hreach, ← helements]
  rcases h with h | h
  · rw [h]
  · rw [h, steps_tuple _ _ (List.cons_ne_nil _ _), steps_list]

end Value

/-! ## Searches -/

namespace Predicate

variable {zone : ℤ} {record : Value} {names : List String} {items : List Value}

/-- A search tests the elements of the list or the tuple that it comes to. -/
theorem holds_any_of_follow {inner : Predicate}
    (h : record.follow names = .list items ∨ record.follow names = .tuple items) :
    (any names inner).holds zone record = anyHolds (inner.holds zone) items := by
  have helements : (record.follow names).elements = .ok items := by
    rcases h with h | h <;> rw [h] <;> cases items <;> rfl
  rw [holds, helements]

/-- A search for a value compares it with what each element has under the name. -/
theorem holds_any_equals {last : String} {operand : Value}
    (h : record.follow names = .list items ∨ record.follow names = .tuple items)
    (hsame : ∀ e ∈ items, ∃ b, (e.follow [last]).same operand = .ok b) :
    ∃ b, (any names (equals [last] operand)).holds zone record = .ok b ∧
      (b = true ↔ ∃ entry ∈ items.map fun e => e.follow [last], entry.same operand = .ok true) := by
  have htest (e : Value) (b : Bool) : (equals [last] operand).holds zone e = .ok b ↔
      (e.follow [last]).same operand = .ok b := by
    rw [holds, Outcome.mapError_eq_ok]
  have hends : ∀ e ∈ items, ∃ b, (equals [last] operand).holds zone e = .ok b := by
    intro e he
    obtain ⟨b, hb⟩ := hsame e he
    exact ⟨b, (htest e b).mpr hb⟩
  obtain ⟨b, hb⟩ := anyHolds_ends hends
  refine ⟨b, (holds_any_of_follow h).trans hb, ?_⟩
  simp only [anyHolds_verdict hb, htest, List.mem_map, exists_exists_and_eq_and]

end Predicate

namespace Value

/-- A shelf with its owner, a row of books of which one is missing and one has no title, a row that holds a
row, and an attribute with a point in its name. -/
def shelf : Value :=
  .record (.own 0) "Shelf" [("owner", .record (.own 1) "Person" [("name", .text "Ada")]),
    ("books", .tuple [.record (.own 2) "Book" [("title", .text "Emma")], .none, .record (.own 3) "Book" []]),
    ("rows", .list [.tuple [.record (.own 2) "Book" [("title", .text "Emma")]]]),
    ("lent", .list [.related "Book" [1]]), ("size.cm", .int 80)]

end Value
end PageQuery
