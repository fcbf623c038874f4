import Mathlib
import PageQuery.Ordering.Arrange
import PageQuery.Proofs.Calendar.Chronology
import PageQuery.Proofs.Outcome
import PageQuery.Proofs.Value.Comparison
import PageQuery.Store.Verdict

/-!
# Cells and the values that they decode to

A column of texts, whole numbers, truth values, days or moments is plain.  What a plain column holds
is compared in the store, as a cell, and in memory, as the value that the cell decodes to.  Both
comparisons come to the same: cells are ordered as the places that they have in one linear order, and
the values that they decode to stand before each other as these places do.
-/

namespace PageQuery

namespace ColumnType

/-- Whether the cells of a column are compared as the values that they stand for. -/
def isPlain : ColumnType → Bool
  | .text | .integer | .natural | .boolean | .date | .dateTime => true
  | _ => false

/-- The cells that a column of a type holds.  Of a column that is not plain it is only asked that its
cells can be read. -/
inductive Holds : ColumnType → Cell → Prop
  | absent (type : ColumnType) : Holds type .absent
  | text {s : String} (h : IsPrintable s) : Holds .text (.text s)
  | integer (n : ℤ) : Holds .integer (.whole n)
  | natural {n : ℤ} (h : 0 ≤ n) : Holds .natural (.whole n)
  | boolean (b : Bool) : Holds .boolean (.whole (if b then 1 else 0))
  | date {d : Date} (h : d.isValid = true) : Holds .date (.day d)
  | dateTime {d : Date} {t : Time} (h : d.isValid = true) (h' : t.isValid = true) :
      Holds .dateTime (.moment d t)
  | other {type : ColumnType} {c : Cell} {v : Value} (h : type.isPlain = false)
      (h' : type.decode true c = .ok v) : Holds type c

def holds (type : ColumnType) : Cell → Bool
  | .absent => true
  | .text s => type == .text && s.toList.all fun c => 32 ≤ c.toNat && c.toNat ≤ 126
  | .whole n => type == .integer || type == .natural && 0 ≤ n || type == .boolean && (n == 0 || n == 1)
  | .day d => type == .date && d.isValid
  | .moment d t => type == .dateTime && d.isValid && t.isValid
  | _ => false

theorem Holds.of_holds {type : ColumnType} {c : Cell} (h : type.holds c = true) : type.Holds c := by
  cases c with
  | absent => exact .absent type
  | text s =>
      obtain ⟨rfl, hs⟩ : type = .text ∧ _ := by simpa [holds] using h
      exact .text hs
  | whole n =>
      obtain (rfl | ⟨rfl, hn⟩) | ⟨rfl, rfl | rfl⟩ :
          (type = .integer ∨ type = .natural ∧ 0 ≤ n) ∨ type = .boolean ∧ (n = 0 ∨ n = 1) := by
        simpa [holds] using h
      · exact .integer n
      · exact .natural hn
      · exact .boolean false
      · exact .boolean true
  | day d =>
      obtain ⟨rfl, hd⟩ : type = .date ∧ d.isValid = true := by simpa [holds] using h
      exact .date hd
  | moment d t =>
      obtain ⟨⟨rfl, hd⟩, ht⟩ : (type = .dateTime ∧ d.isValid = true) ∧ t.isValid = true := by
        simpa [holds] using h
      exact .dateTime hd ht
  | real | identifier | clock => cases h

/-- The value that a cell of a plain column decodes to where moments are zoned. -/
def valueOf : ColumnType → Cell → Value
  | .boolean, .whole n => .bool (n == 1)
  | _, .whole n => .int n
  | _, .text s => .text s
  | _, .day d => .date d
  | _, .moment d t => .datetime { date := d, time := t, offset := some 0 }
  | _, _ => .none

end ColumnType

/-- The place of a cell among those of a plain column: an absent one comes first. -/
def Cell.place (c : Cell) : WithBot (ℤ ⊕ₗ String) :=
  match c with
  | .absent => ⊥
  | .whole n => (Sum.inlₗ n : ℤ ⊕ₗ String)
  | .text s => (Sum.inrₗ s : ℤ ⊕ₗ String)
  | .day d => (Sum.inlₗ (d.ordinal : ℤ) : ℤ ⊕ₗ String)
  | .moment d t => (Sum.inlₗ (DateTime.wall ⟨d, t, none, false⟩) : ℤ ⊕ₗ String)
  | _ => (Sum.inlₗ 0 : ℤ ⊕ₗ String)

theorem ColumnType.decode_eq {type : ColumnType} {c : Cell} (htype : type.isPlain = true)
    (h : type.Holds c) : type.decode true c = .ok (type.valueOf c) := by
  cases h with
  | absent => cases type <;> rfl
  | boolean b => cases b <;> rfl
  | other hother => simp [htype] at hother
  | text | integer | natural | date | dateTime => rfl

/-- What a column holds can be read. -/
theorem ColumnType.Holds.exists_decode {type : ColumnType} {c : Cell} (h : type.Holds c) :
    ∃ v, type.decode true c = .ok v := by
  cases h with
  | other _ h' => exact ⟨_, h'⟩
  | absent => cases type <;> exact ⟨_, rfl⟩
  | text | integer | natural | boolean | date | dateTime => exact ⟨_, rfl⟩

/-- What a reader of a cell sees where moments are zoned; nothing if the cell cannot be read. -/
def ColumnType.read (type : ColumnType) (c : Cell) : Value :=
  match type.decode true c with
  | .ok v => v
  | .error _ => .none

theorem ColumnType.read_absent (type : ColumnType) : type.read .absent = .none := by
  cases type <;> rfl

theorem ColumnType.Holds.read_eq {type : ColumnType} {c : Cell} (h : type.Holds c)
    (htype : type.isPlain = true) : type.read c = type.valueOf c := by
  rw [read, decode_eq htype h]

/-! ## The order of cells -/

namespace Cell

/-- Cells are ordered as their places. -/
structure OrderedAsPlaces (a b : Cell) : Prop where
  lt_iff : a.order b = .lt ↔ a.place < b.place
  eq_iff : a.order b = .eq ↔ a.place = b.place

theorem OrderedAsPlaces.gt_iff {a b : Cell} (h : OrderedAsPlaces a b) :
    a.order b = .gt ↔ b.place < a.place := by
  constructor
  · intro horder
    refine lt_of_le_of_ne (not_lt.mp fun hlt => ?_) fun heq => ?_
    · simp [h.lt_iff.mpr hlt] at horder
    · simp [h.eq_iff.mpr heq.symm] at horder
  · intro hgt
    cases horder : a.order b with
    | lt => exact absurd (h.lt_iff.mp horder) hgt.asymm
    | eq => exact absurd (h.eq_iff.mp horder) hgt.ne'
    | gt => rfl

theorem orderTexts_lt (s t : String) : orderTexts s t = .lt ↔ s < t := by
  rw [orderTexts]
  split_ifs with heq hlt
  · simp [heq]
  · simp [hlt]
  · simp [hlt]

theorem orderTexts_eq (s t : String) : orderTexts s t = .eq ↔ s = t := by
  rw [orderTexts]
  split_ifs with heq hlt
  · simp [heq]
  · simp [heq]
  · simp [heq]

end Cell

namespace Cell

theorem ordered_absent_left (b : Cell) : OrderedAsPlaces .absent b := by
  constructor <;> cases b <;> simp [order, place, num?, rank, compare_lt_iff_lt]

theorem ordered_absent_right (a : Cell) : OrderedAsPlaces a .absent := by
  constructor <;> cases a <;> simp [order, place, num?, rank, compare_lt_iff_lt]

theorem ordered_whole (m n : ℤ) : OrderedAsPlaces (.whole m) (.whole n) := by
  constructor <;> simp [order, place, compare_lt_iff_lt]

end Cell

/-- What a plain column holds is ordered by places. -/
theorem ColumnType.Holds.ordered {type : ColumnType} {a b : Cell} (htype : type.isPlain = true)
    (ha : type.Holds a) (hb : type.Holds b) : a.OrderedAsPlaces b := by
  cases ha with
  | absent => exact Cell.ordered_absent_left b
  | other hother => simp [htype] at hother
  | text h =>
      cases hb with
      | absent => exact Cell.ordered_absent_right _
      | other hother => simp [htype] at hother
      | text h' =>
          constructor <;> simp [Cell.order, Cell.place, Cell.orderTexts_lt, Cell.orderTexts_eq]
  | integer m =>
      cases hb with
      | absent => exact Cell.ordered_absent_right _
      | other hother => simp [htype] at hother
      | integer n => exact Cell.ordered_whole m n
  | natural h =>
      cases hb with
      | absent => exact Cell.ordered_absent_right _
      | other hother => simp [htype] at hother
      | natural h' => exact Cell.ordered_whole _ _
  | boolean x =>
      cases hb with
      | absent => exact Cell.ordered_absent_right _
      | other hother => simp [htype] at hother
      | boolean y => exact Cell.ordered_whole _ _
  | date h =>
      cases hb with
      | absent => exact Cell.ordered_absent_right _
      | other hother => simp [htype] at hother
      | date h' =>
          constructor <;>
            simp [Cell.order, Cell.place, Date.order_eq_compare h h', compare_lt_iff_lt]
  | dateTime hd ht =>
      cases hb with
      | absent => exact Cell.ordered_absent_right _
      | other hother => simp [htype] at hother
      | dateTime hd' ht' =>
          rename_i d t e u
          have hwall := DateTime.compare_wall (a := ⟨d, t, none, false⟩) (b := ⟨e, u, none, false⟩)
            ⟨hd, ht⟩ ⟨hd', ht'⟩
          dsimp only at hwall
          constructor <;> simp [Cell.order, Cell.place, ← hwall, compare_lt_iff_lt]

/-! ## The order of values -/

namespace Value

/-- Values are compared by their order where equal ones are not below each other. -/
theorem before_of_less {u v : Value} (hu : u.isNone = false) (hv : v.isNone = false)
    {same less : Bool} (hsame : u.same v = .ok same) (hless : u.less v = .ok less)
    (h : same = true → less = false) : u.before v = .ok less := by
  rw [before, hu, hv, if_neg Bool.false_ne_true, if_neg Bool.false_ne_true, hsame]
  cases same with
  | true => rw [h rfl]
  | false => exact hless

theorem before_int (m n : ℤ) : (int m).before (.int n) = .ok (decide (m < n)) := by
  refine before_of_less rfl rfl (same_int m n) (less_int m n) fun heq => ?_
  simp [beq_iff_eq.mp heq]

theorem before_text (s t : String) : (text s).before (.text t) = .ok (decide (s < t)) := by
  refine before_of_less rfl rfl (same_text s t) (less_text s t) fun heq => ?_
  simp [beq_iff_eq.mp heq]

theorem before_bool (a b : Bool) : (bool a).before (.bool b) = .ok (!a && b) := by
  refine before_of_less rfl rfl (same_bool a b) (less_bool a b) fun heq => ?_
  simp [beq_iff_eq.mp heq]

theorem before_datetime {s t : DateTime} (h : s.isAware = t.isAware) :
    (datetime s).before (.datetime t) = .ok (decide (s.instant < t.instant)) := by
  refine before_of_less rfl rfl (same_datetime h) (less_datetime h) fun heq => ?_
  simp [compare_eq_iff_eq.mp (beq_iff_eq.mp heq)]

theorem same_date (d e : Date) : (date d).same (.date e) = .ok (d == e) := by
  simp only [same, asNum?, bare, sameAtom]

theorem less_date (d e : Date) : (date d).less (.date e) = .ok (d.order e == .lt) := by
  simp only [less, asNum?, bare, lessAtom]

theorem before_date {d e : Date} (hd : d.isValid = true) (he : e.isValid = true) :
    (date d).before (.date e) = .ok (decide (d.ordinal < e.ordinal)) := by
  have hless : (d.order e == .lt) = decide (d.ordinal < e.ordinal) := by
    rw [Date.order_eq_compare hd he, Bool.eq_iff_iff, beq_iff_eq, decide_eq_true_eq,
      compare_lt_iff_lt]
  refine before_of_less rfl rfl (same_date d e) (hless ▸ less_date d e) fun heq => ?_
  simp [beq_iff_eq.mp heq]

end Value

theorem ColumnType.valueOf_boolean (b : Bool) :
    ColumnType.boolean.valueOf (.whole (if b then 1 else 0)) = .bool b := by
  cases b <;> rfl

theorem ColumnType.valueOf_absent (type : ColumnType) : type.valueOf .absent = .none := by
  cases type <;> rfl

/-- What a plain column holds decodes to nothing only where nothing is kept. -/
theorem ColumnType.Holds.isNone_valueOf {type : ColumnType} {c : Cell}
    (htype : type.isPlain = true) (h : type.Holds c) :
    (type.valueOf c).isNone = c.isAbsent := by
  cases h with
  | absent => rw [valueOf_absent]; rfl
  | boolean b => rw [valueOf_boolean]; rfl
  | other hother => simp [htype] at hother
  | text | integer | natural | date | dateTime => rfl

/-- The values that cells decode to stand before each other as the places of the cells do. -/
theorem ColumnType.Holds.before_eq {type : ColumnType} {a b : Cell} (htype : type.isPlain = true)
    (ha : type.Holds a) (hb : type.Holds b) :
    (type.valueOf a).before (type.valueOf b) = .ok (decide (a.place < b.place)) := by
  cases ha with
  | absent =>
      rw [valueOf_absent, Value.before, hb.isNone_valueOf htype]
      cases b <;> simp [Cell.place, Cell.isAbsent, Value.isNone]
  | other hother => simp [htype] at hother
  | text h =>
      cases hb with
      | absent => simp [valueOf, Value.before, Value.isNone, Cell.place]
      | other hother => simp [htype] at hother
      | text h' => simp [valueOf, Value.before_text, Cell.place]
  | integer m =>
      cases hb with
      | absent => simp [valueOf, Value.before, Value.isNone, Cell.place]
      | other hother => simp [htype] at hother
      | integer n => simp [valueOf, Value.before_int, Cell.place]
  | natural h =>
      cases hb with
      | absent => simp [valueOf, Value.before, Value.isNone, Cell.place]
      | other hother => simp [htype] at hother
      | natural h' => simp [valueOf, Value.before_int, Cell.place]
  | boolean x =>
      cases hb with
      | absent => simp [valueOf_boolean, valueOf_absent, Value.before, Value.isNone, Cell.place]
      | other hother => simp [htype] at hother
      | boolean y =>
          rw [valueOf_boolean, valueOf_boolean, Value.before_bool]
          cases x <;> cases y <;> simp [Cell.place]
  | date h =>
      cases hb with
      | absent => simp [valueOf, Value.before, Value.isNone, Cell.place]
      | other hother => simp [htype] at hother
      | date h' => simp [valueOf, Value.before_date h h', Cell.place]
  | dateTime hd ht =>
      cases hb with
      | absent => simp [valueOf, Value.before, Value.isNone, Cell.place]
      | other hother => simp [htype] at hother
      | dateTime hd' ht' =>
          rename_i d t e u
          have haware : DateTime.isAware ⟨d, t, some 0, false⟩ =
              DateTime.isAware ⟨e, u, some 0, false⟩ := rfl
          rw [valueOf, valueOf, Value.before_datetime haware]
          simp [Cell.place, DateTime.instant, DateTime.wall]

end PageQuery
