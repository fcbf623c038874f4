import Mathlib
import PageQuery.Text.Case

/-!
# Points and letter case

The lower-case form of a text has a point exactly if the text has one, so names that are found in any
letter case by segments of a path have no points either.  Within ASCII, lower case is what the core
library makes of it.
-/

namespace PageQuery.Text

/-- Every row moves its characters to codes behind that of the point. -/
theorem point_lt_target {row : CaseRow} (h : row ∈ lowerRows) :
    (46 : ℤ) < (row.first : ℤ) + row.shift := by
  have hall : (lowerRows.all fun row => decide ((46 : ℤ) < (row.first : ℤ) + row.shift)) = true := by
    decide +kernel
  exact of_decide_eq_true (List.all_eq_true.mp hall row h)

theorem point_lt_of_shiftBy {n m : ℕ} (h : shiftBy lowerRows n = some m) : 46 < m := by
  obtain ⟨row, hrow, rfl⟩ := Option.map_eq_some_iff.mp h
  have htarget := point_lt_target (List.mem_of_find?_eq_some hrow)
  have hcovers := List.find?_some hrow
  simp only [CaseRow.covers, Bool.and_eq_true, decide_eq_true_eq] at hcovers
  omega

/-- A code behind that of the point is not that of the point. -/
theorem ofNat_ne_point {m : ℕ} (h : 46 < m) : Char.ofNat m ≠ '.' := by
  intro heq
  have hcode : (if m.isValidChar then m else 0) = 46 := by
    rw [← Char.toNat_ofNat, heq]
    rfl
  split at hcode <;> omega

theorem lowerChar_eq_toLower {c : Char} (h : c.toNat < 128) : lowerChar c = c.toLower := by
  have hall : ∀ n < 128, lowerChar (Char.ofNat n) = (Char.ofNat n).toLower := by
    decide +kernel
  have hc := hall c.toNat h
  rwa [Char.ofNat_toNat] at hc

theorem lowerChar_eq_point {c : Char} : lowerChar c = '.' ↔ c = '.' := by
  constructor
  · intro h
    simp only [lowerChar] at h
    split at h
    · split at h
      · rename_i hupper
        simp only [Bool.and_eq_true, decide_eq_true_eq] at hupper
        exact absurd h (ofNat_ne_point (by omega))
      · exact h
    · split at h
      · rename_i m hm
        exact absurd h (ofNat_ne_point (point_lt_of_shiftBy hm))
      · exact h
  · rintro rfl
    rfl

theorem point_mem_lowerAt {before after : List Char} {c : Char} :
    '.' ∈ lowerAt before c after ↔ c = '.' := by
  rw [lowerAt]
  split
  · rename_i hsigma
    refine iff_of_false ?_ ?_
    · rw [List.mem_singleton]
      split <;> decide
    · rintro rfl
      exact absurd hsigma (by decide)
  · split
    · rename_i hdotted
      refine iff_of_false (by decide) ?_
      rintro rfl
      exact absurd hdotted (by decide)
    · rw [List.mem_singleton, eq_comm, lowerChar_eq_point]

/-- The lower-case form of a text has a point exactly if the text has one. -/
theorem point_mem_lower {s : String} : '.' ∈ (lower s).toList ↔ '.' ∈ s.toList := by
  rw [lower, String.toList_ofList]
  generalize ([] : List Char) = before
  induction s.toList generalizing before with
  | nil => rfl
  | cons c cs ih => rw [lowerFrom, List.mem_append, point_mem_lowerAt, ih, List.mem_cons, eq_comm]

end PageQuery.Text
