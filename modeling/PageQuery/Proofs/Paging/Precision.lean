import Mathlib
import PageQuery.Proofs.Number.Nearest

/-!
# How far page counts are exact

The number of pages is the ceiling of the number nearest to a quotient.  Up to `2 ^ 53` records that is
the ceiling of the quotient itself, and the very next count of records has no number of its own any more,
so pages of one record each come out one short.
-/

namespace PageQuery

variable {elements size pages : ℤ}

/-- The pages of some records are counted by rounding one quotient up. -/
theorem totalPages_of_pos (helements : 0 < elements) (hsize : 0 < size) :
    totalPages elements size =
      (Binary64.ofRatio false elements.natAbs size.natAbs).ceil?.elim (.error .overflow) .ok := by
  have hsign : decide (size < 0) = false := decide_eq_false (by omega)
  rw [totalPages, if_neg (by omega), if_neg (by omega), hsign]
  cases (Binary64.ofRatio false elements.natAbs size.natAbs).ceil? <;> rfl

/-- Pages that can be counted are the ceiling of the number nearest to the quotient. -/
theorem exists_isNearest_of_totalPages (helements : 0 < elements) (hsize : 0 < size)
    (h : totalPages elements size = .ok pages) :
    ∃ m e, Binary64.IsNearest ((elements : ℚ) / size) m e ∧ pages = ⌈(m : ℚ) * 2 ^ e⌉ := by
  have hn : (elements.natAbs : ℚ) = elements := by
    rw [Nat.cast_natAbs, abs_of_pos helements]
  have hd : (size.natAbs : ℚ) = size := by
    rw [Nat.cast_natAbs, abs_of_pos hsize]
  rw [totalPages_of_pos helements hsize] at h
  cases hc : (Binary64.ofRatio false elements.natAbs size.natAbs).ceil? with
  | none =>
      rw [hc] at h
      cases h
  | some c =>
      rw [hc] at h
      obtain rfl := Except.ok.inj h
      rw [← hn, ← hd]
      exact Binary64.exists_isNearest_of_ceil? (by omega) (by omega) hc

/-- One record more than `2 ^ 53` has no number of its own: it lies in the middle between two, and the
even one is below. -/
theorem ofRatio_behind_top :
    Binary64.ofRatio false (2 ^ 53 + 1) 1 = .finite false (2 ^ 52) 1 := by
  have hlog : Nat.log2 (2 ^ 53 + 1) = 53 := by
    rw [Nat.log2_eq_iff (by norm_num)]
    norm_num
  have hunit : Binary64.unitExponent (2 ^ 53 + 1) 1 = 1 := by
    unfold Binary64.unitExponent
    rw [hlog]
    rfl
  rw [Binary64.ofRatio_eq (by norm_num) hunit rfl]
  rfl

theorem totalPages_behind_top : totalPages (2 ^ 53 + 1) 1 = .ok (2 ^ 53) := by
  have hnumber : ((2 : ℤ) ^ 53 + 1).natAbs = 2 ^ 53 + 1 := rfl
  rw [totalPages_of_pos (by norm_num) (by norm_num), hnumber, Int.natAbs_one, ofRatio_behind_top,
    Binary64.ceil?_finite]
  norm_num

/-- Page counts are exact up to `2 ^ 53` records and no further.  The number of pages is the ceiling of
the binary number nearest to the quotient of records and size, and for all sizes from one up to `2 ^ 53`
it is the ceiling of the quotient itself, or none without records, exactly if no more than `2 ^ 53`
records are allowed. -/
theorem totalPages_exact_iff (bound : ℤ) :
    ((∀ elements size : ℤ, elements ≤ bound → 1 ≤ size → size ≤ 2 ^ 53 →
        totalPages elements size = .ok (if elements ≤ 0 then 0 else ⌈(elements : ℚ) / size⌉)) ↔
      bound ≤ 2 ^ 53) ∧
    ∀ elements size pages : ℤ, 0 < elements → 0 < size → totalPages elements size = .ok pages →
      ∃ m e, Binary64.IsNearest ((elements : ℚ) / size) m e ∧ pages = ⌈(m : ℚ) * 2 ^ e⌉ := by
  refine ⟨⟨?_, ?_⟩, fun _ _ _ => exists_isNearest_of_totalPages⟩
  · intro hexact
    by_contra hbound
    have hbehind := hexact (2 ^ 53 + 1) 1 (by omega) le_rfl (by norm_num)
    rw [totalPages_behind_top, if_neg (by norm_num)] at hbehind
    norm_num at hbehind
  · intro hbound elements size helements hsize hsize'
    rcases le_or_gt elements 0 with hnone | hpos
    · rw [totalPages, if_pos hnone, if_pos hnone]
    · obtain ⟨n, rfl⟩ := Int.eq_ofNat_of_zero_le hpos.le
      rw [totalPages_eq_ceil (by omega) hsize hsize', if_neg (by omega), Int.cast_natCast]

end PageQuery
