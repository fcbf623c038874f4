import Mathlib
import PageQuery.Predicate.Holds
import PageQuery.Proofs.Text.Case
import PageQuery.Store.Cell

/-!
# Comparing plain values

Whole numbers are compared as decimals and come out as whole numbers; texts, truth values and aware
moments are compared as what they are.  Among printable ASCII characters folding a letter and putting
it in lower case is the same.
-/

namespace PageQuery

/-! ## Whole numbers -/

theorem Number.digitCount_mono : Monotone Number.digitCount := by
  intro a b hab
  rw [Number.digitCount, Number.digitCount,
    Nat.length_toDigits_le_iff (by omega) Nat.length_toDigits_pos]
  exact hab.trans_lt
    ((Nat.length_toDigits_le_iff (by omega) Nat.length_toDigits_pos).mp le_rfl)

namespace Decimal

theorem compareMagnitude_whole (m n : ℕ) : compareMagnitude m 0 n 0 = compare m n := by
  rw [compareMagnitude]
  by_cases hm : m = 0
  · rw [if_pos hm]
    by_cases hn : n = 0
    · rw [if_pos hn, hm, hn, Nat.compare_eq_eq.mpr rfl]
    · rw [if_neg hn, hm, Nat.compare_eq_lt.mpr (Nat.pos_of_ne_zero hn)]
  · rw [if_neg hm]
    by_cases hn : n = 0
    · rw [if_pos hn, hn, Nat.compare_eq_gt.mpr (Nat.pos_of_ne_zero hm)]
    · rw [if_neg hn, if_pos le_rfl, zero_add, zero_add, sub_self, Int.toNat_zero, pow_zero, mul_one]
      split
      · rename_i hdigits
        have hlt : Number.digitCount m < Number.digitCount n :=
          Int.ofNat_lt.mp (compare_lt_iff_lt.mp hdigits)
        rw [Nat.compare_eq_lt.mpr (Number.digitCount_mono.reflect_lt hlt)]
      · rename_i hdigits
        have hlt : Number.digitCount n < Number.digitCount m :=
          Int.ofNat_lt.mp (compare_gt_iff_gt.mp hdigits)
        rw [Nat.compare_eq_gt.mpr (Number.digitCount_mono.reflect_lt hlt)]
      · rfl

/-- Whole numbers are ordered as their decimals. -/
theorem order_ofInt (a b : ℤ) : (ofInt a).order (ofInt b) = some (compare a b) := by
  have hsign (n : ℤ) : (decide (n < 0) && n.natAbs != 0) = decide (n < 0) := by
    by_cases hneg : n < 0
    · have hnonzero : n.natAbs ≠ 0 := by omega
      simp [hneg, hnonzero]
    · simp [hneg]
  rw [ofInt, ofInt, order, hsign, hsign]
  by_cases hzero : a = 0 ∧ b = 0
  · obtain ⟨rfl, rfl⟩ := hzero
    rfl
  · have hsome : ¬ (decide (a.natAbs = 0) && decide (b.natAbs = 0)) = true := by
      simp only [Int.natAbs_eq_zero, Bool.and_eq_true, decide_eq_true_eq]
      exact hzero
    rw [if_neg hsome]
    by_cases ha : a < 0
    · by_cases hb : b < 0
      · simp only [ha, hb, decide_true, compareMagnitude_whole, Option.some.injEq]
        rcases lt_trichotomy a b with hlt | heq | hgt
        · rw [compare_lt_iff_lt.mpr hlt, Nat.compare_eq_lt.mpr (by omega)]
        · rw [heq, Nat.compare_eq_eq.mpr rfl, compare_eq_iff_eq.mpr rfl]
        · rw [compare_gt_iff_gt.mpr hgt, Nat.compare_eq_gt.mpr (by omega)]
      · simp only [ha, hb, decide_true, decide_false, Option.some.injEq]
        exact (compare_lt_iff_lt.mpr (by omega)).symm
    · by_cases hb : b < 0
      · simp only [ha, hb, decide_true, decide_false, Option.some.injEq]
        exact (compare_gt_iff_gt.mpr (by omega)).symm
      · simp only [ha, hb, decide_false, compareMagnitude_whole, Option.some.injEq]
        rcases lt_trichotomy a b with hlt | heq | hgt
        · rw [compare_lt_iff_lt.mpr hlt, Nat.compare_eq_lt.mpr (by omega)]
        · rw [heq, Nat.compare_eq_eq.mpr rfl, compare_eq_iff_eq.mpr rfl]
        · rw [compare_gt_iff_gt.mpr hgt, Nat.compare_eq_gt.mpr (by omega)]

end Decimal

namespace Num

theorem same_whole (a b : ℤ) : (whole a).same (whole b) = .ok (a == b) := by
  have horder : (compare a b == .eq) = (a == b) := by
    rw [Bool.eq_iff_iff, beq_iff_eq, beq_iff_eq, compare_eq_iff_eq]
  rw [same, toDecimal, toDecimal, Decimal.order_ofInt, ← horder]
  rfl

theorem less_whole (a b : ℤ) : (whole a).less (whole b) = .ok (decide (a < b)) := by
  have horder : (compare a b == .lt) = decide (a < b) := by
    rw [Bool.eq_iff_iff, beq_iff_eq, decide_eq_true_eq, compare_lt_iff_lt]
  rw [less, toDecimal, toDecimal, Decimal.order_ofInt, ← horder]

end Num

namespace Value

theorem same_int (a b : ℤ) : (int a).same (.int b) = .ok (a == b) := by
  simp only [same, asNum?, bare, Num.same_whole]

theorem less_int (a b : ℤ) : (int a).less (.int b) = .ok (decide (a < b)) := by
  simp only [less, asNum?, bare, Num.less_whole]

theorem same_bool (a b : Bool) : (bool a).same (.bool b) = .ok (a == b) := by
  simp only [same, asNum?, bare, Num.same_whole]
  cases a <;> cases b <;> rfl

theorem less_bool (a b : Bool) : (bool a).less (.bool b) = .ok (!a && b) := by
  simp only [less, asNum?, bare, Num.less_whole]
  cases a <;> cases b <;> rfl

theorem same_text (s t : String) : (text s).same (.text t) = .ok (s == t) := by
  simp only [same, asNum?, bare, sameAtom]

theorem less_text (s t : String) : (text s).less (.text t) = .ok (decide (s < t)) := by
  simp only [less, asNum?, bare, lessAtom]

theorem same_datetime {s t : DateTime} (h : s.isAware = t.isAware) :
    (datetime s).same (.datetime t) = .ok (compare s.instant t.instant == .eq) := by
  simp only [same, asNum?, bare, sameAtom, DateTime.order?, if_pos h]
  rfl

theorem less_datetime {s t : DateTime} (h : s.isAware = t.isAware) :
    (datetime s).less (.datetime t) = .ok (decide (s.instant < t.instant)) := by
  have horder : (compare s.instant t.instant == .lt) = decide (s.instant < t.instant) := by
    rw [Bool.eq_iff_iff, beq_iff_eq, decide_eq_true_eq, compare_lt_iff_lt]
  simp only [less, asNum?, bare, lessAtom, DateTime.order?, if_pos h, horder]

end Value

/-! ## Printable texts -/

/-- A text of printable ASCII characters. -/
def IsPrintable (s : String) : Prop :=
  ∀ c ∈ s.toList, 32 ≤ c.toNat ∧ c.toNat ≤ 126

instance (s : String) : Decidable (IsPrintable s) :=
  inferInstanceAs (Decidable (∀ c ∈ s.toList, 32 ≤ c.toNat ∧ c.toNat ≤ 126))

/-- Folding a printable text puts its letters in lower case. -/
theorem IsPrintable.fold_eq {s : String} (h : IsPrintable s) : Text.fold s = lowerAscii s := by
  rw [Text.fold, lowerAscii]
  have hchars : ∀ c ∈ s.toList, Text.foldChar c = [c.toLower] := by
    intro c hc
    obtain ⟨-, hc'⟩ := h c hc
    simp only [Text.foldChar]
    rw [if_pos (by omega), Text.lowerChar_eq_toLower (by omega)]
  generalize s.toList = cs at hchars
  induction cs with
  | nil => rfl
  | cons c cs ih =>
      obtain ⟨hhead, htail⟩ := List.forall_mem_cons.mp hchars
      rw [List.flatMap_cons, hhead, ih htail]
      rfl

/-- No character of a printable text is the zero character. -/
theorem IsPrintable.beforeZero_eq {s : String} (h : IsPrintable s) :
    Pattern.beforeZero s = (s, false) := by
  have hkept : s.toList.takeWhile (fun c => decide (c.toNat ≠ 0)) = s.toList := by
    apply List.takeWhile_eq_self_iff.mpr
    intro c hc
    have hlow := (h c hc).1
    simpa using (by omega : c.toNat ≠ 0)
  rw [Pattern.beforeZero]
  simp only [hkept, String.ofList_toList, String.length_toList, lt_irrefl, decide_false]

/-- A printable text contains another one in memory as it does in a store. -/
theorem IsPrintable.matchesText_eq {s piece : String} (h : IsPrintable s)
    (hpiece : IsPrintable piece) :
    (Pattern.make false false piece).matchesText s = (Value.text s).containsText piece := by
  rw [Pattern.make, hpiece.beforeZero_eq]
  simp only [Pattern.matchesText, h.beforeZero_eq, Value.containsText, Value.asText?, Value.bare,
    h.fold_eq, hpiece.fold_eq, Bool.or_self]

end PageQuery
