import Mathlib
import PageQuery.Number.Significant
import PageQuery.Proofs.Number.Figures
import PageQuery.Proofs.Number.Nearest

/-!
# Decimals come back from binary numbers

A decimal of at most fifteen digits is kept as the nearest binary number, which lies within an eighth of a
unit of its last place.  That is close enough for fifteen digits of the binary number, brought to the places
of the decimal, to be the decimal again.  Decimals are compared by value, so two of them that are kept are
equal exactly if the numbers that stand for them are.
-/

namespace PageQuery

open PageQuery.Number

/-! ## Digits and places -/

theorem Number.digitCount_le_iff {n k : ℕ} (hk : 0 < k) : digitCount n ≤ k ↔ n < 10 ^ k := by
  rw [digitCount, Nat.length_toDigits_le_iff (by omega) hk]

/-- A positive number lies between two powers of ten that its digits tell. -/
theorem Number.digitCount_bounds {n : ℕ} (hn : 0 < n) :
    (10 : ℚ) ^ ((digitCount n : ℤ) - 1) ≤ n ∧ (n : ℚ) < 10 ^ (digitCount n : ℤ) := by
  have hpos : 0 < digitCount n := List.length_pos_iff.mpr (toDigits_ne_nil n)
  obtain ⟨k, hk⟩ := Nat.exists_eq_add_one_of_ne_zero hpos.ne'
  constructor
  · rw [hk, Nat.cast_add_one, add_sub_cancel_right, zpow_natCast]
    rcases Nat.eq_zero_or_pos k with rfl | hk'
    · rw [pow_zero]
      exact_mod_cast hn
    · have hle : 10 ^ k ≤ n := not_lt.mp fun hlt => by
        have := (digitCount_le_iff hk').mpr hlt
        omega
      exact_mod_cast hle
  · rw [zpow_natCast]
    exact_mod_cast (digitCount_le_iff hpos).mp le_rfl

theorem zpow_ten_mul_toNat {e : ℤ} (he : 0 ≤ e) (n : ℕ) (u : ℤ) :
    ((n * 10 ^ e.toNat : ℕ) : ℚ) * 10 ^ u = n * 10 ^ (e + u) := by
  obtain ⟨k, rfl⟩ := Int.eq_ofNat_of_zero_le he
  rw [zpow_add₀ (by norm_num), Int.toNat_natCast, zpow_natCast]
  push_cast
  ring

namespace Decimal

/-! ## The order of decimals -/

/-- The value of a finite decimal number. -/
def value : Decimal → ℚ
  | .finite negative c e => if negative then -(c * 10 ^ e) else c * 10 ^ e
  | _ => 0

/-- A magnitude whose leading digit stands farther to the right is smaller. -/
theorem magnitude_lt {c c' : ℕ} {e e' : ℤ} (hc' : 0 < c')
    (h : e + digitCount c < e' + digitCount c') : (c : ℚ) * 10 ^ e < c' * 10 ^ e' := by
  have hpow (u : ℤ) : (0 : ℚ) < 10 ^ u := zpow_pos (by norm_num) u
  rcases Nat.eq_zero_or_pos c with rfl | hc
  · have hcq : (0 : ℚ) < c' := by exact_mod_cast hc'
    simpa using mul_pos hcq (hpow e')
  · calc (c : ℚ) * 10 ^ e < 10 ^ (digitCount c : ℤ) * 10 ^ e :=
          mul_lt_mul_of_pos_right (digitCount_bounds hc).2 (hpow e)
      _ = 10 ^ (e + digitCount c) := by rw [← zpow_add₀ (by norm_num), add_comm]
      _ ≤ 10 ^ (((digitCount c' : ℤ) - 1) + e') := zpow_le_zpow_right₀ (by norm_num) (by omega)
      _ = 10 ^ ((digitCount c' : ℤ) - 1) * 10 ^ e' := zpow_add₀ (by norm_num) _ _
      _ ≤ c' * 10 ^ e' := mul_le_mul_of_nonneg_right (digitCount_bounds hc').1 (hpow e').le

/-- Magnitudes are told equal exactly if they are. -/
theorem compareMagnitude_eq_iff {c c' : ℕ} {e e' : ℤ} :
    compareMagnitude c e c' e' = .eq ↔ (c : ℚ) * 10 ^ e = c' * 10 ^ e' := by
  have hpow (u : ℤ) : (10 : ℚ) ^ u ≠ 0 := (zpow_pos (by norm_num) u).ne'
  rw [compareMagnitude]
  rcases Nat.eq_zero_or_pos c with rfl | hc
  · rcases Nat.eq_zero_or_pos c' with rfl | hc'
    · simp
    · simp [hc'.ne', hpow]
  · rcases Nat.eq_zero_or_pos c' with rfl | hc'
    · simp [hc.ne', hpow]
    · rw [if_neg hc.ne', if_neg hc'.ne']
      rcases lt_trichotomy (e + digitCount c : ℤ) (e' + digitCount c') with hlt | heq | hgt
      · rw [compare_lt_iff_lt.mpr hlt]
        exact iff_of_false nofun (magnitude_lt hc' hlt).ne
      · rw [compare_eq_iff_eq.mpr heq]
        dsimp only
        split
        · rename_i hle
          have hscaled := zpow_ten_mul_toNat (sub_nonneg.mpr hle) c e'
          rw [sub_add_cancel] at hscaled
          rw [compare_eq_iff_eq, ← hscaled, mul_left_inj' (hpow e'), Nat.cast_inj]
        · rename_i hlt
          have hscaled := zpow_ten_mul_toNat (sub_nonneg.mpr (not_le.mp hlt).le) c' e
          rw [sub_add_cancel] at hscaled
          rw [compare_eq_iff_eq, ← hscaled, mul_left_inj' (hpow e), Nat.cast_inj]
      · rw [compare_gt_iff_gt.mpr hgt]
        exact iff_of_false nofun (magnitude_lt hc hgt).ne'

/-- A zero has no sign, so its value is that of the number without one. -/
theorem value_finite (negative : Bool) (c : ℕ) (e : ℤ) :
    value (.finite negative c e) = if negative && c != 0 then -((c : ℚ) * 10 ^ e) else c * 10 ^ e := by
  rcases Nat.eq_zero_or_pos c with rfl | hc
  · simp [value]
  · cases negative <;> simp [value, hc.ne']

theorem value_pos_of_sign {negative : Bool} {c : ℕ} (e : ℤ) (h : (negative && c != 0) = true) :
    0 < (c : ℚ) * 10 ^ e := by
  have hc : c ≠ 0 := by simpa using (Bool.and_eq_true_iff.mp h).2
  exact mul_pos (by exact_mod_cast Nat.pos_of_ne_zero hc) (zpow_pos (by norm_num) e)

/-- Finite decimals are told equal exactly if their values are. -/
theorem order_eq_iff {n n' : Bool} {c c' : ℕ} {e e' : ℤ} :
    order (.finite n c e) (.finite n' c' e') = some .eq ↔
      value (.finite n c e) = value (.finite n' c' e') := by
  have hnonneg (c : ℕ) (e : ℤ) : (0 : ℚ) ≤ c * 10 ^ e := by positivity
  rw [order, value_finite, value_finite]
  by_cases hzero : (c = 0 && c' = 0) = true
  · obtain ⟨rfl, rfl⟩ : c = 0 ∧ c' = 0 := by simpa using hzero
    simp
  · rw [if_neg hzero]
    cases hn : n && c != 0 <;> cases hn' : n' && c' != 0
    · simp [compareMagnitude_eq_iff]
    · refine iff_of_false nofun fun h => ?_
      have hpos := value_pos_of_sign e' hn'
      simp only [Bool.false_eq_true, if_false, if_true] at h
      linarith [hnonneg c e]
    · refine iff_of_false nofun fun h => ?_
      have hpos := value_pos_of_sign e hn
      simp only [Bool.false_eq_true, if_false, if_true] at h
      linarith [hnonneg c' e']
    · simpa [compareMagnitude_eq_iff] using eq_comm

end Decimal

theorem abs_mul_sub_mul {p : ℚ} (hp : 0 < p) (a b : ℚ) : |a * p - b * p| = |a - b| * p := by
  rw [← sub_mul, abs_mul, abs_of_pos hp]

/-! ## Quotients in decimal digits -/

section Quotient

variable {n d : ℕ}

/-- A quotient in units of a power of ten, as a fraction of whole numbers. -/
theorem div_zpow_ten (hd : 0 < d) (p : ℤ) :
    ∃ a b : ℕ, (if 0 ≤ p then (n, d * 10 ^ p.toNat) else (n * 10 ^ (-p).toNat, d)) = (a, b) ∧ 0 < b ∧
      (a : ℚ) / b = n / d / 10 ^ p := by
  split
  · rename_i hp
    obtain ⟨k, rfl⟩ := Int.eq_ofNat_of_zero_le hp
    refine ⟨_, _, rfl, by positivity, ?_⟩
    rw [Int.toNat_natCast, zpow_natCast, div_div]
    push_cast
    rfl
  · rename_i hp
    obtain ⟨k, hk⟩ := Int.eq_ofNat_of_zero_le (by omega : 0 ≤ -p)
    refine ⟨_, _, rfl, hd, ?_⟩
    rw [hk, Int.toNat_natCast, ← neg_neg p, hk, zpow_neg, zpow_natCast, div_inv_eq_mul, div_mul_eq_mul_div]
    push_cast
    rfl

/-- A power of ten is compared with a quotient in whole numbers. -/
theorem le_div_iff_reached (hd : 0 < d) {t : ℤ} :
    (if 0 ≤ t then d * 10 ^ t.toNat ≤ n else d ≤ n * 10 ^ (-t).toNat) ↔ (10 : ℚ) ^ t ≤ n / d := by
  rw [le_div_iff₀ (by exact_mod_cast hd)]
  split
  · rename_i ht
    obtain ⟨k, rfl⟩ := Int.eq_ofNat_of_zero_le ht
    rw [Int.toNat_natCast, zpow_natCast, mul_comm]
    norm_cast
  · rename_i ht
    obtain ⟨k, hk⟩ := Int.eq_ofNat_of_zero_le (by omega : 0 ≤ -t)
    rw [hk, Int.toNat_natCast, ← neg_neg t, hk, zpow_neg, zpow_natCast, inv_mul_le_iff₀ (by positivity),
      mul_comm]
    norm_cast

/-- The leading digit of a quotient stands at its place. -/
theorem Binary64.leadingPlace_bounds (hn : 0 < n) (hd : 0 < d) :
    (10 : ℚ) ^ leadingPlace n d ≤ n / d ∧ (n : ℚ) / d < 10 ^ (leadingPlace n d + 1) := by
  have hdq : (0 : ℚ) < d := by exact_mod_cast hd
  have hpow (u : ℤ) : (0 : ℚ) < 10 ^ u := zpow_pos (by norm_num) u
  obtain ⟨hn₁, hn₂⟩ := digitCount_bounds hn
  obtain ⟨hd₁, hd₂⟩ := digitCount_bounds hd
  obtain ⟨t, ht⟩ : ∃ t : ℤ, t = (digitCount n : ℤ) - digitCount d := ⟨_, rfl⟩
  have hlow : (10 : ℚ) ^ (t - 1) ≤ n / d := by
    rw [le_div_iff₀ hdq]
    calc (10 : ℚ) ^ (t - 1) * d ≤ 10 ^ (t - 1) * 10 ^ (digitCount d : ℤ) := by gcongr
      _ = 10 ^ ((digitCount n : ℤ) - 1) := by
        rw [← zpow_add₀ (by norm_num)]
        congr 1
        omega
      _ ≤ n := hn₁
  have hhigh : (n : ℚ) / d < 10 ^ (t + 1) := by
    rw [div_lt_iff₀ hdq]
    calc (n : ℚ) < 10 ^ (digitCount n : ℤ) := hn₂
      _ = 10 ^ (t + 1) * 10 ^ ((digitCount d : ℤ) - 1) := by
        rw [← zpow_add₀ (by norm_num)]
        congr 1
        omega
      _ ≤ 10 ^ (t + 1) * d := by gcongr
  rw [leadingPlace, ← ht]
  by_cases h : (10 : ℚ) ^ t ≤ n / d
  · rw [if_pos ((le_div_iff_reached hd).mpr h)]
    exact ⟨h, hhigh⟩
  · rw [if_neg (mt (le_div_iff_reached hd).mp h), sub_add_cancel]
    exact ⟨hlow, not_le.mp h⟩

/-- The digits of a quotient are off by half a unit of their last place at most, and as many as are asked
for stand at or before that place. -/
theorem leadingDigits_spec (count : ℕ) (hcount : 0 < count) (hn : 0 < n) (hd : 0 < d) :
    ∃ (v : ℕ) (place p : ℤ), leadingDigits Binary64.roundHalfEven count n d = (v, place) ∧ p ≤ place ∧
      (10 : ℚ) ^ (p + count - 1) ≤ n / d ∧ |(n : ℚ) / d - v * 10 ^ place| ≤ 10 ^ p / 2 := by
  obtain ⟨p, hp⟩ : ∃ p, p = Binary64.leadingPlace n d - count + 1 := ⟨_, rfl⟩
  obtain ⟨a, b, hunits, hb, hratio⟩ := div_zpow_ten (n := n) hd p
  have hpow : (0 : ℚ) < 10 ^ p := zpow_pos (by norm_num) p
  have hleading : (10 : ℚ) ^ (p + count - 1) ≤ n / d := by
    convert (Binary64.leadingPlace_bounds hn hd).1 using 2
    omega
  have herror : |(n : ℚ) / d - Binary64.roundHalfEven a b * 10 ^ p| ≤ 10 ^ p / 2 := by
    have hround := (Binary64.roundHalfEven_error (a := a) hb).1
    rw [hratio] at hround
    calc |(n : ℚ) / d - Binary64.roundHalfEven a b * 10 ^ p|
        = |(n : ℚ) / d / 10 ^ p - Binary64.roundHalfEven a b| * 10 ^ p := by
          rw [← abs_mul_sub_mul hpow, div_mul_cancel₀ _ hpow.ne']
      _ ≤ 1 / 2 * 10 ^ p := mul_le_mul_of_nonneg_right hround hpow.le
      _ = 10 ^ p / 2 := by ring
  rw [leadingDigits, ← hp]
  dsimp only
  rw [hunits]
  dsimp only
  split
  · -- a digit too many: the digits are those of a power of ten
    rename_i hcarry
    refine ⟨_, _, p, rfl, by omega, hleading, ?_⟩
    convert herror using 3
    rw [hcarry, zpow_add_one₀ (by norm_num)]
    obtain ⟨k, rfl⟩ := Nat.exists_eq_add_one_of_ne_zero hcount.ne'
    push_cast
    ring
  · exact ⟨_, _, p, rfl, le_rfl, hleading, herror⟩

end Quotient

/-! ## Digits behind the point -/

theorem natCast_eq_of_abs_sub_lt {a b : ℕ} (h : |(a : ℚ) - b| < 1) : a = b := by
  have h : |(a : ℤ) - b| < 1 := by exact_mod_cast h
  have := Int.abs_lt_one_iff.mp h
  omega

namespace Decimal

variable {v k places : ℕ} {place : ℤ}

/-- Brought to some places behind the point, a number near a multiple of the last of them becomes that
multiple. -/
theorem toPlaces_eq (negative : Bool) (hnear : |(v : ℚ) * 10 ^ (place + places) - k| < 1)
    (hnearer : place < -places → |(v : ℚ) * 10 ^ (place + places) - k| < 1 / 2) :
    toPlaces places (.finite negative v place) = .finite negative k (-(places : ℤ)) := by
  rw [toPlaces, withPlaces]
  by_cases hplace : -(places : ℤ) ≤ place
  · have hwhole := zpow_ten_mul_toNat (e := place + places) (by omega) v 0
    rw [zpow_zero, mul_one, add_zero] at hwhole
    rw [← hwhole] at hnear
    rw [if_pos hplace, natCast_eq_of_abs_sub_lt hnear]
  · obtain ⟨t, ht⟩ := Int.eq_ofNat_of_zero_le (by omega : 0 ≤ -(place + places))
    have hshift : (v : ℚ) * 10 ^ (place + places) = (v : ℚ) / (10 ^ t : ℕ) := by
      rw [← neg_neg (place + places : ℤ), ht, zpow_neg, zpow_natCast, div_eq_mul_inv]
      push_cast
      rfl
    rw [hshift] at hnearer
    have hnearer := hnearer (by omega)
    have hkept : (if digitCount v < t then 0 else Binary64.roundHalfEven v (10 ^ t)) = k := by
      apply natCast_eq_of_abs_sub_lt
      split
      · -- all digits are dropped, and the number stays below a half
        rename_i hdigits
        have hpos : 0 < digitCount v := List.length_pos_iff.mpr (toDigits_ne_nil v)
        have hsmall : v * 10 ≤ 10 ^ t := calc
          v * 10 ≤ 10 ^ digitCount v * 10 := Nat.mul_le_mul_right _ ((digitCount_le_iff hpos).mp le_rfl).le
          _ = 10 ^ (digitCount v + 1) := (Nat.pow_succ ..).symm
          _ ≤ 10 ^ t := Nat.pow_le_pow_right (by omega) hdigits
        have hsmall : (v : ℚ) / (10 ^ t : ℕ) ≤ 1 / 10 := by
          rw [div_le_div_iff₀ (by positivity) (by norm_num), one_mul]
          exact_mod_cast hsmall
        rw [abs_sub_lt_iff] at hnearer ⊢
        have hnonneg : (0 : ℚ) ≤ (v : ℚ) / (10 ^ t : ℕ) := by positivity
        constructor <;> push_cast <;> linarith [hnearer.1, hnearer.2, (Nat.cast_nonneg k : (0 : ℚ) ≤ k)]
      · have hround := (Binary64.roundHalfEven_error (a := v) (by positivity : 0 < 10 ^ t)).1
        rw [abs_sub_comm] at hround
        linarith [abs_sub_le (Binary64.roundHalfEven v (10 ^ t) : ℚ) (v / (10 ^ t : ℕ)) k]
    rw [if_neg hplace, ht, Int.toNat_natCast]
    exact congrArg (finite negative · _) hkept

/-- A number near a decimal of at most fifteen digits is so small that fifteen digits of it reach the last
place of the decimal. -/
theorem place_nonpos {q : ℚ} {p : ℤ} {digits : ℕ} (hdigits : digits ≤ 15) (hk : k < 10 ^ digits)
    (hleading : (10 : ℚ) ^ (p + 15 - 1) ≤ q) (hnear : |q * 10 ^ places - k| < 1 / 8) : p + places ≤ 0 := by
  by_contra hcoarse
  have hlarge : (10 : ℚ) ^ 15 ≤ q * 10 ^ places := calc
    (10 : ℚ) ^ 15 ≤ 10 ^ ((p + 15 - 1) + places) := by
      rw [← zpow_natCast]
      exact zpow_le_zpow_right₀ (by norm_num) (by push_cast; omega)
    _ = 10 ^ (p + 15 - 1) * 10 ^ places := by rw [zpow_add₀ (by norm_num), zpow_natCast]
    _ ≤ q * 10 ^ places := by gcongr
  have hk15 : k + 1 ≤ 10 ^ 15 := hk.trans_le (Nat.pow_le_pow_right (by omega) hdigits)
  have hk15 : (k : ℚ) + 1 ≤ 10 ^ 15 := by exact_mod_cast hk15
  linarith [(abs_lt.mp hnear).2]

/-- Fifteen digits of a number near a decimal of as many, brought to its places, are the decimal. -/
theorem toPlaces_ofQuotient {n d digits : ℕ} (hd : 0 < d) (hdigits : digits ≤ 15) (hk : k < 10 ^ digits)
    (negative : Bool) (hnear : |(n : ℚ) / d * 10 ^ places - k| < 1 / 8) :
    (ofQuotient 15 negative n d).toPlaces places = .finite negative k (-(places : ℤ)) := by
  rw [ofQuotient]
  rcases Nat.eq_zero_or_pos n with rfl | hn
  · rw [if_pos rfl]
    rw [Nat.cast_zero, zero_div, zero_mul] at hnear
    refine toPlaces_eq negative ?_ fun _ => ?_
    all_goals
      rw [Nat.cast_zero, zero_mul]
      exact hnear.trans (by norm_num)
  · rw [if_neg hn.ne']
    obtain ⟨v, place, p, hleadingDigits, hple, hleading, herror⟩ := leadingDigits_spec 15 (by omega) hn hd
    rw [hleadingDigits]
    push_cast at hleading
    dsimp only
    have hscaled :
        |(n : ℚ) / d * 10 ^ places - v * 10 ^ (place + places)| ≤ 10 ^ (p + places) / 2 := by
      have hpow : (0 : ℚ) < 10 ^ (places : ℤ) := zpow_pos (by norm_num) _
      rw [zpow_add₀ (by norm_num), zpow_add₀ (by norm_num), ← zpow_natCast, ← mul_assoc,
        abs_mul_sub_mul hpow, mul_div_right_comm]
      exact mul_le_mul_of_nonneg_right herror hpow.le
    have hplace := place_nonpos hdigits hk hleading hnear
    have htriangle := abs_sub_le ((v : ℚ) * 10 ^ (place + places)) (n / d * 10 ^ places) k
    rw [abs_sub_comm ((v : ℚ) * 10 ^ (place + places)) (n / d * 10 ^ places)] at htriangle
    refine toPlaces_eq negative ?_ fun hfine => ?_
    · have hunit : (10 : ℚ) ^ (p + places) ≤ 1 := zpow_le_one_of_nonpos₀ (by norm_num) hplace
      linarith
    · have hunit : (10 : ℚ) ^ (p + places) ≤ 10 ^ (-1 : ℤ) :=
        zpow_le_zpow_right₀ (by norm_num) (by omega)
      norm_num at hunit
      linarith

theorem ofQuotient_fitted {n d digits : ℕ} (hd : 0 < d) (hdigits : digits ≤ 15) (hk : k < 10 ^ digits)
    (negative : Bool) (hnear : |(n : ℚ) / d * 10 ^ places - k| < 1 / 8) :
    (ofQuotient 15 negative n d).fitted? digits places = some (.finite negative k (-(places : ℤ))) := by
  rw [fitted?, toPlaces_ofQuotient hd hdigits hk negative hnear]
  dsimp only
  rw [if_pos]
  rw [Bool.or_eq_true, decide_eq_true_eq, decide_eq_true_eq]
  rcases Nat.eq_zero_or_pos digits with rfl | hpos
  · exact .inl (by simpa using hk)
  · exact .inr ((digitCount_le_iff hpos).mpr hk)

end Decimal

namespace Binary64

/-! ## The nearest binary number -/

variable {n d n' d' : ℕ}

/-- Equal fractions are rounded to the same number. -/
theorem roundHalfEven_congr {a b a' b' : ℕ} (hb : 0 < b) (hb' : 0 < b') (h : (a : ℚ) / b = a' / b') :
    roundHalfEven a b = roundHalfEven a' b' := by
  obtain ⟨hle, htie⟩ := roundHalfEven_nearest (a := a) hb (roundHalfEven a' b')
  obtain ⟨hle', htie'⟩ := roundHalfEven_nearest (a := a') hb' (roundHalfEven a b)
  have herror := (roundHalfEven_error (a := a) hb).1
  rw [← h] at hle' htie'
  push_cast at hle hle' htie htie'
  have heq := le_antisymm hle hle'
  by_contra hne
  -- two numbers as near as each other are neighbours, so one of them is odd
  have heven := (htie heq.symm).resolve_left fun h => hne (by exact_mod_cast h.symm)
  have heven' := (htie' heq).resolve_left fun h => hne (by exact_mod_cast h)
  have hnext := abs_sub_le (roundHalfEven a b : ℚ) (a / b) (roundHalfEven a' b')
  rw [abs_sub_comm _ ((a : ℚ) / b), ← heq] at hnext
  have hnext : |(roundHalfEven a b : ℚ) - roundHalfEven a' b'| ≤ 1 := by linarith
  have hnext : |(roundHalfEven a b : ℤ) - roundHalfEven a' b'| ≤ 1 := by exact_mod_cast hnext
  rw [abs_le] at hnext
  omega

/-- The unit of a quotient depends on its value only. -/
theorem unitExponent_congr (hn : 0 < n) (hd : 0 < d) (hn' : 0 < n') (hd' : 0 < d')
    (h : (n : ℚ) / d = n' / d') : unitExponent n d = unitExponent n' d' := by
  have hunits {u u' : ℤ} {q : ℚ} (hleast : -1074 ≤ u) (hbits : q < 2 ^ 53 * 2 ^ u)
      (hfull : u' = -1074 ∨ 2 ^ 52 * 2 ^ u' ≤ q) : u' ≤ u := by
    by_contra hlt
    have hstep : (2 : ℚ) ^ (u + 1) ≤ 2 ^ u' := zpow_le_zpow_right₀ one_le_two (by omega)
    rw [zpow_add_one₀ two_ne_zero] at hstep
    have := hfull.resolve_left (by omega)
    linarith
  obtain ⟨hleast, hbits, hfull⟩ := unitExponent_bounds hn hd
  obtain ⟨hleast', hbits', hfull'⟩ := unitExponent_bounds hn' hd'
  rw [← h] at hbits' hfull'
  exact le_antisymm (hunits hleast' hbits' hfull) (hunits hleast hbits hfull')

/-- Equal quotients have the same nearest number. -/
theorem ofRatio_congr (negative : Bool) (hd : 0 < d) (hd' : 0 < d') (h : (n : ℚ) / d = n' / d') :
    ofRatio negative n d = ofRatio negative n' d' := by
  have hdq : (d : ℚ) ≠ 0 := by exact_mod_cast hd.ne'
  have hdq' : (d' : ℚ) ≠ 0 := by exact_mod_cast hd'.ne'
  rcases Nat.eq_zero_or_pos n with rfl | hn
  · obtain rfl : n' = 0 := by simpa [hdq', eq_comm] using h
    rw [ofRatio, ofRatio, if_pos rfl, if_pos rfl]
  · have hn' : 0 < n' := by
      refine Nat.pos_of_ne_zero fun hzero => ?_
      rw [hzero, Nat.cast_zero, zero_div, div_eq_zero_iff, or_iff_left hdq, Nat.cast_eq_zero] at h
      omega
    obtain ⟨u, hu⟩ : ∃ u, unitExponent n d = u := ⟨_, rfl⟩
    obtain ⟨⟨a, b⟩, hunits⟩ : ∃ p, inUnits n d u = p := ⟨_, rfl⟩
    obtain ⟨⟨a', b'⟩, hunits'⟩ : ∃ p, inUnits n' d' u = p := ⟨_, rfl⟩
    obtain ⟨hb, hratio⟩ := inUnits_ratio hd hunits
    obtain ⟨hb', hratio'⟩ := inUnits_ratio hd' hunits'
    have hu' := (unitExponent_congr hn hd hn' hd' h).symm.trans hu
    rw [ofRatio_eq hn hu hunits, ofRatio_eq hn' hu' hunits',
      roundHalfEven_congr hb hb' (by rw [hratio, hratio', h])]

/-- A quotient whose unit is below one is a finite number, whose value is the rounded measure. -/
theorem exists_finite_of_unit {a b : ℕ} {u : ℤ} (hn : 0 < n) (hu : unitExponent n d = u)
    (hunits : inUnits n d u = (a, b)) (hsmall : u < 0) :
    ∃ (m : ℕ) (k : ℤ), (∀ negative, ofRatio negative n d = .finite negative m k) ∧
      (m : ℚ) * 2 ^ k = roundHalfEven a b * 2 ^ u := by
  by_cases hcarry : roundHalfEven a b = 2 ^ 53
  · refine ⟨2 ^ 52, u + 1, fun negative => ?_, ?_⟩
    · rw [ofRatio_eq hn hu hunits, if_pos hcarry, if_neg (by omega)]
    · rw [hcarry, zpow_add_one₀ two_ne_zero]
      push_cast
      ring
  · refine ⟨roundHalfEven a b, u, fun negative => ?_, rfl⟩
    rw [ofRatio_eq hn hu hunits, if_neg hcarry, if_neg (by omega)]

/-- The rounded measure is off by half a unit at most. -/
theorem measure_error {a b : ℕ} {u : ℤ} (hd : 0 < d) (hunits : inUnits n d u = (a, b)) :
    |(n : ℚ) / d - roundHalfEven a b * 2 ^ u| ≤ 1 / 2 * 2 ^ u := by
  have hdistance := distance_eq hd hunits (roundHalfEven a b)
  rw [Int.cast_natCast] at hdistance
  rw [hdistance]
  exact mul_le_mul_of_nonneg_right (roundHalfEven_error (inUnits_ratio hd hunits).1).1
    (zpow_pos two_pos u).le

/-- A whole number is a multiple of a unit below one, and is its own measure. -/
theorem measure_whole {r c : ℕ} {u : ℤ} (hsmall : u < 0)
    (herror : |(c : ℚ) - r * 2 ^ u| ≤ 1 / 2 * 2 ^ u) : (r : ℚ) * 2 ^ u = c := by
  have hpow : (0 : ℚ) < 2 ^ u := zpow_pos two_pos u
  obtain ⟨s, hs⟩ := Int.eq_ofNat_of_zero_le (by omega : 0 ≤ -u)
  have hmultiple : (c : ℚ) = (c * 2 ^ s : ℕ) * 2 ^ u := by
    rw [← neg_neg u, hs, zpow_neg, zpow_natCast]
    push_cast
    field_simp
  rw [hmultiple, abs_mul_sub_mul hpow] at herror
  have hnear := le_of_mul_le_mul_right herror hpow
  rw [hmultiple, natCast_eq_of_abs_sub_lt (hnear.trans_lt (by norm_num))]

/-- A quotient of fifteen digits is a finite number, which is off by a part of the quotient that its
fifty-three bits leave, and by nothing if the quotient is whole. -/
theorem exists_ofRatio (hd : 0 < d) (hlt : (n : ℚ) / d < 2 ^ 50) :
    ∃ (m : ℕ) (k : ℤ), (∀ negative, ofRatio negative n d = .finite negative m k) ∧
      |(n : ℚ) / d - m * 2 ^ k| ≤ n / d / 2 ^ 53 + 1 / 2 ^ 100 ∧
      ∀ c : ℕ, (n : ℚ) / d = c → (m : ℚ) * 2 ^ k = c := by
  rcases Nat.eq_zero_or_pos n with rfl | hn
  · refine ⟨0, -1074, fun _ => by rw [ofRatio, if_pos rfl], by simp, fun c hc => ?_⟩
    simpa using hc
  obtain ⟨-, -, hfull⟩ := unitExponent_bounds hn hd
  obtain ⟨u, hu⟩ : ∃ u, unitExponent n d = u := ⟨_, rfl⟩
  obtain ⟨⟨a, b⟩, hunits⟩ : ∃ p, inUnits n d u = p := ⟨_, rfl⟩
  rw [hu] at hfull
  have hnonneg : (0 : ℚ) ≤ n / d := by positivity
  have hsmall : u < 0 := by
    by_contra hwhole
    have hone : (1 : ℚ) ≤ 2 ^ u := one_le_zpow₀ one_le_two (not_lt.mp hwhole)
    have := hfull.resolve_left (by omega)
    linarith
  have herror := measure_error hd hunits
  obtain ⟨m, k, hfinite, hvalue⟩ := exists_finite_of_unit hn hu hunits hsmall
  refine ⟨m, k, hfinite, ?_, fun c hc => ?_⟩
  · rw [hvalue]
    refine herror.trans ?_
    rcases hfull with hleast | hbits
    · have htiny : (2 : ℚ) ^ u ≤ 2 ^ (-100 : ℤ) := zpow_le_zpow_right₀ one_le_two (by omega)
      rw [zpow_neg, inv_eq_one_div] at htiny
      norm_cast at htiny ⊢
      linarith [div_nonneg hnonneg (by norm_num : (0 : ℚ) ≤ 2 ^ 53)]
    · linarith
  · rw [hc] at herror
    rw [hvalue, measure_whole hsmall herror]

/-- A numeral of a moderate size is rounded like the quotients that equal it. -/
theorem ofNumeral_eq (negative : Bool) {c : ℕ} {e : ℤ} (he : -20 ≤ e) (hd : 0 < d)
    (hvalue : (c : ℚ) * 10 ^ e = n / d) (hlt : (n : ℚ) / d < 2 ^ 50) :
    ofNumeral negative ⟨c, e⟩ = ofRatio negative n d := by
  have hdq : (d : ℚ) ≠ 0 := by exact_mod_cast hd.ne'
  rw [ofNumeral]
  dsimp only
  rcases Nat.eq_zero_or_pos c with rfl | hc
  · obtain rfl : n = 0 := by simpa [hdq, eq_comm] using hvalue
    have hzero : ofRatio negative 0 d = .finite negative 0 (-1074) := by rw [ofRatio, if_pos rfl]
    rw [hzero, if_pos (by simp)]
  · have htop : e + digitCount c ≤ 16 := by
      have hleading : (10 : ℚ) ^ ((digitCount c : ℤ) - 1 + e) < 10 ^ (16 : ℤ) := calc
        (10 : ℚ) ^ ((digitCount c : ℤ) - 1 + e) = 10 ^ ((digitCount c : ℤ) - 1) * 10 ^ e :=
          zpow_add₀ (by norm_num) _ _
        _ ≤ c * 10 ^ e :=
          mul_le_mul_of_nonneg_right (digitCount_bounds hc).1 (zpow_pos (by norm_num) e).le
        _ = n / d := hvalue
        _ < 2 ^ 50 := hlt
        _ < 10 ^ (16 : ℤ) := by norm_num
      have := (zpow_lt_zpow_iff_right₀ (by norm_num)).mp hleading
      omega
    rw [if_neg (by simp; omega), if_neg (by omega)]
    split
    · rename_i hwhole
      refine ofRatio_congr negative one_pos hd ?_
      have hshift := zpow_ten_mul_toNat hwhole c 0
      rw [zpow_zero, mul_one, add_zero] at hshift
      rw [hshift, Nat.cast_one, div_one, hvalue]
    · rename_i hpart
      obtain ⟨t, ht⟩ := Int.eq_ofNat_of_zero_le (by omega : 0 ≤ -e)
      refine ofRatio_congr negative (by positivity) hd ?_
      rw [← hvalue, ← neg_neg e, ht, neg_neg, Int.toNat_natCast, zpow_neg, zpow_natCast, div_eq_mul_inv]
      push_cast
      rfl

theorem ratio_spec (m : ℕ) (e : ℤ) :
    0 < (ratio m e).2 ∧ ((ratio m e).1 : ℚ) / (ratio m e).2 = m * 2 ^ e := by
  rw [ratio]
  split
  · rename_i he
    obtain ⟨k, rfl⟩ := Int.eq_ofNat_of_zero_le he
    simp
  · rename_i he
    obtain ⟨k, hk⟩ := Int.eq_ofNat_of_zero_le (by omega : 0 ≤ -e)
    obtain rfl : e = -(k : ℤ) := by omega
    simp [div_eq_mul_inv]

end Binary64

end PageQuery
