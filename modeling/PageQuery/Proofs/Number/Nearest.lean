import Mathlib
import PageQuery.Proofs.Paging.Count

/-!
# Quotients are rounded to the nearest number

A quotient of whole numbers is measured in the unit that leaves it 53 bits, and the whole number nearest
to the measure is taken.  What comes out is the number of the binary format that lies nearest to the
quotient, and of two that lie equally near the one with the even significand: the numbers with a larger
unit are multiples of the unit too, and those with a smaller one all lie below the least measure.
-/

namespace PageQuery

namespace Binary64

/-! ## The numbers of the format -/

/-- A significand and a power of two that the format has, in the form in which each value has one:
the leading bit of the significand is set, unless the power is the least. -/
structure IsNumber (m : ℕ) (e : ℤ) : Prop where
  bits : m < 2 ^ 53
  least : -1074 ≤ e
  most : e ≤ 971
  leading : 2 ^ 52 ≤ m ∨ e = -1074

/-- The value of a number. -/
def value (negative : Bool) (m : ℕ) (e : ℤ) : ℚ :=
  if negative then -(m * 2 ^ e) else m * 2 ^ e

/-- A number is the nearest to a quotient: no number lies nearer, and if another one lies as near, the
significand is even. -/
structure IsNearest (q : ℚ) (m : ℕ) (e : ℤ) : Prop where
  number : IsNumber m e
  nearest : ∀ negative m' e', IsNumber m' e' → |q - value false m e| ≤ |q - value negative m' e'|
  even_of_tie : ∀ negative m' e', IsNumber m' e' →
    |q - value negative m' e'| = |q - value false m e| →
      value negative m' e' = value false m e ∨ m % 2 = 0

/-! ## The unit of any quotient -/

theorem inUnits_ratio {n d a b : ℕ} {e : ℤ} (hd : 0 < d) (h : inUnits n d e = (a, b)) :
    0 < b ∧ (a : ℚ) / b = n / d / 2 ^ e := by
  unfold inUnits at h
  split at h
  · rename_i he
    obtain ⟨rfl, rfl⟩ := Prod.mk.inj h
    obtain ⟨k, rfl⟩ := Int.eq_ofNat_of_zero_le he
    rw [Int.toNat_natCast]
    refine ⟨by positivity, ?_⟩
    rw [Nat.cast_mul, div_mul_eq_div_div]
    norm_cast
  · rename_i he
    obtain ⟨rfl, rfl⟩ := Prod.mk.inj h
    obtain ⟨k, hk⟩ := Int.eq_ofNat_of_zero_le (by omega : 0 ≤ -e)
    obtain rfl : e = -(k : ℤ) := by omega
    rw [neg_neg, Int.toNat_natCast, zpow_neg, zpow_natCast]
    refine ⟨hd, ?_⟩
    push_cast
    field_simp

/-- Measured in the unit that the lengths of its terms suggest, a quotient has 53 or 54 bits. -/
theorem quotient_bounds {n d : ℕ} (hn : 0 < n) (hd : 0 < d) {e : ℤ}
    (he : e = (Nat.log2 n : ℤ) - Nat.log2 d - 53) :
    (2 : ℚ) ^ 52 * 2 ^ e ≤ n / d ∧ (n : ℚ) / d < 2 ^ 53 * 2 ^ (e + 1) := by
  have hdq : (0 : ℚ) < d := by exact_mod_cast hd
  constructor
  · have hn₁ : (2 : ℚ) ^ n.log2 ≤ n := by exact_mod_cast Nat.log2_self_le hn.ne'
    have hd₁ : (d : ℚ) ≤ 2 ^ (d.log2 + 1) := by exact_mod_cast (Nat.lt_log2_self (n := d)).le
    rw [le_div_iff₀ hdq]
    calc (2 : ℚ) ^ 52 * 2 ^ e * d ≤ 2 ^ 52 * 2 ^ e * 2 ^ (d.log2 + 1) := by gcongr
      _ = 2 ^ n.log2 := by
        rw [← zpow_natCast, ← zpow_natCast, ← zpow_natCast, ← zpow_add₀ two_ne_zero,
          ← zpow_add₀ two_ne_zero]
        congr 1
        push_cast
        omega
      _ ≤ n := hn₁
  · have hn₂ : (n : ℚ) < 2 ^ (n.log2 + 1) := by exact_mod_cast Nat.lt_log2_self
    have hd₂ : (2 : ℚ) ^ d.log2 ≤ d := by exact_mod_cast Nat.log2_self_le hd.ne'
    rw [div_lt_iff₀ hdq]
    calc (n : ℚ) < 2 ^ (n.log2 + 1) := hn₂
      _ = 2 ^ 53 * 2 ^ (e + 1) * 2 ^ d.log2 := by
        rw [← zpow_natCast, ← zpow_natCast, ← zpow_natCast, ← zpow_add₀ two_ne_zero,
          ← zpow_add₀ two_ne_zero]
        congr 1
        push_cast
        omega
      _ ≤ 2 ^ 53 * 2 ^ (e + 1) * d := by gcongr

/-- A quotient measured in its unit stays below 53 bits, and has all of them unless its unit is the
least. -/
theorem unitExponent_bounds {n d : ℕ} (hn : 0 < n) (hd : 0 < d) :
    -1074 ≤ unitExponent n d ∧ (n : ℚ) / d < 2 ^ 53 * 2 ^ unitExponent n d ∧
      (unitExponent n d = -1074 ∨ 2 ^ 52 * 2 ^ unitExponent n d ≤ (n : ℚ) / d) := by
  obtain ⟨e, he⟩ : ∃ e : ℤ, e = (Nat.log2 n : ℤ) - Nat.log2 d - 53 := ⟨_, rfl⟩
  obtain ⟨hlow, hhigh⟩ := quotient_bounds hn hd he
  obtain ⟨⟨a, b⟩, hunits⟩ : ∃ p, inUnits n d e = p := ⟨_, rfl⟩
  obtain ⟨hb, hratio⟩ := inUnits_ratio hd hunits
  have hbq : (0 : ℚ) < b := by exact_mod_cast hb
  have hcarry : b * 2 ^ 53 ≤ a ↔ (2 : ℚ) ^ 53 * 2 ^ e ≤ n / d := by
    rw [← le_div_iff₀ (by positivity), ← hratio, le_div_iff₀ hbq, mul_comm]
    norm_cast
  -- one unit up or not, the measure has 53 bits; only the least unit takes some of them away
  obtain ⟨u, hu, hlow', hhigh'⟩ : ∃ u, (if b * 2 ^ 53 ≤ a then e + 1 else e) = u ∧
      (2 : ℚ) ^ 52 * 2 ^ u ≤ n / d ∧ (n : ℚ) / d < 2 ^ 53 * 2 ^ u := by
    split
    · rename_i h
      refine ⟨e + 1, rfl, ?_, hhigh⟩
      have h := hcarry.mp h
      rw [zpow_add_one₀ two_ne_zero]
      linarith
    · rename_i h
      exact ⟨e, rfl, hlow, not_le.mp (mt hcarry.mpr h)⟩
  have hunit : unitExponent n d = max u (-1074) := by
    rw [unitExponent, ← he]
    dsimp only
    rw [hunits]
    dsimp only
    rw [hu]
  rcases le_total u (-1074) with hleast | hmore
  · rw [hunit, max_eq_right hleast]
    refine ⟨le_rfl, hhigh'.trans_le ?_, .inl rfl⟩
    have hstep : (2 : ℚ) ^ u ≤ 2 ^ (-1074 : ℤ) := zpow_le_zpow_right₀ one_le_two hleast
    exact mul_le_mul_of_nonneg_left hstep (by positivity)
  · rw [hunit, max_eq_left hmore]
    exact ⟨hmore, hhigh', .inr hlow'⟩

/-! ## The nearest whole number -/

/-- Rounding to a whole number is off by a half at most, and by a half only if it goes to an even
number. -/
theorem roundHalfEven_error {a b : ℕ} (hb : 0 < b) :
    |(a : ℚ) / b - roundHalfEven a b| ≤ 1 / 2 ∧
      (|(a : ℚ) / b - roundHalfEven a b| = 1 / 2 → roundHalfEven a b % 2 = 0) := by
  have hbq : (0 : ℚ) < b := by exact_mod_cast hb
  have hsplit : (a : ℚ) / b = (a / b : ℕ) + (a % b : ℕ) / b := by
    rw [eq_comm, add_div' _ _ _ hbq.ne']
    congr 1
    exact_mod_cast Nat.div_add_mod' a b
  have hrest : ((a % b : ℕ) : ℚ) / b < 1 := by
    rw [div_lt_one hbq]
    exact_mod_cast Nat.mod_lt a hb
  have hpos : (0 : ℚ) ≤ ((a % b : ℕ) : ℚ) / b := by positivity
  have hbelow : 2 * (a % b) < b ↔ ((a % b : ℕ) : ℚ) / b < 1 / 2 := by
    rw [div_lt_div_iff₀ hbq two_pos, one_mul, mul_comm]
    norm_cast
  have habove : b < 2 * (a % b) ↔ 1 / 2 < ((a % b : ℕ) : ℚ) / b := by
    rw [div_lt_div_iff₀ two_pos hbq, one_mul, mul_comm]
    norm_cast
  unfold roundHalfEven
  dsimp only
  rw [hsplit]
  generalize a / b = k at *
  generalize ((a % b : ℕ) : ℚ) / b = r at *
  split_ifs with h₁ h₂
  · have h₁ := hbelow.mp h₁
    rw [add_sub_cancel_left, abs_of_nonneg hpos]
    exact ⟨h₁.le, fun h => absurd h h₁.ne⟩
  · have h₂ := habove.mp h₂
    push_cast
    rw [add_sub_add_left_eq_sub, abs_of_neg (by linarith)]
    exact ⟨by linarith, fun h => by linarith⟩
  · have hhalf : r = 1 / 2 :=
      le_antisymm (not_lt.mp (mt habove.mpr h₂)) (not_lt.mp (mt hbelow.mpr h₁))
    refine ⟨?_, fun _ => by omega⟩
    rcases Nat.mod_two_eq_zero_or_one k with heven | hodd
    · rw [heven, hhalf]
      norm_num
    · rw [hodd, hhalf]
      push_cast
      rw [add_sub_add_left_eq_sub]
      norm_num

/-- No whole number lies nearer than the rounded one, and another one that lies as near leaves it
even. -/
theorem roundHalfEven_nearest {a b : ℕ} (hb : 0 < b) (k : ℤ) :
    |(a : ℚ) / b - roundHalfEven a b| ≤ |(a : ℚ) / b - k| ∧
      (|(a : ℚ) / b - k| = |(a : ℚ) / b - roundHalfEven a b| →
        k = roundHalfEven a b ∨ roundHalfEven a b % 2 = 0) := by
  obtain ⟨herror, htie⟩ := roundHalfEven_error (a := a) hb
  by_cases hk : k = roundHalfEven a b
  · rw [hk]
    exact ⟨le_rfl, fun _ => .inl rfl⟩
  · have hapart : (1 : ℚ) ≤ |(k : ℚ) - roundHalfEven a b| := by
      have : (1 : ℤ) ≤ |k - roundHalfEven a b| := Int.one_le_abs (sub_ne_zero.mpr hk)
      exact_mod_cast this
    have htriangle := abs_sub_le (k : ℚ) ((a : ℚ) / b) (roundHalfEven a b)
    rw [abs_sub_comm (k : ℚ) (a / b)] at htriangle
    refine ⟨by linarith, fun h => .inr (htie ?_)⟩
    rw [h] at htriangle
    linarith

/-! ## The nearest number -/

section Nearest

variable {n d a b : ℕ}

/-- Measured in units of a quotient, a distance to the quotient is one to its measure. -/
theorem distance_eq {u : ℤ} (hd : 0 < d) (hunits : inUnits n d u = (a, b)) (k : ℤ) :
    |(n : ℚ) / d - k * 2 ^ u| = |(a : ℚ) / b - k| * 2 ^ u := by
  have hpow : (0 : ℚ) < 2 ^ u := zpow_pos two_pos u
  have hquot : (n : ℚ) / d = a / b * 2 ^ u := by
    rw [(inUnits_ratio hd hunits).2, div_mul_cancel₀ _ hpow.ne']
  rw [hquot, ← sub_mul, abs_mul, abs_of_pos hpow]

/-- A number whose unit is not smaller is a multiple of the unit. -/
theorem exists_multiple {u e : ℤ} (hu : u ≤ e) (negative : Bool) (m : ℕ) :
    ∃ k : ℤ, value negative m e = k * 2 ^ u := by
  obtain ⟨s, hs⟩ := Int.eq_ofNat_of_zero_le (sub_nonneg.mpr hu)
  have hpow : (2 : ℚ) ^ e = 2 ^ s * 2 ^ u := by
    rw [← zpow_natCast, ← zpow_add₀ two_ne_zero]
    congr 1
    omega
  cases negative with
  | false => exact ⟨m * 2 ^ s, by rw [value, hpow]; push_cast; ring⟩
  | true => exact ⟨-(m * 2 ^ s), by rw [value, if_pos rfl, hpow]; push_cast; ring⟩

/-- A number with a smaller unit lies below the least measure of 53 bits. -/
theorem value_lt_of_lt {u e : ℤ} (hu : e < u) (negative : Bool) {m : ℕ} (hm : m < 2 ^ 53) :
    value negative m e < 2 ^ 52 * 2 ^ u := by
  have hpow : (0 : ℚ) < 2 ^ e := zpow_pos two_pos e
  have hmq : (m : ℚ) < 2 ^ 53 := by exact_mod_cast hm
  have hstep : (2 : ℚ) ^ (e + 1) ≤ 2 ^ u := zpow_le_zpow_right₀ one_le_two (by omega)
  rw [zpow_add_one₀ two_ne_zero] at hstep
  have hbelow : (m : ℚ) * 2 ^ e < 2 ^ 52 * 2 ^ u := by
    calc (m : ℚ) * 2 ^ e < 2 ^ 53 * 2 ^ e := by gcongr
      _ = 2 ^ 52 * (2 ^ e * 2) := by ring
      _ ≤ 2 ^ 52 * 2 ^ u := by gcongr
  have hnonneg : (0 : ℚ) ≤ m * 2 ^ e := by positivity
  cases negative with
  | false => exact hbelow
  | true =>
      rw [value, if_pos rfl]
      linarith

/-- No number lies nearer to a quotient than its rounded measure, and another one that lies as near
leaves the measure even. -/
theorem measure_nearest {u : ℤ} (hd : 0 < d) (hunits : inUnits n d u = (a, b))
    (hfull : u = -1074 ∨ 2 ^ 52 * 2 ^ u ≤ (n : ℚ) / d) (negative : Bool) {m : ℕ} {e : ℤ}
    (h : IsNumber m e) :
    |(n : ℚ) / d - roundHalfEven a b * 2 ^ u| ≤ |(n : ℚ) / d - value negative m e| ∧
      (|(n : ℚ) / d - value negative m e| = |(n : ℚ) / d - roundHalfEven a b * 2 ^ u| →
        value negative m e = roundHalfEven a b * 2 ^ u ∨ roundHalfEven a b % 2 = 0) := by
  have hpow : (0 : ℚ) < 2 ^ u := zpow_pos two_pos u
  have hb := (inUnits_ratio hd hunits).1
  have hrounded := distance_eq hd hunits (roundHalfEven a b)
  rw [Int.cast_natCast] at hrounded
  rcases le_or_gt u e with hu | hu
  · obtain ⟨k, hk⟩ := exists_multiple hu negative m
    obtain ⟨hle, htie⟩ := roundHalfEven_nearest (a := a) hb k
    rw [hk, hrounded, distance_eq hd hunits]
    refine ⟨mul_le_mul_of_nonneg_right hle hpow.le, fun heq => ?_⟩
    refine (htie (mul_right_cancel₀ hpow.ne' heq)).imp_left fun hround => ?_
    rw [hround, Int.cast_natCast]
  · -- the least measure of 53 bits stands between such a number and the quotient
    have hlow := hfull.resolve_left (by have := h.least; omega)
    have hbelow := value_lt_of_lt hu negative h.bits
    have hleast : |(n : ℚ) / d - roundHalfEven a b * 2 ^ u| ≤ n / d - 2 ^ 52 * 2 ^ u := by
      obtain ⟨hle, -⟩ := roundHalfEven_nearest (a := a) hb (2 ^ 52)
      have hdistance := distance_eq hd hunits (2 ^ 52)
      rw [Int.cast_pow, Int.cast_ofNat] at hle hdistance
      rw [← abs_of_nonneg (sub_nonneg.mpr hlow), hrounded, hdistance]
      exact mul_le_mul_of_nonneg_right hle hpow.le
    rw [abs_of_pos (a := (n : ℚ) / d - value _ _ _) (by linarith)]
    exact ⟨by linarith, fun heq => by linarith⟩

/-- A quotient that is rounded to a number is rounded to the nearest one. -/
theorem isNearest_ofRatio {m : ℕ} {e : ℤ} (hn : 0 < n) (hd : 0 < d)
    (h : ofRatio false n d = finite false m e) : IsNearest ((n : ℚ) / d) m e := by
  obtain ⟨hleast, hbits, hfull⟩ := unitExponent_bounds hn hd
  obtain ⟨u, hu⟩ : ∃ u, unitExponent n d = u := ⟨_, rfl⟩
  obtain ⟨⟨a, b⟩, hunits⟩ : ∃ p, inUnits n d u = p := ⟨_, rfl⟩
  rw [hu] at hleast hbits hfull
  obtain ⟨hb, hratio⟩ := inUnits_ratio hd hunits
  have hpow : (0 : ℚ) < 2 ^ u := zpow_pos two_pos u
  have hnearest := measure_nearest hd hunits hfull
  rw [ofRatio_eq hn hu hunits] at h
  split at h
  · -- a measure that fills up is the least one of the next unit, and even
    rename_i hcarry
    split at h
    · cases h
    · obtain ⟨-, rfl, rfl⟩ := Binary64.finite.inj h
      have hvalue : value false (2 ^ 52) (u + 1) = roundHalfEven a b * 2 ^ u := by
        rw [value, hcarry, zpow_add_one₀ two_ne_zero]
        push_cast
        ring
      refine ⟨⟨by norm_num, by omega, by omega, .inl le_rfl⟩, ?_, ?_⟩
      · intro negative m' e' h'
        rw [hvalue]
        exact (hnearest negative h').1
      · intro negative m' e' h' heq
        exact .inr (by norm_num)
  · rename_i hcarry
    split at h
    · cases h
    · obtain ⟨-, rfl, rfl⟩ := Binary64.finite.inj h
      refine ⟨⟨?_, hleast, by omega, ?_⟩, fun negative _ _ h' => (hnearest negative h').1,
        fun negative _ _ h' => (hnearest negative h').2⟩
      · have hmeasure : (a : ℚ) / b < 2 ^ 53 := by
          rw [hratio, div_lt_iff₀ hpow]
          exact hbits
        rw [div_lt_iff₀ (by exact_mod_cast hb)] at hmeasure
        have hle := roundHalfEven_le hb (show a ≤ 2 ^ 53 * b by exact_mod_cast hmeasure.le)
        omega
      · refine hfull.symm.imp_left fun hlow => ?_
        have hmeasure : (2 : ℚ) ^ 52 ≤ a / b := by
          rw [hratio, le_div_iff₀ hpow]
          exact hlow
        have herror := abs_le.mp (roundHalfEven_error (a := a) hb).1
        have hlast : (2 : ℚ) ^ 52 < roundHalfEven a b + 1 := by linarith
        have hlast : 2 ^ 52 < roundHalfEven a b + 1 := by exact_mod_cast hlast
        omega

end Nearest

/-- A quotient that can be rounded up is a finite number, and rounded up it is the ceiling of the number
nearest to it. -/
theorem exists_isNearest_of_ceil? {n d : ℕ} {c : ℤ} (hn : 0 < n) (hd : 0 < d)
    (h : (ofRatio false n d).ceil? = some c) :
    ∃ m e, IsNearest ((n : ℚ) / d) m e ∧ c = ⌈(m : ℚ) * 2 ^ e⌉ := by
  obtain ⟨u, hu⟩ : ∃ u, unitExponent n d = u := ⟨_, rfl⟩
  obtain ⟨⟨a, b⟩, hunits⟩ : ∃ p, inUnits n d u = p := ⟨_, rfl⟩
  obtain ⟨m, e, hfinite⟩ : ∃ m e, ofRatio false n d = .finite false m e := by
    rw [ofRatio_eq hn hu hunits] at h ⊢
    split_ifs at h ⊢
    · cases h
    · exact ⟨_, _, rfl⟩
    · cases h
    · exact ⟨_, _, rfl⟩
  rw [hfinite, ceil?_finite] at h
  exact ⟨m, e, isNearest_ofRatio hn hd hfinite, (Option.some.inj h).symm⟩

end Binary64
end PageQuery
