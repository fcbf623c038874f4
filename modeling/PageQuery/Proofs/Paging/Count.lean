import Mathlib
import PageQuery.Page

/-!
# Page counts survive rounding

The number of pages is the least whole number not below a quotient, and the quotient is rounded to
a binary number before that number is looked for.  Up to `2 ^ 53` the rounding is harmless: it
never passes a whole number, and it never falls onto one from above.
-/

namespace PageQuery

namespace Binary64

/-! ## Rounding to a whole number -/

theorem roundHalfEven_le {a b k : ℕ} (hb : 0 < b) (h : a ≤ k * b) : roundHalfEven a b ≤ k := by
  have hsplit : b * (a / b) + a % b = a := Nat.div_add_mod a b
  have hrest : a % b < b := Nat.mod_lt a hb
  have hquot : a / b ≤ k := Nat.div_le_of_le_mul (by rwa [Nat.mul_comm] at h)
  rcases Nat.lt_or_eq_of_le hquot with hlt | heq
  · unfold roundHalfEven
    dsimp only
    split_ifs <;> omega
  · -- the quotient is reached, so nothing is left over to be rounded up
    have hzero : a % b = 0 := by
      rw [heq, Nat.mul_comm] at hsplit
      omega
    simp [roundHalfEven, hzero, heq, hb]

theorem lt_roundHalfEven {a b k : ℕ} (hb : 0 < b) (h : 2 * (k * b) + b < 2 * a) :
    k < roundHalfEven a b := by
  have hsplit : b * (a / b) + a % b = a := Nat.div_add_mod a b
  have hrest : a % b < b := Nat.mod_lt a hb
  have hquot : k ≤ a / b := by
    rw [Nat.le_div_iff_mul_le hb]
    omega
  unfold roundHalfEven
  dsimp only
  rcases Nat.lt_or_eq_of_le hquot with hlt | heq
  · split_ifs <;> omega
  · have hhalf : b < 2 * (a % b) := by
      rw [← heq, Nat.mul_comm b k] at hsplit
      omega
    rw [if_neg (by omega), if_pos hhalf]
    omega

/-! ## The unit of a quotient -/

theorem inUnits_neg (n d s : ℕ) : inUnits n d (-(s : ℤ)) = (n * 2 ^ s, d) := by
  unfold inUnits
  rcases Nat.eq_zero_or_pos s with rfl | hs
  · simp
  · rw [if_neg (by omega), neg_neg, Int.toNat_natCast]

/-- Below `2 ^ 53` the unit is at most one, and the quotient has 52 bits above it. -/
theorem unitExponent_spec {n d : ℕ} (hn : 0 < n) (hd : 0 < d) (hd' : d ≤ 2 ^ 53)
    (hlt : n < 2 ^ 53 * d) :
    ∃ s : ℕ, unitExponent n d = -(s : ℤ) ∧ 2 ^ 52 * d ≤ n * 2 ^ s := by
  have hn₁ : 2 ^ n.log2 ≤ n := Nat.log2_self_le hn.ne'
  have hd₁ : 2 ^ d.log2 ≤ d := Nat.log2_self_le hd.ne'
  have hd₂ : d < 2 ^ (d.log2 + 1) := Nat.lt_log2_self
  have hbits : n.log2 < 53 + (d.log2 + 1) := by
    apply (Nat.pow_lt_pow_iff_right (a := 2) (by omega)).mp
    calc 2 ^ n.log2 ≤ n := hn₁
      _ < 2 ^ 53 * d := hlt
      _ ≤ 2 ^ 53 * 2 ^ (d.log2 + 1) := Nat.mul_le_mul_left _ hd₂.le
      _ = 2 ^ (53 + (d.log2 + 1)) := (Nat.pow_add ..).symm
  have hdbits : d.log2 ≤ 53 := by
    apply (Nat.pow_le_pow_iff_right (a := 2) (by omega)).mp
    exact hd₁.trans hd'
  obtain ⟨s, hs⟩ : ∃ s : ℕ, s = 53 + d.log2 - n.log2 := ⟨_, rfl⟩
  have hexp : (n.log2 : ℤ) - d.log2 - 53 = -(s : ℤ) := by omega
  have hlow : 2 ^ 53 * d < 2 * (n * 2 ^ s) := by
    calc 2 ^ 53 * d < 2 ^ 53 * 2 ^ (d.log2 + 1) := Nat.mul_lt_mul_of_pos_left hd₂ (by positivity)
      _ = 2 * (2 ^ n.log2 * 2 ^ s) := by
        rw [← Nat.pow_add, ← Nat.pow_add, ← Nat.pow_succ']
        congr 1
        omega
      _ ≤ 2 * (n * 2 ^ s) := by gcongr
  unfold unitExponent
  dsimp only
  rw [hexp, inUnits_neg]
  dsimp only
  split_ifs with hcarry
  · -- the quotient has a bit more, which only happens below a unit of one
    have hspos : 0 < s := by
      rcases Nat.eq_zero_or_pos s with rfl | hs
      · rw [Nat.pow_zero, Nat.mul_one] at hcarry
        omega
      · exact hs
    refine ⟨s - 1, by omega, ?_⟩
    have hpow : 2 ^ s = 2 * 2 ^ (s - 1) := by
      rw [← Nat.pow_succ']
      congr 1
      omega
    rw [hpow] at hcarry
    have : n * (2 * 2 ^ (s - 1)) = 2 * (n * 2 ^ (s - 1)) := by ring
    omega
  · exact ⟨s, by omega, by omega⟩

/-! ## The ceiling of a rounded quotient -/

theorem ceil?_finite (m : ℕ) (e : ℤ) :
    (finite false m e).ceil? = some ⌈(m : ℚ) * 2 ^ e⌉ := by
  have hceil (n d : ℕ) : -(-(n : ℤ) / (d : ℤ)) = ⌈(n : ℚ) / d⌉ := by
    have := Rat.ceil_intCast_div_natCast (n : ℤ) d
    push_cast at this
    rw [this]
  simp only [ceil?, ratio, Bool.false_eq_true, if_false]
  split_ifs with he
  · obtain ⟨k, rfl⟩ := Int.eq_ofNat_of_zero_le he
    have hwhole : (m : ℚ) * 2 ^ (k : ℤ) = ((m * 2 ^ k : ℕ) : ℚ) := by push_cast; rfl
    rw [hceil, hwhole]
    simp
  · obtain ⟨k, hk⟩ := Int.eq_ofNat_of_zero_le (by omega : 0 ≤ -e)
    have hneg : e = -(k : ℤ) := by omega
    rw [hneg, neg_neg, Int.toNat_natCast, hceil]
    simp [zpow_neg, div_eq_mul_inv]

/-- A whole number that has a quotient just below it keeps it there when the quotient is rounded. -/
theorem ceil_roundHalfEven {n d s t : ℕ} (hn : n ≤ 2 ^ 53) (hd : 0 < d)
    (hbits : 2 ^ 52 * d ≤ n * 2 ^ s) (hlow : t * d < n) (hhigh : n ≤ (t + 1) * d) :
    t * 2 ^ s < roundHalfEven (n * 2 ^ s) d ∧
      roundHalfEven (n * 2 ^ s) d ≤ (t + 1) * 2 ^ s := by
  constructor
  · -- a step of `1 / d` above `t` is more than half a unit, as the quotient has enough bits
    by_cases hhalf : d < 2 * 2 ^ s
    · apply lt_roundHalfEven hd
      have hstep : (t * d + 1) * 2 ^ s ≤ n * 2 ^ s := Nat.mul_le_mul_right _ hlow
      have hcomm : t * 2 ^ s * d = t * d * 2 ^ s := by ring
      rw [Nat.add_mul, Nat.one_mul] at hstep
      omega
    · have hscaled : n * 2 ^ s ≤ 2 ^ 53 * 2 ^ s := Nat.mul_le_mul_right _ hn
      have htop : n * 2 ^ s = 2 ^ 52 * d := by omega
      have hdiv : roundHalfEven (n * 2 ^ s) d = 2 ^ 52 := by
        unfold roundHalfEven
        rw [htop, Nat.mul_div_cancel _ hd, Nat.mul_mod_left]
        exact if_pos (by omega)
      rw [hdiv]
      have hlt : t * d * 2 ^ s < n * 2 ^ s := Nat.mul_lt_mul_of_pos_right hlow (by positivity)
      have hcomm : t * d * 2 ^ s = t * 2 ^ s * d := by ring
      rw [htop, hcomm] at hlt
      exact Nat.lt_of_mul_lt_mul_right hlt
  · apply roundHalfEven_le hd
    calc n * 2 ^ s ≤ (t + 1) * d * 2 ^ s := Nat.mul_le_mul_right _ hhigh
      _ = (t + 1) * 2 ^ s * d := by ring

/-- The number nearest to a quotient, by its unit: a significand that fills up moves to the next one. -/
theorem ofRatio_eq {negative : Bool} {n d a b : ℕ} {e : ℤ} (hn : 0 < n) (hexp : unitExponent n d = e)
    (hunits : inUnits n d e = (a, b)) :
    ofRatio negative n d =
      if roundHalfEven a b = 2 ^ 53 then
        if 971 < e + 1 then .infinite negative else .finite negative (2 ^ 52) (e + 1)
      else if 971 < e then .infinite negative else .finite negative (roundHalfEven a b) e := by
  rw [ofRatio, if_neg hn.ne', hexp]
  dsimp only
  rw [hunits]
  dsimp only
  generalize roundHalfEven a b = m
  by_cases hfull : m = 2 ^ 53
  · rw [if_pos hfull, if_pos hfull]
  · rw [if_neg hfull, if_neg hfull]

/-- Moving to the next unit changes nothing about the value. -/
theorem ceil?_ofRatio_eq {n d s : ℕ} (hn : 0 < n) (hexp : unitExponent n d = -(s : ℤ)) :
    (ofRatio false n d).ceil? =
      some ⌈((roundHalfEven (n * 2 ^ s) d : ℕ) : ℚ) * 2 ^ (-(s : ℤ))⌉ := by
  rw [ofRatio_eq hn hexp (inUnits_neg n d s)]
  generalize roundHalfEven (n * 2 ^ s) d = m
  by_cases hfull : m = 2 ^ 53
  · rw [if_pos hfull, if_neg (by omega), ceil?_finite, hfull, zpow_add_one₀ two_ne_zero]
    congr 2
    push_cast
    ring
  · rw [if_neg hfull, if_neg (by omega), ceil?_finite]

theorem ofRatio_top : ofRatio false (2 ^ 53) 1 = finite false (2 ^ 52) 1 := by
  have hlog : Nat.log2 (2 ^ 53) = 53 := Nat.log2_two_pow
  have hexp : unitExponent (2 ^ 53) 1 = 1 := by
    unfold unitExponent
    rw [hlog]
    rfl
  unfold ofRatio
  rw [hexp]
  rfl

/-- A quotient of numbers up to `2 ^ 53` has the same ceiling as its rounding. -/
theorem ceil?_ofRatio {n d : ℕ} (hn : 0 < n) (hn' : n ≤ 2 ^ 53) (hd : 0 < d) (hd' : d ≤ 2 ^ 53) :
    (ofRatio false n d).ceil? = some ⌈(n : ℚ) / d⌉ := by
  by_cases hlt : n < 2 ^ 53 * d
  · obtain ⟨s, hexp, hbits⟩ := unitExponent_spec hn hd hd' hlt
    obtain ⟨t, hlow, hhigh⟩ : ∃ t, t * d < n ∧ n ≤ (t + 1) * d := by
      have hsplit : (n - 1) / d * d + (n - 1) % d = n - 1 := Nat.div_add_mod' (n - 1) d
      have hrest : (n - 1) % d < d := Nat.mod_lt _ hd
      refine ⟨(n - 1) / d, by omega, ?_⟩
      rw [Nat.add_mul, Nat.one_mul]
      omega
    obtain ⟨hlow', hhigh'⟩ := ceil_roundHalfEven hn' hd hbits hlow hhigh
    have hexact : ⌈(n : ℚ) / d⌉ = (t : ℤ) + 1 := by
      rw [Int.ceil_eq_iff]
      have hdq : (0 : ℚ) < d := by exact_mod_cast hd
      constructor
      · rw [lt_div_iff₀ hdq]
        push_cast
        rw [add_sub_cancel_right]
        exact_mod_cast hlow
      · rw [div_le_iff₀ hdq]
        exact_mod_cast hhigh
    have hrounded : ⌈((roundHalfEven (n * 2 ^ s) d : ℕ) : ℚ) * 2 ^ (-(s : ℤ))⌉ = (t : ℤ) + 1 := by
      rw [zpow_neg, zpow_natCast, ← div_eq_mul_inv, Int.ceil_eq_iff]
      have hpow : (0 : ℚ) < 2 ^ s := by positivity
      constructor
      · rw [lt_div_iff₀ hpow]
        push_cast
        rw [add_sub_cancel_right]
        exact_mod_cast hlow'
      · rw [div_le_iff₀ hpow]
        exact_mod_cast hhigh'
    rw [ceil?_ofRatio_eq hn hexp, hrounded, hexact]
  · have hd1 : d = 1 := by omega
    have hn1 : n = 2 ^ 53 := by omega
    rw [hd1, hn1]
    rw [ofRatio_top, ceil?_finite]
    norm_num

/-- A quotient of numbers with up to sixty-four bits is finite. -/
theorem exists_ceil?_ofRatio {n d : ℕ} (hn : n ≤ 2 ^ 64) :
    ∃ c, (ofRatio false n d).ceil? = some c := by
  rcases Nat.eq_zero_or_pos n with rfl | hpos
  · have hzero : ofRatio false 0 d = finite false 0 (-1074) := by rw [ofRatio, if_pos rfl]
    exact ⟨_, by rw [hzero, ceil?_finite]⟩
  · have hlog : Nat.log2 n < 65 := (Nat.log2_lt hpos.ne').mpr (by omega)
    have hexp : unitExponent n d ≤ 12 := by
      rw [unitExponent]
      dsimp only
      split <;> omega
    obtain ⟨e, he⟩ : ∃ e, unitExponent n d = e := ⟨_, rfl⟩
    obtain ⟨⟨a, b⟩, hunits⟩ : ∃ p, inUnits n d e = p := ⟨_, rfl⟩
    rw [he] at hexp
    rw [ofRatio_eq hpos he hunits]
    split
    · exact ⟨_, by rw [if_neg (by omega), ceil?_finite]⟩
    · exact ⟨_, by rw [if_neg (by omega), ceil?_finite]⟩

end Binary64

/-- Up to `2 ^ 53` records on pages of at most that size, the number of pages is the exact
ceiling. -/
theorem totalPages_eq_ceil {elements : ℕ} {size : ℤ} (helements : elements ≤ 2 ^ 53)
    (hsize : 1 ≤ size) (hsize' : size ≤ 2 ^ 53) :
    totalPages elements size = .ok ⌈(elements : ℚ) / size⌉ := by
  obtain ⟨d, rfl⟩ := Int.eq_ofNat_of_zero_le (by omega : 0 ≤ size)
  unfold totalPages
  rcases Nat.eq_zero_or_pos elements with rfl | hpos
  · simp
  · have hnonneg : decide ((d : ℤ) < 0) = false := by simp
    rw [if_neg (by omega), if_neg (by omega), hnonneg, Int.natAbs_natCast, Int.natAbs_natCast,
      Binary64.ceil?_ofRatio hpos helements (by omega) (by omega)]
    simp

/-- The pages of as many records as have different keys can be counted. -/
theorem exists_totalPages {elements : ℕ} {size : ℤ} (helements : elements ≤ 2 ^ 64)
    (hsize : 1 ≤ size) : ∃ pages, totalPages elements size = .ok pages := by
  rw [totalPages]
  split
  · exact ⟨0, rfl⟩
  · have hnonneg : decide (size < 0) = false := by simpa using by omega
    obtain ⟨c, hc⟩ := Binary64.exists_ceil?_ofRatio (d := size.natAbs) helements
    rw [if_neg (by omega), hnonneg, Int.natAbs_natCast, hc]
    exact ⟨c, rfl⟩

end PageQuery
