import Mathlib
import PageQuery.Proofs.Number.RoundTrip
import PageQuery.Proofs.Store.Mirrors

/-!
# Decimals in columns

A column of decimals keeps a number as a whole one or as the nearest binary one, and reads fifteen digits
of it back.  Of at most fifteen digits, the number that was kept is read, and lookups tell two kept numbers
apart exactly if their values are different.
-/

namespace PageQuery

open PageQuery.Number

/-! ## The weight of a cell -/

theorem Decimal.value_ofInt (n : ℤ) : value (ofInt n) = n := by
  rw [ofInt, value, zpow_zero, mul_one]
  rcases le_or_gt 0 n with hn | hn
  · rw [if_neg (by simpa using hn), Nat.cast_natAbs, abs_of_nonneg hn]
  · rw [if_pos (by simpa using hn), Nat.cast_natAbs, abs_of_neg hn, Int.cast_neg, neg_neg]

theorem Num.value_toDecimal (negative : Bool) (m : ℕ) (e : ℤ) :
    ∃ c t, (binary (.finite negative m e)).toDecimal = .finite negative c t ∧
      Decimal.value (.finite negative c t) = Binary64.value negative m e := by
  have hsigned {c : ℕ} {t : ℤ} (h : (c : ℚ) * 10 ^ t = m * 2 ^ e) :
      Decimal.value (.finite negative c t) = Binary64.value negative m e := by
    rw [Decimal.value, Binary64.value, h]
  rw [toDecimal]
  split
  · rename_i he
    obtain ⟨k, rfl⟩ := Int.eq_ofNat_of_zero_le he
    refine ⟨_, _, rfl, hsigned ?_⟩
    push_cast
    simp
  · rename_i he
    obtain ⟨k, hk⟩ := Int.eq_ofNat_of_zero_le (by omega : 0 ≤ -e)
    obtain rfl : e = -(k : ℤ) := by omega
    refine ⟨_, _, rfl, hsigned ?_⟩
    have hten : (10 : ℚ) ^ k = 2 ^ k * 5 ^ k := by rw [← mul_pow]; norm_num
    rw [hk, Int.toNat_natCast, zpow_neg, zpow_neg, zpow_natCast, zpow_natCast, hten]
    push_cast
    field_simp

/-- Numbers that are not not-a-number are ordered. -/
theorem Decimal.exists_order {a b : Decimal} (ha : ∀ n signalling p, a ≠ .nan n signalling p)
    (hb : ∀ n signalling p, b ≠ .nan n signalling p) : ∃ o, a.order b = some o := by
  cases a with
  | nan n signalling p => exact absurd rfl (ha n signalling p)
  | infinite n =>
      cases b with
      | nan n' signalling p => exact absurd rfl (hb n' signalling p)
      | infinite | finite => exact ⟨_, rfl⟩
  | finite n c e =>
      cases b with
      | nan n' signalling p => exact absurd rfl (hb n' signalling p)
      | infinite => exact ⟨_, rfl⟩
      | finite n' c' e' =>
          rw [order]
          split
          · exact ⟨_, rfl⟩
          · split <;> exact ⟨_, rfl⟩

namespace Cell

/-- The number that a cell stands for, if it is finite. -/
def weight? : Cell → Option ℚ
  | .whole n => some n
  | .real (.finite negative m e) => some (Binary64.value negative m e)
  | _ => none

theorem exists_num_of_weight {a : Cell} {v : ℚ} (h : a.weight? = some v) :
    ∃ x negative c e, a.num? = some x ∧ x.toDecimal = .finite negative c e ∧
      Decimal.value (.finite negative c e) = v := by
  unfold weight? at h
  split at h
  · obtain rfl := Option.some.inj h
    exact ⟨_, _, _, _, rfl, rfl, Decimal.value_ofInt _⟩
  · rename_i negative m e
    obtain rfl := Option.some.inj h
    obtain ⟨c, t, hdecimal, hvalue⟩ := Num.value_toDecimal negative m e
    exact ⟨_, _, _, _, rfl, hdecimal, hvalue⟩
  · cases h

/-- Cells of numbers are told equal exactly if the numbers are. -/
theorem order_eq_iff_weight {a b : Cell} {v w : ℚ} (ha : a.weight? = some v) (hb : b.weight? = some w) :
    a.order b = .eq ↔ v = w := by
  obtain ⟨x, n, c, e, hx, hxd, hxv⟩ := exists_num_of_weight ha
  obtain ⟨y, n', c', e', hy, hyd, hyv⟩ := exists_num_of_weight hb
  have hdecimals : (x.toDecimal.order y.toDecimal).getD .eq = .eq ↔ v = w := by
    rw [hxd, hyd, ← hxv, ← hyv, ← Decimal.order_eq_iff]
    obtain ⟨o, ho⟩ := Decimal.exists_order (a := .finite n c e) (b := .finite n' c' e') nofun nofun
    rw [ho, Option.getD_some, Option.some_inj]
  unfold order
  split
  · obtain rfl := Option.some.inj ha
    obtain rfl := Option.some.inj hb
    rw [compare_eq_iff_eq, Int.cast_inj]
  all_goals try cases hx
  rw [hx, hy]
  exact hdecimals

end Cell

/-! ## What a column reads back -/

/-- A sign in front of a magnitude can be told from the number, unless it is zero. -/
theorem signed_inj {n n' : Bool} {q q' : ℚ} (hq : 0 ≤ q) (hq' : 0 ≤ q')
    (h : (if n then -q else q) = if n' then -q' else q') : q = q' ∧ (n = n' ∨ q = 0) := by
  cases n <;> cases n' <;> simp only [Bool.false_eq_true, if_false, if_true] at h
  · exact ⟨h, .inl rfl⟩
  · exact ⟨by linarith, .inr (by linarith)⟩
  · exact ⟨by linarith, .inr (by linarith)⟩
  · exact ⟨by linarith, .inl rfl⟩

/-- A cell that stands for a number near a decimal of at most fifteen digits is read as the decimal. -/
theorem ColumnType.decode_of_weight {c : Cell} {digits places k m : ℕ} {negative : Bool} {t : ℤ}
    (hdigits : digits ≤ 15) (hk : k < 10 ^ digits) (hw : c.weight? = some (Binary64.value negative m t))
    (hnear : |(m : ℚ) * 2 ^ t * 10 ^ places - k| < 1 / 8) :
    ∃ n', (decimal digits places).decode true c = .ok (.decimal (.finite n' k (-(places : ℤ)))) ∧
      Decimal.value (.finite n' k (-(places : ℤ))) =
        Decimal.value (.finite negative k (-(places : ℤ))) := by
  have hnonneg : (0 : ℚ) ≤ m * 2 ^ t := by positivity
  -- any sign and quotient that make the number up will do
  have hread {n' : Bool} {a b : ℕ} (hb : 0 < b)
      (hvalue : (if n' then -((a : ℚ) / b) else (a : ℚ) / b) = Binary64.value negative m t) :
      (Decimal.ofQuotient 15 n' a b).fitted? digits places = some (.finite n' k (-(places : ℤ))) ∧
        Decimal.value (.finite n' k (-(places : ℤ))) =
          Decimal.value (.finite negative k (-(places : ℤ))) := by
    obtain ⟨heq, hsign⟩ := signed_inj (by positivity) hnonneg hvalue
    refine ⟨Decimal.ofQuotient_fitted hb hdigits hk n' (by rwa [heq]), ?_⟩
    rcases hsign with rfl | hzero
    · rfl
    · rw [← heq, hzero, zero_mul, zero_sub, abs_neg, Nat.abs_cast] at hnear
      obtain rfl : k = 0 := by
        by_contra hpos
        have : (1 : ℚ) ≤ k := by exact_mod_cast Nat.one_le_iff_ne_zero.mpr hpos
        linarith
      simp [Decimal.value]
  unfold Cell.weight? at hw
  split at hw
  · -- a whole number is a quotient by one
    rename_i n
    have hvalue : (if decide (n < 0) then -((n.natAbs : ℚ) / (1 : ℕ)) else (n.natAbs : ℚ) / (1 : ℕ)) =
        Binary64.value negative m t := by
      rw [← Option.some.inj hw, ← Decimal.value_ofInt, Decimal.ofInt, Decimal.value]
      split <;> simp
    obtain ⟨hfitted, heq⟩ := hread one_pos hvalue
    refine ⟨_, ?_, heq⟩
    simp only [decode, decimalOf, Binary64.shortDigits, hfitted]
  · rename_i n' a t'
    obtain ⟨hb, hratio⟩ := Binary64.ratio_spec a t'
    have hvalue : (if n' then -(((Binary64.ratio a t').1 : ℚ) / (Binary64.ratio a t').2)
        else ((Binary64.ratio a t').1 : ℚ) / (Binary64.ratio a t').2) = Binary64.value negative m t := by
      rw [hratio, ← Option.some.inj hw, Binary64.value]
    obtain ⟨hfitted, heq⟩ := hread hb hvalue
    refine ⟨_, ?_, heq⟩
    simp only [decode, decimalOf, Decimal.ofBinary, Binary64.shortDigits, hfitted]
  · cases hw

/-! ## Kept decimals -/

/-- A number that has its digits before and behind the point of a column. -/
def Decimal.IsKept (digits places : ℕ) (d : Decimal) : Prop :=
  ∃ negative k, d.withPlaces places = some (.finite negative k (-(places : ℤ))) ∧ k < 10 ^ digits

example : (Decimal.finite true 45 (-1)).IsKept 4 2 :=
  ⟨true, 450, rfl, by decide⟩

/-- A kept number is so many units of its last place, and its cell stands for the binary number nearest to
it. -/
structure Decimal.KeptAs (digits places : ℕ) (d : Decimal) (negative : Bool) (k m : ℕ) (t : ℤ) : Prop where
  bound : k < 10 ^ digits
  finite : ∃ c e, d = .finite negative c e
  value : d.value = Decimal.value (.finite negative k (-(places : ℤ)))
  nearest : ∀ b, Binary64.ofRatio b k (10 ^ places) = .finite b m t
  near : |(m : ℚ) * 2 ^ t * 10 ^ places - k| < 1 / 8
  zero : k = 0 → (m : ℚ) * 2 ^ t = 0
  cell : (Cell.ofDecimal d).weight? = some (Binary64.value negative m t)

/-- A number without a fraction is all that is left of it. -/
theorem Binary64.truncated?_of_whole (negative : Bool) {m : ℕ} {t : ℤ}
    (h : (m = 0 || 0 ≤ t || m % 2 ^ t.natAbs = 0) = true) {n : ℤ}
    (hn : truncated? (.finite negative m t) = some n) : (n : ℚ) = value negative m t := by
  have hwhole : (((ratio m t).1 / (ratio m t).2 : ℕ) : ℚ) = m * 2 ^ t := by
    rw [← (ratio_spec m t).2]
    refine Nat.cast_div ?_ (by exact_mod_cast (ratio_spec m t).1.ne')
    rw [ratio]
    split
    · exact one_dvd _
    · rename_i ht
      obtain ⟨k, hk⟩ := Int.eq_ofNat_of_zero_le (by omega : 0 ≤ -t)
      obtain rfl : t = -(k : ℤ) := by omega
      rw [neg_neg, Int.toNat_natCast]
      simp only [Int.natAbs_neg, Int.natAbs_natCast, Bool.or_eq_true, decide_eq_true_eq] at h
      rcases h with (rfl | hle) | hmod
      · exact dvd_zero _
      · exact absurd hle ht
      · exact Nat.dvd_of_mod_eq_zero hmod
  obtain rfl := Option.some.inj hn
  rw [value, ← hwhole]
  cases negative <;> push_cast <;> rfl

theorem Cell.weight?_ofDecimal {negative : Bool} {c m : ℕ} {e t : ℤ}
    (hnearest : Binary64.ofNumeral negative ⟨c, e⟩ = .finite negative m t)
    (hwhole : e = 0 → (m : ℚ) * 2 ^ t = c) :
    (Cell.ofDecimal (.finite negative c e)).weight? = some (Binary64.value negative m t) := by
  have hsigned : ((if negative then -(c : ℤ) else c : ℤ) : ℚ) = if negative then -(c : ℚ) else c := by
    split <;> simp
  unfold ofDecimal
  dsimp only
  rw [hnearest]
  generalize (if negative then -(c : ℤ) else c) = n at hsigned ⊢
  split
  · rename_i h
    rw [Bool.and_eq_true, decide_eq_true_eq] at h
    rw [weight?, Binary64.value, hwhole h.1, hsigned]
  · split
    · rename_i hfinite htruncated
      obtain ⟨rfl, rfl, rfl⟩ := Binary64.finite.inj hfinite
      split
      · rename_i h
        rw [Bool.and_eq_true, Bool.and_eq_true] at h
        rw [weight?, Binary64.truncated?_of_whole negative h.1.1 htruncated]
      · rfl
    · rfl

/-- A whole number that stands for a decimal can be kept. -/
theorem Cell.fits_of_ofDecimal {d : Decimal} {n : ℤ} (h : Cell.ofDecimal d = .whole n) : fits n = true := by
  cases d with
  | infinite | nan => cases h
  | finite negative c e =>
      unfold ofDecimal at h
      dsimp only at h
      generalize (if negative then -(c : ℤ) else c) = k at h
      split at h
      · rename_i hfits
        obtain rfl := Cell.whole.inj h
        exact (Bool.and_eq_true_iff.mp hfits).2
      · split at h
        · split at h
          · rename_i hwhole
            obtain rfl := Cell.whole.inj h
            simp only [Bool.and_eq_true, decide_eq_true_eq] at hwhole
            simp only [fits, Bool.and_eq_true, decide_eq_true_eq]
            omega
          · cases h
        · cases h

namespace Decimal

variable {digits places k k' m m' : ℕ} {d d' : Decimal} {n n' : Bool} {t t' : ℤ}

theorem IsKept.exists_units (h : d.IsKept digits places) :
    ∃ (negative : Bool) (c k : ℕ) (e : ℤ), d = .finite negative c e ∧ -(places : ℤ) ≤ e ∧
      k < 10 ^ digits ∧ (c : ℚ) * 10 ^ e = k / (10 ^ places : ℕ) := by
  obtain ⟨negative, k, hunits, hk⟩ := h
  obtain ⟨c, e, rfl, he, rfl⟩ : ∃ c e, d = .finite negative c e ∧ -(places : ℤ) ≤ e ∧
      c * 10 ^ (e + places).toNat = k := by
    unfold withPlaces at hunits
    split at hunits
    · split at hunits
      · obtain ⟨rfl, rfl, -⟩ := Decimal.finite.inj (Option.some.inj hunits)
        exact ⟨_, _, rfl, ‹_›, rfl⟩
      · cases hunits
    · cases hunits
  refine ⟨negative, c, _, e, rfl, he, hk, ?_⟩
  have hscaled := zpow_ten_mul_toNat (e := e + places) (by omega) c (-(places : ℤ))
  rw [add_neg_cancel_right, zpow_neg, zpow_natCast, ← div_eq_mul_inv] at hscaled
  rw [← hscaled, Nat.cast_pow, Nat.cast_ofNat]

/-- Fifty-three bits of a decimal of at most fifteen digits leave less than an eighth of its last place. -/
theorem near_of_error {q : ℚ} (hk : (k : ℚ) ≤ 10 ^ 15) (hplaces : (10 : ℚ) ^ places ≤ 10 ^ 15)
    (h : |(k : ℚ) / 10 ^ places - q| ≤ k / 10 ^ places / 2 ^ 53 + 1 / 2 ^ 100) :
    |q * 10 ^ places - k| < 1 / 8 := by
  have hpow : (0 : ℚ) < 10 ^ places := by positivity
  calc |q * 10 ^ places - k| = |(k : ℚ) / 10 ^ places - q| * 10 ^ places := by
        rw [abs_sub_comm, ← abs_mul_sub_mul hpow, div_mul_cancel₀ _ hpow.ne']
    _ ≤ (k / 10 ^ places / 2 ^ 53 + 1 / 2 ^ 100) * 10 ^ places := by gcongr
    _ = k / 2 ^ 53 + 10 ^ places / 2 ^ 100 := by field_simp
    _ ≤ 10 ^ 15 / 2 ^ 53 + 10 ^ 15 / 2 ^ 100 := by gcongr
    _ < 1 / 8 := by norm_num

theorem IsKept.exists_keptAs (h : d.IsKept digits places) (hdigits : digits ≤ 15)
    (hplaces : places ≤ digits) : ∃ negative k m t, d.KeptAs digits places negative k m t := by
  obtain ⟨negative, c, k, e, rfl, he, hk, hvalue⟩ := h.exists_units
  have hk15 : (k : ℚ) < 10 ^ 15 := by
    exact_mod_cast hk.trans_le (Nat.pow_le_pow_right (by omega) hdigits)
  have hplaces15 : (10 : ℚ) ^ places ≤ 10 ^ 15 := pow_le_pow_right₀ (by norm_num) (by omega)
  have hlt : (k : ℚ) / (10 ^ places : ℕ) < 2 ^ 50 := by
    refine lt_of_le_of_lt (div_le_self (by positivity) ?_) (hk15.trans (by norm_num))
    exact_mod_cast Nat.one_le_pow _ _ (by omega)
  obtain ⟨m, t, hnearest, herror, hexact⟩ := Binary64.exists_ofRatio (by positivity) hlt
  refine ⟨negative, k, m, t, hk, ⟨c, e, rfl⟩, ?_, hnearest, ?_, fun hzero => ?_, ?_⟩
  · rw [value, value, hvalue, zpow_neg, zpow_natCast, ← div_eq_mul_inv, Nat.cast_pow, Nat.cast_ofNat]
  · rw [Nat.cast_pow, Nat.cast_ofNat] at herror
    exact near_of_error hk15.le hplaces15 herror
  · simpa using hexact 0 (by rw [hzero, Nat.cast_zero, zero_div])
  · refine Cell.weight?_ofDecimal ?_ fun hwhole => ?_
    · rw [Binary64.ofNumeral_eq negative (by omega) (by positivity) hvalue hlt, hnearest]
    · exact hexact c (by rw [← hvalue, hwhole, zpow_zero, mul_one])

/-- Kept numbers stand for equal binary numbers exactly if they are equal. -/
theorem KeptAs.weight_eq_iff (h : d.KeptAs digits places n k m t)
    (h' : d'.KeptAs digits places n' k' m' t') :
    Binary64.value n m t = Binary64.value n' m' t' ↔ d.value = d'.value := by
  rw [h.value, h'.value]
  constructor
  · intro heq
    obtain ⟨hmagnitude, hsign⟩ := signed_inj (by positivity) (by positivity) heq
    have hnear := h.near
    have hnear' := h'.near
    rw [← hmagnitude] at hnear'
    have hunits : k = k' := by
      apply natCast_eq_of_abs_sub_lt
      have := abs_sub_le (k : ℚ) (m * 2 ^ t * 10 ^ places) k'
      rw [abs_sub_comm (k : ℚ) (m * 2 ^ t * 10 ^ places)] at this
      linarith
    rcases hsign with rfl | hzero
    · rw [hunits]
    · rw [hzero, zero_mul] at hnear
      obtain rfl : 0 = k := natCast_eq_of_abs_sub_lt (by rw [Nat.cast_zero]; linarith)
      rw [← hunits]
      simp [Decimal.value]
  · intro heq
    obtain ⟨hmagnitude, hsign⟩ := signed_inj (by positivity) (by positivity) heq
    have hpow : (10 : ℚ) ^ (-(places : ℤ)) ≠ 0 := (zpow_pos (by norm_num) _).ne'
    obtain rfl : k = k' := Nat.cast_injective (mul_right_cancel₀ hpow hmagnitude)
    obtain ⟨-, rfl, rfl⟩ := Binary64.finite.inj ((h.nearest false).symm.trans (h'.nearest false))
    rcases hsign with rfl | hzero
    · rfl
    · have hk : k = 0 := by simpa [hpow] using hzero
      rw [Binary64.value, Binary64.value, h.zero hk, neg_zero, ite_self, ite_self]

end Decimal

/-- What is read of a kept decimal equals another one exactly if their cells are told equal. -/
theorem ColumnType.same_ofDecimal {digits places : ℕ} {d d' : Decimal} (hdigits : digits ≤ 15)
    (hplaces : places ≤ digits) (hd : d.IsKept digits places) (hd' : d'.IsKept digits places) :
    ((decimal digits places).read (Cell.ofDecimal d')).same (.decimal d) =
      .ok ((Cell.ofDecimal d').order (Cell.ofDecimal d) == .eq) := by
  obtain ⟨n, k, m, t, h⟩ := hd.exists_keptAs hdigits hplaces
  obtain ⟨n', k', m', t', h'⟩ := hd'.exists_keptAs hdigits hplaces
  obtain ⟨n'', hread, hvalue⟩ := decode_of_weight hdigits h'.bound h'.cell h'.near
  obtain ⟨c, e, rfl⟩ := h.finite
  have hcells : (Cell.ofDecimal d').order (Cell.ofDecimal (.finite n c e)) = .eq ↔
      d'.value = (Decimal.finite n c e).value := by
    rw [Cell.order_eq_iff_weight h'.cell h.cell, h'.weight_eq_iff h]
  have hsame : (Value.decimal (.finite n'' k' (-(places : ℤ)))).same (.decimal (.finite n c e)) =
      .ok (Decimal.order (.finite n'' k' (-(places : ℤ))) (.finite n c e) == some .eq) := by
    simp only [Value.same, Value.asNum?, Value.bare, Num.same, Num.toDecimal, Decimal.isSignalling,
      Bool.or_self, Bool.false_eq_true, if_false]
  have hvalue' : (decimal digits places).read (Cell.ofDecimal d') =
      .decimal (.finite n'' k' (-(places : ℤ))) := by
    simp only [read, hread]
  rw [hvalue', hsame, Except.ok.injEq, Bool.eq_iff_iff, beq_iff_eq, beq_iff_eq, Decimal.order_eq_iff,
    hcells, hvalue, h'.value]

end PageQuery
