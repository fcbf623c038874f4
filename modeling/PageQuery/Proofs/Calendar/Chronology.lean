import Mathlib
import PageQuery.Calendar.DateTime

/-!
# Counting days and microseconds

Valid dates are ordered as their ordinals, and every ordinal of the years 1 to 9999 is that of a
valid date.  Moments are therefore ordered as their wall clocks, and a clock that is moved shows the
instant that it showed before.
-/

namespace PageQuery

namespace Date

/-! ## Years and months -/

theorem succ_div (y k : ℕ) :
    (y + 1) / k = y / k + if (y + 1) % k = 0 then 1 else 0 := by
  rw [Nat.succ_div]
  simp only [Nat.dvd_iff_mod_eq_zero]

theorem daysBeforeYear_succ {year : ℕ} (h : 1 ≤ year) :
    daysBeforeYear (year + 1) = daysBeforeYear year + 365 + (if isLeap year then 1 else 0) := by
  obtain ⟨y, rfl⟩ : ∃ y, year = y + 1 := ⟨year - 1, by omega⟩
  have hle : (y + 1) / 100 ≤ (y + 1) / 4 := Nat.div_le_div_left (by omega) (by omega)
  have hle' : y / 100 ≤ y / 4 := Nat.div_le_div_left (by omega) (by omega)
  have hfour := succ_div y 4
  have hhundred := succ_div y 100
  have hcycle := succ_div y 400
  simp only [daysBeforeYear, Nat.add_sub_cancel, isLeap, Bool.and_eq_true, Bool.or_eq_true,
    beq_iff_eq, bne_iff_ne]
  by_cases h400 : (y + 1) % 400 = 0
  · have h100 : (y + 1) % 100 = 0 := by omega
    have h4 : (y + 1) % 4 = 0 := by omega
    simp only [h400, h100, h4, if_true] at hfour hhundred hcycle
    simp only [h400, h100, h4, ne_eq, not_true, or_true, and_self, if_true]
    omega
  · by_cases h100 : (y + 1) % 100 = 0
    · have h4 : (y + 1) % 4 = 0 := by omega
      simp only [h400, h100, h4, if_true, if_false] at hfour hhundred hcycle
      simp only [h400, h100, h4, ne_eq, not_true, or_self, and_false, if_false]
      omega
    · by_cases h4 : (y + 1) % 4 = 0
      · simp only [h400, h100, h4, if_true, if_false] at hfour hhundred hcycle
        simp only [h100, h4, ne_eq, not_false_eq_true, true_or, and_self, if_true]
        omega
      · simp only [h400, h100, h4, if_false] at hfour hhundred hcycle
        simp only [h4, false_and, if_false]
        omega

theorem daysBeforeYear_mono : Monotone daysBeforeYear := by
  refine monotone_nat_of_le_succ fun year => ?_
  rcases Nat.eq_zero_or_pos year with rfl | hpos
  · exact le_rfl
  · rw [daysBeforeYear_succ hpos]
    omega

theorem daysBeforeMonth_succ (year : ℕ) {month : ℕ} (h : 1 ≤ month) :
    daysBeforeMonth year (month + 1) = daysBeforeMonth year month + daysInMonth year month := by
  obtain ⟨m, rfl⟩ : ∃ m, month = m + 1 := ⟨month - 1, by omega⟩
  rfl

theorem daysBeforeMonth_mono (year : ℕ) {month month' : ℕ} (h : 1 ≤ month) (h' : month ≤ month') :
    daysBeforeMonth year month ≤ daysBeforeMonth year month' := by
  induction month', h' using Nat.le_induction with
  | base => exact le_rfl
  | succ m hm ih =>
      rw [daysBeforeMonth_succ year (h.trans hm)]
      omega

/-- The months of a year take up all its days. -/
theorem daysBeforeMonth_last (year : ℕ) :
    daysBeforeMonth year 13 = 365 + (if isLeap year then 1 else 0) := by
  simp only [daysBeforeMonth, daysInMonth]
  cases isLeap year <;> rfl

/-! ## The order of dates -/

theorem isValid_iff {d : Date} :
    d.isValid = true ↔ (1 ≤ d.year ∧ d.year ≤ 9999) ∧ (1 ≤ d.month ∧ d.month ≤ 12) ∧
      1 ≤ d.day ∧ d.day ≤ daysInMonth d.year d.month := by
  simp only [isValid, Bool.and_eq_true, decide_eq_true_eq]
  tauto

/-- A date lies behind the days before its month and before the next month. -/
theorem lt_ordinal {d : Date} (h : d.isValid = true) :
    daysBeforeYear d.year + daysBeforeMonth d.year d.month < d.ordinal ∧
      d.ordinal ≤ daysBeforeYear d.year + daysBeforeMonth d.year (d.month + 1) := by
  obtain ⟨-, ⟨hmonth, -⟩, hday, hday'⟩ := isValid_iff.mp h
  rw [daysBeforeMonth_succ _ hmonth, ordinal]
  omega

theorem lt_ordinal_year {d : Date} (h : d.isValid = true) :
    daysBeforeYear d.year < d.ordinal ∧ d.ordinal ≤ daysBeforeYear (d.year + 1) := by
  obtain ⟨⟨hyear, -⟩, ⟨hmonth, hmonth'⟩, -⟩ := isValid_iff.mp h
  obtain ⟨hlow, hhigh⟩ := lt_ordinal h
  have hlast : daysBeforeMonth d.year (d.month + 1) ≤ daysBeforeMonth d.year 13 :=
    daysBeforeMonth_mono _ (by omega) (by omega)
  rw [daysBeforeMonth_last] at hlast
  rw [daysBeforeYear_succ hyear]
  omega

/-- A date of an earlier year, or of an earlier month of the same year, has the smaller ordinal. -/
theorem ordinal_lt_of_year {a b : Date} (ha : a.isValid = true) (hb : b.isValid = true)
    (h : a.year < b.year) : a.ordinal < b.ordinal := by
  have hstep : daysBeforeYear (a.year + 1) ≤ daysBeforeYear b.year := daysBeforeYear_mono h
  exact (lt_ordinal_year ha).2.trans_lt (hstep.trans_lt (lt_ordinal_year hb).1)

theorem ordinal_lt_of_month {a b : Date} (ha : a.isValid = true) (hb : b.isValid = true)
    (hyear : a.year = b.year) (h : a.month < b.month) : a.ordinal < b.ordinal := by
  have hstep : daysBeforeMonth b.year (a.month + 1) ≤ daysBeforeMonth b.year b.month :=
    daysBeforeMonth_mono _ (by omega) h
  have hend := (lt_ordinal ha).2
  have hbegin := (lt_ordinal hb).1
  rw [hyear] at hend
  omega

/-- Valid dates are ordered as their ordinals. -/
theorem order_eq_compare {a b : Date} (ha : a.isValid = true) (hb : b.isValid = true) :
    a.order b = compare a.ordinal b.ordinal := by
  rw [order]
  rcases Nat.lt_trichotomy a.year b.year with hlt | heq | hgt
  · rw [Nat.compare_eq_lt.mpr hlt, Nat.compare_eq_lt.mpr (ordinal_lt_of_year ha hb hlt),
      Ordering.lt_then]
  · rw [Nat.compare_eq_eq.mpr heq, Ordering.eq_then]
    rcases Nat.lt_trichotomy a.month b.month with hlt' | heq' | hgt'
    · rw [Nat.compare_eq_lt.mpr hlt', Nat.compare_eq_lt.mpr (ordinal_lt_of_month ha hb heq hlt'),
        Ordering.lt_then]
    · rw [Nat.compare_eq_eq.mpr heq', Ordering.eq_then, ordinal, ordinal, heq, heq']
      rcases Nat.lt_trichotomy a.day b.day with hday | hday | hday
      · rw [Nat.compare_eq_lt.mpr hday, Nat.compare_eq_lt.mpr (by omega)]
      · rw [Nat.compare_eq_eq.mpr hday, Nat.compare_eq_eq.mpr (by omega)]
      · rw [Nat.compare_eq_gt.mpr hday, Nat.compare_eq_gt.mpr (by omega)]
    · rw [Nat.compare_eq_gt.mpr hgt',
        Nat.compare_eq_gt.mpr (ordinal_lt_of_month hb ha heq.symm hgt'), Ordering.gt_then]
  · rw [Nat.compare_eq_gt.mpr hgt, Nat.compare_eq_gt.mpr (ordinal_lt_of_year hb ha hgt),
      Ordering.gt_then]

theorem order_swap (a b : Date) : a.order b = (b.order a).swap := by
  rw [order, order, Ordering.swap_then, Ordering.swap_then, Nat.compare_swap, Nat.compare_swap,
    Nat.compare_swap]

theorem order_eq_iff {a b : Date} : a.order b = .eq ↔ a = b := by
  obtain ⟨year, month, day⟩ := a
  obtain ⟨year', month', day'⟩ := b
  simp only [order, Ordering.then_eq_eq, Nat.compare_eq_eq, mk.injEq]

/-! ## Dates of ordinals -/

/-- Going through the months of a year finds the month of a day. -/
theorem monthAndDay_spec {year month rest : ℕ} (left : ℕ) (hmonth : 1 ≤ month)
    (hrest : rest + daysBeforeMonth year month < daysBeforeMonth year (month + left + 1)) :
    ∃ m d, monthAndDay year left month rest = (m, d) ∧ month ≤ m ∧ m ≤ month + left ∧ 1 ≤ d ∧
      d ≤ daysInMonth year m ∧
      daysBeforeMonth year m + d = daysBeforeMonth year month + rest + 1 := by
  induction left generalizing month rest with
  | zero =>
      rw [Nat.add_zero, daysBeforeMonth_succ _ hmonth] at hrest
      exact ⟨month, rest + 1, rfl, le_rfl, le_rfl, by omega, by omega, by omega⟩
  | succ left ih =>
      rw [monthAndDay]
      split
      · exact ⟨month, rest + 1, rfl, le_rfl, by omega, by omega, by omega, by omega⟩
      · rename_i hlater
        have hnext : rest - daysInMonth year month + daysBeforeMonth year (month + 1) <
            daysBeforeMonth year (month + 1 + left + 1) := by
          rw [daysBeforeMonth_succ _ hmonth, show month + 1 + left = month + (left + 1) by omega]
          omega
        obtain ⟨m, d, hfound, hlow, hhigh, hday, hday', hsum⟩ := ih (by omega) hnext
        rw [daysBeforeMonth_succ _ hmonth] at hsum
        exact ⟨m, d, hfound, by omega, by omega, hday, hday', by omega⟩

/-- The days before a year that is counted by cycles, centuries, groups and single years. -/
theorem daysBeforeYear_parts (cycle : ℕ) {century group single : ℕ} (hcentury : century ≤ 3)
    (hgroup : group ≤ 24) (hsingle : single ≤ 3) :
    daysBeforeYear (400 * cycle + 100 * century + 4 * group + single + 1) =
      146097 * cycle + 36524 * century + 1461 * group + 365 * single := by
  have hfour : (400 * cycle + 100 * century + 4 * group + single) / 4 =
      100 * cycle + 25 * century + group := by omega
  have hhundred : (400 * cycle + 100 * century + 4 * group + single) / 100 =
      4 * cycle + century := by omega
  have hcycle : (400 * cycle + 100 * century + 4 * group + single) / 400 = cycle := by omega
  rw [daysBeforeYear, Nat.add_sub_cancel, hfour, hhundred, hcycle]
  omega

theorem isLeap_parts (cycle : ℕ) {century group : ℕ} (hgroup : group ≤ 24)
    (hodd : group = 24 → century = 3) :
    isLeap (400 * cycle + 100 * century + 4 * group + 3 + 1) = true := by
  simp only [isLeap, Bool.and_eq_true, Bool.or_eq_true, beq_iff_eq, bne_iff_ne]
  refine ⟨by omega, ?_⟩
  by_cases hlast : group = 24
  · have hthree := hodd hlast
    exact .inr (by omega)
  · exact .inl (by omega)

/-- Every ordinal in range is that of a valid date. -/
theorem ofOrdinal_spec {n : ℕ} (hn : 1 ≤ n) (hn' : n ≤ maxOrdinal) :
    (ofOrdinal n).isValid = true ∧ (ofOrdinal n).ordinal = n := by
  rw [maxOrdinal] at hn'
  obtain ⟨cycle, hcycle⟩ : ∃ k, k = (n - 1) / 146097 := ⟨_, rfl⟩
  obtain ⟨inCycle, hinCycle⟩ : ∃ k, k = (n - 1) % 146097 := ⟨_, rfl⟩
  obtain ⟨century, hcentury⟩ : ∃ k, k = min 3 (inCycle / 36524) := ⟨_, rfl⟩
  obtain ⟨inCentury, hinCentury⟩ : ∃ k, k = inCycle - 36524 * century := ⟨_, rfl⟩
  obtain ⟨group, hgroup⟩ : ∃ k, k = inCentury / 1461 := ⟨_, rfl⟩
  obtain ⟨inGroup, hinGroup⟩ : ∃ k, k = inCentury % 1461 := ⟨_, rfl⟩
  obtain ⟨single, hsingle⟩ : ∃ k, k = min 3 (inGroup / 365) := ⟨_, rfl⟩
  obtain ⟨rest, hrest⟩ : ∃ k, k = inGroup - 365 * single := ⟨_, rfl⟩
  have hcount : n = 146097 * cycle + inCycle + 1 := by omega
  have hcentury3 : century ≤ 3 := by omega
  have hinCentury' : inCycle = 36524 * century + inCentury := by omega
  have hlong : inCentury < 36524 ∨ inCentury = 36524 ∧ century = 3 := by omega
  have hgroup24 : group ≤ 24 := by omega
  have hinGroup' : inCentury = 1461 * group + inGroup := by omega
  have hsingle3 : single ≤ 3 := by omega
  have hrest' : inGroup = 365 * single + rest := by omega
  have hday : rest < 365 ∨ rest = 365 ∧ single = 3 ∧ (group = 24 → century = 3) := by omega
  obtain ⟨year, hyear⟩ : ∃ y, y = 400 * cycle + 100 * century + 4 * group + single + 1 := ⟨_, rfl⟩
  have hbefore := daysBeforeYear_parts cycle hcentury3 hgroup24 hsingle3
  rw [← hyear] at hbefore
  have hinYear : rest + daysBeforeMonth year 1 < daysBeforeMonth year 13 := by
    rw [daysBeforeMonth_last, daysBeforeMonth]
    rcases hday with hshort | ⟨hlast, hthree, hodd⟩
    · omega
    · have hleap := isLeap_parts cycle hgroup24 hodd
      rw [← hthree, ← hyear] at hleap
      simp [hleap, hlast]
  obtain ⟨m, d, hfound, hlow, hhigh, hd, hd', hsum⟩ :=
    monthAndDay_spec 11 le_rfl hinYear
  have hdate : ofOrdinal n = ⟨year, m, d⟩ := by
    simp only [ofOrdinal, ← hcycle, ← hinCycle, ← hcentury, ← hinCentury, ← hgroup, ← hinGroup,
      ← hsingle, ← hrest, ← hyear, hfound]
  have hyear1 : 1 ≤ year := by omega
  have hyear9999 : year ≤ 9999 := by
    by_contra hlate
    have hend : daysBeforeYear 10000 ≤ daysBeforeYear year := daysBeforeYear_mono (by omega)
    have hlast : daysBeforeYear 10000 = 3652059 := rfl
    omega
  rw [hdate]
  refine ⟨isValid_iff.mpr ⟨⟨hyear1, hyear9999⟩, ⟨hlow, hhigh⟩, hd, hd'⟩, ?_⟩
  rw [daysBeforeMonth] at hsum
  rw [ordinal]
  dsimp only
  omega

theorem ofOrdinal?_spec {n : ℤ} {d : Date} (h : ofOrdinal? n = some d) :
    d.isValid = true ∧ (d.ordinal : ℤ) = n := by
  rw [ofOrdinal?] at h
  split at h
  · rename_i hrange
    simp only [Bool.and_eq_true, decide_eq_true_eq] at hrange
    obtain ⟨hlow, hhigh⟩ := hrange
    obtain rfl := Option.some.inj h
    obtain ⟨hvalid, hordinal⟩ := ofOrdinal_spec (n := n.toNat) (by omega) (by omega)
    exact ⟨hvalid, by omega⟩
  · cases h

end Date

namespace Time

theorem isValid_iff {t : Time} :
    t.isValid = true ↔ t.hour < 24 ∧ t.minute < 60 ∧ t.second < 60 ∧ t.microsecond < 1000000 := by
  simp only [isValid, Bool.and_eq_true, decide_eq_true_eq, and_assoc]

theorem micros_lt {t : Time} (h : t.isValid = true) : t.micros < microsPerDay := by
  have hparts := isValid_iff.mp h
  rw [micros, microsPerDay]
  omega

theorem ofMicros_spec {n : ℕ} (h : n < microsPerDay) :
    (ofMicros n).isValid = true ∧ (ofMicros n).micros = n := by
  rw [microsPerDay] at h
  refine ⟨isValid_iff.mpr ?_, ?_⟩
  · simp only [ofMicros]
    omega
  · simp only [ofMicros, micros]
    omega

end Time

namespace DateTime

/-- A moment that names a day and a time of it. -/
def IsValid (t : DateTime) : Prop :=
  t.date.isValid = true ∧ t.time.isValid = true

/-- Moments are ordered by their days, and within a day by their times, as their wall clocks are. -/
theorem compare_wall {a b : DateTime} (ha : a.IsValid) (hb : b.IsValid) :
    compare a.wall b.wall = (a.date.order b.date).then (compare a.time.micros b.time.micros) := by
  have hla := Time.micros_lt ha.2
  have hlb := Time.micros_lt hb.2
  rw [Time.microsPerDay] at hla hlb
  rw [Date.order_eq_compare ha.1 hb.1, wall, wall, Time.microsPerDay]
  rcases Nat.lt_trichotomy a.date.ordinal b.date.ordinal with hlt | heq | hgt
  · rw [Nat.compare_eq_lt.mpr hlt, Ordering.lt_then, compare_lt_iff_lt]
    omega
  · rw [heq, Nat.compare_eq_eq.mpr rfl, Ordering.eq_then]
    rcases Nat.lt_trichotomy a.time.micros b.time.micros with hmicros | hmicros | hmicros
    · rw [Nat.compare_eq_lt.mpr hmicros, compare_lt_iff_lt]
      omega
    · rw [Nat.compare_eq_eq.mpr hmicros, compare_eq_iff_eq]
      omega
    · rw [Nat.compare_eq_gt.mpr hmicros, compare_gt_iff_gt]
      omega
  · rw [Nat.compare_eq_gt.mpr hgt, Ordering.gt_then, compare_gt_iff_gt]
    omega

theorem ofWall?_spec {wall : ℤ} {offset : Option ℤ} {t : DateTime}
    (h : ofWall? wall offset = some t) : t.IsValid ∧ t.wall = wall ∧ t.offset = offset := by
  obtain ⟨d, hd, rfl⟩ := Option.map_eq_some_iff.mp h
  obtain ⟨hvalid, hordinal⟩ := Date.ofOrdinal?_spec hd
  have hpos : (0 : ℤ) < Time.microsPerDay := by decide
  have hlow := Int.emod_nonneg wall hpos.ne'
  have hhigh := Int.emod_lt_of_pos wall hpos
  obtain ⟨htime, hmicros⟩ := Time.ofMicros_spec (n := (wall % Time.microsPerDay).toNat) (by omega)
  refine ⟨⟨hvalid, htime⟩, ?_, rfl⟩
  have hparts := Int.mul_ediv_add_emod wall Time.microsPerDay
  simp only [DateTime.wall, hmicros, hordinal]
  rw [Int.toNat_of_nonneg hlow, add_sub_cancel_right, mul_comm]
  exact hparts

/-- The clock of a moment in universal time shows its instant. -/
theorem atOffset?_zero {t u : DateTime} (h : t.atOffset? 0 = some u) :
    u.IsValid ∧ u.wall = t.instant ∧ u.offset = some 0 := by
  rw [atOffset?] at h
  split at h
  · cases h
  · obtain ⟨hvalid, hwall, hoffset⟩ := ofWall?_spec h
    exact ⟨hvalid, by rw [hwall, add_zero], hoffset⟩

end DateTime
end PageQuery
