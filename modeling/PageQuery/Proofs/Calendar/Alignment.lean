import Mathlib
import PageQuery.Proofs.Calendar.Chronology
import PageQuery.Proofs.Predicate.Failing
import PageQuery.Proofs.Value.Comparison

/-!
# Ranges of moments compare instants

A moment and the bounds of a range need not be of one awareness: a naive bound is read at the offset of
an aware moment, and an aware one is moved to the local clock beside a naive moment.  Counted in
microseconds, all of this is a comparison of whole numbers, as the calendar loses nothing when a clock
is moved and orders moments as their microseconds do.
-/

namespace PageQuery

/-! ## The clock of a day -/

namespace Time

/-- The order of times of a day, field by field. -/
def order (a b : Time) : Ordering :=
  (compare a.hour b.hour).then ((compare a.minute b.minute).then
    ((compare a.second b.second).then (compare a.microsecond b.microsecond)))

/-- Numbers of two places are compared by the higher place first. -/
theorem compare_places {k x y r s : ℕ} (hr : r < k) (hs : s < k) :
    compare (x * k + r) (y * k + s) = (compare x y).then (compare r s) := by
  rcases Nat.lt_trichotomy x y with hlt | rfl | hgt
  · have hstep : (x + 1) * k ≤ y * k := Nat.mul_le_mul_right k hlt
    rw [Nat.add_mul, Nat.one_mul] at hstep
    rw [Nat.compare_eq_lt.mpr hlt, Ordering.lt_then, Nat.compare_eq_lt]
    omega
  · rw [Nat.compare_eq_eq.mpr rfl, Ordering.eq_then]
    rcases Nat.lt_trichotomy r s with hrest | hrest | hrest
    · rw [Nat.compare_eq_lt.mpr hrest, Nat.compare_eq_lt]
      omega
    · rw [Nat.compare_eq_eq.mpr hrest, Nat.compare_eq_eq]
      omega
    · rw [Nat.compare_eq_gt.mpr hrest, Nat.compare_eq_gt]
      omega
  · have hstep : (y + 1) * k ≤ x * k := Nat.mul_le_mul_right k hgt
    rw [Nat.add_mul, Nat.one_mul] at hstep
    rw [Nat.compare_eq_gt.mpr hgt, Ordering.gt_then, Nat.compare_eq_gt]
    omega

/-- Times of a day are ordered as their microseconds. -/
theorem order_eq_compare {a b : Time} (ha : a.isValid = true) (hb : b.isValid = true) :
    a.order b = compare a.micros b.micros := by
  obtain ⟨-, hminute, hsecond, hmicro⟩ := isValid_iff.mp ha
  obtain ⟨-, hminute', hsecond', hmicro'⟩ := isValid_iff.mp hb
  rw [micros, micros, compare_places hmicro hmicro', compare_places hsecond hsecond',
    compare_places hminute hminute', Ordering.then_assoc, Ordering.then_assoc, order]

end Time

namespace Date

/-- The days of the years 1 to 9999 are counted from one up to the last ordinal. -/
theorem ordinal_bounds {d : Date} (h : d.isValid = true) : 1 ≤ d.ordinal ∧ d.ordinal ≤ maxOrdinal := by
  obtain ⟨hlow, hhigh⟩ := lt_ordinal_year h
  have hyear : d.year + 1 ≤ 10000 := by
    have := (isValid_iff.mp h).1.2
    omega
  have hlast : daysBeforeYear 10000 = maxOrdinal := rfl
  exact ⟨by omega, hhigh.trans (hlast ▸ daysBeforeYear_mono hyear)⟩

end Date

namespace DateTime

/-! ## Clocks on the calendar -/

/-- Some day and time of the years 1 to 9999 shows a wall clock. -/
def OnCalendar (wall : ℤ) : Prop :=
  ∃ t : DateTime, t.IsValid ∧ t.wall = wall

/-- A clock that the calendar has is found on it. -/
theorem OnCalendar.exists_ofWall? {wall : ℤ} (h : OnCalendar wall) (offset : Option ℤ) :
    ∃ t, ofWall? wall offset = some t := by
  obtain ⟨t, ⟨hdate, htime⟩, rfl⟩ := h
  obtain ⟨hfirst, hlast⟩ := Date.ordinal_bounds hdate
  have hmicros := Time.micros_lt htime
  have hday : t.wall / Time.microsPerDay + 1 = t.date.ordinal := by
    rw [Time.microsPerDay] at hmicros
    rw [wall, Time.microsPerDay]
    omega
  have hrange : (decide (1 ≤ (t.date.ordinal : ℤ)) &&
      decide ((t.date.ordinal : ℤ) ≤ Date.maxOrdinal)) = true := by
    rw [Bool.and_eq_true, decide_eq_true_eq, decide_eq_true_eq]
    omega
  rw [ofWall?, hday, Date.ofOrdinal?, if_pos hrange]
  exact ⟨_, rfl⟩

/-! ## Bounds beside a moment -/

/-- The microseconds that a moment counts: of universal time if it says its offset, otherwise of the
clock on the wall. -/
def count (t : DateTime) : ℤ :=
  match t.offset with
  | some offset => t.wall - offset
  | none => t.wall

/-- The microseconds that a bound counts beside a moment.  Two of one awareness are counted alike; a
naive bound is read at the offset of an aware moment, and an aware bound shows a naive moment its clock
at the local offset. -/
def countBeside (zone : LocalZone) (value bound : DateTime) : ℤ :=
  match value.offset, bound.offset with
  | some _, some offset => bound.wall - offset
  | none, none => bound.wall
  | some offset, none => bound.wall - offset
  | none, some offset => bound.wall - offset + zone

/-- A bound can be shown beside a moment: if it is an aware one beside a naive moment, the calendar has
its clock in universal time and at the local offset. -/
def Admits (zone : LocalZone) (value bound : DateTime) : Prop :=
  value.offset = none → ∀ offset ∈ bound.offset,
    OnCalendar (bound.wall - offset) ∧ OnCalendar (bound.wall - offset + zone)

/-- The order of two moments, field by field from the year down to the microsecond. -/
def fieldOrder (a b : DateTime) : Ordering :=
  (a.date.order b.date).then (a.time.order b.time)

theorem count_eq_instant (t : DateTime) : t.count = t.instant := by
  rw [count, instant]
  split
  · rename_i offset hoffset
    rw [hoffset, Option.getD_some]
  · rename_i hoffset
    rw [hoffset, Option.getD_none, sub_zero]

theorem compare_wall_eq_fieldOrder {a b : DateTime} (ha : a.IsValid) (hb : b.IsValid) :
    compare a.wall b.wall = a.fieldOrder b := by
  rw [compare_wall ha hb, fieldOrder, Time.order_eq_compare ha.2 hb.2]

variable {zone : LocalZone} {value bound aligned : DateTime}

/-- A moved clock is found on the calendar again and shows the same instant. -/
theorem exists_atOffset? {offset : ℤ} (hoffset : bound.offset = some offset)
    (hutc : OnCalendar (bound.wall - offset)) (hlocal : OnCalendar (bound.wall - offset + zone)) :
    ∃ t, bound.atOffset? zone = some t ∧ t.wall = bound.wall - offset + zone := by
  have hinstant : bound.instant = bound.wall - offset := by
    rw [instant, hoffset, Option.getD_some]
  obtain ⟨u, hu⟩ := hutc.exists_ofWall? (some 0)
  obtain ⟨t, ht⟩ := hlocal.exists_ofWall? (some zone)
  refine ⟨t, ?_, (ofWall?_spec ht).2.1⟩
  rw [atOffset?, hinstant, hu]
  exact ht

/-- A bound that can be shown beside a moment is brought to its awareness, and then counts what it
counts beside that moment. -/
theorem Admits.exists_align? (h : value.Admits zone bound) :
    ∃ t, bound.align? zone value = some t ∧ t.count = value.countBeside zone bound := by
  cases hvalue : value.offset with
  | none =>
      cases hbound : bound.offset with
      | none =>
          exact ⟨bound, by simp [align?, hvalue, hbound], by simp [count, countBeside, hvalue, hbound]⟩
      | some offset =>
          obtain ⟨hutc, hlocal⟩ := h hvalue offset hbound
          obtain ⟨t, ht, hwall⟩ := exists_atOffset? hbound hutc hlocal
          refine ⟨{ t with offset := none }, by simp [align?, hvalue, hbound, ht], ?_⟩
          rw [countBeside, hvalue, hbound]
          exact hwall
  | some offset =>
      cases hbound : bound.offset with
      | none =>
          exact ⟨{ bound with offset := some offset, labelled := value.labelled },
            by simp [align?, hvalue, hbound], by simp [count, countBeside, hvalue, hbound, wall]⟩
      | some _ =>
          exact ⟨bound, by simp [align?, hvalue, hbound], by simp [count, countBeside, hvalue, hbound]⟩

/-- A bound that is brought to the awareness of a moment still names a day and a time of it. -/
theorem isValid_of_align? (hbound : bound.IsValid) (h : bound.align? zone value = some aligned) :
    aligned.IsValid := by
  rw [align?] at h
  split at h
  · rw [← Option.some.inj h]
    exact hbound
  · obtain ⟨moved, hmoved, rfl⟩ := Option.map_eq_some_iff.mp h
    rw [atOffset?] at hmoved
    split at hmoved
    · cases hmoved
    · exact (ofWall?_spec hmoved).1
  · rw [← Option.some.inj h]
    exact hbound

end DateTime

namespace Value

/-- A moment that may be absent, as a bound of a range. -/
def ofMoment? : Option DateTime → Value
  | Option.none => .none
  | some t => .datetime t

variable {zone : LocalZone} {value bound : DateTime}

theorem alignBound_datetime {aligned : Value}
    (h : alignBound zone (.datetime bound) (.datetime value) = .ok aligned) :
    ∃ t, bound.align? zone value = some t ∧ aligned = .datetime t := by
  rw [Predicate.alignBound_moment] at h
  cases ht : bound.align? zone value with
  | none =>
      rw [ht] at h
      cases h
  | some t =>
      rw [ht] at h
      exact ⟨t, rfl, (Except.ok.inj h).symm⟩

/-- A bound of a range, brought to the awareness of a moment, is absent as it was before, or a moment
that can be compared with that one. -/
theorem exists_alignBound {slot : Option DateTime}
    (h : ∀ bound ∈ slot, value.Admits zone bound) :
    ∃ aligned, alignBound zone (ofMoment? slot) (.datetime value) = .ok aligned ∧
      (slot = Option.none ∧ aligned = .none ∨
        ∃ bound t, slot = some bound ∧ aligned = .datetime t ∧ t.isAware = value.isAware ∧
          t.instant = value.countBeside zone bound) := by
  cases slot with
  | none => exact ⟨.none, rfl, .inl ⟨rfl, rfl⟩⟩
  | some bound =>
      obtain ⟨t, halign, hcount⟩ := (h bound rfl).exists_align?
      refine ⟨.datetime t, ?_, .inr ⟨bound, t, rfl, rfl, isAware_of_align? halign, ?_⟩⟩
      · rw [ofMoment?, Predicate.alignBound_moment, halign]
        rfl
      · rw [← DateTime.count_eq_instant, hcount]

/-- Whether a moment lies on the wrong side of a slot is told by what both count. -/
theorem exists_slot {slot : Option DateTime} (h : ∀ bound ∈ slot, value.Admits zone bound) :
    ∃ aligned, alignBound zone (ofMoment? slot) (.datetime value) = .ok aligned ∧
      (if aligned.isNone then .ok false else (datetime value).less aligned : Except Fault Bool) =
        .ok (slot.any fun bound => decide (value.count < value.countBeside zone bound)) ∧
      (if aligned.isNone then .ok false else aligned.less (.datetime value) : Except Fault Bool) =
        .ok (slot.any fun bound => decide (value.countBeside zone bound < value.count)) := by
  obtain ⟨aligned, halign, ⟨rfl, rfl⟩ | ⟨bound, t, rfl, rfl, haware, hinstant⟩⟩ := exists_alignBound h
  · exact ⟨.none, halign, rfl, rfl⟩
  · refine ⟨.datetime t, halign, ?_, ?_⟩
    · rw [if_neg (by simp [isNone]), less_datetime haware.symm, hinstant, ← DateTime.count_eq_instant,
        Option.any_some]
    · rw [if_neg (by simp [isNone]), less_datetime haware, hinstant, ← DateTime.count_eq_instant,
        Option.any_some]

theorem inRange_datetime {lower upper : Option DateTime}
    (hlower : ∀ bound ∈ lower, value.Admits zone bound)
    (hupper : ∀ bound ∈ upper, value.Admits zone bound) :
    inRange zone (.datetime value) (ofMoment? lower) (ofMoment? upper) =
      .ok (!(lower.any fun bound => decide (value.count < value.countBeside zone bound)) &&
        !(upper.any fun bound => decide (value.countBeside zone bound < value.count))) := by
  obtain ⟨low, hlow, hbelow, -⟩ := exists_slot hlower
  obtain ⟨high, hhigh, -, habove⟩ := exists_slot hupper
  rw [Predicate.inRange_eq rfl, hlow, Outcome.ok_bind, hhigh, Outcome.ok_bind, hbelow,
    Outcome.ok_bind, habove, Outcome.ok_bind]
  cases lower.any fun bound => decide (value.count < value.countBeside zone bound) <;> rfl

/-- Ranges compare instants.  A moment lies in a range exactly if it counts no fewer microseconds than
the lower bound and no more than the upper one, each bound counted as it is beside that moment.  A bound
that can be shown beside the moment is brought to its awareness, and nothing but a moment of that
awareness ever comes out; beside a naive moment the two are ordered by their fields, from the year
down to the microsecond, as they are by their clocks. -/
theorem inRange_datetime_iff {lower upper : Option DateTime}
    (hlower : ∀ bound ∈ lower, value.Admits zone bound)
    (hupper : ∀ bound ∈ upper, value.Admits zone bound) :
    (∃ verdict, inRange zone (.datetime value) (ofMoment? lower) (ofMoment? upper) = .ok verdict ∧
      (verdict = true ↔ (∀ bound ∈ lower, value.countBeside zone bound ≤ value.count) ∧
        ∀ bound ∈ upper, value.count ≤ value.countBeside zone bound)) ∧
    (∀ bound, value.Admits zone bound →
      ∃ aligned, alignBound zone (.datetime bound) (.datetime value) = .ok aligned) ∧
    ∀ bound aligned, alignBound zone (.datetime bound) (.datetime value) = .ok aligned →
      ∃ t, aligned = .datetime t ∧ t.isAware = value.isAware ∧
        (value.isAware = false → value.IsValid → bound.IsValid →
          compare value.wall t.wall = value.fieldOrder t) := by
  refine ⟨⟨_, inRange_datetime hlower hupper, ?_⟩, ?_, ?_⟩
  · cases lower <;> cases upper <;> simp
  · intro bound hbound
    obtain ⟨t, ht, -⟩ := hbound.exists_align?
    exact ⟨.datetime t, by rw [Predicate.alignBound_moment, ht]; rfl⟩
  · intro bound aligned haligned
    obtain ⟨t, ht, rfl⟩ := alignBound_datetime haligned
    refine ⟨t, rfl, isAware_of_align? ht, fun _ hvalue hbound => ?_⟩
    exact DateTime.compare_wall_eq_fieldOrder hvalue (DateTime.isValid_of_align? hbound ht)

/-- Half past midnight on the first of March, by a clock without an offset. -/
def afterLeapDay : DateTime := ⟨⟨2024, 3, 1⟩, ⟨0, 30, 0, 0⟩, Option.none, false⟩

/-- The same instant half an hour east of universal time, still on the leap day. -/
def onLeapDay : DateTime := ⟨⟨2024, 2, 29⟩, ⟨23, 0, 0, 0⟩, some 1800000000, false⟩

/-- Two hours east of universal time the bound falls on the moment itself, in the next month. -/
theorem inRange_datetime_iff_leapDay :
    (∀ bound ∈ some onLeapDay, afterLeapDay.Admits 7200000000 bound) ∧
      inRange 7200000000 (.datetime afterLeapDay) (.datetime onLeapDay) (.datetime onLeapDay) =
        .ok true := by
  have hadmits : ∀ bound ∈ some onLeapDay, afterLeapDay.Admits 7200000000 bound := by
    intro bound hbound
    obtain rfl := Option.mem_some.mp hbound
    intro _ offset hoffset
    obtain rfl := Option.mem_some.mp hoffset
    refine ⟨⟨⟨⟨2024, 2, 29⟩, ⟨22, 30, 0, 0⟩, Option.none, false⟩, ?_, ?_⟩, afterLeapDay, ?_, ?_⟩
    · exact ⟨by decide, by decide⟩
    · decide
    · exact ⟨by decide, by decide⟩
    · decide
  obtain ⟨verdict, hverdict, hiff⟩ := (inRange_datetime_iff hadmits hadmits).1
  have hcount : afterLeapDay.countBeside 7200000000 onLeapDay = afterLeapDay.count := by decide
  have htrue : verdict = true := by
    refine hiff.mpr ⟨?_, ?_⟩
    · intro bound hbound
      obtain rfl := Option.mem_some.mp hbound
      exact hcount.le
    · intro bound hbound
      obtain rfl := Option.mem_some.mp hbound
      exact hcount.ge
  exact ⟨hadmits, htrue ▸ hverdict⟩

end Value
end PageQuery
