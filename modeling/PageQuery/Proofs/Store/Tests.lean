import Mathlib
import PageQuery.Proofs.Predicate.Meaning
import PageQuery.Proofs.Store.Cells
import PageQuery.Store.Condition

/-!
# Tests of one cell

The three tests that a filter is made of, lowered to a test of a cell, ask of the cell what they ask
of the value that it decodes to: that it contains a piece, that it equals a value, or that it lies on
one side of a bound.
-/

namespace PageQuery

/-- Whether a cell, if it is there, meets what a verdict asks for. -/
def Verdict.passes : Verdict Demand → Option Cell → Bool
  | .never, _ => false
  | .always, _ => true
  | .depends d, cell => d.holds cell

/-- A verdict whose demand is put in another form. -/
def Verdict.map {α β : Type} (f : α → β) : Verdict α → Verdict β
  | .never => .never
  | .always => .always
  | .depends a => .depends (f a)

/-- A test asks of the cells that its column keeps that they pass: it is decided by the cell, and a
store can keep the numbers that it compares with. -/
def Test.Answers (t : Test) (keeps : Cell → Prop) (passes : Cell → Bool) : Prop :=
  ∃ v, t.demand true = .ok v ∧ v ≠ .always ∧
    (∀ d, v = .depends d → ∀ n, .whole n ∈ d.cells → Cell.fits n = true) ∧
    ∀ cell : Option Cell, keeps (cell.getD .absent) → v.passes cell = passes (cell.getD .absent)

theorem Test.Answers.mono {t : Test} {keeps keeps' : Cell → Prop} {passes : Cell → Bool}
    (h : t.Answers keeps passes) (hkeeps : ∀ c, keeps' c → keeps c) : t.Answers keeps' passes := by
  obtain ⟨v, hdemand, halways, hfits, hpasses⟩ := h
  exact ⟨v, hdemand, halways, hfits, fun cell hcell => hpasses cell (hkeeps _ hcell)⟩

/-! ## Containing a piece -/

theorem Test.prepare_containing (type : ColumnType) (piece : String) :
    Test.prepare true type .containing (.text piece) = .ok (.containing, .text piece) := rfl

theorem Test.answers_containing {p : Place} {piece : String} (htype : p.type = .text)
    (hpiece : IsPrintable piece) :
    Test.Answers ⟨p, [], .containing, .text piece⟩ ColumnType.text.Holds
      fun c => (ColumnType.text.valueOf c).containsText piece := by
  refine ⟨.depends (.like (Pattern.make false false piece)), ?_, nofun, ?_, fun cell hcell => ?_⟩
  · simp only [demand, isYearly, partType, htype]
    rfl
  · rintro d hd n hn
    cases hd
    cases hn
  · cases cell with
    | none => rfl
    | some c =>
        cases hcell with
        | absent => rfl
        | other hother => simp [ColumnType.isPlain] at hother
        | text h => exact h.matchesText_eq hpiece

/-! ## Equality -/

/-- The values that a plain column is compared with for equality. -/
inductive ColumnType.Compares : ColumnType → Value → Prop
  | text (s : String) : Compares .text (.text s)
  | integer {n : ℤ} (h : Cell.fits n = true) : Compares .integer (.int n)
  | natural {n : ℤ} (h : Cell.fits n = true) : Compares .natural (.int n)
  | boolean (b : Bool) : Compares .boolean (.bool b)

/-- The cell of a value that a plain column is compared with. -/
def Value.cell : Value → Cell
  | .text s => .text s
  | .int n => .whole n
  | .bool b => .whole (if b then 1 else 0)
  | _ => .absent

namespace ColumnType.Compares

variable {type : ColumnType} {w : Value}

theorem prepare (h : type.Compares w) : Test.prepare true type .equal w = .ok (.equal, w) := by
  cases h with
  | boolean b =>
      have hfit : fitBoolean (.bool b) = .ok (.bool b) := by
        rw [fitBoolean, Value.same_bool, Value.same_bool]
        cases b <;> rfl
      have hoperand : Test.operand true .boolean .equal (.bool b) = .ok (.bool b) := hfit
      rw [Test.prepare, hoperand]
      rfl
  | text | integer | natural => rfl

/-- Nothing equals a value that a column is compared with. -/
theorem same_none (h : type.Compares w) : Value.none.same w = .ok false := by
  cases h <;> simp only [Value.same, Value.asNum?, Value.bare, Value.sameAtom]

/-- A value equals one that its column is compared with if it is decoded from the same cell. -/
theorem same_eq (h : type.Compares w) {c : Cell} (hc : type.Holds c) :
    (type.valueOf c).same w = .ok (c == w.cell) := by
  cases hc with
  | absent =>
      rw [valueOf_absent, h.same_none]
      cases h <;> rfl
  | other hother => cases h <;> simp [isPlain] at hother
  | text h' =>
      cases h with
      | text s =>
          rw [valueOf, Value.same_text, Value.cell, Except.ok.injEq, Bool.eq_iff_iff]
          simp
  | integer n =>
      cases h with
      | integer hfits =>
          simp only [valueOf, Value.same_int, Value.cell, Except.ok.injEq]
          rw [Bool.eq_iff_iff]
          simp
  | natural h' =>
      cases h with
      | natural hfits =>
          simp only [valueOf, Value.same_int, Value.cell, Except.ok.injEq]
          rw [Bool.eq_iff_iff]
          simp
  | boolean b' =>
      cases h with
      | boolean b =>
          rw [valueOf_boolean, Value.same_bool]
          cases b <;> cases b' <;> rfl
  | date | dateTime => cases h

end ColumnType.Compares

/-- What a plain column holds equals a compared value's cell if it is ordered beside it. -/
theorem ColumnType.Compares.holds_equal {type : ColumnType} {w : Value} (h : type.Compares w)
    {cell : Option Cell} (hc : type.Holds (cell.getD .absent)) :
    (Demand.equal w.cell).holds cell = (cell.getD .absent == w.cell) := by
  rw [Demand.holds]
  generalize cell.getD .absent = c at hc
  have hwhole (m n : ℤ) : ((Cell.whole m).order (.whole n) == .eq) = (m == n) := by
    rw [Cell.order, Bool.eq_iff_iff, beq_iff_eq, beq_iff_eq, compare_eq_iff_eq]
  have hcells (m n : ℤ) : (m == n) = (Cell.whole m == Cell.whole n) := by
    rw [Bool.eq_iff_iff]
    simp
  cases hc with
  | absent => cases h <;> rfl
  | other hother => cases h <;> simp [isPlain] at hother
  | text h' =>
      cases h with
      | text s =>
          rename_i s'
          have htexts : ((Cell.text s').order (.text s) == .eq) = (Cell.text s' == Cell.text s) := by
            rw [Cell.order, Bool.eq_iff_iff, beq_iff_eq, beq_iff_eq, Cell.orderTexts_eq]
            simp
          exact htexts
  | integer m =>
      cases h with
      | integer hfits => exact (hwhole _ _).trans (hcells _ _)
  | natural h' =>
      cases h with
      | natural hfits => exact (hwhole _ _).trans (hcells _ _)
  | boolean b' =>
      cases h with
      | boolean b => exact (hwhole _ _).trans (hcells _ _)
  | date | dateTime => cases h

/-- A number that a store can keep is compared as it is, but one below zero equals nothing in a column
of numbers that are not negative. -/
theorem ColumnType.Compares.demand_eq {p : Place} {w : Value} (h : p.type.Compares w) :
    Test.demand true ⟨p, [], .equal, w⟩ = .ok (.depends (.equal w.cell)) ∨
      (∀ c, p.type.Holds c → (c == w.cell) = false) ∧
        Test.demand true ⟨p, [], .equal, w⟩ = .ok .never := by
  obtain ⟨relations, column, type, rest⟩ := p
  dsimp only at h
  cases h with
  | text s => exact .inl rfl
  | boolean b => exact .inl rfl
  | integer hfits =>
      rename_i n
      refine .inl ?_
      simp only [Cell.fits, Bool.and_eq_true, decide_eq_true_eq] at hfits
      have hlow : ¬ n < -(2 ^ 63) := by omega
      have hhigh : ¬ (2 ^ 63 - 1 : ℤ) < n := by omega
      simp only [Test.demand, Test.isYearly, Test.partType, Test.byRange, ColumnType.bounds?,
        List.getLast?_nil, Option.map_none, Option.getD_none, Bool.false_and, Bool.false_eq_true,
        if_false, if_neg hlow, if_neg hhigh]
      rfl
  | natural hfits =>
      rename_i n
      simp only [Cell.fits, Bool.and_eq_true, decide_eq_true_eq] at hfits
      have hhigh : ¬ (2 ^ 63 - 1 : ℤ) < n := by omega
      by_cases hneg : n < 0
      · refine .inr ⟨fun c hc => ?_, ?_⟩
        · cases hc with
          | absent => rfl
          | other hother => simp [isPlain] at hother
          | natural hpos =>
              rw [Value.cell, beq_eq_false_iff_ne, ne_eq, Cell.whole.injEq]
              omega
        · simp only [Test.demand, Test.isYearly, Test.partType, Test.byRange, ColumnType.bounds?,
            List.getLast?_nil, Option.map_none, Option.getD_none, Bool.false_and,
            Bool.false_eq_true, if_false, if_pos hneg]
      · refine .inl ?_
        simp only [Test.demand, Test.isYearly, Test.partType, Test.byRange, ColumnType.bounds?,
          List.getLast?_nil, Option.map_none, Option.getD_none, Bool.false_and, Bool.false_eq_true,
          if_false, if_neg hneg, if_neg hhigh]
        rfl

theorem ColumnType.Compares.fits_cell {type : ColumnType} {w : Value} (h : type.Compares w) {n : ℤ}
    (hn : .whole n ∈ (Demand.equal w.cell).cells) : Cell.fits n = true := by
  simp only [Demand.cells, List.mem_singleton] at hn
  cases h with
  | text s => cases hn
  | integer hfits | natural hfits =>
      rw [Value.cell, Cell.whole.injEq] at hn
      exact hn ▸ hfits
  | boolean b =>
      rw [Value.cell, Cell.whole.injEq] at hn
      cases b <;> subst hn <;> decide

theorem Test.answers_equal {p : Place} {w : Value} (h : p.type.Compares w) :
    Test.Answers ⟨p, [], .equal, w⟩ p.type.Holds fun c => c == w.cell := by
  rcases h.demand_eq with hdemand | ⟨hnone, hdemand⟩
  · refine ⟨_, hdemand, nofun, ?_, fun cell hcell => h.holds_equal hcell⟩
    rintro d hd n hn
    cases hd
    exact h.fits_cell hn
  · exact ⟨_, hdemand, nofun, nofun, fun cell hcell => (hnone _ hcell).symm⟩

/-- A moment as an aware one, a naive one being in universal time. -/
def Value.aware : Value → Value
  | .datetime t => .datetime (ColumnType.withZone true t)
  | v => v

/-- A column of a type tells the cells that it keeps by their equality with a value: a lookup asks for
those that pass, and so does a comparison with what a reader of the cell sees. -/
structure ColumnType.Tells (type : ColumnType) (keeps : Cell → Prop) (v : Value)
    (passes : Cell → Bool) : Prop where
  json : type ≠ .json
  aware : v.aware = v
  prepared : ∃ asked w, Test.prepare true type .equal v = .ok (asked, w) ∧
    ∀ p : Place, p.type = type → Test.Answers ⟨p, [], asked, w⟩ keeps passes
  same : ∀ c, keeps c → (type.read c).same v = .ok (passes c)

theorem ColumnType.Tells.mono {type : ColumnType} {keeps keeps' : Cell → Prop} {v : Value}
    {passes : Cell → Bool} (h : type.Tells keeps v passes) (hkeeps : ∀ c, keeps' c → keeps c) :
    type.Tells keeps' v passes := by
  obtain ⟨asked, w, hprepare, hanswers⟩ := h.prepared
  exact ⟨h.json, h.aware, ⟨asked, w, hprepare, fun p hp => (hanswers p hp).mono hkeeps⟩,
    fun c hc => h.same c (hkeeps c hc)⟩

theorem ColumnType.Compares.isPlain {type : ColumnType} {v : Value} (h : type.Compares v) :
    type.isPlain = true := by
  cases h <;> rfl

theorem ColumnType.Compares.isNone_bare {type : ColumnType} {v : Value} (h : type.Compares v) :
    v.bare.isNone = false := by
  cases h <;> rfl

/-- A plain column tells its cells by the values that it is compared with. -/
theorem ColumnType.Compares.tells {type : ColumnType} {v : Value} (h : type.Compares v) :
    type.Tells type.Holds v fun c => c == v.cell where
  json := by rintro rfl; cases h
  aware := by cases h <;> rfl
  prepared := ⟨.equal, v, h.prepare, fun _ hp => hp ▸ Test.answers_equal (hp ▸ h)⟩
  same c hc := by rw [hc.read_eq h.isPlain, h.same_eq hc]

/-! ## Bounds -/

theorem Store.given_eq_aware {s : Store} (hzoned : s.zoned = true) (hzone : s.zone = 0) (v : Value) :
    s.given v = v.aware := by
  cases v with
  | datetime t => simp only [given, Value.aware, ColumnType.withZone, hzoned, hzone]; split <;> rfl
  | _ => rfl

/-- The bounds that columns of days and moments are compared with, and their cells. -/
inductive ColumnType.Bounds : ColumnType → Value → Cell → Prop
  | date (d : Date) : Bounds .date (.date d) (.day d)
  | dateTime {t u : DateTime} (h : (withZone true t).atOffset? 0 = some u) :
      Bounds .dateTime (.datetime t) (.moment u.date u.time)

/-- A moment that a store keeps is ordered beside one in universal time as their instants are. -/
theorem Cell.order_moment {d : Date} {time : Time} (hd : d.isValid = true) (htime : time.isValid = true)
    {t u : DateTime} (hu : t.atOffset? 0 = some u) :
    (Cell.moment d time).order (.moment u.date u.time) =
      compare (DateTime.instant ⟨d, time, some 0, false⟩) t.instant := by
  obtain ⟨hvalid, hwall, -⟩ := DateTime.atOffset?_zero hu
  have hmoment : DateTime.IsValid ⟨d, time, some 0, false⟩ := ⟨hd, htime⟩
  rw [← hwall, Cell.order, ← DateTime.compare_wall hmoment hvalid, DateTime.instant]
  simp

theorem ColumnType.isAware_withZone (t : DateTime) : (withZone true t).isAware = true := by
  rw [withZone]
  split
  · rfl
  · rename_i haware
    simpa using haware

namespace ColumnType.Bounds

variable {type : ColumnType} {b : Value} {β : Cell}

theorem prepare (h : type.Bounds b β) {comparison : Comparison}
    (hc : comparison = .atLeast ∨ comparison = .atMost) :
    Test.prepare true type comparison b.aware = .ok (comparison, b.aware) := by
  cases h with
  | date d => rcases hc with rfl | rfl <;> rfl
  | dateTime hu =>
      rename_i t u
      have hfit : fitDateTime true (.datetime (withZone true t)) =
          .ok (.datetime (withZone true t)) := by
        rw [fitDateTime]
        have haware := isAware_withZone t
        generalize withZone true t = t' at haware
        simp [withZone, haware]
      have hoperand {comparison : Comparison} :
          Test.operand true .dateTime comparison (.datetime (withZone true t)) =
            .ok (.datetime (withZone true t)) := hfit
      rcases hc with rfl | rfl
      · rw [Test.prepare, Value.aware, hoperand]
        rfl
      · rw [Test.prepare, Value.aware, hoperand]
        rfl

theorem encode (h : type.Bounds b β) : type.encode true b.aware = .ok β := by
  cases h with
  | date d => rfl
  | dateTime hu =>
      simp only [Value.aware, ColumnType.encode, encodeMoment, isAware_withZone, universal, hu]
      rfl

theorem demand (h : type.Bounds b β) {p : Place} (htype : p.type = type) :
    Test.demand true ⟨p, [], .atLeast, b.aware⟩ = .ok (.depends (.atLeast β)) ∧
      Test.demand true ⟨p, [], .atMost, b.aware⟩ = .ok (.depends (.atMost β)) := by
  have hencode := h.encode
  subst htype
  obtain ⟨relations, column, type, rest⟩ := p
  dsimp only at h hencode
  have hbounds : type.bounds? = none := by cases h <;> rfl
  constructor
  · simp only [Test.demand, Test.isYearly, Test.partType, Test.byRange, hbounds, hencode,
      List.getLast?_nil, Option.map_none, Option.getD_none, Bool.false_and, Bool.false_eq_true,
      if_false]
    rfl
  · simp only [Test.demand, Test.isYearly, Test.partType, Test.byRange, hbounds, hencode,
      List.getLast?_nil, Option.map_none, Option.getD_none, Bool.false_and, Bool.false_eq_true,
      if_false]
    rfl

theorem isAbsent_eq (h : type.Bounds b β) : β.isAbsent = false := by
  cases h <;> rfl

theorem isNone_eq (h : type.Bounds b β) : b.isNone = false := by
  cases h <;> rfl

/-- A bound at the offset of universal time is aware and shows the instant of its moment. -/
theorem align?_utc (t : DateTime) {v : DateTime} (hv : v.offset = some 0) :
    ∃ t', t.align? 0 v = some t' ∧ t'.isAware = true ∧
      t'.instant = (withZone true t).instant := by
  cases ht : t.offset with
  | none =>
      refine ⟨{ t with offset := some 0, labelled := v.labelled }, ?_, rfl, ?_⟩
      · simp only [DateTime.align?, hv, ht]
      · simp [withZone, DateTime.isAware, ht, DateTime.instant, DateTime.wall]
  | some offset =>
      refine ⟨t, ?_, ?_, ?_⟩
      · simp only [DateTime.align?, hv, ht]
      · simp [DateTime.isAware, ht]
      · simp [withZone, DateTime.isAware, ht]

/-- Brought to the awareness of a value, a bound is ordered beside it as its cell beside the cell of
the value. -/
theorem align (h : type.Bounds b β) {c : Cell} (hc : type.Holds c) (hsome : c ≠ .absent) :
    ∃ b', Value.alignBound 0 b (type.valueOf c) = .ok b' ∧ b'.isNone = false ∧
      (type.valueOf c).less b' = .ok (c.order β == .lt) ∧
      b'.less (type.valueOf c) = .ok (c.order β == .gt) := by
  cases h with
  | date d =>
      cases hc with
      | absent => exact absurd rfl hsome
      | other hother => simp [isPlain] at hother
      | date hd =>
          rename_i e
          refine ⟨.date d, rfl, rfl, Value.less_date e d, ?_⟩
          rw [valueOf, Value.less_date, Cell.order, Date.order_swap d e]
          cases e.order d <;> rfl
  | dateTime hu =>
      cases hc with
      | absent => exact absurd rfl hsome
      | other hother => simp [isPlain] at hother
      | dateTime hd ht =>
          rename_i t u d time
          let v : DateTime := ⟨d, time, some 0, false⟩
          obtain ⟨t', halign, haware, hinstant⟩ := align?_utc t (v := v) rfl
          have hv : v.isAware = t'.isAware := haware.symm
          have horder : (Cell.moment d time).order (.moment u.date u.time) =
              compare v.instant t'.instant := by
            rw [hinstant, Cell.order_moment hd ht hu]
          refine ⟨.datetime t', ?_, rfl, ?_, ?_⟩
          · exact (Predicate.alignBound_moment 0 t v).trans (by rw [halign]; rfl)
          · rw [valueOf, Value.less_datetime hv, horder, Except.ok.injEq, Bool.eq_iff_iff]
            simp [compare_lt_iff_lt, v]
          · rw [valueOf, Value.less_datetime hv.symm, horder, Except.ok.injEq, Bool.eq_iff_iff]
            simp [compare_gt_iff_gt, v]

end ColumnType.Bounds

/-- A slot of a range: open, or a bound with its cell. -/
def ColumnType.Slot (type : ColumnType) (v : Value) : Option Cell → Prop
  | none => v = .none
  | some β => type.Bounds v β

/-- Whether a cell lies between two slots; an absent one never does. -/
def Cell.between (low high : Option Cell) (c : Cell) : Bool :=
  !c.isAbsent && low.all (fun β => c.order β != .lt) && high.all fun β => c.order β != .gt

/-- A value lies in a range if its cell lies between the cells of the bounds. -/
theorem ColumnType.inRange_eq {type : ColumnType} (htype : type.isPlain = true) {lower upper : Value}
    {low high : Option Cell} (hlow : type.Slot lower low) (hhigh : type.Slot upper high) {c : Cell}
    (hc : type.Holds c) :
    Value.inRange 0 (type.valueOf c) lower upper = .ok (c.between low high) := by
  by_cases hnone : c = .absent
  · subst hnone
    rw [valueOf_absent]
    rfl
  have hthere : c.isAbsent = false := by simpa [Cell.isAbsent] using hnone
  have hsome : (type.valueOf c).isNone = false := by rw [hc.isNone_valueOf htype, hthere]
  have halign : ∀ {v : Value} {slot : Option Cell}, type.Slot v slot →
      ∃ v', Value.alignBound 0 v (type.valueOf c) = .ok v' ∧
        (if v'.isNone then .ok false else (type.valueOf c).less v') =
          .ok (slot.any fun β => c.order β == .lt) ∧
        (if v'.isNone then .ok false else v'.less (type.valueOf c)) =
          .ok (slot.any fun β => c.order β == .gt) := by
    intro v slot hslot
    cases slot with
    | none =>
        obtain rfl : v = .none := hslot
        exact ⟨.none, rfl, rfl, rfl⟩
    | some β =>
        obtain ⟨b', hb, hb', hless, hless'⟩ := hslot.align hc hnone
        exact ⟨b', hb, by simpa [hb'] using hless, by simpa [hb'] using hless'⟩
  obtain ⟨low', hlow', hbelow, -⟩ := halign hlow
  obtain ⟨high', hhigh', -, habove⟩ := halign hhigh
  rw [Predicate.inRange_eq hsome]
  simp only [hlow', hhigh', hbelow, habove, Outcome.ok_bind, Cell.between, hthere]
  have hbelow' : (low.all fun β => c.order β != .lt) = !low.any fun β => c.order β == .lt := by
    cases low <;> simp [bne]
  have habove' : (high.all fun β => c.order β != .gt) = !high.any fun β => c.order β == .gt := by
    cases high <;> simp [bne]
  rw [hbelow', habove']
  cases low.any fun β => c.order β == .lt <;> simp

theorem ColumnType.Bounds.answers {type : ColumnType} {b : Value} {β : Cell} (h : type.Bounds b β)
    {p : Place} (htype : p.type = type) :
    Test.Answers ⟨p, [], .atLeast, b.aware⟩ type.Holds (Cell.between (some β) none) ∧
      Test.Answers ⟨p, [], .atMost, b.aware⟩ type.Holds (Cell.between none (some β)) := by
  obtain ⟨hlow, hhigh⟩ := h.demand htype
  have hfits : ∀ n, .whole n ∈ [β] → Cell.fits n = true := by
    intro n hn
    cases h <;> cases List.mem_singleton.mp hn
  constructor
  · refine ⟨_, hlow, nofun, ?_, fun cell _ => ?_⟩
    · rintro d hd n hn
      cases hd
      exact hfits n hn
    · simp [Verdict.passes, Demand.holds, Demand.related, Cell.between, h.isAbsent_eq]
  · refine ⟨_, hhigh, nofun, ?_, fun cell _ => ?_⟩
    · rintro d hd n hn
      cases hd
      exact hfits n hn
    · simp [Verdict.passes, Demand.holds, Demand.related, Cell.between, h.isAbsent_eq]

end PageQuery
