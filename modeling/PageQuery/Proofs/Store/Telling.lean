import Mathlib
import PageQuery.Proofs.Store.Decimals
import PageQuery.Proofs.Store.Tests

/-!
# What columns tell by equality

A column is asked by equality which of its cells stand for a value.  The lookup compares cells, a reader
compares what the cells are read as, and for each type of column there are values for which both come to
the same: nothing, days, moments in any zone, times of day, identifiers, and durations, real numbers and
decimals of at most fifteen digits where the column holds nothing else.
-/

namespace PageQuery

/-- Nothing equals only what is nothing itself. -/
theorem Value.none_same (v : Value) : Value.none.same v = .ok v.bare.isNone := by
  have hatom : sameAtom .none v.bare = v.bare.isNone := by
    cases v.bare <;> rfl
  rw [same, ← hatom]
  · rfl
  all_goals simp

/-- What is no member of an enumeration equals nothing only if it is nothing itself. -/
theorem Value.same_none {v : Value} (hv : v.isMember = false) : v.same .none = .ok v.isNone := by
  cases v with
  | list | tuple | set | mapping | record => simp [same, bare, isNone]
  | member => cases hv
  | none => rw [none_same]; rfl
  | _ => simp only [same, asNum?, bare, sameAtom, isNone]

/-- A real number that is not not-a-number is none in decimal either. -/
theorem Num.toDecimal_binary_ne {x : Binary64} (hx : x ≠ .nan) (n signalling : Bool) (p : ℕ) :
    (Num.binary x).toDecimal ≠ .nan n signalling p := by
  cases x with
  | nan => exact absurd rfl hx
  | infinite => simp [toDecimal]
  | finite =>
      rw [toDecimal]
      split <;> simp

theorem Decimal.isSignalling_of_ne {a : Decimal} (h : ∀ n signalling p, a ≠ .nan n signalling p) :
    a.isSignalling = false := by
  cases a with
  | nan n signalling p => exact absurd rfl (h n signalling p)
  | infinite | finite => rfl

namespace ColumnType

/-- What is read from a cell is no member of an enumeration, and it is nothing only if the cell holds
nothing. -/
theorem unmixed_of_decode {type : ColumnType} {c : Cell} {v : Value} (h : type.decode true c = .ok v) :
    v.isMember = false ∧ v.isNone = c.isAbsent := by
  cases c with
  | absent =>
      obtain rfl : Value.none = v := by cases type <;> exact Except.ok.inj h
      exact ⟨rfl, rfl⟩
  | whole n =>
      cases type with
      | decimal digits places =>
          rw [decode] at h
          split at h
          · obtain rfl := Except.ok.inj h
            exact ⟨rfl, rfl⟩
          · cases h
          · simp
      | boolean =>
          obtain rfl := Except.ok.inj h
          split_ifs <;> exact ⟨rfl, rfl⟩
      | _ =>
          obtain rfl := Except.ok.inj h
          exact ⟨rfl, rfl⟩
  | _ =>
      cases type with
      | decimal digits places =>
          rw [decode] at h
          split at h
          · obtain rfl := Except.ok.inj h
            exact ⟨rfl, rfl⟩
          · cases h
          · simp
      | _ =>
          obtain rfl := Except.ok.inj h
          exact ⟨rfl, rfl⟩

/-- Every column but a free-form one tells its empty cells. -/
theorem tells_none {type : ColumnType} (hjson : type ≠ .json) :
    type.Tells type.Holds .none Cell.isAbsent where
  json := hjson
  aware := rfl
  prepared := by
    refine ⟨.missing, .bool true, ?_, fun p hp => ⟨.depends (.missing true), ?_, nofun, ?_, ?_⟩⟩
    · cases type with
      | json => exact absurd rfl hjson
      | _ => rfl
    · rfl
    · rintro d ⟨⟩ n hn
      cases hn
    · intro cell _
      simp [Verdict.passes, Demand.holds]
  same c hc := by
    obtain ⟨v, hv⟩ := hc.exists_decode
    obtain ⟨hunmixed, habsent⟩ := unmixed_of_decode hv
    rw [read, hv, Value.same_none hunmixed, habsent]

/-- A column tells the cells that equal the one of a value, if that is fitted to itself and equals what
the same cells are read as. -/
theorem tells_of_encode {type : ColumnType} {keeps : Cell → Prop} {v : Value} {β : Cell}
    (hjson : type ≠ .json) (haware : v.aware = v) (hbounds : type.bounds? = none)
    (hprepare : Test.prepare true type .equal v = .ok (.equal, v))
    (hencode : type.encode true v = .ok β) (hfits : ∀ n, β = .whole n → Cell.fits n = true)
    (hvalue : v.bare.isNone = false) (hcell : β.isAbsent = false)
    (hsame : ∀ c, keeps c → c ≠ .absent → (type.read c).same v = .ok (c.order β == .eq)) :
    type.Tells keeps v fun c => Demand.related (· == .eq) c β where
  json := hjson
  aware := haware
  prepared := by
    refine ⟨.equal, v, hprepare, fun p hp => ⟨.depends (.equal β), ?_, nofun, ?_, fun _ _ => rfl⟩⟩
    · subst hp
      simp only [Test.demand, Test.isYearly, Test.partType, Test.byRange, hbounds, hencode,
        List.getLast?_nil, Option.map_none, Option.getD_none, Bool.false_and, Bool.false_eq_true,
        if_false]
      rfl
    · rintro d ⟨⟩ n hn
      exact hfits n (List.mem_singleton.mp hn).symm
  same c hc := by
    by_cases habsent : c = .absent
    · rw [habsent, read_absent, Value.none_same, hvalue]
      rfl
    · have hthere : c.isAbsent = false := by simpa [Cell.isAbsent] using habsent
      rw [hsame c hc habsent, Demand.related, hthere, hcell]
      rfl

theorem tells_date (d : Date) :
    date.Tells date.Holds (.date d) fun c => Demand.related (· == .eq) c (.day d) := by
  refine tells_of_encode nofun rfl rfl rfl rfl nofun rfl rfl fun c hc hthere => ?_
  rw [hc.read_eq rfl]
  cases hc with
  | absent => exact absurd rfl hthere
  | other hother => cases hother
  | date hvalid =>
      rw [valueOf, Value.same_date, Cell.order, Except.ok.injEq, Bool.eq_iff_iff, beq_iff_eq,
        beq_iff_eq, Date.order_eq_iff]

/-- Moments tell an aware one that universal time has. -/
theorem tells_dateTime {t u : DateTime} (haware : t.isAware = true) (hu : t.atOffset? 0 = some u) :
    dateTime.Tells dateTime.Holds (.datetime t)
      fun c => Demand.related (· == .eq) c (.moment u.date u.time) := by
  have hzone : withZone true t = t := by simp [withZone, haware]
  refine tells_of_encode (by simp) ?_ rfl ?_ ?_ (by simp) rfl rfl fun c hc hthere => ?_
  · rw [Value.aware, hzone]
  · have hoperand : Test.operand true .dateTime .equal (.datetime t) = .ok (.datetime t) := by
      have hfit : fitDateTime true (.datetime t) = .ok (.datetime t) := by
        simp only [fitDateTime, hzone]
      exact hfit
    rw [Test.prepare, hoperand]
    rfl
  · simp only [ColumnType.encode, encodeMoment, haware, universal, hu]
    rfl
  · rw [hc.read_eq rfl]
    cases hc with
    | absent => exact absurd rfl hthere
    | other hother => cases hother
    | dateTime hd htime =>
        have hsame (d : Date) (time : Time) : DateTime.isAware ⟨d, time, some 0, false⟩ = t.isAware :=
          haware.symm
        rw [valueOf, Value.same_datetime (hsame _ _), Cell.order_moment hd htime hu]

/-- Cells of different kinds are not equal, and neither are the values that stand for them. -/
theorem tells_uuid (n : ℕ) :
    uuid.Tells (fun _ => True) (.uuid n) fun c => Demand.related (· == .eq) c (.identifier n) := by
  refine tells_of_encode nofun rfl rfl rfl rfl nofun rfl rfl fun c _ hthere => ?_
  cases c with
  | absent => exact absurd rfl hthere
  | identifier m =>
      have hsame : (Value.uuid m).same (.uuid n) = .ok (m == n) := by
        simp only [Value.same, Value.asNum?, Value.bare, Value.sameAtom]
      have hread : uuid.read (.identifier m) = .uuid m := rfl
      rw [hread, hsame, Cell.order, Except.ok.injEq, Bool.eq_iff_iff, beq_iff_eq, beq_iff_eq,
        compare_eq_iff_eq]
  | whole | real | text | day | moment | clock =>
      simp [read, decode, Value.same, Value.asNum?, Value.bare, Value.sameAtom, Cell.order,
        Cell.num?, Cell.rank]

theorem tells_time (t : Time) :
    time.Tells (fun _ => True) (.time t none) fun c => Demand.related (· == .eq) c (.clock t) := by
  refine tells_of_encode nofun rfl rfl rfl rfl nofun rfl rfl fun c _ hthere => ?_
  cases c with
  | absent => exact absurd rfl hthere
  | clock u =>
      have hsame : (Value.time u none).same (.time t none) = .ok (u.micros == t.micros) := by
        simp [Value.same, Value.asNum?, Value.bare, Value.sameAtom, Value.timeMicros]
      have hread : time.read (.clock u) = .time u none := rfl
      rw [hread, hsame, Cell.order, Except.ok.injEq, Bool.eq_iff_iff, beq_iff_eq, beq_iff_eq,
        compare_eq_iff_eq]
  | whole | real | text | day | moment | identifier =>
      simp [read, decode, Value.same, Value.asNum?, Value.bare, Value.sameAtom, Cell.order,
        Cell.num?, Cell.rank]

/-- Durations that are kept as whole numbers tell one that a store can keep. -/
theorem tells_duration {n : ℤ} (hfits : Cell.fits n = true) :
    duration.Tells (fun c => c = .absent ∨ ∃ m, c = .whole m) (.duration n)
      fun c => Demand.related (· == .eq) c (.whole n) := by
  refine tells_of_encode nofun rfl rfl rfl rfl ?_ rfl rfl fun c hc hthere => ?_
  · rintro m ⟨⟩
    exact hfits
  · obtain ⟨m, rfl⟩ := hc.resolve_left hthere
    have hsame : (Value.duration m).same (.duration n) = .ok (m == n) := by
      simp only [Value.same, Value.asNum?, Value.bare, Value.sameAtom]
    have hread : duration.read (.whole m) = .duration m := rfl
    rw [hread, hsame, Cell.order, Except.ok.injEq, Bool.eq_iff_iff, beq_iff_eq, beq_iff_eq,
      compare_eq_iff_eq]

/-- Real numbers, none of which is not-a-number, tell one of them. -/
theorem tells_float {x : Binary64} (hx : x ≠ .nan) :
    float.Tells (fun c => c = .absent ∨ ∃ y, y ≠ .nan ∧ c = .real y) (.float x)
      fun c => Demand.related (· == .eq) c (.real x) := by
  have hencode : encode true .float (.float x) = .ok (.real x) := by
    cases x with
    | nan => exact absurd rfl hx
    | _ => rfl
  refine tells_of_encode (by simp) rfl rfl rfl hencode (by simp) rfl rfl fun c hc hthere => ?_
  obtain ⟨y, hy, rfl⟩ := hc.resolve_left hthere
  have hread : float.read (.real y) = .float y := rfl
  have hy := Num.toDecimal_binary_ne hy
  have hx := Num.toDecimal_binary_ne hx
  obtain ⟨o, horder⟩ := Decimal.exists_order hy hx
  have hcells : (Cell.real y).order (.real x) = o := by
    rw [Cell.order]
    · simp only [Cell.num?, horder, Option.getD_some]
    all_goals simp
  have hsame : (Num.binary y).same (.binary x) = .ok (some o == some .eq) := by
    rw [Num.same, Decimal.isSignalling_of_ne hy, Decimal.isSignalling_of_ne hx, horder]
    rfl
  rw [hread, hcells]
  simp only [Value.same, Value.asNum?, Value.bare, hsame]
  cases o <;> rfl

/-- Decimals of at most fifteen digits that a column keeps tell one of them. -/
theorem tells_decimal {digits places : ℕ} {d : Decimal} (hdigits : digits ≤ 15) (hplaces : places ≤ digits)
    (hd : d.IsKept digits places) :
    (decimal digits places).Tells
      (fun c => c = .absent ∨ ∃ d', d'.IsKept digits places ∧ c = Cell.ofDecimal d') (.decimal d)
      fun c => Demand.related (· == .eq) c (Cell.ofDecimal d) := by
  obtain ⟨negative, k, m, t, hkept⟩ := hd.exists_keptAs hdigits hplaces
  obtain ⟨b, e, rfl⟩ := hkept.finite
  have hthere : (Cell.ofDecimal (.finite negative b e)).isAbsent = false := by
    rw [Cell.isAbsent, beq_eq_false_iff_ne]
    intro habsent
    have hcell := hkept.cell
    rw [habsent] at hcell
    cases hcell
  refine tells_of_encode (by simp) rfl rfl rfl rfl (fun _ => Cell.fits_of_ofDecimal) rfl hthere
    fun c hc hne => ?_
  obtain ⟨d', hd', rfl⟩ := hc.resolve_left hne
  exact same_ofDecimal hdigits hplaces hd hd'

end ColumnType

/-- A value whose equals in the columns of a type a lookup and a reader recognize alike: one that a plain
column is compared with, nothing, or a value of the kind that the columns keep.  Of columns for which a
store takes more than they are meant for, it is asked that they keep nothing else. -/
inductive Store.Recognizes (s : Store) : ColumnType → Value → Prop
  | plain {type : ColumnType} {v : Value} (hv : type.Compares v) : Recognizes s type v
  | nothing {type : ColumnType} (hjson : type ≠ .json) : Recognizes s type .none
  | day (d : Date) : Recognizes s .date (.date d)
  | moment {t : DateTime} (haware : t.isAware = true) (hzone : (t.atOffset? 0).isSome = true) :
      Recognizes s .dateTime (.datetime t)
  | identifier (n : ℕ) : Recognizes s .uuid (.uuid n)
  | clock (t : Time) : Recognizes s .time (.time t none)
  | duration {n : ℤ} (hfits : Cell.fits n = true)
      (hcells : ∀ c, s.Holding .duration c → c = .absent ∨ ∃ m, c = .whole m) :
      Recognizes s .duration (.duration n)
  | real {x : Binary64} (hx : x ≠ .nan)
      (hcells : ∀ c, s.Holding .float c → c = .absent ∨ ∃ y, y ≠ .nan ∧ c = .real y) :
      Recognizes s .float (.float x)
  | decimal {digits places : ℕ} {d : Decimal} (hdigits : digits ≤ 15) (hplaces : places ≤ digits)
      (hd : d.IsKept digits places)
      (hcells : ∀ c, s.Holding (.decimal digits places) c →
        c = .absent ∨ ∃ d', d'.IsKept digits places ∧ c = Cell.ofDecimal d') :
      Recognizes s (.decimal digits places) (.decimal d)
  | other {type : ColumnType} {v : Value} {passes : Cell → Bool}
      (hv : type.Tells (s.Holding type) v passes) : Recognizes s type v

/-- The columns of a sound store tell the values that are recognized. -/
theorem Store.Recognizes.exists_tells {s : Store} {type : ColumnType} {v : Value}
    (h : s.Recognizes type v) (hs : s.Sound) :
    ∃ passes, type.Tells (s.Holding type) v passes := by
  have hholds {type : ColumnType} : ∀ c, s.Holding type c → type.Holds c := fun _ hc => hc.holds hs
  cases h with
  | plain hv => exact ⟨_, hv.tells.mono hholds⟩
  | nothing hjson => exact ⟨_, (ColumnType.tells_none hjson).mono hholds⟩
  | day d => exact ⟨_, (ColumnType.tells_date d).mono hholds⟩
  | moment haware hzone =>
      obtain ⟨u, hu⟩ := Option.isSome_iff_exists.mp hzone
      exact ⟨_, (ColumnType.tells_dateTime haware hu).mono hholds⟩
  | identifier n => exact ⟨_, (ColumnType.tells_uuid n).mono fun _ _ => trivial⟩
  | clock t => exact ⟨_, (ColumnType.tells_time t).mono fun _ _ => trivial⟩
  | duration hfits hcells => exact ⟨_, (ColumnType.tells_duration hfits).mono hcells⟩
  | real hx hcells => exact ⟨_, (ColumnType.tells_float hx).mono hcells⟩
  | decimal hdigits hplaces hd hcells =>
      exact ⟨_, (ColumnType.tells_decimal hdigits hplaces hd).mono hcells⟩
  | other hv => exact ⟨_, hv⟩

end PageQuery
