import Mathlib
import PageQuery.Proofs.Calendar.Chronology
import PageQuery.Proofs.Calendar.Heads
import PageQuery.Proofs.Request.Taxonomy

/-!
# Dates and moments name the same days

A field of dates reads a text as a date first and as a moment second, a field of moments the other way
round.  Either accepts what the other one does, because a text that is found to name an impossible day in
one form is read in no other form.  Both name the same day as well, but for one form: behind a compact week
date the reader of dates passes over two more digits, and the reader of moments takes the day of the week
for a separator and the two digits for an hour of the Monday.
-/

namespace PageQuery

open PageQuery.Text

namespace Iso

/-! ## Both standard readers -/

theorem readDate_eq_some {s : String} {d : Date} (h : readDate s = some d) :
    ((octets s).length = 7 ∨ (octets s).length = 8 ∨ (octets s).length = 10) ∧
      date? (octets s) = some d := by
  rw [readDate] at h
  split at h
  · rename_i hlength
    exact ⟨by simpa [or_assoc] using hlength, h⟩
  · cases h

theorem readDateTime_eq_some {s : String} {t : DateTime} (h : readDateTime s = some t) :
    ∃ stop, dateEnd (octets s) = some stop ∧ date? ((octets s).take stop) = some t.date ∧
      ∀ o rest, (octets s).drop stop = o :: rest →
        timeAndOffset? ((o :: rest).drop (charWidth o)) = some (t.time, t.offset) ∧
          t.labelled = false := by
  obtain ⟨stop, hstop, hmoment⟩ := Option.bind_eq_some_iff.mp h
  obtain ⟨date, hdate, hclock⟩ := Option.bind_eq_some_iff.mp hmoment
  refine ⟨stop, hstop, ?_⟩
  split at hclock
  · rename_i hnil
    obtain rfl := Option.some.inj hclock
    exact ⟨hdate, fun o rest hcons => by rw [hnil] at hcons; cases hcons⟩
  · rename_i o rest hcons
    obtain ⟨⟨time, offset⟩, htime, hmade⟩ := Option.bind_eq_some_iff.mp hclock
    obtain rfl := Option.some.inj hmade
    refine ⟨hdate, fun o' rest' hcons' => ?_⟩
    obtain ⟨rfl, rfl⟩ := List.cons.inj (hcons.symm.trans hcons')
    exact ⟨htime, rfl⟩

/-- Two digits are the hour of a clock. -/
theorem timeAndOffset?_hour {hs : List Char} (hhs : AreFigures hs) (hhour : hs.length = 2) :
    timeAndOffset? (hs.map code) =
      if figuresValue hs < 24 then some (⟨figuresValue hs, 0, 0, 0⟩, none) else none := by
  have hmake : Time.make? (figuresValue hs) 0 0 0 =
      if figuresValue hs < 24 then some ⟨figuresValue hs, 0, 0, 0⟩ else none := by
    simp [Time.make?, Time.isValid]
  have hbody : ∀ o ∈ hs.map code, (!beginsOffset o) = true := by
    intro o ho
    obtain ⟨c, hc, rfl⟩ := List.mem_map.mp ho
    rw [beginsOffset_code_of_isDigit (hhs c hc)]
    rfl
  have hread := digits?_of_length hhs hhour []
  rw [List.append_nil] at hread
  have hclock : clock? (first []) (hs.map code) = some ⟨figuresValue hs, 0, 0, 0, false⟩ := by
    rw [clock?, clockFrom, hread]
    rfl
  rw [timeAndOffset?, List.takeWhile_eq_self_iff.mpr hbody, List.dropWhile_eq_nil_iff.mpr hbody, hclock]
  change (Time.make? (figuresValue hs) 0 0 0).map (fun t => (t, none)) = _
  rw [hmake]
  split <;> rfl

/-- A compact week date that goes on behind the day of the week with two digits, which an hour is written
in: its day and the Monday of its week, which is another day. -/
inductive IsWeekHour (s : String) : Date → Date → ℕ → Prop
  | intro {ys ws ds hs : List Char} {d monday : Date} (htext : s.toList = ys ++ 'W' :: (ws ++ (ds ++ hs)))
      (hys : AreFigures ys) (hws : AreFigures ws) (hds : AreFigures ds) (hhs : AreFigures hs)
      (hyear : ys.length = 4) (hweek : ws.length = 2) (hday : ds.length = 1) (hhour : hs.length = 2)
      (hd : Date.ofWeek? (figuresValue ys) (figuresValue ws) (figuresValue ds) = some d)
      (hmonday : Date.ofWeek? (figuresValue ys) (figuresValue ws) 1 = some monday)
      (hlater : figuresValue ds ≠ 1) (hclock : figuresValue hs < 24) :
      IsWeekHour s d monday (figuresValue hs)

theorem exists_figures {os : List UInt8} (h : ∀ o ∈ os, (digit? o).isSome = true) :
    ∃ ds, AreFigures ds ∧ os = ds.map code := by
  induction os with
  | nil => exact ⟨[], List.forall_mem_nil _, rfl⟩
  | cons o os ih =>
      obtain ⟨ho, hos⟩ := List.forall_mem_cons.mp h
      obtain ⟨n, hn⟩ := Option.isSome_iff_exists.mp ho
      obtain ⟨c, hc, rfl, -⟩ := exists_figure_of_digit? hn
      obtain ⟨ds, hds, rfl⟩ := ih hos
      exact ⟨c :: ds, List.forall_mem_cons.mpr ⟨hc, hds⟩, rfl⟩

theorem isSome_digit?_of_mem {ds : List Char} (h : AreFigures ds) :
    ∀ o ∈ ds.map code, (digit? o).isSome = true := by
  intro o ho
  obtain ⟨c, hc, rfl⟩ := List.mem_map.mp ho
  rw [digit?_code (h c hc)]
  rfl

theorem weekDay?_eq_some {rest : List UInt8} {day : ℕ} (h : weekDay? false rest = some day) :
    (rest = [] ∧ day = 1) ∨ ∃ ds more, AreFigures ds ∧ ds.length = 1 ∧ rest = ds.map code ++ more ∧
      day = figuresValue ds := by
  rw [weekDay?] at h
  split at h
  · rename_i hempty
    exact .inl ⟨List.isEmpty_iff.mp hempty, (Option.some.inj h).symm⟩
  · obtain ⟨⟨x, more⟩, hread, rfl⟩ := Option.map_eq_some_iff.mp h
    obtain ⟨ds, hds, hday, hrest, hx⟩ := digits?_eq_some hread
    exact .inr ⟨ds, more, hds, hday, hrest, hx⟩

theorem weekDay?_figures {ds : List Char} (hds : AreFigures ds) (hday : ds.length = 1) (more : List UInt8) :
    weekDay? false (ds.map code ++ more) = some (figuresValue ds) := by
  have hne : (ds.map code ++ more).isEmpty = false := by
    obtain ⟨c, rfl⟩ := List.length_eq_one_iff.mp hday
    rfl
  rw [weekDay?, hne]
  simp only [Bool.false_eq_true, if_false, hyphen?, Option.bind_some, digits?_of_length hds hday,
    Option.map_some]

/-- A calendar date is read from its octets alone, so a moment has it as well. -/
theorem date?_take_calendar {hyphens : Bool} {ys ms ds : List Char} {rest : List UInt8} {stop : ℕ}
    (hys : AreFigures ys) (hms : AreFigures ms) (hds : AreFigures ds) (hyear : ys.length = 4)
    (hmonth : ms.length = 2) (hday : ds.length = 2)
    (hstop : dateEnd (ys.map code ++ (hyphen hyphens ++
      (ms.map code ++ (hyphen hyphens ++ (ds.map code ++ rest))))) = some stop) :
    date? ((ys.map code ++ (hyphen hyphens ++
      (ms.map code ++ (hyphen hyphens ++ (ds.map code ++ rest))))).take stop) =
        Date.make? (figuresValue ys) (figuresValue ms) (figuresValue ds) := by
  have hsplit : ys.map code ++ (hyphen hyphens ++ (ms.map code ++ (hyphen hyphens ++ (ds.map code ++ rest)))) =
      (ys.map code ++ (hyphen hyphens ++ (ms.map code ++ (hyphen hyphens ++ (ds.map code ++ []))))) ++
        rest := by simp
  have hlength : (ys.map code ++ (hyphen hyphens ++
      (ms.map code ++ (hyphen hyphens ++ (ds.map code ++ []))))).length = stop := by
    cases hyphens with
    | true =>
        simp only [hyphen, if_true, List.singleton_append] at hstop ⊢
        rw [dateEnd_calendar_hyphens _ hms hyear hmonth (by simp; omega)] at hstop
        simp [hyear, hmonth, hday, ← Option.some.inj hstop]
    | false =>
        simp only [hyphen, Bool.false_eq_true, if_false, List.nil_append] at hstop ⊢
        rw [dateEnd_calendar_compact _ hms hyear hmonth (by simp; omega)] at hstop
        simp [hyear, hmonth, hday, ← Option.some.inj hstop]
  rw [hsplit, List.take_left' hlength, date?_calendar hyphens [] hys hms hds hyear hmonth hday]

/-- A week date with hyphens is the whole text if it is a date, so a moment has it as well. -/
theorem take_week_hyphens {ys ws : List Char} {rest : List UInt8} {day stop : ℕ} (hyear : ys.length = 4)
    (hweek : ws.length = 2)
    (hlength : (ys.map code ++ code '-' :: code 'W' :: (ws.map code ++ rest)).length ∈ [7, 8, 10])
    (hread : weekDay? true rest = some day)
    (hstop : dateEnd (ys.map code ++ code '-' :: code 'W' :: (ws.map code ++ rest)) = some stop) :
    (ys.map code ++ code '-' :: code 'W' :: (ws.map code ++ rest)).take stop =
      ys.map code ++ code '-' :: code 'W' :: (ws.map code ++ rest) := by
  have hcount : (ys.map code ++ code '-' :: code 'W' :: (ws.map code ++ rest)).length = 8 + rest.length := by
    simp
    omega
  have hrest : rest = [] ∨ rest.length = 2 ∧ first rest = code '-' := by
    rw [weekDay?] at hread
    split at hread
    · rename_i hempty
      exact .inl (List.isEmpty_iff.mp hempty)
    · rename_i hempty
      have hpos : rest.length ≠ 0 := mt List.length_eq_zero_iff.mp (mt List.isEmpty_iff.mpr hempty)
      obtain ⟨behind, hhyphen, -⟩ := Option.bind_eq_some_iff.mp hread
      have hfirst : first rest = code '-' := by
        by_contra hne
        rw [hyphen?, if_pos rfl, if_neg hne] at hhyphen
        cases hhyphen
      simp only [hcount, List.mem_cons, List.not_mem_nil, or_false] at hlength
      exact .inr ⟨by omega, hfirst⟩
  rw [dateEnd_week_hyphens hyear hweek hrest] at hstop
  exact List.take_of_length_le (by rw [hcount, Option.some.inj hstop])

/-- Where a day of the week stands behind a compact week and the date of a moment ends, which is before the
day if it is followed by two digits. -/
theorem stop_of_week_compact {ys ws ds : List Char} {more : List UInt8} {stop : ℕ} (hyear : ys.length = 4)
    (hweek : ws.length = 2) (hds : AreFigures ds) (hday : ds.length = 1) (hmore : more.length ≤ 2)
    (hstop : dateEnd (ys.map code ++ code 'W' :: (ws.map code ++ (ds.map code ++ more))) = some stop) :
    stop = 8 ∨ stop = 7 ∧ ∃ hs, AreFigures hs ∧ hs.length = 2 ∧ more = hs.map code := by
  have hne : ds.map code ++ more ≠ [] := by
    obtain ⟨c, rfl⟩ := List.length_eq_one_iff.mp hday
    exact List.cons_ne_nil _ _
  have hrun := (List.takeWhile_prefix (l := more) fun o => (digit? o).isSome).length_le
  rw [dateEnd_week_compact hyear hweek, if_neg hne, List.takeWhile_append_of_pos (isSome_digit?_of_mem hds),
    List.length_append, List.length_map, hday] at hstop
  replace hstop := Option.some.inj hstop
  dsimp only at hstop
  split at hstop
  · exact .inl (by omega)
  · split at hstop
    · have hwhole : (more.takeWhile fun o => (digit? o).isSome).length = more.length := by omega
      have hall := (List.takeWhile_prefix (l := more) fun o => (digit? o).isSome).eq_of_length hwhole
      obtain ⟨hs, hhs, rfl⟩ := exists_figures (List.takeWhile_eq_self_iff.mp hall)
      rw [List.length_map] at hwhole hmore
      exact .inr ⟨hstop.symm, hs, hhs, by omega, rfl⟩
    · exact .inl hstop.symm

theorem charWidth_figure {c : Char} (h : c.isDigit = true) : charWidth (code c) = 1 := by
  obtain ⟨-, hhigh⟩ := toNat_of_isDigit h
  have hcode := code_toNat (c := c) (by omega)
  rw [charWidth, if_pos]
  rw [UInt8.lt_iff_toNat_lt, hcode]
  exact Nat.lt_of_le_of_lt hhigh (by decide)

theorem octets_week {s : String} {ys ws ds hs : List Char} (hys : AreFigures ys) (hws : AreFigures ws)
    (hds : AreFigures ds) (hhs : AreFigures hs) :
    octets s = ys.map code ++ code 'W' :: (ws.map code ++ (ds.map code ++ hs.map code)) ↔
      s.toList = ys ++ 'W' :: (ws ++ (ds ++ hs)) := by
  have hmarks : AreMarks (ys ++ 'W' :: (ws ++ (ds ++ hs))) :=
    hys.marks.append (.cons (by decide) (hws.marks.append (hds.marks.append hhs.marks)))
  have hcodes : ys.map code ++ code 'W' :: (ws.map code ++ (ds.map code ++ hs.map code)) =
      (ys ++ 'W' :: (ws ++ (ds ++ hs))).map code := by simp
  rw [hcodes]
  constructor
  · intro h
    obtain ⟨rest, htext, hrest⟩ := eq_append_of_octets [] hmarks (by rw [List.append_nil]; exact h)
    have hnil : rest = [] := by
      cases rest with
      | nil => rfl
      | cons c rest =>
          rw [List.flatMap_cons, List.append_eq_nil_iff] at hrest
          exact absurd hrest.1 String.utf8EncodeChar_ne_nil
    rw [htext, hnil, List.append_nil]
  · intro h
    rw [octets_of_marks (h ▸ hmarks), h]

theorem date?_week_compact {ys ws : List Char} (rest : List UInt8) (hys : AreFigures ys)
    (hws : AreFigures ws) (hyear : ys.length = 4) (hweek : ws.length = 2) :
    date? (ys.map code ++ code 'W' :: (ws.map code ++ rest)) =
      (weekDay? false rest).bind (Date.ofWeek? (figuresValue ys) (figuresValue ws)) :=
  date?_week false rest hys hws hyear hweek

/-- Up to the week a compact week date has seven octets. -/
theorem split_week_compact {ys ws : List Char} (rest : List UInt8) (hyear : ys.length = 4)
    (hweek : ws.length = 2) :
    (ys.map code ++ code 'W' :: (ws.map code ++ rest)).take 7 =
        ys.map code ++ code 'W' :: (ws.map code ++ []) ∧
      (ys.map code ++ code 'W' :: (ws.map code ++ rest)).drop 7 = rest := by
  have hsplit : ys.map code ++ code 'W' :: (ws.map code ++ rest) =
      (ys.map code ++ code 'W' :: (ws.map code ++ [])) ++ rest := by simp
  have hlength : (ys.map code ++ code 'W' :: (ws.map code ++ [])).length = 7 := by
    simp
    omega
  rw [hsplit]
  exact ⟨List.take_left' hlength, List.drop_left' hlength⟩

theorem take_week_compact {ys ws ds : List Char} {more : List UInt8} (hyear : ys.length = 4)
    (hweek : ws.length = 2) (hday : ds.length = 1) :
    (ys.map code ++ code 'W' :: (ws.map code ++ (ds.map code ++ more))).take 8 =
      ys.map code ++ code 'W' :: (ws.map code ++ (ds.map code ++ [])) := by
  have hsplit : ys.map code ++ code 'W' :: (ws.map code ++ (ds.map code ++ more)) =
      (ys.map code ++ code 'W' :: (ws.map code ++ (ds.map code ++ []))) ++ more := by simp
  rw [hsplit]
  exact List.take_left' (by simp; omega)

/-- What a moment takes from digits for an hour behind a compact week date: the Monday and the hour. -/
theorem date_eq_of_weekHour {s : String} {d : Date} {t : DateTime} {ys ws ds hs : List Char}
    (hos : ys.map code ++ code 'W' :: (ws.map code ++ (ds.map code ++ hs.map code)) = octets s)
    (hys : AreFigures ys) (hws : AreFigures ws) (hds : AreFigures ds) (hhs : AreFigures hs)
    (hyear : ys.length = 4) (hweek : ws.length = 2) (hday : ds.length = 1) (hhour : hs.length = 2)
    (hd : Date.ofWeek? (figuresValue ys) (figuresValue ws) (figuresValue ds) = some d)
    (hhead : date? ((ys.map code ++ code 'W' :: (ws.map code ++ (ds.map code ++ hs.map code))).take 7) =
      some t.date)
    (hbehind : ∀ o rest,
      (ys.map code ++ code 'W' :: (ws.map code ++ (ds.map code ++ hs.map code))).drop 7 = o :: rest →
        timeAndOffset? ((o :: rest).drop (charWidth o)) = some (t.time, t.offset) ∧ t.labelled = false) :
    t.date = d ∨ IsWeekHour s d t.date t.time.hour := by
  obtain ⟨htake, hdrop⟩ := split_week_compact (ds.map code ++ hs.map code) hyear hweek
  have hmonday : Date.ofWeek? (figuresValue ys) (figuresValue ws) 1 = some t.date := by
    rw [← hhead, htake, date?_week_compact [] hys hws hyear hweek]
    rfl
  by_cases hone : figuresValue ds = 1
  · rw [hone, hmonday] at hd
    exact .inl (Option.some.inj hd)
  · obtain ⟨c, rfl⟩ := List.length_eq_one_iff.mp hday
    obtain ⟨hclock, -⟩ := hbehind (code c) (hs.map code) hdrop
    rw [charWidth_figure (hds c List.mem_cons_self), List.drop_succ_cons, List.drop_zero,
      timeAndOffset?_hour hhs hhour] at hclock
    split at hclock
    · rename_i hbelow
      have hhourOf : t.time.hour = figuresValue hs :=
        congrArg (fun p => p.1.hour) (Option.some.inj hclock).symm
      rw [hhourOf]
      exact .inr (.intro ((octets_week hys hws hds hhs).mp hos.symm) hys hws hds hhs hyear hweek hday hhour
        hd hmonday hone hbelow)
    · cases hclock

/-- Where both standard readers read a text, they name the same day, unless digits for an hour stand behind
a compact week date. -/
theorem date_eq_of_readDateTime {s : String} {d : Date} {t : DateTime} (hd : readDate s = some d)
    (ht : readDateTime s = some t) : t.date = d ∨ IsWeekHour s d t.date t.time.hour := by
  obtain ⟨hlength, hdate⟩ := readDate_eq_some hd
  obtain ⟨stop, hstop, hhead, hbehind⟩ := readDateTime_eq_some ht
  obtain ⟨os, hos⟩ : ∃ os, os = octets s := ⟨_, rfl⟩
  rw [← hos] at hlength hdate hstop hhead hbehind
  cases beginsDate_of_date? hdate with
  | calendar hyphens rest hys hms hds hyear hmonth hday =>
      rw [date?_calendar hyphens rest hys hms hds hyear hmonth hday] at hdate
      rw [date?_take_calendar hys hms hds hyear hmonth hday hstop, hdate] at hhead
      exact .inl (Option.some.inj hhead).symm
  | @week hyphens ys ws rest hys hws hyear hweek =>
      have hread := hdate
      rw [date?_week hyphens rest hys hws hyear hweek] at hread
      obtain ⟨day, hday, hweekDay⟩ := Option.bind_eq_some_iff.mp hread
      cases hyphens with
      | true =>
          simp only [hyphen, if_true, List.singleton_append] at hlength hdate hstop hhead
          rw [take_week_hyphens hyear hweek (by simpa using hlength) hday hstop, hdate] at hhead
          exact .inl (Option.some.inj hhead).symm
      | false =>
          simp only [hyphen, Bool.false_eq_true, if_false, List.nil_append] at hos hlength hdate hstop hhead hbehind
          rcases weekDay?_eq_some hday with ⟨rfl, rfl⟩ | ⟨ds, more, hds, hone, rfl, rfl⟩
          · rw [dateEnd_week_compact hyear hweek, if_pos rfl] at hstop
            obtain rfl := Option.some.inj hstop
            rw [List.take_of_length_le (by simp; omega), hdate] at hhead
            exact .inl (Option.some.inj hhead).symm
          · have hmore : more.length ≤ 2 := by
              simp at hlength
              omega
            rcases stop_of_week_compact hyear hweek hds hone hmore hstop with rfl | ⟨rfl, hs, hhs, hhour, rfl⟩
            · rw [take_week_compact hyear hweek hone, date?_week_compact _ hys hws hyear hweek,
                weekDay?_figures hds hone, Option.bind_some, hweekDay] at hhead
              exact .inl (Option.some.inj hhead).symm
            · exact date_eq_of_weekHour hos hys hws hds hhs hyear hweek hone hhour hweekDay hhead hbehind

/-- The day and the Monday of a week lie as far apart as the day of the week says. -/
theorem ordinal_ofWeek? {year week day : ℕ} {d monday : Date} (hd : Date.ofWeek? year week day = some d)
    (hmonday : Date.ofWeek? year week 1 = some monday) : d.ordinal + 1 = monday.ordinal + day := by
  rw [Date.ofWeek?] at hd hmonday
  split at hd
  · cases hd
  · split at hmonday
    · cases hmonday
    · have hday := (Date.ofOrdinal?_spec hd).2
      have hfirst := (Date.ofOrdinal?_spec hmonday).2
      omega

/-- Both standard readers read such a text, the one as the day and the other one as an hour of the Monday,
which are different days. -/
theorem IsWeekHour.reads {s : String} {d monday : Date} {hour : ℕ} (h : IsWeekHour s d monday hour) :
    readDate s = some d ∧ readDateTime s = some ⟨monday, ⟨hour, 0, 0, 0⟩, none, false⟩ ∧ monday ≠ d := by
  obtain ⟨htext, hys, hws, hds, hhs, hyear, hweek, hday, hhour, hd, hmonday, hlater, hclock⟩ := h
  rename_i ys ws ds hs
  have hos := (octets_week hys hws hds hhs).mpr htext
  obtain ⟨htake, hdrop⟩ := split_week_compact (ds.map code ++ hs.map code) hyear hweek
  have hstop : dateEnd (octets s) = some 7 := by
    have hrun : (ds.map code ++ hs.map code).takeWhile (fun o => (digit? o).isSome) =
        ds.map code ++ hs.map code :=
      List.takeWhile_eq_self_iff.mpr fun o ho => (List.mem_append.mp ho).elim (isSome_digit?_of_mem hds o)
        (isSome_digit?_of_mem hhs o)
    have hne : ds.map code ++ hs.map code ≠ [] := by
      rw [← List.length_pos_iff]
      simp
      omega
    rw [hos, dateEnd_week_compact hyear hweek, if_neg hne, hrun, List.length_append, List.length_map,
      List.length_map, hday, hhour]
    rfl
  refine ⟨?_, ?_, ?_⟩
  · have hlength : (octets s).length = 10 := by
      rw [hos]
      simp
      omega
    rw [readDate, hlength, hos, date?_week_compact _ hys hws hyear hweek, weekDay?_figures hds hday]
    exact hd
  · obtain ⟨c, rfl⟩ := List.length_eq_one_iff.mp hday
    have hdate : date? ((octets s).take 7) = some monday := by
      rw [hos, htake, date?_week_compact [] hys hws hyear hweek]
      exact hmonday
    have hbehind : (octets s).drop 7 = code c :: hs.map code := by
      rw [hos, hdrop]
      rfl
    simp only [readDateTime, hstop, hdate, hbehind, Option.bind_eq_bind, Option.bind_some,
      charWidth_figure (hds c List.mem_cons_self), List.drop_succ_cons, List.drop_zero,
      timeAndOffset?_hour hhs hhour, if_pos hclock]
  · intro heq
    have hapart := ordinal_ofWeek? hd hmonday
    rw [heq] at hapart
    omega

end Iso

/-! ## The looser forms -/

namespace Written

theorem digits?_length {low high : ℕ} {cs ds rest : List Char} (h : digits? low high cs = some (ds, rest)) :
    low + rest.length ≤ cs.length := by
  rw [digits?] at h
  split at h
  · cases h
  · rename_i hlow
    obtain ⟨rfl, rfl⟩ := Prod.mk.inj (Option.some.inj h)
    have hrun := (List.takeWhile_prefix (l := cs.take high) Text.isDigit).length_le
    have htake := List.length_take_le' high cs
    rw [List.length_drop]
    omega

theorem char?_eq_some {c : Char} {cs rest : List Char} (h : char? c cs = some rest) : cs = c :: rest := by
  cases cs with
  | nil => cases h
  | cons d cs =>
      rw [char?] at h
      split at h
      · rename_i heq
        rw [heq, Option.some.inj h]
      · cases h

theorem dateFields?_length {cs rest : List Char} {fields : ℕ × ℕ × ℕ}
    (h : dateFields? cs = some (fields, rest)) : 8 + rest.length ≤ cs.length := by
  obtain ⟨⟨year, cs1⟩, hyear, h⟩ := Option.bind_eq_some_iff.mp h
  obtain ⟨cs2, hhyphen, h⟩ := Option.bind_eq_some_iff.mp h
  obtain ⟨⟨month, cs3⟩, hmonth, h⟩ := Option.bind_eq_some_iff.mp h
  obtain ⟨cs4, hhyphen', h⟩ := Option.bind_eq_some_iff.mp h
  obtain ⟨⟨day, cs5⟩, hday, h⟩ := Option.bind_eq_some_iff.mp h
  obtain ⟨-, rfl⟩ := Prod.mk.inj (Option.some.inj h)
  have h1 := digits?_length hyear
  have h2 := congrArg List.length (char?_eq_some hhyphen)
  have h3 := digits?_length hmonth
  have h4 := congrArg List.length (char?_eq_some hhyphen')
  have h5 := digits?_length hday
  rw [List.length_cons] at h2 h4
  omega

theorem timeFields?_length {cs rest : List Char} {fields : ℕ × ℕ × ℕ × ℕ}
    (h : timeFields? cs = some (fields, rest)) : 3 ≤ cs.length := by
  obtain ⟨⟨hour, cs1⟩, hhour, h⟩ := Option.bind_eq_some_iff.mp h
  obtain ⟨cs2, hcolon, h⟩ := Option.bind_eq_some_iff.mp h
  obtain ⟨⟨minute, cs3⟩, hminute, -⟩ := Option.bind_eq_some_iff.mp h
  have h1 := digits?_length hhour
  have h2 := congrArg List.length (char?_eq_some hcolon)
  have h3 := digits?_length hminute
  rw [List.length_cons] at h2
  omega

/-- The looser form of a moment begins with that of a date, and a separator and a clock follow. -/
theorem dateTimeFields?_eq_some {cs : List Char} {fields : (ℕ × ℕ × ℕ) × (ℕ × ℕ × ℕ × ℕ) × Zone}
    (h : dateTimeFields? cs = some fields) :
    ∃ date c rest, dateFields? cs = some (date, c :: rest) ∧ (c = 'T' ∨ c = ' ') ∧ 3 ≤ rest.length := by
  obtain ⟨⟨date, cs1⟩, hdate, h⟩ := Option.bind_eq_some_iff.mp h
  obtain ⟨cs2, hseparator, h⟩ := Option.bind_eq_some_iff.mp h
  obtain ⟨⟨time, cs3⟩, htime, -⟩ := Option.bind_eq_some_iff.mp h
  have hlength := timeFields?_length htime
  rcases hchar : char? 'T' cs1 with _ | rest
  · rw [hchar] at hseparator
    obtain rfl := char?_eq_some hseparator
    exact ⟨date, ' ', cs2, hdate, .inr rfl, hlength⟩
  · rw [hchar] at hseparator
    obtain rfl := Option.some.inj hseparator
    obtain rfl := char?_eq_some hchar
    exact ⟨date, 'T', rest, hdate, .inl rfl, hlength⟩

theorem looseDateTime_unreadable {s : String} (h : dateTimeFields? s.toList = none) :
    looseDateTime s = .unreadable := by
  rw [looseDateTime, h]

theorem length_le_octets (s : String) : s.toList.length ≤ (Iso.octets s).length := by
  have hchars (cs : List Char) : cs.length ≤ (cs.flatMap String.utf8EncodeChar).length := by
    induction cs with
    | nil => rfl
    | cons c cs ih =>
        have hone := List.length_pos_iff.mpr (String.utf8EncodeChar_ne_nil (c := c))
        rw [List.flatMap_cons, List.length_append, List.length_cons]
        omega
  exact hchars s.toList

/-- A date in its standard form is too short for the looser form of a moment. -/
theorem looseDateTime_of_readDate {s : String} {d : Date} (h : Iso.readDate s = some d) :
    looseDateTime s = .unreadable := by
  obtain ⟨hlength, -⟩ := Iso.readDate_eq_some h
  have hshort := length_le_octets s
  rcases hfields : dateTimeFields? s.toList with _ | fields
  · exact looseDateTime_unreadable hfields
  · obtain ⟨date, c, rest, hdate, -, hclock⟩ := dateTimeFields?_eq_some hfields
    have hlong := dateFields?_length hdate
    rw [List.length_cons] at hlong
    omega

/-- A text has one looser form at most: what ends behind the date has no clock. -/
theorem looseDateTime_of_looseDate {s : String} (h : looseDate s ≠ .unreadable) :
    looseDateTime s = .unreadable := by
  rcases hfields : dateTimeFields? s.toList with _ | fields
  · exact looseDateTime_unreadable hfields
  · obtain ⟨date, c, rest, hdate, hc, -⟩ := dateTimeFields?_eq_some hfields
    have hgoesOn : atEnd (c :: rest) = false := by
      rcases hc with rfl | rfl <;> rfl
    refine absurd ?_ h
    rw [looseDate, hdate]
    exact if_neg (by rw [hgoesOn]; decide)

theorem digits?_figures {ds : List Char} (h : AreFigures ds) {low high : ℕ} (hlow : low ≤ ds.length)
    (hhigh : ds.length = high) (rest : List Char) :
    digits? low high (ds ++ rest) = some (ds, rest) := by
  have hrun : ((ds ++ rest).take high).takeWhile Text.isDigit = ds := by
    rw [List.take_left' hhigh]
    exact List.takeWhile_eq_self_iff.mpr fun c hc => isDigit_of_figure (h c hc)
  rw [digits?, hrun, if_neg (by omega), List.drop_left]

theorem char?_self (c : Char) (cs : List Char) : char? c (c :: cs) = some cs :=
  if_pos rfl

theorem char?_of_ne {c d : Char} (h : c ≠ d) (cs : List Char) : char? c (d :: cs) = none :=
  if_neg h

theorem digits?_of_letter {c : Char} (h : Text.isDigit c = false) (cs : List Char) :
    digits? 1 2 (c :: cs) = none := by
  rw [digits?, List.take_succ_cons, List.takeWhile_cons_of_neg (by rw [h]; decide)]
  rfl

/-- Behind the year the looser form of a date has a hyphen and a digit. -/
theorem dateFields?_of_year {ys : List Char} (hys : AreFigures ys) (hyear : ys.length = 4) (cs : List Char) :
    dateFields? (ys ++ cs) = (char? '-' cs).bind fun cs => (digits? 1 2 cs).bind fun (month, cs) =>
      (char? '-' cs).bind fun cs => (digits? 1 2 cs).bind fun (day, cs) =>
        some ((figuresValue ys, digitsValue month, digitsValue day), cs) := by
  rw [dateFields?, digits?_figures hys (by omega) hyear, ← digitsValue_of_figures hys]
  rfl

theorem dateFields?_calendar {ys ms ds : List Char} (hys : AreFigures ys) (hms : AreFigures ms)
    (hds : AreFigures ds) (hyear : ys.length = 4) (hmonth : ms.length = 2) (hday : ds.length = 2)
    (rest : List Char) :
    dateFields? (ys ++ '-' :: (ms ++ '-' :: (ds ++ rest))) =
      some ((figuresValue ys, figuresValue ms, figuresValue ds), rest) := by
  have hms' (cs : List Char) : digits? 1 2 (ms ++ cs) = some (ms, cs) :=
    digits?_figures hms (by omega) hmonth cs
  have hds' (cs : List Char) : digits? 1 2 (ds ++ cs) = some (ds, cs) :=
    digits?_figures hds (by omega) hday cs
  rw [dateFields?_of_year hys hyear]
  simp only [char?_self, Option.bind_some, hms', hds', digitsValue_of_figures hms,
    digitsValue_of_figures hds]

/-- Where a standard date stands at the head of a text, the looser form of a date names the same day. -/
theorem dateFields?_of_date? {s : String} {n : ℕ} {d : Date} {fields : ℕ × ℕ × ℕ} {rest : List Char}
    (hdate : Iso.date? ((Iso.octets s).take n) = some d)
    (hfields : dateFields? s.toList = some (fields, rest)) :
    Date.make? fields.1 fields.2.1 fields.2.2 = some d := by
  have hos : s.toList.flatMap String.utf8EncodeChar = _ := (List.take_append_drop n (Iso.octets s)).symm
  generalize (Iso.octets s).drop n = tail at hos
  generalize (Iso.octets s).take n = head at hdate hos
  have hhyphen : AreMarks ['-'] := List.forall_mem_singleton.mpr (by decide)
  cases Iso.beginsDate_of_date? hdate with
  | @calendar hyphens ys ms ds more hys hms hds hyear hmonth hday =>
      rw [Iso.date?_calendar hyphens more hys hms hds hyear hmonth hday] at hdate
      cases hyphens with
      | true =>
          obtain ⟨behind, htext, -⟩ := Iso.eq_append_of_octets (more ++ tail)
            (hys.marks.append (hhyphen.append (hms.marks.append (hhyphen.append hds.marks))))
            (by rw [hos]; simp [Iso.hyphen])
          simp only [List.append_assoc, List.cons_append, List.nil_append] at htext
          rw [htext, dateFields?_calendar hys hms hds hyear hmonth hday] at hfields
          obtain ⟨rfl, -⟩ := Prod.mk.inj (Option.some.inj hfields)
          exact hdate
      | false =>
          obtain ⟨behind, htext, -⟩ := Iso.eq_append_of_octets (ds.map Iso.code ++ (more ++ tail))
            (hys.marks.append hms.marks) (by rw [hos]; simp [Iso.hyphen])
          obtain ⟨m, ms, rfl⟩ := List.exists_cons_of_ne_nil (List.ne_nil_of_length_pos (by omega : 0 < ms.length))
          have hm : m ≠ '-' := hms.ne_of_mem List.mem_cons_self (by decide)
          rw [htext, List.append_assoc, dateFields?_of_year hys hyear, List.cons_append,
            char?_of_ne hm.symm] at hfields
          cases hfields
  | @week hyphens ys ws more hys hws hyear hweek =>
      have hletter : AreMarks ['W'] := List.forall_mem_singleton.mpr (by decide)
      cases hyphens with
      | true =>
          obtain ⟨behind, htext, -⟩ := Iso.eq_append_of_octets (ws.map Iso.code ++ (more ++ tail))
            (hys.marks.append (hhyphen.append hletter)) (by rw [hos]; simp [Iso.hyphen])
          simp only [List.append_assoc, List.cons_append, List.nil_append] at htext
          rw [htext, dateFields?_of_year hys hyear, char?_self, Option.bind_some,
            digits?_of_letter (by decide)] at hfields
          cases hfields
      | false =>
          obtain ⟨behind, htext, -⟩ := Iso.eq_append_of_octets (ws.map Iso.code ++ (more ++ tail))
            (hys.marks.append hletter) (by rw [hos]; simp [Iso.hyphen])
          rw [htext, List.append_assoc, dateFields?_of_year hys hyear, List.singleton_append,
            char?_of_ne (by decide)] at hfields
          cases hfields

/-- A text that is read as a moment has no looser form of a date, or one that names the same day. -/
theorem looseDate_of_readDateTime {s : String} {t : DateTime} (h : Iso.readDateTime s = some t) :
    looseDate s = .unreadable ∨ looseDate s = .value t.date := by
  obtain ⟨stop, -, hdate, -⟩ := Iso.readDateTime_eq_some h
  rw [looseDate]
  rcases hfields : dateFields? s.toList with _ | ⟨⟨year, month, day⟩, rest⟩
  · exact .inl rfl
  · dsimp only
    split
    · have hmake : Date.make? year month day = some t.date := dateFields?_of_date? hdate hfields
      rw [hmake]
      exact .inr rfl
    · exact .inl rfl

/-- What reading as a date and reading as a moment come to for one text. -/
inductive Agree (s : String) : Prop
  | day (t : DateTime) (hdate : dateOrDateTime s = .value t.date) (htime : dateTimeOrDate s = .value t)
  | weekHour {d monday : Date} {hour : ℕ} (hform : Iso.IsWeekHour s d monday hour)
  | impossible (hdate : dateOrDateTime s = .impossible) (htime : dateTimeOrDate s = .impossible)
  | unreadable (hdate : dateOrDateTime s = .unreadable) (htime : dateTimeOrDate s = .unreadable)

theorem dateOrDateTime_eq (s : String) :
    dateOrDateTime s = (date s).orElse fun _ => (dateTime s).map (·.date) := rfl

theorem dateTimeOrDate_eq (s : String) :
    dateTimeOrDate s = (dateTime s).orElse fun _ =>
      (date s).map fun d => { date := d, time := Time.midnight, offset := none } := rfl

theorem date_of_readDate {s : String} {d : Date} (h : Iso.readDate s = some d) : date s = .value d := by
  rw [date, h]

theorem date_eq_looseDate {s : String} (h : Iso.readDate s = none) : date s = looseDate s := by
  rw [date, h]

theorem dateTime_of_readDateTime {s : String} {t : DateTime} (h : Iso.readDateTime s = some t) :
    dateTime s = .value t := by
  rw [dateTime, h]

theorem dateTime_eq_looseDateTime {s : String} (h : Iso.readDateTime s = none) :
    dateTime s = looseDateTime s := by
  rw [dateTime, h]

/-- If one of the readings is of no known form, both orders come to the other one. -/
theorem agree_of_dateTime_unreadable {s : String} (h : dateTime s = .unreadable) : Agree s := by
  rcases hdate : date s with d | _ | _
  · exact .day { date := d, time := Time.midnight, offset := none }
      (by rw [dateOrDateTime_eq, hdate, h]; rfl) (by rw [dateTimeOrDate_eq, hdate, h]; rfl)
  · exact .impossible (by rw [dateOrDateTime_eq, hdate, h]; rfl) (by rw [dateTimeOrDate_eq, hdate, h]; rfl)
  · exact .unreadable (by rw [dateOrDateTime_eq, hdate, h]; rfl) (by rw [dateTimeOrDate_eq, hdate, h]; rfl)

theorem agree_of_date_unreadable {s : String} (h : date s = .unreadable) : Agree s := by
  rcases htime : dateTime s with t | _ | _
  · exact .day t (by rw [dateOrDateTime_eq, htime, h]; rfl) (by rw [dateTimeOrDate_eq, htime, h]; rfl)
  · exact .impossible (by rw [dateOrDateTime_eq, htime, h]; rfl) (by rw [dateTimeOrDate_eq, htime, h]; rfl)
  · exact .unreadable (by rw [dateOrDateTime_eq, htime, h]; rfl) (by rw [dateTimeOrDate_eq, htime, h]; rfl)

theorem agree_of_values {s : String} {t : DateTime} (hdate : date s = .value t.date)
    (htime : dateTime s = .value t) : Agree s :=
  .day t (by rw [dateOrDateTime_eq, hdate]; rfl) (by rw [dateTimeOrDate_eq, htime]; rfl)

/-- The standard forms decide where there is one, and of the looser forms a text has one at most. -/
theorem agree (s : String) : Agree s := by
  rcases hd : Iso.readDate s with _ | d
  · rcases ht : Iso.readDateTime s with _ | t
    · by_cases hloose : looseDate s = .unreadable
      · exact agree_of_date_unreadable (by rw [date_eq_looseDate hd, hloose])
      · exact agree_of_dateTime_unreadable
          (by rw [dateTime_eq_looseDateTime ht, looseDateTime_of_looseDate hloose])
    · rcases looseDate_of_readDateTime ht with hloose | hloose
      · exact agree_of_date_unreadable (by rw [date_eq_looseDate hd, hloose])
      · exact agree_of_values (by rw [date_eq_looseDate hd, hloose]) (dateTime_of_readDateTime ht)
  · rcases ht : Iso.readDateTime s with _ | t
    · exact agree_of_dateTime_unreadable
        (by rw [dateTime_eq_looseDateTime ht, looseDateTime_of_readDate hd])
    · rcases Iso.date_eq_of_readDateTime hd ht with heq | hform
      · exact agree_of_values (by rw [date_of_readDate hd, heq]) (dateTime_of_readDateTime ht)
      · exact .weekHour hform

/-- Of digits for an hour behind a compact week date the two orders make different days. -/
theorem readings_weekHour {s : String} {d monday : Date} {hour : ℕ} (h : Iso.IsWeekHour s d monday hour) :
    dateOrDateTime s = .value d ∧ dateTimeOrDate s = .value ⟨monday, ⟨hour, 0, 0, 0⟩, none, false⟩ ∧
      monday ≠ d := by
  obtain ⟨hdate, htime, hne⟩ := h.reads
  refine ⟨?_, ?_, hne⟩
  · rw [dateOrDateTime_eq, date_of_readDate hdate]
    rfl
  · rw [dateTimeOrDate_eq, dateTime_of_readDateTime htime]
    rfl

end Written

namespace Parser

theorem run_date_of_value {raw : String} {d : Date} (h : Written.dateOrDateTime raw = .value d) :
    Parser.date.run raw = .ok (.date d) := by
  rw [run, h]
  rfl

theorem run_dateTime_of_value {raw : String} {t : DateTime} (h : Written.dateTimeOrDate raw = .value t) :
    Parser.dateTime.run raw = .ok (.datetime t) := by
  rw [run, h]
  rfl

theorem run_of_impossible {raw : String} (hdate : Written.dateOrDateTime raw = .impossible)
    (htime : Written.dateTimeOrDate raw = .impossible) :
    Parser.date.run raw = .error (.fault .badValue) ∧ Parser.dateTime.run raw = .error (.fault .badValue) := by
  rw [run, run, hdate, htime]
  exact ⟨rfl, rfl⟩

theorem run_of_unreadable {raw : String} (hdate : Written.dateOrDateTime raw = .unreadable)
    (htime : Written.dateTimeOrDate raw = .unreadable) :
    Parser.date.run raw = .error (.unreadable (.date raw)) ∧
      Parser.dateTime.run raw = .error (.unreadable (.dateTime raw)) := by
  rw [run, run, hdate, htime]
  exact ⟨rfl, rfl⟩

/-- A field of dates and a field of moments accept the same texts and make the same day of each of them,
but for a compact week date that goes on, behind a day of the week that is not Monday, with two digits
for an hour: there the date is that day and the moment is the hour of the Monday.  What they do not accept
they report alike, as a text that denotes no value. -/
theorem date_agrees_dateTime (raw : String) :
    ((∃ v, Parser.date.run raw = .ok v) ↔ ∃ w, Parser.dateTime.run raw = .ok w) ∧
      (∀ e, Parser.date.run raw = .error e → e.IsBadText) ∧
      (∀ e, Parser.dateTime.run raw = .error e → e.IsBadText) ∧
      (∀ v w, Parser.date.run raw = .ok v → Parser.dateTime.run raw = .ok w →
        ∃ (d : Date) (t : DateTime), v = .date d ∧ w = .datetime t ∧
          (t.date = d ↔ ∀ d monday hour, ¬ Iso.IsWeekHour raw d monday hour)) ∧
      ∀ d monday hour, Iso.IsWeekHour raw d monday hour →
        Parser.date.run raw = .ok (.date d) ∧
          Parser.dateTime.run raw = .ok (.datetime ⟨monday, ⟨hour, 0, 0, 0⟩, none, false⟩) := by
  have hweekHour : ∀ d monday hour, Iso.IsWeekHour raw d monday hour →
      Parser.date.run raw = .ok (.date d) ∧
        Parser.dateTime.run raw = .ok (.datetime ⟨monday, ⟨hour, 0, 0, 0⟩, none, false⟩) := by
    intro d monday hour hform
    obtain ⟨hdate, htime, -⟩ := Written.readings_weekHour hform
    exact ⟨run_date_of_value hdate, run_dateTime_of_value htime⟩
  rcases Written.agree raw with ⟨t, hdate, htime⟩ | ⟨hform⟩ | ⟨hdate, htime⟩ | ⟨hdate, htime⟩
  · have hrunDate := run_date_of_value hdate
    have hrunTime := run_dateTime_of_value htime
    have hform : ∀ d monday hour, ¬ Iso.IsWeekHour raw d monday hour := by
      intro d monday hour hform
      obtain ⟨hday, hhour, hne⟩ := Written.readings_weekHour hform
      obtain rfl := Reading.value.inj (htime.symm.trans hhour)
      exact hne (Reading.value.inj (hdate.symm.trans hday))
    refine ⟨⟨fun _ => ⟨_, hrunTime⟩, fun _ => ⟨_, hrunDate⟩⟩, fun _ => run_error, fun _ => run_error, ?_,
      hweekHour⟩
    intro v w hv hw
    exact ⟨t.date, t, Except.ok.inj (hv.symm.trans hrunDate), Except.ok.inj (hw.symm.trans hrunTime),
      ⟨fun _ => hform, fun _ => rfl⟩⟩
  · rename_i d monday hour
    obtain ⟨hrunDate, hrunTime⟩ := hweekHour d monday hour hform
    obtain ⟨-, -, hne⟩ := Written.readings_weekHour hform
    refine ⟨⟨fun _ => ⟨_, hrunTime⟩, fun _ => ⟨_, hrunDate⟩⟩, fun _ => run_error, fun _ => run_error, ?_,
      hweekHour⟩
    intro v w hv hw
    exact ⟨d, _, Except.ok.inj (hv.symm.trans hrunDate), Except.ok.inj (hw.symm.trans hrunTime),
      ⟨fun heq => absurd heq hne, fun hnone => absurd hform (hnone d monday hour)⟩⟩
  · obtain ⟨hrunDate, hrunTime⟩ := run_of_impossible hdate htime
    refine ⟨?_, fun _ => run_error, fun _ => run_error, ?_, hweekHour⟩
    · simp [hrunDate, hrunTime]
    · simp [hrunDate]
  · obtain ⟨hrunDate, hrunTime⟩ := run_of_unreadable hdate htime
    refine ⟨?_, fun _ => run_error, fun _ => run_error, ?_, hweekHour⟩
    · simp [hrunDate, hrunTime]
    · simp [hrunDate]

/-- Behind the second day of a week an hour of the first one is read, behind the first day one of its own. -/
theorem date_agrees_dateTime_weekdays :
    Iso.IsWeekHour "2022W38223" ⟨2022, 9, 20⟩ ⟨2022, 9, 19⟩ 23 ∧
      (Parser.date.run "2022W38223" = .ok (.date ⟨2022, 9, 20⟩) ∧
        Parser.dateTime.run "2022W38223" = .ok (.datetime ⟨⟨2022, 9, 19⟩, ⟨23, 0, 0, 0⟩, none, false⟩)) ∧
      ∀ d monday hour, ¬ Iso.IsWeekHour "2022W38123" d monday hour := by
  have hfigures : AreFigures (['2', '0', '2', '2'] ++ ['3', '8', '2', '2', '3']) := by
    simp [AreFigures]
  have hform : Iso.IsWeekHour "2022W38223" ⟨2022, 9, 20⟩ ⟨2022, 9, 19⟩ 23 :=
    @Iso.IsWeekHour.intro _ ['2', '0', '2', '2'] ['3', '8'] ['2'] ['2', '3'] _ _ rfl (hfigures.take 4)
      ((hfigures.drop 4).take 2) ((hfigures.drop 6).take 1) (hfigures.drop 7) rfl rfl rfl rfl (by decide)
      (by decide) (by decide) (by decide)
  have hdate : Parser.date.run "2022W38123" = .ok (.date ⟨2022, 9, 19⟩) := by rfl
  have htime : Parser.dateTime.run "2022W38123" =
      .ok (.datetime ⟨⟨2022, 9, 19⟩, ⟨23, 0, 0, 0⟩, none, false⟩) := by rfl
  obtain ⟨d, t, hv, hw, hagree⟩ := (date_agrees_dateTime "2022W38123").2.2.2.1 _ _ hdate htime
  obtain rfl := Value.date.inj hv
  obtain rfl := Value.datetime.inj hw
  exact ⟨hform, (date_agrees_dateTime "2022W38223").2.2.2.2 _ _ _ hform, hagree.mp rfl⟩

/-- A text that both fields accept and that names one day to the one and another day to the other. -/
theorem date_differs_dateTime : ¬ ∀ (raw : String) (d : Date) (t : DateTime),
    Parser.date.run raw = .ok (.date d) → Parser.dateTime.run raw = .ok (.datetime t) → t.date = d := by
  intro h
  have heq := h "2022W38223" ⟨2022, 9, 20⟩ ⟨⟨2022, 9, 19⟩, ⟨23, 0, 0, 0⟩, none, false⟩ (by rfl) (by rfl)
  exact absurd heq (by decide)

end Parser
end PageQuery
