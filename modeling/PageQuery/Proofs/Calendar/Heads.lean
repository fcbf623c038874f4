import Mathlib
import PageQuery.Proofs.Calendar.Reading

/-!
# Dates at the head of octets

The standard readers look at octets, the looser ones at characters.  An octet that is a digit, a hyphen or a
letter is that of one ASCII character, so octets that begin as a date does come from characters that do.
Such octets are taken apart here: what date stands at their head and where it ends for the reader of
moments.
-/

namespace PageQuery

open PageQuery.Text

def figuresValue (cs : List Char) : ℕ :=
  Nat.ofDigitChars 10 cs 0

theorem digitsValue_of_figures {cs : List Char} (h : AreFigures cs) : digitsValue cs = figuresValue cs := by
  have hfold : ∀ n, cs.foldl (fun n c => 10 * n + (digitValue? c).getD 0) n = Nat.ofDigitChars 10 cs n := by
    induction cs with
    | nil => exact fun n => rfl
    | cons c cs ih =>
        obtain ⟨hc, hcs⟩ := List.forall_mem_cons.mp h
        intro n
        rw [List.foldl_cons, digitValue?_of_isDigit hc, ih hcs, Nat.ofDigitChars_cons]
        rfl
  exact hfold 0

theorem isDigit_of_figure {c : Char} (h : c.isDigit = true) : Text.isDigit c = true := by
  rw [Text.isDigit, digitValue?_of_isDigit h]
  rfl

namespace Iso

/-! ## Octets of characters -/

theorem utf8EncodeChar_ascii {c : Char} (h : c.toNat < 128) : String.utf8EncodeChar c = [code c] := by
  have hascii : c.val.toNat ≤ 127 := Nat.le_of_lt_succ h
  rw [String.utf8EncodeChar, if_pos hascii]
  rfl

theorem code_toNat {c : Char} (h : c.toNat < 128) : (code c).toNat = c.toNat := by
  change c.toNat % 256 = c.toNat
  omega

/-- A character that is not ASCII begins with an octet that no ASCII character has. -/
theorem le_head_utf8EncodeChar {c : Char} (h : 128 ≤ c.toNat) :
    ∃ o os, String.utf8EncodeChar c = o :: os ∧ 128 ≤ o.toNat := by
  have hlong : ¬ c.val.toNat ≤ 127 := Nat.not_le_of_lt h
  have hmarked (n : ℕ) (hlow : 128 ≤ n) (hhigh : n < 256) : 128 ≤ (UInt8.ofNat n).toNat := by
    rw [UInt8.toNat_ofNat', Nat.mod_eq_of_lt hhigh]
    exact hlow
  rw [String.utf8EncodeChar, if_neg hlong]
  split
  · exact ⟨_, _, rfl, hmarked _ (by omega) (by omega)⟩
  · split
    · exact ⟨_, _, rfl, hmarked _ (by omega) (by omega)⟩
    · exact ⟨_, _, rfl, hmarked _ (by omega) (by omega)⟩

/-- Octets of marks at the head are those of the characters at the head. -/
theorem eq_append_of_octets {cs ms : List Char} (os : List UInt8) (hms : AreMarks ms)
    (h : cs.flatMap String.utf8EncodeChar = ms.map code ++ os) :
    ∃ rest, cs = ms ++ rest ∧ rest.flatMap String.utf8EncodeChar = os := by
  induction ms generalizing cs with
  | nil => exact ⟨cs, rfl, h⟩
  | cons m ms ih =>
      obtain ⟨hm, hrestMarks⟩ := List.forall_mem_cons.mp hms
      have hascii : m.toNat < 128 := by
        have hbounds := toNat_of_isMark hm
        omega
      cases cs with
      | nil => cases h
      | cons c cs =>
          rw [List.flatMap_cons, List.map_cons, List.cons_append] at h
          rcases Nat.lt_or_ge c.toNat 128 with hc | hc
          · rw [utf8EncodeChar_ascii hc, List.singleton_append] at h
            obtain ⟨hcode, h⟩ := List.cons.inj h
            have heq : c.toNat = m.toNat := by rw [← code_toNat hc, hcode, code_toNat hascii]
            obtain ⟨rest, rfl, hrest⟩ := ih hrestMarks h
            exact ⟨rest, by rw [Char.toNat_inj.mp heq, List.cons_append], hrest⟩
          · obtain ⟨o, more, hencode, ho⟩ := le_head_utf8EncodeChar hc
            rw [hencode, List.cons_append] at h
            rw [(List.cons.inj h).1, code_toNat hascii] at ho
            omega

/-- An octet that is a digit is that of an ASCII digit. -/
theorem exists_figure_of_digit? {o : UInt8} {n : ℕ} (h : digit? o = some n) :
    ∃ c : Char, c.isDigit = true ∧ code c = o ∧ n = c.toNat - 48 := by
  rw [digit?] at h
  split at h
  · rename_i hbounds
    simp only [Bool.and_eq_true, decide_eq_true_eq, UInt8.le_iff_toNat_le] at hbounds
    obtain ⟨hlow, hhigh⟩ := hbounds
    have hlow : 48 ≤ o.toNat := hlow
    have hhigh : o.toNat ≤ 57 := hhigh
    have hchar : (Char.ofNat o.toNat).toNat = o.toNat := by
      rw [Char.ofNat, dif_pos (.inl (by omega))]
      rfl
    refine ⟨Char.ofNat o.toNat, ?_, ?_, ?_⟩
    · have hval : (Char.ofNat o.toNat).val.toNat = o.toNat := hchar
      simp only [Char.isDigit, Bool.and_eq_true, decide_eq_true_eq, UInt32.le_iff_toNat_le, ge_iff_le, hval]
      exact ⟨hlow, hhigh⟩
    · rw [← UInt8.toNat_inj, code_toNat (by omega), hchar]
    · rw [hchar]
      exact (Option.some.inj h).symm
  · cases h

/-- Digits that are read are ASCII digits at the head of the octets. -/
theorem digits?_eq_some {n value x : ℕ} {os rest : List UInt8} (h : digits? n value os = some (x, rest)) :
    ∃ ds, AreFigures ds ∧ ds.length = n ∧ os = ds.map code ++ rest ∧ x = Nat.ofDigitChars 10 ds value := by
  induction n generalizing value os with
  | zero =>
      obtain ⟨rfl, rfl⟩ := Prod.mk.inj (Option.some.inj h)
      exact ⟨[], List.forall_mem_nil _, rfl, rfl, rfl⟩
  | succ n ih =>
      cases os with
      | nil => cases h
      | cons o os =>
          obtain ⟨d, hd, h⟩ := Option.bind_eq_some_iff.mp h
          obtain ⟨c, hc, rfl, rfl⟩ := exists_figure_of_digit? hd
          obtain ⟨ds, hds, rfl, rfl, rfl⟩ := ih h
          exact ⟨c :: ds, List.forall_mem_cons.mpr ⟨hc, hds⟩, rfl, rfl, (Nat.ofDigitChars_cons ..).symm⟩

/-! ## Dates at the head of octets -/

/-- The hyphen between the parts of a date, if there is one. -/
def hyphen (written : Bool) : List UInt8 :=
  if written then [code '-'] else []

/-- Octets that begin as a date does: a year, a month and a day, or a year and a week. -/
inductive BeginsDate : List UInt8 → Prop
  | calendar (hyphens : Bool) {ys ms ds : List Char} (rest : List UInt8) (hys : AreFigures ys)
      (hms : AreFigures ms) (hds : AreFigures ds) (hyear : ys.length = 4) (hmonth : ms.length = 2)
      (hday : ds.length = 2) : BeginsDate (ys.map code ++ (hyphen hyphens ++
        (ms.map code ++ (hyphen hyphens ++ (ds.map code ++ rest)))))
  | week (hyphens : Bool) {ys ws : List Char} (rest : List UInt8) (hys : AreFigures ys)
      (hws : AreFigures ws) (hyear : ys.length = 4) (hweek : ws.length = 2) :
      BeginsDate (ys.map code ++ (hyphen hyphens ++ code 'W' :: (ws.map code ++ rest)))

theorem digits?_of_length {ds : List Char} (h : AreFigures ds) {n : ℕ} (hn : ds.length = n)
    (rest : List UInt8) : digits? n 0 (ds.map code ++ rest) = some (figuresValue ds, rest) :=
  hn ▸ digits?_figures h 0 rest

theorem first_figures {ds : List Char} (h : AreFigures ds) (hne : ds ≠ []) (rest : List UInt8) {d : Char}
    (hd : digit? (code d) = none) : first (ds.map code ++ rest) ≠ code d := by
  obtain ⟨c, cs, rfl⟩ := List.exists_cons_of_ne_nil hne
  exact code_ne_of_isDigit (h c List.mem_cons_self) hd

/-- A year, a month and a day are read, whatever follows them. -/
theorem date?_calendar (hyphens : Bool) {ys ms ds : List Char} (rest : List UInt8) (hys : AreFigures ys)
    (hms : AreFigures ms) (hds : AreFigures ds) (hyear : ys.length = 4) (hmonth : ms.length = 2)
    (hday : ds.length = 2) :
    date? (ys.map code ++ (hyphen hyphens ++ (ms.map code ++ (hyphen hyphens ++ (ds.map code ++ rest))))) =
      Date.make? (figuresValue ys) (figuresValue ms) (figuresValue ds) := by
  have hms0 : ms ≠ [] := List.ne_nil_of_length_pos (by omega)
  have hhyphen (os : List UInt8) := first_figures hms hms0 os (show digit? (code '-') = none by decide)
  have hweek (os : List UInt8) := first_figures hms hms0 os (show digit? (code 'W') = none by decide)
  cases hyphens with
  | true =>
      simp only [date?, hyphen, digits?_of_length hys hyear, digits?_of_length hms hmonth,
        digits?_of_length hds hday, Option.bind_eq_bind, Option.bind_some, if_true, List.singleton_append,
        first_cons, beq_self_eq_true, List.drop_succ_cons, List.drop_zero, if_neg (hweek _), hyphen?]
  | false =>
      simp only [date?, hyphen, digits?_of_length hys hyear, digits?_of_length hms hmonth,
        digits?_of_length hds hday, Option.bind_eq_bind, Option.bind_some, Bool.false_eq_true, if_false,
        List.nil_append, beq_false_of_ne (hhyphen _), if_neg (hweek _), hyphen?]

/-- A year and a week are read, and then the day of the week. -/
theorem date?_week (hyphens : Bool) {ys ws : List Char} (rest : List UInt8) (hys : AreFigures ys)
    (hws : AreFigures ws) (hyear : ys.length = 4) (hweek : ws.length = 2) :
    date? (ys.map code ++ (hyphen hyphens ++ code 'W' :: (ws.map code ++ rest))) =
      (weekDay? hyphens rest).bind (Date.ofWeek? (figuresValue ys) (figuresValue ws)) := by
  cases hyphens with
  | true =>
      simp only [date?, hyphen, digits?_of_length hys hyear, digits?_of_length hws hweek,
        Option.bind_eq_bind, Option.bind_some, if_true, List.singleton_append, first_cons,
        beq_self_eq_true, List.drop_succ_cons, List.drop_zero]
  | false =>
      have hletter : (code 'W' == code '-') = false := by decide
      simp only [date?, hyphen, digits?_of_length hys hyear, digits?_of_length hws hweek,
        Option.bind_eq_bind, Option.bind_some, Bool.false_eq_true, if_false, List.nil_append, first_cons,
        hletter, if_true, List.drop_succ_cons, List.drop_zero]

theorem eq_hyphen_append (os : List UInt8) :
    os = hyphen (first os == code '-') ++ if first os == code '-' then os.drop 1 else os := by
  cases os with
  | nil => rfl
  | cons o os =>
      by_cases ho : o = code '-'
      · simp [hyphen, ho]
      · simp [hyphen, ho]

theorem eq_cons_of_first {os : List UInt8} {c : Char} (hc : code c ≠ 0) (h : first os = code c) :
    os = code c :: os.drop 1 := by
  cases os with
  | nil => exact absurd h.symm hc
  | cons o os => rw [← h]; rfl

theorem eq_append_of_hyphen? {hyphens : Bool} {os rest : List UInt8} (h : hyphen? hyphens os = some rest) :
    os = hyphen hyphens ++ rest := by
  cases hyphens with
  | true =>
      simp only [hyphen?, if_true] at h
      split at h
      · rename_i hfirst
        rw [← Option.some.inj h]
        exact eq_cons_of_first (by decide) hfirst
      · cases h
  | false => exact Option.some.inj h

/-- Where a date is read, the octets begin as one does. -/
theorem beginsDate_of_date? {os : List UInt8} {d : Date} (h : date? os = some d) : BeginsDate os := by
  obtain ⟨⟨year, os1⟩, hyears, hbehind⟩ := Option.bind_eq_some_iff.mp h
  obtain ⟨ys, hys, hyear, rfl, -⟩ := digits?_eq_some hyears
  have hos1 := eq_hyphen_append os1
  dsimp only at hbehind
  generalize (if first os1 == code '-' then os1.drop 1 else os1) = os2 at hbehind hos1
  generalize (first os1 == code '-') = hyphens at hbehind hos1
  subst hos1
  split at hbehind
  · rename_i hletter
    obtain ⟨⟨week, os3⟩, hweeks, -⟩ := Option.bind_eq_some_iff.mp hbehind
    obtain ⟨ws, hws, hweek, hos3, -⟩ := digits?_eq_some hweeks
    rw [eq_cons_of_first (by decide) hletter, hos3]
    exact .week hyphens os3 hys hws hyear hweek
  · obtain ⟨⟨month, os3⟩, hmonths, hafter⟩ := Option.bind_eq_some_iff.mp hbehind
    obtain ⟨ms, hms, hmonth, rfl, -⟩ := digits?_eq_some hmonths
    obtain ⟨os4, hos4, hlast⟩ := Option.bind_eq_some_iff.mp hafter
    obtain rfl := eq_append_of_hyphen? hos4
    obtain ⟨⟨day, os5⟩, hdays, -⟩ := Option.bind_eq_some_iff.mp hlast
    obtain ⟨ds, hds, hday, rfl, -⟩ := digits?_eq_some hdays
    exact .calendar hyphens os5 hys hms hds hyear hmonth hday

/-! ## Where the date of a moment ends -/

theorem getD_behind {ds : List Char} {n : ℕ} (hn : ds.length = n) (os : List UInt8) (i : ℕ) :
    (ds.map code ++ os).getD (n + i) 0 = os.getD i 0 := by
  rw [List.getD_append_right _ _ _ _ (by rw [List.length_map]; omega), List.length_map, hn,
    Nat.add_sub_cancel_left]

theorem getD_zero (os : List UInt8) : os.getD 0 0 = first os := by
  cases os <;> rfl

theorem dateEnd_calendar_hyphens {ys ms : List Char} (os : List UInt8) (hms : AreFigures ms)
    (hyear : ys.length = 4) (hmonth : ms.length = 2) (hlong : 3 ≤ os.length) :
    dateEnd (ys.map code ++ code '-' :: (ms.map code ++ os)) = some 10 := by
  have hyphen4 := getD_behind hyear (code '-' :: (ms.map code ++ os)) 0
  have hletter5 := getD_behind hyear (code '-' :: (ms.map code ++ os)) 1
  have hletter := first_figures hms (List.ne_nil_of_length_pos (by omega)) os
    (show digit? (code 'W') = none by decide)
  rw [List.getD_cons_succ, getD_zero] at hletter5
  rw [← hletter5] at hletter
  rw [List.getD_cons_zero] at hyphen4
  rw [dateEnd, if_neg (by simp; omega), if_neg (by simp; omega), if_pos hyphen4, hyphenatedEnd,
    if_neg hletter]

theorem dateEnd_calendar_compact {ys ms : List Char} (os : List UInt8) (hms : AreFigures ms)
    (hyear : ys.length = 4) (hmonth : ms.length = 2) (hlong : 2 ≤ os.length) :
    dateEnd (ys.map code ++ (ms.map code ++ os)) = some 8 := by
  have hfour := getD_behind hyear (ms.map code ++ os) 0
  have hms0 : ms ≠ [] := List.ne_nil_of_length_pos (by omega)
  have hhyphen := first_figures hms hms0 os (show digit? (code '-') = none by decide)
  have hletter := first_figures hms hms0 os (show digit? (code 'W') = none by decide)
  rw [getD_zero] at hfour
  rw [← hfour] at hhyphen hletter
  rw [dateEnd, if_neg (by simp; omega), if_neg (by simp; omega), if_neg hhyphen, compactEnd,
    if_neg hletter]

theorem dateEnd_week_hyphens {ys ws : List Char} {rest : List UInt8} (hyear : ys.length = 4)
    (hweek : ws.length = 2) (hrest : rest = [] ∨ rest.length = 2 ∧ first rest = code '-') :
    dateEnd (ys.map code ++ code '-' :: code 'W' :: (ws.map code ++ rest)) = some (8 + rest.length) := by
  have hyphen4 := getD_behind hyear (code '-' :: code 'W' :: (ws.map code ++ rest)) 0
  have hletter5 := getD_behind hyear (code '-' :: code 'W' :: (ws.map code ++ rest)) 1
  have heighth := getD_behind hyear (code '-' :: code 'W' :: (ws.map code ++ rest)) 4
  rw [List.getD_cons_zero] at hyphen4
  rw [List.getD_cons_succ, List.getD_cons_zero] at hletter5
  rw [List.getD_cons_succ, List.getD_cons_succ, getD_behind hweek rest 0, getD_zero] at heighth
  rw [dateEnd, if_neg (by simp; omega), if_neg (by simp; omega), if_pos hyphen4, hyphenatedEnd,
    if_pos hletter5, heighth]
  rcases hrest with rfl | ⟨hlength, hfirst⟩
  · exact if_neg (by decide)
  · rw [if_pos hfirst, if_neg (by simp; omega), hlength]
    exact if_neg (by simp; omega)

/-- Behind a compact week the run of digits decides: one or two are a day of the week and what follows it,
three are none of the date. -/
theorem dateEnd_week_compact {ys ws : List Char} {rest : List UInt8} (hyear : ys.length = 4)
    (hweek : ws.length = 2) :
    dateEnd (ys.map code ++ code 'W' :: (ws.map code ++ rest)) =
      some (if rest = [] then 7 else
        let stop := 7 + (rest.takeWhile fun o => (digit? o).isSome).length
        if stop < 9 then stop else if stop % 2 = 0 then 7 else 8) := by
  have hfour := getD_behind hyear (code 'W' :: (ws.map code ++ rest)) 0
  rw [List.getD_cons_zero] at hfour
  have hdrop : (ys.map code ++ code 'W' :: (ws.map code ++ rest)).drop 7 = rest := by
    have hsplit : ys.map code ++ code 'W' :: (ws.map code ++ rest) =
        (ys.map code ++ code 'W' :: ws.map code) ++ rest := by simp
    rw [hsplit, List.drop_left' (by simp; omega)]
  rw [dateEnd, if_neg (by simp; omega)]
  by_cases hrest : rest = []
  · rw [if_pos (by simp [hrest]; omega), if_pos hrest]
  · have hpos := List.length_pos_iff.mpr hrest
    rw [if_neg (by simp; omega), hfour, if_neg (by decide), if_neg hrest, compactEnd, hfour, if_pos rfl,
      hdrop]

end Iso
end PageQuery
