import Mathlib
import PageQuery.Calendar.Written
import PageQuery.Proofs.Number.Figures

/-!
# Dates and moments are read from their texts

The text of a date, a time of day or a moment is in the standard form, so the reader of that form finds
the end of the date by its octets, takes the numbers out of the clock with its colons, and makes the
offset of the clock behind the sign.  The looser form is never tried.
-/

namespace PageQuery

open PageQuery.Text PageQuery.Number

/-! ## Padded numbers -/

/-- The digits of a number, with zeros in front of them. -/
def padded (width n : ℕ) : List Char :=
  List.replicate (width - (Nat.toDigits 10 n).length) '0' ++ Nat.toDigits 10 n

theorem toList_padZeros (width n : ℕ) : (padZeros width (toString n)).toList = padded width n := by
  rw [padZeros, String.toList_ofList, ← String.length_toList, toList_toString_nat, padded]

theorem figures_padded (width n : ℕ) : AreFigures (padded width n) :=
  (AreFigures.replicate_zero _).append (.toDigits n)

theorem length_padded {width n : ℕ} (hwidth : 0 < width) (h : n < 10 ^ width) :
    (padded width n).length = width := by
  have hlength := (Nat.length_toDigits_le_iff (by omega) hwidth).mpr h
  rw [padded, List.length_append, List.length_replicate]
  omega

theorem padded_ne_nil (width n : ℕ) : padded width n ≠ [] := by
  rw [padded, ne_eq, List.append_eq_nil_iff, not_and]
  exact fun _ => toDigits_ne_nil n

theorem ofDigitChars_padded (width n : ℕ) : Nat.ofDigitChars 10 (padded width n) 0 = n := by
  rw [← ofDigits_figures, padded, ofDigits_zeros_toDigits]

namespace Iso

/-! ## Octets -/

/-- A text of marks has one octet for each character. -/
theorem octets_of_marks {s : String} (h : AreMarks s.toList) : octets s = s.toList.map code := by
  rw [octets, List.map_eq_flatMap]
  refine List.flatMap_congr fun c hc => ?_
  obtain ⟨-, hhigh⟩ := toNat_of_isMark (h c hc)
  have hascii : c.val.toNat ≤ 127 := by
    change c.toNat ≤ 127
    omega
  rw [String.utf8EncodeChar, if_pos hascii]
  rfl

theorem digit?_code {c : Char} (h : c.isDigit = true) : digit? (code c) = some (c.toNat - 48) := by
  obtain ⟨hlow, hhigh⟩ := toNat_of_isDigit h
  have hcode : (code c).toNat = c.toNat := by
    change c.toNat % 256 = c.toNat
    omega
  simp only [digit?, UInt8.le_iff_toNat_le, hcode, Bool.and_eq_true, decide_eq_true_eq]
  rw [if_pos ⟨hlow, hhigh⟩]

theorem code_ne_of_isDigit {c d : Char} (h : c.isDigit = true) (hd : digit? (code d) = none) :
    code c ≠ code d := by
  intro heq
  rw [← heq, digit?_code h] at hd
  cases hd

theorem digits?_figures {cs : List Char} (h : AreFigures cs) (value : ℕ) (rest : List UInt8) :
    digits? cs.length value (cs.map code ++ rest) = some (Nat.ofDigitChars 10 cs value, rest) := by
  induction cs generalizing value with
  | nil => rfl
  | cons c cs ih =>
      obtain ⟨hc, hcs⟩ := List.forall_mem_cons.mp h
      rw [List.length_cons, List.map_cons, List.cons_append, digits?, digit?_code hc, Option.bind_some,
        ih hcs, Nat.ofDigitChars_cons]
      rfl

/-- A padded number is read from its octets. -/
theorem digits?_padded {width n : ℕ} (hwidth : 0 < width) (h : n < 10 ^ width) (rest : List UInt8) :
    digits? width 0 ((padded width n).map code ++ rest) = some (n, rest) := by
  have hread := digits?_figures (figures_padded width n) 0 rest
  rwa [length_padded hwidth h, ofDigitChars_padded] at hread

@[simp]
theorem first_cons (o : UInt8) (os : List UInt8) : first (o :: os) = o := rfl

theorem first_padded (width n : ℕ) (rest : List UInt8) {d : Char} (hd : digit? (code d) = none) :
    first ((padded width n).map code ++ rest) ≠ code d := by
  have hfigures := figures_padded width n
  obtain ⟨c, cs, hcs⟩ := List.exists_cons_of_ne_nil (padded_ne_nil width n)
  rw [hcs] at hfigures ⊢
  exact code_ne_of_isDigit (hfigures c List.mem_cons_self) hd

end Iso

/-! ## Dates -/

namespace Date

theorem toList_text (d : Date) :
    d.text.toList = padded 4 d.year ++ '-' :: (padded 2 d.month ++ '-' :: padded 2 d.day) := by
  have hhyphen : "-".toList = ['-'] := rfl
  simp only [text, String.toList_append, toList_padZeros, hhyphen, List.append_assoc,
    List.cons_append, List.nil_append]

theorem marks_text (d : Date) : AreMarks d.text.toList := by
  rw [toList_text]
  exact (figures_padded _ _).marks.append
    (.cons rfl ((figures_padded _ _).marks.append (.cons rfl (figures_padded _ _).marks)))

/-- The numbers of a valid date fit in their places. -/
theorem bounds_of_isValid {d : Date} (h : d.isValid = true) :
    d.year < 10 ^ 4 ∧ d.month < 10 ^ 2 ∧ d.day < 10 ^ 2 := by
  have hmonth : daysInMonth d.year d.month ≤ 31 := by
    rw [daysInMonth]
    split
    · split <;> omega
    · split <;> omega
  simp only [isValid, Bool.and_eq_true, decide_eq_true_eq] at h
  omega

theorem length_text {d : Date} (h : d.isValid = true) : d.text.toList.length = 10 := by
  obtain ⟨hyear, hmonth, hday⟩ := bounds_of_isValid h
  rw [toList_text]
  simp only [List.length_append, List.length_cons, length_padded (show 0 < 4 by omega) hyear,
    length_padded (show 0 < 2 by omega) hmonth, length_padded (show 0 < 2 by omega) hday]

end Date

namespace Iso

/-- A date at the head of a text is read, whatever follows it. -/
theorem date?_text {d : Date} (h : d.isValid = true) (rest : List UInt8) :
    date? (d.text.toList.map code ++ rest) = some d := by
  obtain ⟨hyear, hmonth, hday⟩ := Date.bounds_of_isValid h
  have hmake : Date.make? d.year d.month d.day = some d := by
    rw [Date.make?]
    exact if_pos h
  rw [Date.toList_text]
  simp only [List.map_append, List.map_cons, List.append_assoc, List.cons_append]
  have hweek := first_padded 2 d.month (code '-' :: ((padded 2 d.day).map code ++ rest))
    (show digit? (code 'W') = none by decide)
  simp only [date?, digits?_padded (show 0 < 4 by omega) hyear,
    digits?_padded (show 0 < 2 by omega) hmonth, digits?_padded (show 0 < 2 by omega) hday,
    Option.bind_eq_bind, Option.bind_some, hyphen?, first_cons, beq_self_eq_true, if_true,
    List.drop_succ_cons, List.drop_zero, if_neg hweek, hmake]

theorem readDate_text {d : Date} (h : d.isValid = true) : readDate d.text = some d := by
  have hread := date?_text h []
  rw [List.append_nil] at hread
  rw [readDate, octets_of_marks d.marks_text]
  simp only [List.length_map, Date.length_text h, hread]
  rfl

end Iso

/-! ## Clocks -/

/-- The characters of a fraction of a second, which is not written if it is zero. -/
def microChars (micro : ℕ) : List Char :=
  if micro = 0 then [] else '.' :: padded 6 micro

theorem marks_microChars (micro : ℕ) : AreMarks (microChars micro) := by
  rw [microChars]
  split
  · rintro c ⟨⟩
  · exact .cons rfl (figures_padded _ _).marks

namespace Time

theorem toList_text (t : Time) : t.text.toList = padded 2 t.hour ++
    ':' :: (padded 2 t.minute ++ ':' :: (padded 2 t.second ++ microChars t.microsecond)) := by
  have hcolon : ":".toList = [':'] := rfl
  have hmicro : (if t.microsecond = 0 then "" else "." ++ padZeros 6 (toString t.microsecond)).toList =
      microChars t.microsecond := by
    rw [microChars]
    split
    · rfl
    · rw [String.toList_append, toList_padZeros]
      rfl
  simp only [text, String.toList_append, toList_padZeros, hcolon, hmicro, List.append_assoc,
    List.cons_append, List.nil_append]

theorem marks_text (t : Time) : AreMarks t.text.toList := by
  rw [toList_text]
  exact (figures_padded _ _).marks.append (.cons rfl ((figures_padded _ _).marks.append
    (.cons rfl ((figures_padded _ _).marks.append (marks_microChars _)))))

end Time

namespace Iso

/-- A field of a clock is read up to the colon behind it. -/
theorem clockFrom_colon {n : ℕ} (h : n < 100) (after : UInt8) {colons : Bool} (fields : List ℕ)
    {left : ℕ} (hcolons : left = 2 ∨ colons = true) {os : List UInt8} (hos : os ≠ []) :
    clockFrom after colons fields (left + 1) ((padded 2 n).map code ++ code ':' :: os) =
      clockFrom after true (fields ++ [n]) left os := by
  obtain ⟨o, os, rfl⟩ := List.exists_cons_of_ne_nil hos
  have hagreed : (if left = 2 then code ':' == code ':' else colons) = true := by
    rcases hcolons with rfl | rfl <;> simp
  rw [clockFrom, digits?_padded (by omega) h]
  simp only [List.headD_cons, hagreed, Bool.true_and, decide_true, if_true]

theorem fraction?_padded {micro : ℕ} (h : micro < 1000000) (after : UInt8) :
    fraction? after ((padded 6 micro).map code) = some (micro, after != 0) := by
  have hread := digits?_padded (show 0 < 6 by omega) h []
  rw [List.append_nil] at hread
  have hcount : min 6 ((padded 6 micro).map code).length = 6 := by
    rw [List.length_map, length_padded (by omega) h, Nat.min_self]
  simp only [fraction?, hcount, hread, Option.map_some, List.dropWhile_nil, List.headD_nil,
    Nat.sub_self, Nat.pow_zero, Nat.mul_one]

/-- The last field of a clock may have a fraction. -/
theorem clockFrom_last {n micro : ℕ} (h : n < 100) (hmicro : micro < 1000000) (after : UInt8)
    (fields : List ℕ) {left : ℕ} (hleft : left ≠ 2) :
    clockFrom after true fields (left + 1) ((padded 2 n).map code ++ (microChars micro).map code) =
      some (fields ++ [n], micro, after != 0) := by
  rw [clockFrom, digits?_padded (by omega) h]
  by_cases hzero : micro = 0
  · rw [hzero]
    rfl
  · have hfraction := fraction?_padded hmicro after
    rw [microChars, if_neg hzero, List.map_cons]
    obtain ⟨o, os, hos⟩ := List.exists_cons_of_ne_nil
      (show (padded 6 micro).map code ≠ [] by simpa using padded_ne_nil 6 micro)
    rw [hos] at hfraction ⊢
    simp only [List.headD_cons, if_neg hleft, Bool.true_and, decide_true, Bool.true_or, if_true,
      hfraction, Option.map_some]
    have hcolon : code '.' ≠ code ':' := by decide
    exact if_neg fun h => hcolon (of_decide_eq_true h)

/-- The numbers of a valid time of day are in their bounds. -/
theorem bounds_of_isValid {t : Time} (h : t.isValid = true) :
    t.hour < 24 ∧ t.minute < 60 ∧ t.second < 60 ∧ t.microsecond < 1000000 := by
  simpa [Time.isValid, and_assoc] using h

/-- A clock is read from the text of a time of day; whether octets are left over is said by the octet
behind it. -/
theorem clock?_text {t : Time} (h : t.isValid = true) (after : UInt8) :
    clock? after (t.text.toList.map code) =
      some ⟨t.hour, t.minute, t.second, t.microsecond, after != 0⟩ := by
  obtain ⟨hhour, hminute, hsecond, hmicro⟩ := bounds_of_isValid h
  rw [Time.toList_text]
  simp only [List.map_append, List.map_cons]
  rw [clock?, clockFrom_colon (by omega) after [] (.inl rfl) (by simp),
    clockFrom_colon (by omega) after _ (.inr rfl) (by simp [padded_ne_nil]),
    clockFrom_last (by omega) hmicro after _ (by omega)]
  rfl

end Iso

/-! ## Offsets -/

/-- An offset from universal time that is less than a day, in whole seconds. -/
def IsWholeOffset (offset : ℤ) : Prop :=
  offset.natAbs < Time.microsPerDay ∧ 1000000 ∣ offset.natAbs

/-- The characters of the seconds of an offset, which are not written if they are zero. -/
def secondChars (second : ℕ) : List Char :=
  if second = 0 then [] else ':' :: padded 2 second

namespace DateTime

/-- The clock of an offset of whole seconds. -/
theorem ofMicros_natAbs {offset : ℤ} (h : IsWholeOffset offset) :
    ∃ hour minute second, Time.ofMicros offset.natAbs = ⟨hour, minute, second, 0⟩ ∧ hour < 24 ∧
      minute < 60 ∧ second < 60 ∧
      ((hour * 60 + minute) * 60 + second) * 1000000 = offset.natAbs := by
  obtain ⟨hday, seconds, hseconds⟩ := h
  rw [hseconds] at hday ⊢
  rw [Time.microsPerDay] at hday
  have hmicro : 1000000 * seconds % 1000000 = 0 := Nat.mul_mod_right _ _
  have hwhole : 1000000 * seconds / 1000000 = seconds := Nat.mul_div_cancel_left _ (by omega)
  refine ⟨seconds / 3600, seconds / 60 % 60, seconds % 60, ?_, by omega, by omega, by omega, by omega⟩
  rw [Time.ofMicros, hmicro, hwhole]

theorem toList_offsetText {offset : ℤ} {hour minute second : ℕ}
    (h : Time.ofMicros offset.natAbs = ⟨hour, minute, second, 0⟩) :
    (offsetText offset).toList = (if offset < 0 then '-' else '+') ::
      (padded 2 hour ++ ':' :: (padded 2 minute ++ secondChars second)) := by
  have hcolon : ":".toList = [':'] := rfl
  have hsign : (if offset < 0 then "-" else "+").toList = [if offset < 0 then '-' else '+'] := by
    split <;> rfl
  have hsecond : (if second = 0 then "" else ":" ++ padZeros 2 (toString second)).toList =
      secondChars second := by
    rw [secondChars]
    split
    · rfl
    · rw [String.toList_append, toList_padZeros]
      rfl
  rw [offsetText, h]
  simp only [decide_true, Bool.and_true, decide_eq_true_eq, if_true, String.toList_append,
    toList_padZeros, hcolon, hsign, hsecond, List.append_assoc, List.cons_append, List.nil_append,
    String.toList_empty, List.append_nil]

theorem marks_offsetText {offset : ℤ} (h : IsWholeOffset offset) :
    AreMarks (offsetText offset).toList := by
  obtain ⟨hour, minute, second, hclock, -⟩ := ofMicros_natAbs h
  have hsecond : AreMarks (secondChars second) := by
    rw [secondChars]
    split
    · rintro c ⟨⟩
    · exact .cons rfl (figures_padded _ _).marks
  rw [toList_offsetText hclock]
  exact .cons (by split <;> rfl) ((figures_padded _ _).marks.append
    (.cons rfl ((figures_padded _ _).marks.append hsecond)))

theorem marks_text {t : DateTime} (hoffset : ∀ o ∈ t.offset, IsWholeOffset o) :
    AreMarks t.text.toList := by
  have hzone : AreMarks ((t.offset.map offsetText).getD "").toList := by
    cases hvalue : t.offset with
    | none => rintro c ⟨⟩
    | some value => exact marks_offsetText (hoffset value hvalue)
  rw [DateTime.text, String.toList_append, String.toList_append, String.toList_append]
  exact ((t.date.marks_text.append (.cons rfl (by rintro c ⟨⟩))).append t.time.marks_text).append hzone

end DateTime

namespace Iso

/-- The clock of an offset may end with the minutes. -/
theorem clock?_offset {hour minute second : ℕ} (hhour : hour < 24) (hminute : minute < 60)
    (hsecond : second < 60) :
    clock? 0 ((padded 2 hour ++ ':' :: (padded 2 minute ++ secondChars second)).map code) =
      some ⟨hour, minute, second, 0, false⟩ := by
  have hmicro : microChars 0 = [] := rfl
  simp only [List.map_append, List.map_cons]
  rw [clock?, clockFrom_colon (by omega) 0 [] (.inl rfl) (by simp [padded_ne_nil]), secondChars]
  split
  · rename_i hzero
    have hlast := clockFrom_last (show minute < 100 by omega) (show 0 < 1000000 by omega) 0 [hour]
      (show 1 ≠ 2 by omega)
    rw [hmicro] at hlast
    rw [hzero]
    exact congrArg _ hlast
  · have hlast := clockFrom_last (show second < 100 by omega) (show 0 < 1000000 by omega) 0
      [hour, minute] (show 0 ≠ 2 by omega)
    rw [hmicro, List.map_nil, List.append_nil] at hlast
    rw [List.map_cons, clockFrom_colon (by omega) 0 _ (.inr rfl) (by simp [padded_ne_nil])]
    exact congrArg _ hlast

/-- An offset of whole seconds is read from its text. -/
theorem offset?_text {offset : ℤ} (h : IsWholeOffset offset) :
    offset? ((DateTime.offsetText offset).toList.map code) = some offset := by
  obtain ⟨hour, minute, second, hclock, hhour, hminute, hsecond, hvalue⟩ := DateTime.ofMicros_natAbs h
  have hday := h.1
  have hzone : code (if offset < 0 then '-' else '+') ≠ code 'Z' := by split <;> decide
  have hsign : (code (if offset < 0 then '-' else '+') = code '-') ↔ offset < 0 := by
    split
    · exact iff_of_true rfl ‹_›
    · exact iff_of_false (by decide) ‹_›
  rw [DateTime.toList_offsetText hclock, List.map_cons, offset?, if_neg hzone,
    clock?_offset hhour hminute hsecond]
  have hoffset : (if offset < 0 then -(offset.natAbs : ℤ) else offset.natAbs) = offset := by
    split <;> omega
  have hsize : (((hour * 60 + minute) * 60 + second : ℕ) : ℤ) * 1000000 + (0 : ℕ) = offset.natAbs := by
    omega
  simp only [hsign, Bool.false_eq_true, if_false, hsize, hoffset]
  split
  · congr 1
    omega
  · have hbounds : -day < offset ∧ offset < day := by
      rw [day]
      omega
    rw [if_pos (by simpa using hbounds)]

/-! ## Moments -/

theorem beginsOffset_code_of_isDigit {c : Char} (h : c.isDigit = true) : beginsOffset (code c) = false := by
  simp only [beginsOffset, Bool.or_eq_false_iff, beq_eq_false_iff_ne]
  exact ⟨⟨code_ne_of_isDigit h (by decide), code_ne_of_isDigit h (by decide)⟩,
    code_ne_of_isDigit h (by decide)⟩

/-- No octet of a time of day begins an offset. -/
theorem beginsOffset_of_mem_text (t : Time) : ∀ c ∈ t.text.toList, beginsOffset (code c) = false := by
  have hpadded (width n : ℕ) : ∀ c ∈ padded width n, beginsOffset (code c) = false := fun c hc =>
    beginsOffset_code_of_isDigit (figures_padded width n c hc)
  have hmicro : ∀ c ∈ microChars t.microsecond, beginsOffset (code c) = false := by
    rw [microChars]
    split
    · rintro c ⟨⟩
    · exact List.forall_mem_cons.mpr ⟨by decide, hpadded _ _⟩
  rw [Time.toList_text]
  simp only [List.forall_mem_append, List.forall_mem_cons]
  exact ⟨hpadded _ _, by decide, hpadded _ _, by decide, hpadded _ _, hmicro⟩

/-- The octets of an offset that may be absent; the first one tells that an offset begins. -/
theorem offset_octets {offset : Option ℤ} (h : ∀ o ∈ offset, IsWholeOffset o) :
    (offset = none ∧ ((offset.map DateTime.offsetText).getD "").toList.map code = []) ∨
      ∃ value sign os, offset = some value ∧ beginsOffset sign = true ∧
        ((offset.map DateTime.offsetText).getD "").toList.map code = sign :: os ∧
        offset? (sign :: os) = some value := by
  cases offset with
  | none => exact .inl ⟨rfl, rfl⟩
  | some value =>
      obtain ⟨hour, minute, second, hclock, -⟩ := DateTime.ofMicros_natAbs (h value rfl)
      have hread := offset?_text (h value rfl)
      rw [DateTime.toList_offsetText hclock, List.map_cons] at hread
      refine .inr ⟨value, _, _, rfl, ?_, ?_, hread⟩
      · split <;> decide
      · rw [Option.map_some, Option.getD_some, DateTime.toList_offsetText hclock, List.map_cons]

/-- A time of day is read from its text, with the offset behind it. -/
theorem timeAndOffset?_text {t : Time} (h : t.isValid = true) {offset : Option ℤ}
    (hoffset : ∀ o ∈ offset, IsWholeOffset o) :
    timeAndOffset? (t.text.toList.map code ++
      ((offset.map DateTime.offsetText).getD "").toList.map code) = some (t, offset) := by
  have hbody : ∀ o ∈ t.text.toList.map code, (!beginsOffset o) = true := by
    simpa using beginsOffset_of_mem_text t
  have hmake : Time.make? t.hour t.minute t.second t.microsecond = some t := by
    rw [Time.make?]
    exact if_pos h
  rw [timeAndOffset?, List.takeWhile_append_of_pos hbody, List.dropWhile_append_of_pos hbody]
  rcases offset_octets hoffset with ⟨rfl, htail⟩ | ⟨value, sign, os, rfl, hsign, htail, hread⟩
  · rw [htail, List.takeWhile_nil, List.dropWhile_nil, List.append_nil, clock?_text h]
    simp [first, hmake]
  · rw [htail, List.takeWhile_cons_of_neg (by simp [hsign]), List.dropWhile_cons_of_neg (by simp [hsign]),
      List.append_nil, clock?_text h]
    simp [hread, hmake]

theorem readTime_text {t : Time} (h : t.isValid = true) : readTime t.text = some t := by
  have hread := @timeAndOffset?_text t h none (by simp)
  have hfirst : first (t.text.toList.map code) ≠ code 'T' := by
    rw [Time.toList_text, List.map_append]
    exact first_padded _ _ _ (by decide)
  rw [readTime, octets_of_marks t.marks_text]
  simp only [if_neg hfirst]
  simpa using congrArg (Option.map Prod.fst) hread

/-- The date of a moment ends behind its ten octets. -/
theorem dateEnd_text {d : Date} (h : d.isValid = true) (o : UInt8) (rest : List UInt8) :
    dateEnd (d.text.toList.map code ++ o :: rest) = some 10 := by
  obtain ⟨hyear, -, -⟩ := Date.bounds_of_isValid h
  have hlength : (d.text.toList.map code).length = 10 := by rw [List.length_map, Date.length_text h]
  have hfour : ((padded 4 d.year).map code).length = 4 := by
    rw [List.length_map, length_padded (by omega) hyear]
  obtain ⟨os, hos⟩ : ∃ os, d.text.toList.map code ++ o :: rest =
      (padded 4 d.year).map code ++ code '-' :: ((padded 2 d.month).map code ++ os) := by
    rw [Date.toList_text]
    simp only [List.map_append, List.map_cons, List.append_assoc, List.cons_append]
    exact ⟨_, rfl⟩
  have hlong : 10 < (d.text.toList.map code ++ o :: rest).length := by
    rw [List.length_append, hlength, List.length_cons]
    omega
  have hmonth := first_padded 2 d.month os (show digit? (code 'W') = none by decide)
  generalize (padded 2 d.month).map code ++ os = month at hos hmonth
  have hhyphen : (d.text.toList.map code ++ o :: rest).getD 4 0 = code '-' := by
    rw [hos, List.getD_append_right _ _ _ _ (by omega), hfour]
    rfl
  have hweek : (d.text.toList.map code ++ o :: rest).getD 5 0 ≠ code 'W' := by
    rw [hos, List.getD_append_right _ _ _ _ (by omega), hfour]
    cases month <;> exact hmonth
  rw [dateEnd, if_neg (by omega), if_neg (by omega), if_pos hhyphen, hyphenatedEnd, if_neg hweek]

/-- A moment is read from its text, but for the label of its zone. -/
theorem readDateTime_text {t : DateTime} (hdate : t.date.isValid = true) (htime : t.time.isValid = true)
    (hoffset : ∀ o ∈ t.offset, IsWholeOffset o) :
    readDateTime t.text = some { t with labelled := false } := by
  have hseparator : "T".toList.map code = [code 'T'] := rfl
  have hlength : (t.date.text.toList.map code).length = 10 := by
    rw [List.length_map, Date.length_text hdate]
  have hwidth : charWidth (code 'T') = 1 := by decide
  have hday := date?_text hdate []
  rw [List.append_nil] at hday
  rw [readDateTime, octets_of_marks (DateTime.marks_text hoffset), DateTime.text]
  simp only [String.toList_append, List.map_append, hseparator, List.append_assoc, List.singleton_append,
    dateEnd_text hdate, Option.bind_eq_bind, Option.bind_some, List.take_left' hlength,
    List.drop_left' hlength, hday, hwidth, List.drop_succ_cons, List.drop_zero,
    timeAndOffset?_text htime hoffset]

end Iso

namespace Written

variable {d : Date} {t : Time}

theorem dateOrDateTime_text (h : d.isValid = true) : dateOrDateTime d.text = .value d := by
  rw [dateOrDateTime, date, Iso.readDate_text h]
  rfl

theorem time_text (h : t.isValid = true) : time t.text = .value t := by
  rw [time, Iso.readTime_text h]

theorem dateTimeOrDate_text {t : DateTime} (hdate : t.date.isValid = true)
    (htime : t.time.isValid = true) (hoffset : ∀ o ∈ t.offset, IsWholeOffset o) :
    dateTimeOrDate t.text = .value { t with labelled := false } := by
  rw [dateTimeOrDate, dateTime, Iso.readDateTime_text hdate htime hoffset]
  rfl

end Written
end PageQuery
