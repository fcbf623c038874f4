import Mathlib
import PageQuery.Proofs.Number.Figures
import PageQuery.Proofs.Outcome

/-!
# Decimals are read from their texts

The text of a decimal keeps everything that there is to it: sign, coefficient and exponent, and the
payload of a not-a-number.  A finite magnitude is written as digits with a point among them and a power
of ten behind, where the point and the power together say what the exponent is.
-/

namespace PageQuery

open PageQuery.Text PageQuery.Number

namespace Decimal

/-- The characters of a power of ten behind a magnitude; the power zero is not written. -/
def powerChars (k : ℤ) : List Char :=
  if k = 0 then [] else 'E' :: (signed k).toList

/-- The characters of a fraction, which begin with a point if there are any. -/
def fractionChars (fraction : List Char) : List Char :=
  if fraction.isEmpty then [] else '.' :: fraction

theorem toList_signed (k : ℤ) :
    (signed k).toList = (if k < 0 then '-' else '+') :: Nat.toDigits 10 k.natAbs := by
  rw [signed, String.toList_append, toList_toString_nat]
  split <;> rfl

/-- The digits of a magnitude, parted by its point: zeros are put in front of them where the point is
not behind the first of them. -/
def partedDigits (digits : List Char) (point : ℤ) : List Char × List Char :=
  if point ≤ 0 then (['0'], List.replicate point.natAbs '0' ++ digits)
  else if digits.length ≤ point then
    (digits ++ List.replicate (point.toNat - digits.length) '0', [])
  else (digits.take point.toNat, digits.drop point.toNat)

/-- A point that is not behind the digits parts them into two numerals of one value. -/
theorem partedDigits_spec {digits : List Char} {point : ℤ} (hfigures : AreFigures digits)
    (hpoint : point ≤ digits.length) {whole fraction : List Char}
    (h : partedDigits digits point = (whole, fraction)) :
    AreFigures whole ∧ AreFigures fraction ∧ (fraction.length : ℤ) = digits.length - point ∧
      (whole ≠ [] ∨ digits = []) ∧ ∃ k, whole ++ fraction = List.replicate k '0' ++ digits := by
  rw [partedDigits] at h
  split at h
  · obtain ⟨rfl, rfl⟩ := Prod.mk.inj h
    refine ⟨.replicate_zero 1, (AreFigures.replicate_zero _).append hfigures, ?_,
      .inl (List.cons_ne_nil _ _), point.natAbs + 1, rfl⟩
    rw [List.length_append, List.length_replicate]
    omega
  · rename_i hpositive
    split at h
    · obtain ⟨rfl, rfl⟩ := Prod.mk.inj h
      have hzeros : point.toNat - digits.length = 0 := by omega
      rw [hzeros, List.replicate_zero, List.append_nil]
      exact ⟨hfigures, by nofun, by simp; omega, (em (digits = [])).symm, 0, by simp⟩
    · obtain ⟨rfl, rfl⟩ := Prod.mk.inj h
      refine ⟨hfigures.take _, hfigures.drop _, ?_, ?_, 0, List.take_append_drop _ _⟩
      · rw [List.length_drop]
        omega
      · left
        rw [ne_eq, List.take_eq_nil_iff]
        rintro (hnone | rfl)
        · omega
        · simp at hpoint
          omega

/-- How a magnitude is written: whole digits, a fraction and a power of ten, which make up its
coefficient and its exponent. -/
theorem magnitudeText_eq (c : ℕ) (e : ℤ) : ∃ whole fraction k, AreFigures whole ∧ whole ≠ [] ∧
    AreFigures fraction ∧ ofDigits 10 (figures (whole ++ fraction)) = c ∧
    k - (fraction.length : ℤ) = e ∧
    (magnitudeText c e).toList = whole ++ (fractionChars fraction ++ powerChars k) := by
  have hlength := List.length_pos_iff.mpr (toDigits_ne_nil c)
  obtain ⟨left, hleft⟩ : ∃ left, left = e + ((Nat.toDigits 10 c).length : ℤ) := ⟨_, rfl⟩
  obtain ⟨point, hpoint⟩ : ∃ point : ℤ, point = if e ≤ 0 ∧ left > -6 then left else 1 := ⟨_, rfl⟩
  have hinside : point ≤ (Nat.toDigits 10 c).length := by
    rw [hpoint]
    split <;> omega
  obtain ⟨whole, fraction, hparts⟩ : ∃ whole fraction,
    partedDigits (Nat.toDigits 10 c) point = (whole, fraction) := ⟨_, _, rfl⟩
  obtain ⟨hwhole, hfraction, hplaces, hnil, zeros, hdigits⟩ :=
    partedDigits_spec (AreFigures.toDigits c) hinside hparts
  refine ⟨whole, fraction, left - point, hwhole, ?_, hfraction, ?_, by omega, ?_⟩
  · exact hnil.resolve_right (toDigits_ne_nil c)
  · rw [hdigits, ofDigits_zeros_toDigits]
  · have hpower : (if left = point then "" else "E" ++ signed (left - point)).toList =
        powerChars (left - point) := by
      rw [powerChars]
      split
      · rw [if_pos (by omega)]
        rfl
      · rw [if_neg (by omega), String.toList_append]
        rfl
    have htext : magnitudeText c e = String.ofList (whole ++ fractionChars fraction) ++
        (if left = point then "" else "E" ++ signed (left - point)) := by
      simp only [magnitudeText, Bool.and_eq_true, decide_eq_true_eq, ← hleft, ← hpoint]
      change String.ofList ((partedDigits (Nat.toDigits 10 c) point).1 ++
        fractionChars (partedDigits (Nat.toDigits 10 c) point).2) ++ _ = _
      rw [hparts]
    rw [htext, String.toList_append, String.toList_ofList, hpower, List.append_assoc]

/-! ## Reading -/

theorem readExponent_powerChars (k : ℤ) : readExponent (powerChars k) = some k := by
  rw [powerChars]
  split
  · rename_i hk
    rw [hk]
    rfl
  · have hread := takeDigits_of_figures (AreFigures.toDigits k.natAbs)
    have hvalue := ofDigits_toDigits k.natAbs
    obtain ⟨d, ds, hds⟩ := List.exists_cons_of_ne_nil (figures_ne_nil (toDigits_ne_nil k.natAbs))
    rw [hds] at hread hvalue
    rw [toList_signed]
    by_cases hneg : k < 0
    · rw [if_pos hneg]
      simp only [readExponent, takeSign, hread, hvalue, decide_true, Bool.or_true, if_true,
        Option.some.injEq]
      omega
    · rw [if_neg hneg]
      simp only [readExponent, takeSign, hread, hvalue, decide_true, Bool.or_true, if_true,
        Bool.false_eq_true, if_false, Option.some.injEq]
      omega

theorem powerChars_cases (k : ℤ) : powerChars k = [] ∨ ∃ cs, powerChars k = 'E' :: cs := by
  rw [powerChars]
  split
  · exact .inl rfl
  · exact .inr ⟨_, rfl⟩

/-- What is written of a finite magnitude is read as its coefficient and its exponent. -/
theorem readNumeral_written {whole fraction : List Char} (hwhole : AreFigures whole)
    (hnil : whole ≠ []) (hfraction : AreFigures fraction) (k : ℤ) :
    readNumeral (whole ++ (fractionChars fraction ++ powerChars k)) =
      some ⟨ofDigits 10 (figures (whole ++ fraction)), k - fraction.length⟩ := by
  obtain ⟨d, ds, hds⟩ := List.exists_cons_of_ne_nil (figures_ne_nil hnil)
  have hexponent := readExponent_powerChars k
  have hpower : ∀ c ∈ (powerChars k).head?, digitValue? c = none := by
    rcases powerChars_cases k with hk | ⟨cs, hk⟩
    · simp [hk]
    · rw [hk]
      rintro c ⟨⟩
      rfl
  have hvalue : figures (whole ++ fraction) = figures whole ++ figures fraction := List.map_append
  have hlength : (figures fraction).length = fraction.length := List.length_map _
  rw [fractionChars]
  split
  · rename_i hempty
    obtain rfl := List.isEmpty_iff.mp hempty
    rw [List.nil_append, readNumeral, takeDigits_append hwhole hpower]
    rcases powerChars_cases k with hk | ⟨cs, hk⟩ <;> rw [hk] at hexponent ⊢ <;>
      simp [hds, hexponent]
  · have hpoint : ∀ c ∈ ('.' :: fraction ++ powerChars k).head?, digitValue? c = none := by
      rintro c ⟨⟩
      rfl
    rw [readNumeral, takeDigits_append hwhole hpoint]
    simp only [List.cons_append, takeDigits_append hfraction hpower, hds, List.isEmpty_cons,
      Bool.false_and, Bool.false_eq_true, if_false, hexponent, Option.map_some, hvalue, hlength]

/-! ## Texts -/

/-- The characters behind the word for a not-a-number. -/
def payloadChars (payload : ℕ) : List Char :=
  if payload = 0 then [] else Nat.toDigits 10 payload

def unsignedText : Decimal → String
  | .finite _ c e => magnitudeText c e
  | .infinite _ => "Infinity"
  | .nan _ signalling payload =>
    (if signalling then "sNaN" else "NaN") ++ String.ofList (payloadChars payload)

def isNegative : Decimal → Bool
  | .finite negative _ _ => negative
  | .infinite negative => negative
  | .nan negative _ _ => negative

theorem toList_text (d : Decimal) :
    d.text.toList = signChars d.isNegative ++ d.unsignedText.toList := by
  have hsign (negative : Bool) : (if negative then "-" else "").toList = signChars negative := by
    cases negative <;> rfl
  cases d with
  | finite negative c e => rw [text, String.toList_append, hsign, isNegative, unsignedText]
  | infinite negative =>
      revert negative
      decide
  | nan negative signalling payload =>
      have hpayload : (if payload = 0 then "" else toString payload).toList = payloadChars payload := by
        rw [payloadChars]
        split
        · rfl
        · exact toList_toString_nat payload
      rw [text, String.toList_append, String.toList_append, hsign, hpayload, List.append_assoc,
        isNegative, unsignedText, String.toList_append, String.toList_ofList]

/-- The decimal numbers that there are: the exponent of a finite one is in range. -/
def IsRepresentable : Decimal → Prop
  | .finite _ c e => inRange ⟨c, e⟩ = true
  | _ => True

/-- What begins with a digit is no word. -/
theorem isWord_cons_of_isDigit (word : String) (hword : word.toList.head?.any Char.isDigit = false)
    {c : Char} (hc : c.isDigit = true) (cs : List Char) : isWord word (c :: cs) = false := by
  have hupper : ¬ c.isUpper = true := by
    obtain ⟨-, hhigh⟩ := toNat_of_isDigit hc
    have hval : c.val.toNat ≤ 57 := hhigh
    simp only [Char.isUpper, decide_eq_true_eq, ge_iff_le, UInt32.le_iff_toNat_le]
    rintro ⟨hlow, -⟩
    have hcapital : 65 ≤ c.val.toNat := hlow
    omega
  rw [isWord, List.map_cons, Char.toLower_eq_of_not_isUpper hupper, beq_eq_false_iff_ne]
  intro heq
  rw [← heq, List.head?_cons, Option.any_some, hc] at hword
  cases hword

theorem figures_payloadChars (payload : ℕ) :
    AreFigures (payloadChars payload) ∧ ofDigits 10 (figures (payloadChars payload)) = payload := by
  rw [payloadChars]
  split
  · rename_i hzero
    exact ⟨by rintro c ⟨⟩, hzero.symm⟩
  · exact ⟨.toDigits payload, ofDigits_toDigits payload⟩

theorem readPayload_payloadChars (payload : ℕ) : readPayload (payloadChars payload) = some payload := by
  obtain ⟨hfigures, hvalue⟩ := figures_payloadChars payload
  rw [readPayload, takeDigits_of_figures hfigures]
  exact congrArg some hvalue

/-- What stands behind the sign of a decimal number is read as the number. -/
theorem readUnsigned_unsignedText {d : Decimal} (h : d.IsRepresentable) :
    readUnsigned d.isNegative d.unsignedText.toList = some d := by
  cases d with
  | finite negative c e =>
      obtain ⟨whole, fraction, k, hwhole, hnil, hfraction, hvalue, hexponent, htext⟩ :=
        magnitudeText_eq c e
      obtain ⟨first, rest, rfl⟩ := List.exists_cons_of_ne_nil hnil
      have hfirst := hwhole first List.mem_cons_self
      have hread := readNumeral_written hwhole hnil hfraction k
      have hrange : inRange ⟨c, e⟩ = true := h
      rw [hvalue, hexponent] at hread
      rw [unsignedText, htext, isNegative, readUnsigned, hread]
      simp only [List.cons_append, List.take_succ_cons]
      rw [isWord_cons_of_isDigit "inf" (by decide) hfirst,
        isWord_cons_of_isDigit "infinity" (by decide) hfirst,
        isWord_cons_of_isDigit "nan" (by decide) hfirst,
        isWord_cons_of_isDigit "snan" (by decide) hfirst]
      simp [hrange]
  | infinite negative =>
      cases negative <;> decide
  | nan negative signalling payload =>
      have hpayload := readPayload_payloadChars payload
      cases signalling with
      | true => simp [unsignedText, readUnsigned, isWord, hpayload, isNegative]
      | false => simp [unsignedText, readUnsigned, isWord, hpayload, isNegative]

theorem head_unsignedText (d : Decimal) : ∀ c ∈ d.unsignedText.toList.head?, c.isAlphanum = true := by
  cases d with
  | finite negative c e =>
      obtain ⟨whole, fraction, k, hwhole, hnil, -, -, -, htext⟩ := magnitudeText_eq c e
      obtain ⟨first, rest, rfl⟩ := List.exists_cons_of_ne_nil hnil
      rw [unsignedText, htext]
      rintro c ⟨⟩
      rw [Char.isAlphanum, hwhole first List.mem_cons_self, Bool.or_true]
  | infinite negative => simp [unsignedText]
  | nan negative signalling payload => cases signalling <;> simp [unsignedText]

theorem marks_unsignedText (d : Decimal) : AreMarks d.unsignedText.toList := by
  cases d with
  | finite negative c e =>
      obtain ⟨whole, fraction, k, hwhole, -, hfraction, -, -, htext⟩ := magnitudeText_eq c e
      have hpower : AreMarks (powerChars k) := by
        rw [powerChars]
        split
        · rintro c ⟨⟩
        · rw [toList_signed]
          exact .cons rfl (.cons (by split <;> rfl) (AreFigures.toDigits _).marks)
      have hpoint : AreMarks (fractionChars fraction) := by
        rw [fractionChars]
        split
        · rintro c ⟨⟩
        · exact .cons rfl hfraction.marks
      rw [unsignedText, htext]
      exact hwhole.marks.append (hpoint.append hpower)
  | infinite negative =>
      rw [unsignedText]
      exact List.all_eq_true.mp (by decide)
  | nan negative signalling payload =>
      rw [unsignedText, String.toList_append, String.toList_ofList]
      refine AreMarks.append ?_ (figures_payloadChars payload).1.marks
      cases signalling
      · exact List.all_eq_true.mp (by decide)
      · exact List.all_eq_true.mp (by decide)

theorem marks_text (d : Decimal) : AreMarks d.text.toList := by
  rw [toList_text]
  exact (marks_signChars _).append (marks_unsignedText d)

/-- A decimal number is read from its text. -/
theorem read_text {d : Decimal} (h : d.IsRepresentable) : read d.text = some d := by
  have hmarks := marks_text d
  have hunderscores : d.text.toList.filter (· ≠ '_') = d.text.toList := by
    rw [List.filter_eq_self]
    intro c hc
    exact decide_eq_true fun heq => hmarks.notMem rfl (heq ▸ hc)
  have hsign : ∀ c ∈ d.unsignedText.toList.head?, c ≠ '-' ∧ c ≠ '+' := by
    intro c hc
    have hletter := head_unsignedText d c hc
    constructor <;> rintro rfl <;> cases hletter
  rw [read, hmarks.trimChars_eq, hunderscores, toList_text, takeSign_signChars _ hsign]
  exact readUnsigned_unsignedText h

end Decimal
end PageQuery
