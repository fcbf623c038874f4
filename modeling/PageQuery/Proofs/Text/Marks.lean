import Mathlib
import PageQuery.Proofs.Text.Parts

/-!
# Marks

Numbers, identifiers and moments are written in ASCII letters and digits and in four signs.  None of
these is a blank or a separator of filters, so such a text stands in a filter as it is: it is neither
cut nor trimmed.
-/

namespace PageQuery

open PageQuery.Text

/-- Whether a character is an ASCII letter or digit or one of the signs in numbers and moments. -/
def isMark (c : Char) : Bool :=
  c.isAlphanum || c == '+' || c == '-' || c == '.' || c == ':'

def AreMarks (cs : List Char) : Prop :=
  ∀ c ∈ cs, isMark c = true

theorem isMark_of_isDigit {c : Char} (h : c.isDigit = true) : isMark c = true := by
  simp [isMark, Char.isAlphanum, h]

/-- Marks lie behind the comma in the order of characters, and before the brace. -/
theorem toNat_of_isMark {c : Char} (h : isMark c = true) : 43 ≤ c.toNat ∧ c.toNat < 123 := by
  have hletters : c.toNat = c.val.toNat := rfl
  simp only [isMark, Char.isAlphanum, Char.isAlpha, Char.isUpper, Char.isLower, Char.isDigit,
    Bool.or_eq_true, Bool.and_eq_true, decide_eq_true_eq, beq_iff_eq, UInt32.le_iff_toNat_le,
    ge_iff_le] at h
  rcases h with (((hc | rfl) | rfl) | rfl) | rfl
  · simp at hc
    omega
  all_goals decide

theorem isBlankChar_of_isMark {c : Char} (h : isMark c = true) : isBlankChar c = false := by
  obtain ⟨hlow, hhigh⟩ := toNat_of_isMark h
  simp only [isBlankChar, Bool.or_eq_false_iff, Bool.and_eq_false_iff, decide_eq_false_iff_not,
    beq_eq_false_iff_ne]
  omega

namespace AreMarks

variable {cs ds : List Char}

theorem append (hcs : AreMarks cs) (hds : AreMarks ds) : AreMarks (cs ++ ds) := fun c hc =>
  (List.mem_append.mp hc).elim (hcs c) (hds c)

theorem cons {c : Char} (hc : isMark c = true) (hcs : AreMarks cs) : AreMarks (c :: cs) :=
  List.forall_mem_cons.mpr ⟨hc, hcs⟩

theorem notMem (h : AreMarks cs) {c : Char} (hc : isMark c = false) : c ∉ cs := fun hmem => by
  rw [h c hmem] at hc
  cases hc

theorem trimChars_eq (h : AreMarks cs) : trimChars cs = cs :=
  trimChars_of_forall fun c hc => isBlankChar_of_isMark (h c hc)

end AreMarks
end PageQuery
