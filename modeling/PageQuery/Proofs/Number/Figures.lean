import Mathlib
import PageQuery.Number.Decimal
import PageQuery.Proofs.Text.Marks

/-!
# Figures

Numbers are shown in ASCII digits, most significant first, and readers of every kind of number take such
digits for what they are: a run of them is read up to its end, and gives the number back that was shown.
Zeros in front change nothing.
-/

namespace PageQuery

open PageQuery.Text

def AreFigures (cs : List Char) : Prop :=
  ∀ c ∈ cs, c.isDigit = true

def figures (cs : List Char) : List ℕ :=
  cs.map fun c => c.toNat - 48

theorem toNat_of_isDigit {c : Char} (h : c.isDigit = true) : 48 ≤ c.toNat ∧ c.toNat ≤ 57 := by
  simp only [Char.isDigit, Bool.and_eq_true, decide_eq_true_eq] at h
  exact ⟨h.1, h.2⟩

theorem digitValue?_of_isDigit {c : Char} (h : c.isDigit = true) :
    digitValue? c = some (c.toNat - 48) := by
  obtain ⟨hlow, hhigh⟩ := toNat_of_isDigit h
  simp [digitValue?, hlow, hhigh]

theorem figures_ne_nil {cs : List Char} (h : cs ≠ []) : figures cs ≠ [] := by
  simpa [figures] using h

theorem toDigits_ne_nil (n : ℕ) : Nat.toDigits 10 n ≠ [] :=
  List.length_pos_iff.mp Nat.length_toDigits_pos

namespace AreFigures

variable {cs ds : List Char}

theorem append (hcs : AreFigures cs) (hds : AreFigures ds) : AreFigures (cs ++ ds) := fun c hc =>
  (List.mem_append.mp hc).elim (hcs c) (hds c)

theorem replicate_zero (n : ℕ) : AreFigures (List.replicate n '0') := fun c hc => by
  rw [List.eq_of_mem_replicate hc]
  rfl

theorem toDigits (n : ℕ) : AreFigures (Nat.toDigits 10 n) := fun _ hc =>
  Nat.isDigit_of_mem_toDigits (by omega) (by omega) hc

theorem take (h : AreFigures cs) (n : ℕ) : AreFigures (cs.take n) := fun c hc =>
  h c (List.mem_of_mem_take hc)

theorem drop (h : AreFigures cs) (n : ℕ) : AreFigures (cs.drop n) := fun c hc =>
  h c (List.mem_of_mem_drop hc)

theorem marks (h : AreFigures cs) : AreMarks cs := fun c hc =>
  isMark_of_isDigit (h c hc)

theorem ne_of_mem (h : AreFigures cs) {c d : Char} (hc : c ∈ cs) (hd : d.isDigit = false) : c ≠ d := by
  rintro rfl
  rw [h c hc] at hd
  cases hd

end AreFigures

/-! ## Reading figures -/

namespace Number

variable {cs : List Char}

theorem mapM_digitValue? (h : AreFigures cs) : cs.mapM digitValue? = some (figures cs) := by
  induction cs with
  | nil => rfl
  | cons c cs ih =>
      obtain ⟨hc, hcs⟩ := List.forall_mem_cons.mp h
      rw [List.mapM_cons, digitValue?_of_isDigit hc, ih hcs]
      rfl

/-- A run of figures is read up to its end. -/
theorem takeDigits_append (h : AreFigures cs) {rest : List Char}
    (hrest : ∀ c ∈ rest.head?, digitValue? c = none) :
    takeDigits (cs ++ rest) = (figures cs, rest) := by
  induction cs with
  | nil =>
      cases rest with
      | nil => rfl
      | cons c rest =>
          rw [List.nil_append, takeDigits, hrest c rfl]
          rfl
  | cons c cs ih =>
      obtain ⟨hc, hcs⟩ := List.forall_mem_cons.mp h
      rw [List.cons_append, takeDigits, digitValue?_of_isDigit hc]
      dsimp only
      rw [ih hcs]
      rfl

theorem takeDigits_of_figures (h : AreFigures cs) : takeDigits cs = (figures cs, []) := by
  have hnone : ∀ c ∈ ([] : List Char).head?, digitValue? c = none := by simp
  simpa using takeDigits_append h hnone

theorem foldl_figures (cs : List Char) (n : ℕ) :
    (figures cs).foldl (fun n d => 10 * n + d) n = Nat.ofDigitChars 10 cs n := by
  induction cs generalizing n with
  | nil => rfl
  | cons c cs ih =>
      rw [figures, List.map_cons, List.foldl_cons, Nat.ofDigitChars_cons]
      exact ih _

theorem ofDigits_figures (cs : List Char) :
    ofDigits 10 (figures cs) = Nat.ofDigitChars 10 cs 0 :=
  foldl_figures cs 0

theorem ofDigitChars_append (cs ds : List Char) (n : ℕ) :
    Nat.ofDigitChars 10 (cs ++ ds) n = Nat.ofDigitChars 10 ds (Nat.ofDigitChars 10 cs n) := by
  rw [← foldl_figures, ← foldl_figures, ← foldl_figures, figures, List.map_append, List.foldl_append]
  rfl

theorem ofDigitChars_replicate_zero (k : ℕ) :
    Nat.ofDigitChars 10 (List.replicate k '0') 0 = 0 := by
  induction k with
  | zero => rfl
  | succ k ih =>
      rw [List.replicate_succ, Nat.ofDigitChars_cons]
      exact ih

/-- Zeros in front of a number change nothing. -/
theorem ofDigits_zeros_toDigits (k n : ℕ) :
    ofDigits 10 (figures (List.replicate k '0' ++ Nat.toDigits 10 n)) = n := by
  rw [ofDigits_figures, ofDigitChars_append, ofDigitChars_replicate_zero,
    Nat.ofDigitChars_toDigits (by omega) (by omega)]

theorem ofDigits_toDigits (n : ℕ) : ofDigits 10 (figures (Nat.toDigits 10 n)) = n :=
  ofDigits_zeros_toDigits 0 n

theorem underscoredDigits_of_notMem (digit? : Char → Option ℕ) (h : '_' ∉ cs) (hcs : cs ≠ []) :
    underscoredDigits digit? cs = cs.mapM digit? := by
  rw [underscoredDigits, splitChars_last h]
  simp [hcs]

theorem underscoredDigits_of_figures (h : AreFigures cs) (hcs : cs ≠ []) :
    underscoredDigits digitValue? cs = some (figures cs) := by
  rw [underscoredDigits_of_notMem digitValue? (fun hmem => h.ne_of_mem hmem rfl rfl) hcs,
    mapM_digitValue? h]

/-! ## Whole numbers -/

theorem trimNumber_of_marks (h : AreMarks cs) : trimNumber cs = cs := by
  refine dropWhile_both_of_forall fun c hc => ?_
  obtain ⟨hlow, hhigh⟩ := toNat_of_isMark (h c hc)
  simp only [isNumberBlank, Bool.or_eq_false_iff, Bool.and_eq_false_iff, decide_eq_false_iff_not,
    beq_eq_false_iff_ne]
  omega

/-- The sign in front of a number; a plus is not written. -/
def signChars (negative : Bool) : List Char :=
  if negative then ['-'] else []

theorem takeSign_signChars (negative : Bool) (h : ∀ c ∈ cs.head?, c ≠ '-' ∧ c ≠ '+') :
    takeSign (signChars negative ++ cs) = (negative, cs) := by
  cases negative with
  | true => rfl
  | false =>
      cases cs with
      | nil => rfl
      | cons c cs =>
          obtain ⟨hminus, hplus⟩ := h c rfl
          rw [signChars, if_neg (by simp), List.nil_append, takeSign]
          · simpa using hminus
          · simpa using hplus

theorem marks_signChars (negative : Bool) : AreMarks (signChars negative) := by
  cases negative with
  | true => exact .cons rfl (by rintro c ⟨⟩)
  | false => rintro c ⟨⟩

theorem toList_toString_nat (n : ℕ) : (toString n).toList = Nat.toDigits 10 n := by
  rw [Nat.toString_eq_repr, Nat.toList_repr]

theorem toList_toString_int (n : ℤ) :
    (toString n).toList = signChars (decide (n < 0)) ++ Nat.toDigits 10 n.natAbs := by
  change n.repr.toList = _
  rw [Int.repr_eq_if]
  split
  · rename_i h
    rw [signChars, if_neg (by simpa using h), Nat.toList_repr, List.nil_append]
    congr 1
    omega
  · rename_i h
    rw [signChars, if_pos (by simpa using h), String.toList_append, Nat.toList_repr]
    congr 2
    omega

theorem marks_toString_int (n : ℤ) : AreMarks (toString n).toList := by
  rw [toList_toString_int]
  exact (marks_signChars _).append (AreFigures.toDigits _).marks

theorem isWritable_iff {n : ℤ} : isWritable n = true ↔ n.natAbs < 10 ^ maxDigits := by
  rw [isWritable, digitCount, decide_eq_true_eq,
    Nat.length_toDigits_le_iff (by omega) (by simp [maxDigits])]

theorem isWritable_natCast {n : ℕ} : isWritable n = true ↔ n < 10 ^ maxDigits := by
  rw [isWritable_iff, Int.natAbs_natCast]

/-- Every number that a binary number tells apart from its neighbours can be written. -/
theorem isWritable_of_le {n : ℕ} (h : n ≤ 2 ^ 53) : isWritable n = true :=
  isWritable_natCast.mpr <| calc
    n ≤ 2 ^ 53 := h
    _ < 10 ^ 16 := by norm_num
    _ ≤ 10 ^ maxDigits := Nat.pow_le_pow_right (by omega) (by simp [maxDigits])

/-- A whole number that is not too long is read from its text. -/
theorem readInteger_toString {n : ℤ} (h : (Nat.toDigits 10 n.natAbs).length ≤ maxDigits) :
    readInteger (toString n) = some n := by
  have hfigures := AreFigures.toDigits n.natAbs
  have hsign : ∀ c ∈ (Nat.toDigits 10 n.natAbs).head?, c ≠ '-' ∧ c ≠ '+' := fun c hc =>
    ⟨hfigures.ne_of_mem (List.mem_of_head? hc) rfl, hfigures.ne_of_mem (List.mem_of_head? hc) rfl⟩
  have hlength : ¬ (figures (Nat.toDigits 10 n.natAbs)).length > maxDigits := by
    rw [figures, List.length_map]
    omega
  rw [readInteger, trimNumber_of_marks (marks_toString_int n), toList_toString_int,
    takeSign_signChars _ hsign]
  simp only [underscoredDigits_of_figures hfigures (toDigits_ne_nil _), ofDigits_toDigits,
    if_neg hlength, decide_eq_true_eq]
  split
  · congr 1
    omega
  · congr 1
    omega

end Number
end PageQuery
