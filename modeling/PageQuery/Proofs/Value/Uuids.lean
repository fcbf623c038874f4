import Mathlib
import PageQuery.Schema.Parser
import PageQuery.Proofs.Number.Figures

/-!
# Identifiers are read from their texts

The text of an identifier has 32 hexadecimal digits in five groups.  Hyphens count for nothing when it
is read, none of the digits begins a word that is passed over, and `0x` is no beginning of it either.
-/

namespace PageQuery

open PageQuery.Text PageQuery.Number

/-! ## Hexadecimal digits -/

def hexChars : List Char :=
  "0123456789abcdef".toList

/-- Whether characters are hexadecimal digits as they are written. -/
def AreHexChars (cs : List Char) : Prop :=
  ∀ c ∈ cs, c ∈ hexChars

theorem digitChar_mem_hexChars {d : ℕ} (h : d < 16) :
    d.digitChar ∈ hexChars ∧ hexDigit? d.digitChar = some d := by
  have hall : ∀ d : Fin 16, d.val.digitChar ∈ hexChars ∧ hexDigit? d.val.digitChar = some d.val := by
    decide
  exact hall ⟨d, h⟩

theorem isMark_of_mem_hexChars {c : Char} (h : c ∈ hexChars) : isMark c = true :=
  List.all_eq_true.mp (show hexChars.all isMark = true by decide) c h

theorem AreHexChars.marks {cs : List Char} (h : AreHexChars cs) : AreMarks cs := fun c hc =>
  isMark_of_mem_hexChars (h c hc)

theorem AreHexChars.ne_of_mem {cs : List Char} (h : AreHexChars cs) {c d : Char} (hc : c ∈ cs)
    (hd : d ∉ hexChars) : c ≠ d := by
  rintro rfl
  exact hd (h c hc)

namespace Number

theorem ofDigits_append (base : ℕ) (ds : List ℕ) (d : ℕ) :
    ofDigits base (ds ++ [d]) = base * ofDigits base ds + d := by
  rw [ofDigits, List.foldl_append]
  rfl

/-- The hexadecimal digits of a number are read as the number. -/
theorem exists_mapM_hexDigit? (n : ℕ) :
    AreHexChars (Nat.toDigits 16 n) ∧
      ∃ ds, (Nat.toDigits 16 n).mapM hexDigit? = some ds ∧ ofDigits 16 ds = n := by
  induction n using Nat.strongRecOn with
  | ind n ih =>
      rw [Nat.toDigits_eq_if (by omega)]
      split
      · rename_i hsmall
        obtain ⟨hmem, hread⟩ := digitChar_mem_hexChars hsmall
        refine ⟨fun c hc => List.mem_singleton.mp hc ▸ hmem, [n], ?_, by simp [ofDigits]⟩
        rw [List.mapM_cons, hread]
        rfl
      · rename_i hlarge
        obtain ⟨hmem, hread⟩ := digitChar_mem_hexChars (Nat.mod_lt n (show 0 < 16 by omega))
        obtain ⟨hchars, ds, hds, hvalue⟩ := ih (n / 16) (by omega)
        refine ⟨fun c hc => ?_, ds ++ [n % 16], ?_, ?_⟩
        · rcases List.mem_append.mp hc with hc | hc
          · exact hchars c hc
          · exact List.mem_singleton.mp hc ▸ hmem
        · rw [List.mapM_append, hds, List.mapM_cons, hread]
          rfl
        · rw [ofDigits_append, hvalue]
          omega

theorem areHexChars_hexDigits (width n : ℕ) : AreHexChars (hexDigits width n) := by
  intro c hc
  rcases List.mem_append.mp hc with hc | hc
  · rw [List.eq_of_mem_replicate hc]
    decide
  · exact (exists_mapM_hexDigit? n).1 c hc

theorem exists_mapM_hexDigits (width n : ℕ) :
    ∃ ds, (hexDigits width n).mapM hexDigit? = some ds ∧ ofDigits 16 ds = n := by
  obtain ⟨-, ds, hds, hvalue⟩ := exists_mapM_hexDigit? n
  have hzeros (k : ℕ) : (List.replicate k '0' ++ Nat.toDigits 16 n).mapM hexDigit? =
      some (List.replicate k 0 ++ ds) := by
    induction k with
    | zero => exact hds
    | succ k ih =>
        rw [List.replicate_succ, List.cons_append, List.mapM_cons, ih]
        rfl
  refine ⟨_, hzeros _, ?_⟩
  generalize width - (Nat.toDigits 16 n).length = k
  induction k with
  | zero => exact hvalue
  | succ k ih =>
      rw [List.replicate_succ, List.cons_append]
      exact ih

theorem length_hexDigits {width n : ℕ} (hwidth : 0 < width) (h : n < 16 ^ width) :
    (hexDigits width n).length = width := by
  have hlength := (Nat.length_toDigits_le_iff (by omega) hwidth).mpr h
  rw [hexDigits, List.length_append, List.length_replicate]
  omega

/-- A number is read from its hexadecimal digits. -/
theorem readHexadecimal_hexDigits (width n : ℕ) :
    readHexadecimal (hexDigits width n) = some (n : ℤ) := by
  have hchars := areHexChars_hexDigits width n
  obtain ⟨ds, hds, hvalue⟩ := exists_mapM_hexDigits width n
  have hnil : hexDigits width n ≠ [] := by
    rw [hexDigits, ne_eq, List.append_eq_nil_iff, not_and]
    exact fun _ => List.length_pos_iff.mp Nat.length_toDigits_pos
  generalize hexDigits width n = cs at hchars hds hnil
  have hsign : takeSign cs = (false, cs) := takeSign_signChars false fun c hc =>
    ⟨hchars.ne_of_mem (List.mem_of_head? hc) (by decide),
      hchars.ne_of_mem (List.mem_of_head? hc) (by decide)⟩
  have hdigits : underscoredDigits hexDigit? cs = some ds :=
    (underscoredDigits_of_notMem hexDigit? (fun h => hchars.ne_of_mem h (by decide) rfl) hnil).trans hds
  have hmarker : ∀ c ∈ cs, ¬ (decide (c = 'x') || decide (c = 'X')) = true := by
    intro c hc
    simp [hchars.ne_of_mem hc (show 'x' ∉ hexChars by decide),
      hchars.ne_of_mem hc (show 'X' ∉ hexChars by decide)]
  have hkept : readHexadecimal cs = (underscoredDigits hexDigit? cs).map fun digits =>
      (ofDigits 16 digits : ℤ) := by
    simp only [readHexadecimal, trimNumber_of_marks hchars.marks, hsign, Bool.false_eq_true, if_false]
    split
    · rw [if_neg (hmarker _ (by simp))]
    · rw [if_neg (hmarker _ (by simp))]
    · rfl
  rw [hkept, hdigits, Option.map_some, hvalue]

end Number

/-! ## Texts -/

theorem removeWord_of_notMem {w : Char} {ws cs : List Char} (h : w ∉ cs) (fuel : ℕ) :
    Parser.removeWord (w :: ws) fuel cs = cs := by
  induction cs generalizing fuel with
  | nil => cases fuel <;> rfl
  | cons c cs ih =>
      rw [List.mem_cons, not_or] at h
      cases fuel with
      | zero => rfl
      | succ fuel =>
          have hhead : (w :: ws).isPrefixOf (c :: cs) = false := by
            simp [List.isPrefixOf, h.1]
          rw [Parser.removeWord, hhead, if_neg (by simp), ih h.2]

theorem without_of_notMem {w : Char} {word : String} (hword : word.toList.head? = some w)
    {cs : List Char} (h : w ∉ cs) : Parser.without word cs = cs := by
  obtain ⟨ws, hws⟩ := List.head?_eq_some_iff.mp hword
  rw [Parser.without, hws, removeWord_of_notMem h]

/-- The text of an identifier has its digits in groups, and nothing else but hyphens. -/
theorem uuidText_spec {n : ℕ} (h : n < 2 ^ 128) :
    (uuidText n).toList.filter (· ≠ '-') = hexDigits 32 n ∧
      ∀ c ∈ (uuidText n).toList, c = '-' ∨ c ∈ hexChars := by
  have hchars := areHexChars_hexDigits 32 n
  have hlength : (hexDigits 32 n).length = 32 := length_hexDigits (by omega) (by omega)
  rw [uuidText, String.toList_ofList]
  dsimp only
  generalize hexDigits 32 n = cs at *
  have hgroup (start count : ℕ) : AreHexChars ((cs.drop start).take count) := fun c hc =>
    hchars c (List.mem_of_mem_drop (List.mem_of_mem_take hc))
  have hkept (start count : ℕ) : ((cs.drop start).take count).filter (· ≠ '-') =
      (cs.drop start).take count := by
    rw [List.filter_eq_self]
    exact fun c hc => decide_eq_true ((hgroup start count).ne_of_mem hc (by decide))
  have hjoin (start count : ℕ) : (cs.drop start).take count ++ cs.drop (start + count) =
      cs.drop start := by
    rw [← List.drop_drop, List.take_append_drop]
  constructor
  · have hhyphen (ds : List Char) : ('-' :: ds).filter (· ≠ '-') = ds.filter (· ≠ '-') :=
      List.filter_cons_of_neg (by simp)
    have hlast : (cs.drop 20).take 12 = cs.drop 20 := List.take_of_length_le (by simp; omega)
    simp only [List.filter_append, hhyphen, hkept, List.append_assoc, List.cons_append]
    rw [hlast, hjoin 16 4, hjoin 12 4, hjoin 8 4, hjoin 0 8, List.drop_zero]
  · intro c hc
    simp only [List.mem_append, List.mem_cons] at hc
    rcases hc with (((hc | rfl | hc) | rfl | hc) | rfl | hc) | rfl | hc
    all_goals first | exact .inl rfl | exact .inr (hgroup _ _ c hc)

theorem marks_uuidText {n : ℕ} (h : n < 2 ^ 128) : AreMarks (uuidText n).toList := fun c hc =>
  ((uuidText_spec h).2 c hc).elim (fun heq => heq ▸ rfl) isMark_of_mem_hexChars

/-- An identifier is read from its text. -/
theorem readUuid_uuidText {n : ℕ} (h : n < 2 ^ 128) : Parser.readUuid (uuidText n) = some n := by
  obtain ⟨hdigits, hchars⟩ := uuidText_spec h
  have hother {c : Char} (hc : c ∈ (uuidText n).toList) {d : Char} (hhyphen : d ≠ '-')
      (hd : d ∉ hexChars) : c ≠ d := by
    rintro rfl
    exact (hchars c hc).elim hhyphen hd
  have hwords : Parser.without "uuid:" (Parser.without "urn:" (uuidText n).toList) =
      (uuidText n).toList := by
    have hu : 'u' ∉ (uuidText n).toList := fun hmem => hother hmem (by decide) (by decide) rfl
    rw [without_of_notMem (by decide) hu, without_of_notMem (by decide) hu]
  have hbrace : ∀ c ∈ (uuidText n).toList, (c == '\x7b' || c == '\x7d') = false := by
    intro c hc
    rw [Bool.or_eq_false_iff, beq_eq_false_iff_ne, beq_eq_false_iff_ne]
    exact ⟨hother hc (by decide) (by decide), hother hc (by decide) (by decide)⟩
  have hlength : (hexDigits 32 n).length = 32 := length_hexDigits (by omega) (by omega)
  rw [Parser.readUuid]
  simp only [hwords]
  rw [dropWhile_both_of_forall fun c hc => hbrace c hc, hdigits, if_pos hlength,
    readHexadecimal_hexDigits]

end PageQuery
