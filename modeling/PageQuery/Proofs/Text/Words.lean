import Mathlib
import PageQuery.Proofs.Text.Case
import PageQuery.Text.Blank

/-!
# Words and directions

The words of a text are its runs of characters that are not blank, so a word comes back out of a text in
which it stands by itself.  One word means something in a sort: `desc`, in any letter case.  Lower case
follows the tables of Unicode, in which a letter outside ASCII may come to lie inside it (the Kelvin sign
does), so it has to be seen that none comes to one of these four letters.
-/

namespace PageQuery.Text

variable {cs word rest : List Char} {c : Char}

theorem wordsChars_blank_cons (h : isBlankChar c = true) : wordsChars (c :: cs) = wordsChars cs := by
  rw [wordsChars.eq_def]
  exact if_pos h

/-- A run of characters that are not blank, up to the first blank, is a word. -/
theorem wordsChars_append (hword : word ≠ []) (h : ∀ c ∈ word, isBlankChar c = false)
    (hc : isBlankChar c = true) : wordsChars (word ++ c :: rest) = word :: wordsChars rest := by
  induction word with
  | nil => exact absurd rfl hword
  | cons d word ih =>
      obtain ⟨hd, hword⟩ := List.forall_mem_cons.mp h
      cases word with
      | nil =>
          rw [List.singleton_append, wordsChars.eq_def]
          simp [hd, hc, wordsChars_blank_cons]
      | cons e word =>
          have he : isBlankChar e = false := hword e List.mem_cons_self
          have hrest := ih (List.cons_ne_nil _ _) hword
          rw [List.cons_append] at hrest
          rw [List.cons_append, List.cons_append, wordsChars.eq_def]
          simp only [hd, he, hrest, Bool.false_eq_true, if_false]

theorem wordsChars_eq_nil : wordsChars cs = [] ↔ ∀ c ∈ cs, isBlankChar c = true := by
  induction cs with
  | nil => exact iff_of_true rfl (List.forall_mem_nil _)
  | cons c cs ih =>
      cases hc : isBlankChar c with
      | true => rw [wordsChars_blank_cons hc, ih, List.forall_mem_cons, hc, eq_self, true_and]
      | false =>
          rw [wordsChars.eq_def]
          simp only [List.forall_mem_cons, hc, Bool.false_eq_true, if_false, false_and, iff_false]
          split
          · simp
          · split
            · simp
            · split <;> simp

/-- A text has no words exactly if it is blank. -/
theorem words_eq_nil {s : String} : words s = [] ↔ isBlank s = true := by
  rw [words, List.map_eq_nil_iff, wordsChars_eq_nil, isBlank, List.all_eq_true]

/-! ## Spaced words -/

/-- A word has characters, and none of them is blank. -/
structure IsWord (word : List Char) : Prop where
  ne_nil : word ≠ []
  blank : ∀ c ∈ word, isBlankChar c = false

/-- Words stand in a text one after the other, with blanks between them and perhaps around them. -/
inductive Spaced : List (List Char) → List Char → Prop
  | gap {gap : List Char} (hgap : ∀ c ∈ gap, isBlankChar c = true) : Spaced [] gap
  | word {gap word rest : List Char} {words : List (List Char)} (hgap : ∀ c ∈ gap, isBlankChar c = true)
      (hword : IsWord word) (hends : ∀ c ∈ rest.head?, isBlankChar c = true) (h : Spaced words rest) :
      Spaced (word :: words) (gap ++ (word ++ rest))

/-- Each of the words is one, and all of it stands in the text. -/
theorem Spaced.isWord_of_mem {words : List (List Char)} (h : Spaced words cs) (hmem : word ∈ words) :
    IsWord word ∧ word ⊆ cs := by
  induction h with
  | gap => cases hmem
  | @word gap first rest words _ hword _ _ ih =>
      rcases List.mem_cons.mp hmem with rfl | hmem
      · exact ⟨hword, fun c hc => List.mem_append_right _ (List.mem_append_left _ hc)⟩
      · exact ⟨(ih hmem).1, fun c hc => List.mem_append_right _ (List.mem_append_right _ ((ih hmem).2 hc))⟩

theorem Spaced.blank_cons {words : List (List Char)} (hc : isBlankChar c = true) (h : Spaced words cs) :
    Spaced words (c :: cs) := by
  cases h with
  | gap hgap => exact .gap (List.forall_mem_cons.mpr ⟨hc, hgap⟩)
  | word hgap hword hends h => exact .word (List.forall_mem_cons.mpr ⟨hc, hgap⟩) hword hends h

/-- A character before a word that begins a text belongs to the word. -/
theorem Spaced.char_cons {d : Char} {words : List (List Char)} (hc : isBlankChar c = false)
    (hd : isBlankChar d = false) (h : Spaced (word :: words) (d :: cs)) :
    Spaced ((c :: word) :: words) (c :: d :: cs) := by
  generalize htext : d :: cs = text at h
  cases h with
  | @word gap _ rest _ hgap hword hends h =>
      obtain rfl : gap = [] := by
        cases gap with
        | nil => rfl
        | cons e gap =>
            obtain ⟨rfl, -⟩ := List.cons.inj htext
            rw [hgap d List.mem_cons_self] at hd
            cases hd
      exact .word (List.forall_mem_nil _)
        ⟨List.cons_ne_nil _ _, List.forall_mem_cons.mpr ⟨hc, hword.blank⟩⟩ hends h

theorem spaced_wordsChars (cs : List Char) : Spaced (wordsChars cs) cs := by
  induction cs with
  | nil => exact .gap (List.forall_mem_nil _)
  | cons c cs ih =>
      cases hc : isBlankChar c with
      | true =>
          rw [wordsChars_blank_cons hc]
          exact ih.blank_cons hc
      | false =>
          have hsingle : IsWord [c] := ⟨List.cons_ne_nil _ _, List.forall_mem_singleton.mpr hc⟩
          rw [wordsChars.eq_def]
          simp only [hc, Bool.false_eq_true, if_false]
          cases cs with
          | nil => exact .word (List.forall_mem_nil _) hsingle (by simp) ih
          | cons d cs =>
              cases hd : isBlankChar d with
              | true =>
                  simp only [hd, if_true]
                  exact .word (List.forall_mem_nil _) hsingle (by simpa using hd) ih
              | false =>
                  have hwords : wordsChars (d :: cs) ≠ [] := fun hnil => by
                    rw [wordsChars_eq_nil.mp hnil d List.mem_cons_self] at hd
                    cases hd
                  obtain ⟨word, words, hcons⟩ := List.exists_cons_of_ne_nil hwords
                  rw [hcons] at ih
                  simp only [hd, hcons, Bool.false_eq_true, if_false]
                  exact ih.char_cons hc hd

theorem wordsChars_gap_append {gap : List Char} (h : ∀ c ∈ gap, isBlankChar c = true) :
    wordsChars (gap ++ cs) = wordsChars cs := by
  induction gap with
  | nil => rfl
  | cons c gap ih =>
      obtain ⟨hc, hgap⟩ := List.forall_mem_cons.mp h
      rw [List.cons_append, wordsChars_blank_cons hc, ih hgap]

theorem wordsChars_of_isWord (h : IsWord word) : wordsChars word = [word] := by
  obtain ⟨hnil, hblank⟩ := h
  induction word with
  | nil => exact absurd rfl hnil
  | cons c word ih =>
      obtain ⟨hc, hword⟩ := List.forall_mem_cons.mp hblank
      cases word with
      | nil =>
          rw [wordsChars.eq_def]
          simp [hc]
      | cons d word =>
          rw [wordsChars.eq_def]
          simp only [hc, hword d List.mem_cons_self, ih (List.cons_ne_nil _ _) hword, Bool.false_eq_true,
            if_false]

/-- The words of a text are the ones that stand in it. -/
theorem wordsChars_eq_iff_spaced {words : List (List Char)} : wordsChars cs = words ↔ Spaced words cs := by
  refine ⟨fun h => h ▸ spaced_wordsChars cs, fun h => ?_⟩
  induction h with
  | gap hgap => exact wordsChars_eq_nil.mpr hgap
  | @word gap word rest words hgap hword hends _ ih =>
      rw [wordsChars_gap_append hgap]
      cases rest with
      | nil =>
          rw [List.append_nil, wordsChars_of_isWord hword, ← ih]
          rfl
      | cons c rest =>
          have hc : isBlankChar c = true := hends c rfl
          rw [wordsChars_append hword.ne_nil hword.blank hc, ← wordsChars_blank_cons hc, ih]

/-! ## Directions -/

def descLetters : List Char := ['d', 'e', 's', 'c']

/-- They are no `k`, which the Kelvin sign comes to, and no `i`, which the dotted capital comes to. -/
theorem toNat_of_mem_descLetters {d : Char} (h : d ∈ descLetters) :
    99 ≤ d.toNat ∧ d.toNat ≤ 115 ∧ d.toNat ≠ 107 ∧ d.toNat ≠ 105 := by
  simp only [descLetters, List.mem_cons, List.not_mem_nil, or_false] at h
  rcases h with rfl | rfl | rfl | rfl <;> decide

/-- No character outside ASCII has one of these letters as its lower-case form. -/
theorem target_ne_letter {n m : ℕ} (h : shiftBy lowerRows n = some m) {d : Char}
    (hd : d ∈ descLetters) : m ≠ d.toNat := by
  have hcode := toNat_of_mem_descLetters hd
  obtain ⟨row, hrow, rfl⟩ := Option.map_eq_some_iff.mp h
  have hall : (lowerRows.all fun row => decide ((115 : ℤ) < (row.first : ℤ) + row.shift ∨
      row.first = row.last ∧ (row.first : ℤ) + row.shift = 107)) = true := by
    decide +kernel
  have htarget := of_decide_eq_true (List.all_eq_true.mp hall row (List.mem_of_find?_eq_some hrow))
  have hcovers := List.find?_some hrow
  simp only [CaseRow.covers, Bool.and_eq_true, decide_eq_true_eq] at hcovers
  omega

theorem toLower_of_le {c : Char} (h : 128 ≤ c.toNat) : c.toLower = c := by
  have hupper : ¬ c.val ≤ 'Z'.val := by
    rw [UInt32.le_iff_toNat_le]
    exact Nat.not_le_of_lt (Nat.lt_of_lt_of_le (by decide) h)
  rw [Char.toLower, dif_neg fun hboth => hupper hboth.2]

/-- A character has one of these letters as its lower-case form exactly if it is that letter or its
capital. -/
theorem lowerChar_eq_letter {c d : Char} (hd : d ∈ descLetters) :
    lowerChar c = d ↔ c.toLower = d := by
  by_cases hascii : c.toNat < 128
  · rw [lowerChar_eq_toLower hascii]
  · have hcode := toNat_of_mem_descLetters hd
    have hne : c ≠ d := by
      rintro rfl
      omega
    rw [toLower_of_le (by omega)]
    refine iff_of_false (fun h => ?_) hne
    rw [lowerChar, if_neg hascii] at h
    split at h
    · rename_i m hm
      have hm' := target_ne_letter hm hd
      have hcode' : (if m.isValidChar then m else 0) = d.toNat := by
        rw [← Char.toNat_ofNat, h]
      split at hcode' <;> omega
    · exact hne h

theorem lowerAt_ne_nil (before : List Char) (c : Char) (after : List Char) :
    lowerAt before c after ≠ [] := by
  rw [lowerAt]
  split
  · exact List.cons_ne_nil _ _
  · split <;> exact List.cons_ne_nil _ _

/-- The characters whose form depends on their neighbours, or is longer, have other forms. -/
theorem lowerAt_append_eq_letter {before after : List Char} {c d : Char} (hd : d ∈ descLetters)
    {cs ds : List Char} :
    lowerAt before c after ++ cs = d :: ds ↔ c.toLower = d ∧ cs = ds := by
  have hcode := toNat_of_mem_descLetters hd
  have hne {e : Char} (he : e.toNat = 105 ∨ 128 ≤ e.toNat) : e ≠ d := by
    rintro rfl
    omega
  rw [lowerAt]
  split
  · rename_i hsigma
    rw [toLower_of_le (by omega), List.singleton_append, List.cons.injEq]
    refine iff_of_false (fun h => ?_) fun h => hne (.inr (by omega)) h.1
    refine hne (.inr ?_) h.1
    split <;> decide
  · split
    · rename_i hdotted
      rw [toLower_of_le (by omega), List.cons_append, List.cons.injEq]
      exact iff_of_false (fun h => hne (.inl rfl) h.1) fun h => hne (.inr (by omega)) h.1
    · rw [List.singleton_append, List.cons.injEq, lowerChar_eq_letter hd]

theorem lowerFrom_eq_letters (before : List Char) {ds : List Char} (hds : ∀ d ∈ ds, d ∈ descLetters) :
    lowerFrom before cs = ds ↔ cs.map Char.toLower = ds := by
  induction cs generalizing before ds with
  | nil => rfl
  | cons c cs ih =>
      rw [lowerFrom, List.map_cons]
      cases ds with
      | nil =>
          exact iff_of_false (List.append_ne_nil_of_left_ne_nil (lowerAt_ne_nil _ _ _) _)
            (List.cons_ne_nil _ _)
      | cons d ds =>
          obtain ⟨hd, hds⟩ := List.forall_mem_cons.mp hds
          rw [lowerAt_append_eq_letter hd, ih _ hds, List.cons.injEq]

/-- A text has the lower-case form `desc` exactly if it is that word in some letter case of ASCII. -/
theorem lower_eq_desc {s : String} : lower s = "desc" ↔ s.toList.map Char.toLower = descLetters := by
  rw [lower, ← lowerFrom_eq_letters [] fun d hd => hd]
  exact ⟨fun h => String.ofList_injective h, fun h => congrArg String.ofList h⟩

end PageQuery.Text
