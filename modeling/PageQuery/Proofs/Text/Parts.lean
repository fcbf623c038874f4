import Mathlib
import PageQuery.Text.Blank

/-!
# Cutting and trimming

A text is cut at a separator into parts that do not hold it, and joining the parts brings the text
back.  Trimming leaves a text without blanks at its ends, so a second time it changes nothing.
-/

namespace PageQuery

open PageQuery.Text

variable {separator : Char} {cs : List Char}

/-! ## Parts -/

theorem splitChars_ne_nil (separator : Char) (cs : List Char) : splitChars separator cs ≠ [] := by
  cases cs with
  | nil => exact List.cons_ne_nil _ _
  | cons c cs =>
      rw [splitChars]
      split
      · exact List.cons_ne_nil _ _
      · split <;> exact List.cons_ne_nil _ _

theorem splitChars_cons_of_ne {c : Char} (h : c ≠ separator) (cs : List Char) :
    ∃ part parts, splitChars separator cs = part :: parts ∧
      splitChars separator (c :: cs) = (c :: part) :: parts := by
  obtain ⟨part, parts, hparts⟩ := List.exists_cons_of_ne_nil (splitChars_ne_nil separator cs)
  exact ⟨part, parts, hparts, by rw [splitChars, if_neg h, hparts]⟩

/-- A separator between two texts keeps their parts apart. -/
theorem splitChars_append_cons (separator : Char) (cs rest : List Char) :
    splitChars separator (cs ++ separator :: rest) =
      splitChars separator cs ++ splitChars separator rest := by
  induction cs with
  | nil => simp [splitChars]
  | cons c cs ih =>
      by_cases hc : c = separator
      · rw [List.cons_append, splitChars, if_pos hc, ih, splitChars, if_pos hc, List.cons_append]
      · obtain ⟨part, parts, hparts, hcons⟩ := splitChars_cons_of_ne hc cs
        rw [hparts, List.cons_append] at ih
        rw [List.cons_append, splitChars, if_neg hc, ih, hcons, List.cons_append]

theorem splitChars_last (h : separator ∉ cs) : splitChars separator cs = [cs] := by
  induction cs with
  | nil => rfl
  | cons c cs ih =>
      rw [List.mem_cons, not_or] at h
      rw [splitChars, if_neg (Ne.symm h.1), ih h.2]

theorem splitChars_append {rest : List Char} (h : separator ∉ cs) :
    splitChars separator (cs ++ separator :: rest) = cs :: splitChars separator rest := by
  rw [splitChars_append_cons, splitChars_last h, List.singleton_append]

/-- Parts that do not hold the separator come apart again when they are joined by it. -/
theorem splitChars_intercalate {parts : List (List Char)} (hparts : parts ≠ [])
    (h : ∀ part ∈ parts, separator ∉ part) :
    splitChars separator ([separator].intercalate parts) = parts := by
  induction parts with
  | nil => exact absurd rfl hparts
  | cons part parts ih =>
      obtain ⟨hpart, hrest⟩ := List.forall_mem_cons.mp h
      cases parts with
      | nil => rw [List.intercalate_singleton, splitChars_last hpart]
      | cons next parts =>
          rw [List.intercalate_cons_cons, List.append_assoc, List.singleton_append,
            splitChars_append hpart, ih (List.cons_ne_nil _ _) hrest]

/-- The parts of a text are joined to it again. -/
theorem intercalate_splitChars (separator : Char) (cs : List Char) :
    [separator].intercalate (splitChars separator cs) = cs := by
  induction cs with
  | nil => rfl
  | cons c cs ih =>
      by_cases hc : c = separator
      · obtain ⟨part, parts, hparts⟩ := List.exists_cons_of_ne_nil (splitChars_ne_nil separator cs)
        rw [splitChars, if_pos hc, hc, hparts, List.intercalate_cons_cons, ← hparts, ih]
        rfl
      · obtain ⟨part, parts, hparts, hcons⟩ := splitChars_cons_of_ne hc cs
        rw [hparts] at ih
        rw [hcons]
        cases parts with
        | nil =>
            rw [List.intercalate_singleton] at ih ⊢
            rw [ih]
        | cons next parts =>
            rw [List.intercalate_cons_cons] at ih ⊢
            exact congrArg (c :: ·) ih

/-- The characters of a part are characters of the text other than the separator. -/
theorem mem_of_mem_splitChars {part : List Char} (hpart : part ∈ splitChars separator cs) {c : Char}
    (hc : c ∈ part) : c ∈ cs ∧ c ≠ separator := by
  induction cs generalizing part with
  | nil =>
      rw [splitChars, List.mem_singleton] at hpart
      rw [hpart] at hc
      cases hc
  | cons d cs ih =>
      by_cases hd : d = separator
      · rw [splitChars, if_pos hd, List.mem_cons] at hpart
        rcases hpart with rfl | hpart
        · cases hc
        · exact (ih hpart hc).imp_left (List.mem_cons_of_mem d)
      · obtain ⟨first, parts, hsplit, hcons⟩ := splitChars_cons_of_ne hd cs
        rw [hcons, List.mem_cons] at hpart
        rw [hsplit] at ih
        rcases hpart with rfl | hpart
        · rcases List.mem_cons.mp hc with rfl | hc
          · exact ⟨List.mem_cons_self, hd⟩
          · exact (ih List.mem_cons_self hc).imp_left (List.mem_cons_of_mem d)
        · exact (ih (List.mem_cons_of_mem _ hpart) hc).imp_left (List.mem_cons_of_mem d)

/-- A character of joined parts is the separator or a character of a part. -/
theorem mem_of_mem_intercalate {parts : List (List Char)} {c : Char}
    (h : c ∈ [separator].intercalate parts) : c = separator ∨ ∃ part ∈ parts, c ∈ part := by
  induction parts with
  | nil => cases h
  | cons part parts ih =>
      cases parts with
      | nil => exact .inr ⟨part, List.mem_cons_self, by rwa [List.intercalate_singleton] at h⟩
      | cons next parts =>
          rw [List.intercalate_cons_cons, List.append_assoc, List.mem_append] at h
          rcases h with h | h
          · exact .inr ⟨part, List.mem_cons_self, h⟩
          · rcases List.mem_cons.mp h with rfl | h
            · exact .inl rfl
            · exact (ih h).imp_right fun ⟨p, hp, hc⟩ => ⟨p, List.mem_cons_of_mem part hp, hc⟩

theorem part_prefix_intercalate (separator : Char) (part : List Char) (parts : List (List Char)) :
    part <+: [separator].intercalate (part :: parts) := by
  cases parts with
  | nil => rw [List.intercalate_singleton]
  | cons next parts =>
      rw [List.intercalate_cons_cons, List.append_assoc]
      exact List.prefix_append _ _

theorem split_ne_nil (separator : Char) (text : String) : split separator text ≠ [] := by
  rw [split, ne_eq, List.map_eq_nil_iff]
  exact splitChars_ne_nil separator text.toList

/-- Texts without the separator are told apart again when they are joined by it. -/
theorem split_intercalate {joint : String} (hjoint : joint.toList = [separator])
    {parts : List String} (hparts : parts ≠ []) (h : ∀ part ∈ parts, separator ∉ part.toList) :
    split separator (String.intercalate joint parts) = parts := by
  have hchars : ∀ part ∈ parts.map String.toList, separator ∉ part := by
    simpa using h
  have hjoined : (String.intercalate joint parts).toList =
      [separator].intercalate (parts.map String.toList) := by
    rw [String.toList_intercalate, hjoint]
  rw [split, hjoined, splitChars_intercalate (by simpa using hparts) hchars, List.map_map]
  simp [Function.comp_def]

/-! ## Trimmed texts -/

/-- Where nothing is to be taken off, both ends stay. -/
theorem dropWhile_both_of_forall {p : Char → Bool} (h : ∀ c ∈ cs, p c = false) :
    ((cs.dropWhile p).reverse.dropWhile p).reverse = cs := by
  have hkept : ∀ ds : List Char, (∀ c ∈ ds, p c = false) → ds.dropWhile p = ds := by
    rintro (_ | ⟨c, ds⟩) hds
    · rfl
    · rw [List.dropWhile_cons_of_neg (by simp [hds c List.mem_cons_self])]
  rw [hkept cs h, hkept cs.reverse fun c hc => h c (List.mem_reverse.mp hc), List.reverse_reverse]

theorem trimChars_of_forall (h : ∀ c ∈ cs, isBlankChar c = false) : trimChars cs = cs :=
  dropWhile_both_of_forall h

theorem trimChars_eq (cs : List Char) :
    trimChars cs = (cs.dropWhile isBlankChar).rdropWhile isBlankChar := rfl

theorem mem_of_mem_trimChars {c : Char} (h : c ∈ trimChars cs) : c ∈ cs := by
  rw [trimChars_eq] at h
  exact (List.dropWhile_sublist _).subset ((List.rdropWhile_prefix _ _).subset h)

/-- A trimmed text has no blanks left to take off. -/
theorem trimChars_trimChars (cs : List Char) : trimChars (trimChars cs) = trimChars cs := by
  have hfront : (trimChars cs).dropWhile isBlankChar = trimChars cs := by
    rw [List.dropWhile_eq_self_iff]
    intro hlength
    obtain ⟨rest, hrest⟩ := List.rdropWhile_prefix isBlankChar (cs.dropWhile isBlankChar)
    have hhead := List.head?_dropWhile_not isBlankChar cs
    rw [← trimChars_eq] at hrest
    rw [← hrest, List.head?_append, List.head?_eq_getElem?, List.getElem?_eq_getElem hlength] at hhead
    simpa using hhead
  calc trimChars (trimChars cs)
      = (trimChars cs).rdropWhile isBlankChar := by rw [trimChars_eq (trimChars cs), hfront]
    _ = trimChars cs := by rw [trimChars_eq, List.rdropWhile_idempotent]

/-- Only blanks are trimmed to nothing. -/
theorem trimChars_eq_nil : trimChars cs = [] ↔ ∀ c ∈ cs, isBlankChar c = true := by
  rw [trimChars_eq, List.rdropWhile_eq_nil_iff]
  constructor
  · intro hall
    rw [← List.dropWhile_eq_nil_iff]
    by_contra hne
    have hhead := List.head?_dropWhile_not isBlankChar cs
    rw [List.head?_eq_some_head hne] at hhead
    exact absurd (hall _ (List.head_mem hne)) (by simpa using hhead)
  · exact fun hall c hc => hall c ((List.dropWhile_sublist _).subset hc)

/-- What is left of a text that is not blank is not blank either. -/
theorem isBlank_trim {text : String} (h : isBlank text = false) : isBlank (trim text) = false := by
  rw [isBlank, List.all_eq_false] at h ⊢
  obtain ⟨c, hc, hblank⟩ := h
  rw [trim, String.toList_ofList]
  by_contra hall
  simp only [not_exists, not_and, not_not] at hall
  have hnil := trimChars_eq_nil.mpr hall
  rw [trimChars_trimChars, trimChars_eq_nil] at hnil
  exact hblank (hnil c hc)

theorem trim_trim (text : String) : trim (trim text) = trim text := by
  rw [trim, trim, String.toList_ofList, trimChars_trimChars]

theorem trimChars_blank_cons {c : Char} (h : isBlankChar c = true) :
    trimChars (c :: cs) = trimChars cs := by
  rw [trimChars, List.dropWhile_cons_of_pos h, trimChars]

end PageQuery
