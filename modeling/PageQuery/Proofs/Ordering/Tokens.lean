import Mathlib
import PageQuery.Proofs.Ordering.Canonical

/-!
# Sorts as texts

A list of keys can be written as a sort in many ways.  Each key is written as a token: the property, and then
words of which only the first one counts, and it only if it is `desc` in some letter case.  Any blanks may
stand around the words, and blank tokens between the others.  A sort is read as the keys that it is written
for, so it is read as nothing else; and it cannot be read exactly if all of its tokens are blank.
-/

namespace PageQuery

open PageQuery.Text

namespace SortKey

variable {k : SortKey} {keys : List SortKey} {token s : String} {tokens : List String}

/-! ## Writing -/

/-- A token writes a key: it has no comma, its first word is the property, and it has a second word that is
`desc` in some letter case exactly if the key is descending. -/
def Writes (token : String) (k : SortKey) : Prop :=
  ',' ∉ token.toList ∧ ∃ further, Spaced (k.property.toList :: further) token.toList ∧
    (k.descending = true ↔ ∃ word ∈ further.head?, word.map Char.toLower = descLetters)

/-- Tokens write keys: a blank one writes none, and any other one writes the next key. -/
inductive WriteAll : List String → List SortKey → Prop
  | done : WriteAll [] []
  | blank {token : String} {tokens : List String} {keys : List SortKey} (hblank : isBlank token = true)
      (h : WriteAll tokens keys) : WriteAll (token :: tokens) keys
  | key {token : String} {tokens : List String} {k : SortKey} {keys : List SortKey}
      (hkey : Writes token k) (h : WriteAll tokens keys) : WriteAll (token :: tokens) (k :: keys)

/-- A text is a sort that is written for keys. -/
def IsWritten (s : String) (keys : List SortKey) : Prop :=
  ∃ tokens, WriteAll tokens keys ∧ s = String.intercalate "," tokens

/-! ## Tokens -/

theorem token?_eq_none_iff : token? token = none ↔ isBlank token = true := by
  constructor
  · intro h
    by_contra hblank
    obtain ⟨k, hk, -⟩ := exists_token? (Bool.eq_false_iff.mpr hblank)
    rw [h] at hk
    cases hk
  · exact token?_of_isBlank

theorem token?_eq_some_iff (hcomma : ',' ∉ token.toList) : token? token = some k ↔ Writes token k := by
  obtain ⟨property, descending⟩ := k
  rw [Writes, and_iff_right hcomma, token?, words]
  simp only [← wordsChars_eq_iff_spaced]
  cases wordsChars token.toList with
  | nil => simp
  | cons path further =>
      constructor
      · intro h
        obtain ⟨rfl, rfl⟩ := SortKey.mk.inj (Option.some.inj h)
        exact ⟨further, by rw [String.toList_ofList], by cases further <;> simp [lower_eq_desc]⟩
      · rintro ⟨further, hcons, hdescends⟩
        obtain ⟨rfl, rfl⟩ := List.cons.inj hcons
        refine congrArg some (congrArg₂ SortKey.mk String.ofList_toList (Bool.eq_iff_iff.mpr ?_))
        rw [hdescends]
        cases further <;> simp [lower_eq_desc]

theorem comma_notMem_of_isBlank (h : isBlank token = true) : ',' ∉ token.toList := by
  intro hcomma
  rw [isBlank, List.all_eq_true] at h
  exact absurd (h ',' hcomma) (by decide)

theorem WriteAll.comma_notMem (h : WriteAll tokens keys) : ∀ token ∈ tokens, ',' ∉ token.toList := by
  induction h with
  | done => exact List.forall_mem_nil _
  | blank hblank _ ih => exact List.forall_mem_cons.mpr ⟨comma_notMem_of_isBlank hblank, ih⟩
  | key hkey _ ih => exact List.forall_mem_cons.mpr ⟨hkey.1, ih⟩

/-- Tokens are read as the keys that they write. -/
theorem filterMap_token?_eq_iff (hcomma : ∀ token ∈ tokens, ',' ∉ token.toList) :
    tokens.filterMap token? = keys ↔ WriteAll tokens keys := by
  constructor
  · rintro rfl
    induction tokens with
    | nil => exact .done
    | cons token tokens ih =>
        obtain ⟨htoken, htokens⟩ := List.forall_mem_cons.mp hcomma
        cases hread : token? token with
        | none =>
            rw [List.filterMap_cons_none hread]
            exact .blank (token?_eq_none_iff.mp hread) (ih htokens)
        | some k =>
            rw [List.filterMap_cons_some hread]
            exact .key ((token?_eq_some_iff htoken).mp hread) (ih htokens)
  · intro h
    induction h with
    | done => rfl
    | blank hblank _ ih =>
        rw [List.filterMap_cons_none (token?_of_isBlank hblank)]
        exact ih fun token htoken => hcomma token (List.mem_cons_of_mem _ htoken)
    | key hkey _ ih =>
        rw [List.filterMap_cons_some ((token?_eq_some_iff hkey.1).mpr hkey)]
        exact congrArg _ (ih fun token htoken => hcomma token (List.mem_cons_of_mem _ htoken))

theorem Writes.isPlain (h : Writes token k) : k.IsPlain := by
  obtain ⟨hcomma, further, hspaced, -⟩ := h
  obtain ⟨hword, hsubset⟩ := hspaced.isWord_of_mem List.mem_cons_self
  exact ⟨by simpa using hword.ne_nil, fun hmem => hcomma (hsubset hmem), hword.blank⟩

/-! ## Sorts -/

theorem comma_notMem_of_mem_split (h : token ∈ split ',' s) : ',' ∉ token.toList := by
  obtain ⟨part, hpart, rfl⟩ := List.mem_map.mp h
  rw [String.toList_ofList]
  exact fun hcomma => (mem_of_mem_splitChars hpart hcomma).2 rfl

theorem intercalate_split (s : String) : String.intercalate "," (split ',' s) = s := by
  have hchars : (String.intercalate "," (split ',' s)).toList = s.toList := by
    rw [String.toList_intercalate, split, List.map_map]
    simpa [Function.comp_def] using intercalate_splitChars ',' s.toList
  exact String.toList_injective hchars

/-- The tokens of a sort are the ones that it is written with, if it is written for any key. -/
theorem tokens_eq_iff_isWritten (hnil : keys ≠ []) : SortKey.tokens s = keys ↔ IsWritten s keys := by
  rw [SortKey.tokens, filterMap_token?_eq_iff fun _ => comma_notMem_of_mem_split]
  constructor
  · exact fun h => ⟨split ',' s, h, (intercalate_split s).symm⟩
  · rintro ⟨tokens, hwrite, rfl⟩
    have htokens : tokens ≠ [] := by
      rintro rfl
      cases hwrite
      exact hnil rfl
    rwa [split_intercalate rfl htokens hwrite.comma_notMem]

theorem IsWritten.isPlain (h : IsWritten s keys) : ∀ k ∈ keys, k.IsPlain := by
  obtain ⟨tokens, hwrite, -⟩ := h
  induction hwrite with
  | done => exact List.forall_mem_nil _
  | blank _ _ ih => exact ih
  | key hkey _ ih => exact List.forall_mem_cons.mpr ⟨hkey.isPlain, ih⟩

theorem parse_eq_ok_iff : parse (some s) = .ok keys ↔ keys ≠ [] ∧ SortKey.tokens s = keys := by
  rw [parse, Option.getD_some, parseAs]
  cases SortKey.tokens s with
  | nil => simp [eq_comm]
  | cons k rest =>
      rw [Except.ok.injEq]
      exact ⟨fun h => ⟨h ▸ List.cons_ne_nil _ _, h⟩, And.right⟩

theorem parse_eq_error_iff {e : RequestError} :
    parse (some s) = .error e ↔ SortKey.tokens s = [] ∧ e = .noSortToken (.text s) := by
  rw [parse, Option.getD_some, parseAs]
  cases SortKey.tokens s with
  | nil => simp [Value.ofText?, eq_comm]
  | cons k rest => simp

theorem tokens_eq_nil_iff : SortKey.tokens s = [] ↔ ∀ token ∈ split ',' s, isBlank token = true := by
  simp only [SortKey.tokens, List.filterMap_eq_nil_iff, token?_eq_none_iff]

/-- A sort is read as the keys that it is written for, of which there has to be one; it is refused exactly
if all of its tokens are blank, and the error tells the sort.  The keys that are read can be written again
in the plain way, and are then read again. -/
theorem parse_eq_ok_iff_isWritten (s : String) :
    (∀ keys, parse (some s) = .ok keys ↔ keys ≠ [] ∧ IsWritten s keys) ∧
    (∀ e, parse (some s) = .error e ↔
      (∀ token ∈ split ',' s, isBlank token = true) ∧ e = .noSortToken (.text s)) ∧
    ∀ keys, parse (some s) = .ok keys → parse (some (render keys)) = .ok keys := by
  refine ⟨fun keys => ?_, fun e => ?_, fun keys h => ?_⟩
  · rw [parse_eq_ok_iff]
    exact and_congr_right fun hnil => tokens_eq_iff_isWritten hnil
  · rw [parse_eq_error_iff, tokens_eq_nil_iff]
  · obtain ⟨hnil, htokens⟩ := parse_eq_ok_iff.mp h
    have hplain := ((tokens_eq_iff_isWritten hnil).mp htokens).isPlain
    exact parse_eq_ok_iff.mpr ⟨hnil, tokens_render hnil hplain⟩

/-- Blanks of all kinds, letter case, later words and blank tokens leave no trace in the keys. -/
theorem parse_eq_ok_iff_isWritten_blanks :
    parse (some "\u2003author.name\tdEsC first, ,title up\u00a0desc,views ,") =
        .ok [⟨"author.name", true⟩, ⟨"title", false⟩, ⟨"views", false⟩] ∧
      parse (some "author.name desc,title asc,views asc") =
        .ok [⟨"author.name", true⟩, ⟨"title", false⟩, ⟨"views", false⟩] ∧
      parse (some " ,\u2003") = .error (.noSortToken (.text " ,\u2003")) := by
  obtain ⟨hread, -, hagain⟩ :=
    parse_eq_ok_iff_isWritten "\u2003author.name\tdEsC first, ,title up\u00a0desc,views ,"
  have hauthor : Writes "\u2003author.name\tdEsC first" ⟨"author.name", true⟩ :=
    ⟨by decide, ["dEsC".toList, "first".toList], wordsChars_eq_iff_spaced.mp (by decide +kernel), by decide⟩
  have htitle : Writes "title up\u00a0desc" ⟨"title", false⟩ :=
    ⟨by decide, ["up".toList, "desc".toList], wordsChars_eq_iff_spaced.mp (by decide +kernel), by decide⟩
  have hviews : Writes "views " ⟨"views", false⟩ :=
    ⟨by decide, [], wordsChars_eq_iff_spaced.mp (by decide +kernel), by decide⟩
  have hwrite : WriteAll ["\u2003author.name\tdEsC first", " ", "title up\u00a0desc", "views ", ""]
      [⟨"author.name", true⟩, ⟨"title", false⟩, ⟨"views", false⟩] :=
    .key hauthor (.blank (by decide) (.key htitle (.key hviews (.blank (by decide) .done))))
  have hkeys := (hread _).mpr ⟨List.cons_ne_nil _ _, _, hwrite, rfl⟩
  have hblank := ((parse_eq_ok_iff_isWritten " ,\u2003").2.1 _).mpr ⟨by decide, rfl⟩
  exact ⟨hkeys, hagain _ hkeys, hblank⟩

end SortKey
end PageQuery
