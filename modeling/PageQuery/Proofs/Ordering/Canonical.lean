import Mathlib
import PageQuery.Ordering.Build
import PageQuery.Proofs.Request.Spelling
import PageQuery.Proofs.Schema.Declared
import PageQuery.Proofs.Text.Words

/-!
# What can be sorted by

A sort is built to keys exactly if each of its tokens leads to one value by a path within the depth limit.
The keys spell the names as their types do, so they can be written as a sort again, from which the same
keys are built; letter case, blanks, empty parts and words behind the direction leave no trace in them.
-/

namespace PageQuery

open PageQuery.Text

namespace Context

variable {x : Context} {root t u : TypeRef} {segments before : List String} {segment : String}
  {f : Field} {chain passed : List Field}

/-! ## Names -/

/-- Field names that can be written in a path and in a sort: they are not empty and hold no point, no
comma and no blank. -/
def HasPlainNames (x : Context) : Prop :=
  ∀ t table, x.table t = .ok table → ∀ entry ∈ table.entries,
    IsSegment entry.2.name ∧ ',' ∉ entry.2.name.toList

theorem Finds.isPlain (hnames : x.HasPlainNames) (h : x.Finds t segment f) :
    IsSegment f.name ∧ ',' ∉ f.name.toList := by
  obtain ⟨table, htable, hfound⟩ := h
  obtain ⟨before, after, hentries, -⟩ := List.lookup_eq_some_iff.mp hfound
  exact hnames t table htable (lower segment, f) (by simp [hentries])

theorem Passes.isPlain (hnames : x.HasPlainNames) (h : x.Passes t before passed u) :
    ∀ f ∈ passed, IsSegment f.name ∧ ',' ∉ f.name.toList := by
  induction h with
  | start => simp
  | step hfinds _ _ _ ih => exact List.forall_mem_cons.mpr ⟨hfinds.isPlain hnames, ih⟩

theorem Completes.isPlain (hnames : x.HasPlainNames) (h : x.Completes root segments chain) :
    ∀ f ∈ chain, IsSegment f.name ∧ ',' ∉ f.name.toList := by
  obtain ⟨hpasses, hfinds, -⟩ := h
  rw [List.forall_mem_append, List.forall_mem_singleton]
  exact ⟨hpasses.isPlain hnames, hfinds.isPlain hnames⟩

/-! ## Paths -/

/-- Names come out of a path that is made of them. -/
theorem pathSegments_intercalate {names : List String} (hnil : names ≠ [])
    (h : ∀ name ∈ names, IsSegment name) :
    pathSegments (some (String.intercalate "." names)) = names := by
  have htrim : names.map trim = names := by
    rw [List.map_congr_left fun name hname => trim_of_isSegment (h name hname), List.map_id']
  rw [pathSegments, Option.getD_some, split_intercalate rfl hnil fun name hname => (h name hname).2.1, htrim,
    List.filter_eq_self]
  intro name hname
  simpa using (h name hname).1

/-- A path that can be sorted by, and the fields that it leads along: it has segments, but no more than the
limit; all of them are found; none of the fields is a collection, each but the last one leads to the next
type, and the last one is no relation. -/
structure Sortable (x : Context) (limit : Whole) (root : TypeRef) (path : String) (chain : List Field) :
    Prop where
  completes : x.Completes root (pathSegments (some path)) chain
  short : ((pathSegments (some path)).length : ℤ) ≤ limit.number
  single : ∀ f ∈ chain.getLast?, f.isRelation = false

/-- A path that differs in letter case only can be sorted by as well. -/
theorem Sortable.of_lower {limit : Whole} {path path' : String} (h : x.Sortable limit root path chain)
    (hlower : (pathSegments (some path)).map lower = (pathSegments (some path')).map lower) :
    x.Sortable limit root path' chain := by
  have hlength := congrArg List.length hlower
  rw [List.length_map, List.length_map] at hlength
  exact ⟨h.completes.of_lower hlower, hlength ▸ h.short, h.single⟩

/-- So can the path that spells the names as their types do. -/
theorem Sortable.canonical (hmade : x.registry.Made x.catalogue) (hnames : x.HasPlainNames)
    {limit : Whole} {path : String} (h : x.Sortable limit root path chain) :
    x.Sortable limit root (String.intercalate "." (chain.map (·.name))) chain := by
  refine h.of_lower ?_
  have hsegments : ∀ name ∈ chain.map (·.name), IsSegment name := by
    intro name hname
    obtain ⟨f, hf, rfl⟩ := List.mem_map.mp hname
    exact (h.completes.isPlain hnames f hf).1
  rw [pathSegments_intercalate (by simpa using h.completes.chain_ne_nil) hsegments,
    h.completes.lower_names hmade]

/-- All names of the registered tables are plain, and no other table has a field. -/
theorem hasPlainNames_writings : writings.HasPlainNames := by
  have hregistered : ∀ entry ∈ writings.registry.tables, ∃ fields, entry.2 = Table.ofFields fields ∧
      ∀ f ∈ fields, f.name ∈ ["name", "articles", "title", "author"] := by
    rw [writings, List.forall_mem_cons, List.forall_mem_singleton]
    refine ⟨⟨_, rfl, ?_⟩, ⟨_, rfl, ?_⟩⟩ <;> decide
  have hplain : ∀ name ∈ ["name", "articles", "title", "author"],
      IsSegment name ∧ ',' ∉ name.toList := by
    simp [IsSegment, isBlankChar]
  intro t table htable entry hentry
  rw [Context.table, Registry.table] at htable
  split at htable
  · rename_i registered hlookup
    obtain rfl := Except.ok.inj htable
    obtain ⟨before, after, htables, -⟩ := List.lookup_eq_some_iff.mp hlookup
    obtain ⟨fields, hfields, hnames⟩ := hregistered (t, registered) (by simp [htables])
    rw [show registered = _ from hfields] at hentry
    rcases Table.mem_foldl_insert hentry with hmem | hmem
    · exact hplain _ (hnames _ hmem)
    · cases hmem
  · obtain ⟨fields, hfields, rfl⟩ := Outcome.map_eq_ok.mp htable
    cases t <;> cases hfields <;> cases hentry

end Context

namespace SortKey

variable {x : Context} {root : TypeRef} {limit : Whole} {keys : List SortKey} {token k : SortKey}

/-! ## Keys -/

/-- A token becomes a key exactly if its path can be sorted by. -/
theorem ofToken_eq_ok_iff (hlimit : x.settings.maxPathDepth = .ok limit) :
    ofToken x root token = .ok k ↔ ∃ chain, x.Sortable limit root token.property chain ∧
      k = ⟨String.intercalate "." (chain.map (·.name)), token.descending⟩ := by
  rw [ofToken, Outcome.bind_eq_ok]
  constructor
  · rintro ⟨p, hp, h⟩
    rcases (Context.resolve_eq_ok_iff hlimit).mp hp with ⟨hcompletes, hshort⟩ | ⟨hmeets, -, -⟩
    · obtain ⟨f, hlast, hsingle⟩ := hcompletes.exists_last
      simp only [ResolvedPath.isCollection, ResolvedPath.leaf, hlast, Option.getD_some, hsingle,
        Bool.false_eq_true, if_false] at h
      split at h
      · cases h
      · rename_i hrelation
        refine ⟨_, ⟨hcompletes, hshort, fun g hg => ?_⟩, (Except.ok.inj h).symm⟩
        obtain rfl : f = g := Option.some.inj (hlast.symm.trans hg)
        simpa using hrelation
    · obtain ⟨f, hlast, hcollection⟩ := hmeets.exists_last
      simp only [ResolvedPath.isCollection, ResolvedPath.leaf, hlast, Option.getD_some, hcollection,
        if_true] at h
      cases h
  · rintro ⟨chain, ⟨hcompletes, hshort, hvalue⟩, rfl⟩
    refine ⟨_, (Context.resolve_eq_ok_iff hlimit).mpr (.whole hcompletes hshort), ?_⟩
    obtain ⟨f, hlast, hsingle⟩ := hcompletes.exists_last
    simp only [ResolvedPath.isCollection, ResolvedPath.leaf, hlast, Option.getD_some, hsingle,
      hvalue f hlast, Bool.false_eq_true, if_false]
    rfl

/-- A sort is built key by key, and there has to be a token. -/
theorem build_text_eq_ok_iff {sort : String} :
    build x root (.text sort) = .ok keys ↔ tokens sort ≠ [] ∧
      List.Forall₂ (fun token k => ofToken x root token = .ok k) (tokens sort) keys := by
  have hread : read (.text sort) = (parseAs (.text sort) sort).mapError .request := rfl
  rw [build, hread, parseAs]
  cases tokens sort with
  | nil => simp [Except.mapError]
  | cons token rest => 
      rw [← Outcome.mapM_eq_ok]
      simp [Except.mapError]

/-! ## Tokens -/

/-- The tokens of a sort: its parts between commas that are not blank. -/
def parts (sort : String) : List String :=
  (split ',' sort).filter fun part => !isBlank part

def pathOf (part : String) : String :=
  (words part).headD ""

/-- A token is descending if its second word is `desc` in any letter case. -/
def Descends (part : String) : Prop :=
  ∃ direction, (words part)[1]? = some direction ∧ direction.toList.map Char.toLower = descLetters

/-- A key asks for what a token says. -/
def Says (part : String) (token : SortKey) : Prop :=
  token.property = pathOf part ∧ (token.descending = true ↔ Descends part)

theorem token?_of_isBlank {part : String} (h : isBlank part = true) : token? part = none := by
  rw [token?, words_eq_nil.mpr h]

theorem exists_token? {part : String} (h : isBlank part = false) :
    ∃ token, token? part = some token ∧ Says part token := by
  have hwords : words part ≠ [] := by
    rw [Ne, words_eq_nil, h]
    exact Bool.false_ne_true
  rw [token?]
  cases hpart : words part with
  | nil => exact absurd hpart hwords
  | cons path rest =>
      refine ⟨_, rfl, by rw [pathOf, hpart]; rfl, ?_⟩
      rw [Descends, hpart]
      cases rest with
      | nil => simp
      | cons direction rest => simp [lower_eq_desc]

/-- The tokens of a sort are read one by one. -/
theorem forall₂_parts_tokens (sort : String) : List.Forall₂ Says (parts sort) (tokens sort) := by
  rw [parts, tokens]
  induction split ',' sort with
  | nil => exact .nil
  | cons part rest ih =>
      cases hblank : isBlank part with
      | true =>
          rwa [List.filter_cons_of_neg (by simp [hblank]),
            List.filterMap_cons_none (token?_of_isBlank hblank)]
      | false =>
          obtain ⟨token, htoken, hsays⟩ := exists_token? hblank
          rw [List.filter_cons_of_pos (by simp [hblank]), List.filterMap_cons_some htoken]
          exact .cons hsays ih

/-- The key that a token of a sort is built to. -/
def IsKeyOf (x : Context) (limit : Whole) (root : TypeRef) (part : String) (k : SortKey) : Prop :=
  (∃ chain, x.Sortable limit root (pathOf part) chain ∧
    k.property = String.intercalate "." (chain.map (·.name))) ∧
  (k.descending = true ↔ Descends part)

theorem ofToken_eq_ok_iff_isKeyOf (hlimit : x.settings.maxPathDepth = .ok limit) {part : String}
    (h : Says part token) : ofToken x root token = .ok k ↔ IsKeyOf x limit root part k := by
  obtain ⟨hpath, hdescends⟩ := h
  rw [ofToken_eq_ok_iff hlimit, IsKeyOf, ← hdescends, ← Bool.eq_iff_iff, hpath]
  constructor
  · rintro ⟨chain, hchain, rfl⟩
    exact ⟨⟨chain, hchain, rfl⟩, rfl⟩
  · rintro ⟨⟨chain, hchain, hproperty⟩, hdirection⟩
    exact ⟨chain, hchain, by rw [← hproperty, ← hdirection]⟩

/-- A sort is built to keys exactly if it has tokens and these are their keys. -/
theorem build_text_eq_ok_iff_isKeyOf (hlimit : x.settings.maxPathDepth = .ok limit) {sort : String} :
    build x root (.text sort) = .ok keys ↔
      parts sort ≠ [] ∧ List.Forall₂ (IsKeyOf x limit root) (parts sort) keys := by
  have htokens := forall₂_parts_tokens sort
  have hnil : tokens sort ≠ [] ↔ parts sort ≠ [] := by
    rw [← List.length_pos_iff, ← List.length_pos_iff, htokens.length_eq]
  rw [build_text_eq_ok_iff, hnil]
  exact and_congr_right fun _ =>
    forall₂_iff_of_forall₂ htokens fun hsays => ofToken_eq_ok_iff_isKeyOf hlimit hsays

/-! ## Written keys -/

def written (k : SortKey) : String :=
  k.property ++ if k.descending then " desc" else " asc"

def render (keys : List SortKey) : String :=
  String.intercalate "," (keys.map written)

/-- A key whose property can be written in a sort. -/
structure IsPlain (k : SortKey) : Prop where
  ne_empty : k.property ≠ ""
  comma : ',' ∉ k.property.toList
  blank : ∀ c ∈ k.property.toList, isBlankChar c = false

theorem IsPlain.words_written (h : k.IsPlain) :
    words k.written = [k.property, if k.descending then "desc" else "asc"] := by
  have hword : k.property.toList ≠ [] := by
    simpa using h.ne_empty
  have htext (direction : String) : wordsChars (k.property ++ " " ++ direction).toList =
      k.property.toList :: wordsChars direction.toList := by
    rw [String.toList_append, String.toList_append, List.append_assoc]
    exact wordsChars_append hword h.blank rfl
  have hwritten : k.written = k.property ++ " " ++ if k.descending then "desc" else "asc" := by
    rw [written, String.append_assoc]
    cases k.descending <;> rfl
  rw [hwritten, words, htext, List.map_cons, String.ofList_toList]
  cases k.descending <;> rfl

theorem IsPlain.token?_written (h : k.IsPlain) : token? k.written = some k := by
  obtain ⟨property, descending⟩ := k
  rw [token?, h.words_written]
  cases descending with
  | true =>
      have hdesc : lower "desc" = "desc" := lower_eq_desc.mpr rfl
      simp [hdesc]
  | false =>
      have hasc : lower "asc" ≠ "desc" := by
        rw [Ne, lower_eq_desc]
        decide
      simp [hasc]

theorem IsPlain.comma_notMem_written (h : k.IsPlain) : ',' ∉ k.written.toList := by
  rw [written, String.toList_append, List.mem_append, not_or]
  refine ⟨h.comma, ?_⟩
  cases k.descending <;> decide

/-- Written keys are read again. -/
theorem tokens_render (hnil : keys ≠ []) (h : ∀ k ∈ keys, k.IsPlain) : tokens (render keys) = keys := by
  have hsplit : split ',' (render keys) = keys.map written := by
    refine split_intercalate rfl (by simpa using hnil) ?_
    simpa using fun k hk => (h k hk).comma_notMem_written
  rw [tokens, hsplit]
  clear hnil hsplit
  induction keys with
  | nil => rfl
  | cons k keys ih =>
      obtain ⟨hk, hkeys⟩ := List.forall_mem_cons.mp h
      rw [List.map_cons, List.filterMap_cons_some hk.token?_written, ih hkeys]

section Names

variable (hnames : x.HasPlainNames) {part : String}

include hnames

theorem IsKeyOf.isPlain (h : IsKeyOf x limit root part k) : k.IsPlain := by
  obtain ⟨⟨chain, hchain, hproperty⟩, -⟩ := h
  have hplain := hchain.completes.isPlain hnames
  have hsegments : ∀ name ∈ chain.map (·.name), IsSegment name := by
    simpa using fun f hf => (hplain f hf).1
  have hnil : chain.map (·.name) ≠ [] := by
    simpa using hchain.completes.chain_ne_nil
  -- The property is made of points and of names, and neither has a comma or a blank.
  have hmem {c : Char} (hc : c ∈ k.property.toList) : c = '.' ∨ ∃ f ∈ chain, c ∈ f.name.toList := by
    rw [hproperty, String.toList_intercalate] at hc
    rcases mem_of_mem_intercalate hc with hpoint | ⟨name, hname, hc⟩
    · exact .inl hpoint
    · simp only [List.mem_map] at hname
      obtain ⟨_, ⟨f, hf, rfl⟩, rfl⟩ := hname
      exact .inr ⟨f, hf, hc⟩
  refine ⟨fun hempty => hnil ?_, fun hcomma => ?_, fun c hc => ?_⟩
  · rw [← Context.pathSegments_intercalate hnil hsegments, ← hproperty, hempty]
    rfl
  · rcases hmem hcomma with hpoint | ⟨f, hf, hcomma⟩
    · cases hpoint
    · exact (hplain f hf).2 hcomma
  · rcases hmem hc with rfl | ⟨f, hf, hc⟩
    · rfl
    · exact (hplain f hf).1.2.2 c hc

/-- A key of a sort names the fields that its path leads along. -/
theorem IsKeyOf.exists_field_eq (h : IsKeyOf x limit root part k) :
    ∃ chain, x.Sortable limit root (pathOf part) chain ∧ k.field = chain.map (·.name) := by
  obtain ⟨⟨chain, hchain, hproperty⟩, -⟩ := h
  refine ⟨chain, hchain, ?_⟩
  rw [field, hproperty]
  refine split_intercalate rfl (by simpa using hchain.completes.chain_ne_nil) ?_
  simpa using fun f hf => (hchain.completes.isPlain hnames f hf).1.2.1

/-- Such a key is a token as well, which is built to that key again. -/
theorem IsKeyOf.ofToken (h : IsKeyOf x limit root part k) (hmade : x.registry.Made x.catalogue)
    (hlimit : x.settings.maxPathDepth = .ok limit) : SortKey.ofToken x root k = .ok k := by
  obtain ⟨⟨chain, hchain, hproperty⟩, -⟩ := h
  rw [ofToken_eq_ok_iff hlimit, hproperty]
  exact ⟨chain, hchain.canonical hmade hnames, by rw [← hproperty]⟩

end Names

/-- Tokens whose paths have the same segments, letter case aside, and whose directions agree. -/
def SameButCase (part part' : String) : Prop :=
  (pathSegments (some (pathOf part))).map lower = (pathSegments (some (pathOf part'))).map lower ∧
    (Descends part ↔ Descends part')

theorem SameButCase.isKeyOf_iff {part part' : String} (h : SameButCase part part') :
    IsKeyOf x limit root part' k ↔ IsKeyOf x limit root part k := by
  obtain ⟨hpath, hdescends⟩ := h
  rw [IsKeyOf, IsKeyOf, hdescends]
  refine and_congr_left fun _ => exists_congr fun chain => and_congr_left fun _ => ?_
  exact ⟨fun hchain => hchain.of_lower hpath.symm, fun hchain => hchain.of_lower hpath⟩

theorem exists_isKeyOf_iff {part : String} :
    (∃ k, IsKeyOf x limit root part k) ↔ ∃ chain, x.Sortable limit root (pathOf part) chain := by
  constructor
  · rintro ⟨k, ⟨chain, hchain, -⟩, -⟩
    exact ⟨chain, hchain⟩
  · rintro ⟨chain, hchain⟩
    by_cases hdescends : Descends part
    · exact ⟨⟨_, true⟩, ⟨chain, hchain, rfl⟩, by simpa using hdescends⟩
    · exact ⟨⟨_, false⟩, ⟨chain, hchain, rfl⟩, by simpa using hdescends⟩

/-- A sort is built to keys exactly if it has tokens and the path of each one can be sorted by.  There is
one key for each token, with the names of the fields that are found and the direction of the token, and
the keys can be written as a sort that the same keys are built from.  Tokens that differ in letter case
only are built to the same keys. -/
theorem build_iff_sortable (hmade : x.registry.Made x.catalogue) (hnames : x.HasPlainNames)
    (hlimit : x.settings.maxPathDepth = .ok limit) (root : TypeRef) (sort : String) :
    ((∃ keys, build x root (.text sort) = .ok keys) ↔
      parts sort ≠ [] ∧ ∀ part ∈ parts sort, ∃ chain, x.Sortable limit root (pathOf part) chain) ∧
    (∀ keys, build x root (.text sort) = .ok keys →
      List.Forall₂ (fun part k => (k.descending = true ↔ Descends part) ∧
        ∃ chain, x.Sortable limit root (pathOf part) chain ∧ k.field = chain.map (·.name))
        (parts sort) keys ∧
      build x root (.text (render keys)) = .ok keys) ∧
    ∀ sort', List.Forall₂ SameButCase (parts sort) (parts sort') →
      ∀ keys, build x root (.text sort) = .ok keys ↔ build x root (.text sort') = .ok keys := by
  refine ⟨?_, fun keys hbuild => ?_, fun sort' hsame keys => ?_⟩
  · simp only [build_text_eq_ok_iff_isKeyOf hlimit, exists_and_left]
    refine and_congr_right fun _ => ⟨?_, fun hsortable => ?_⟩
    · rintro ⟨keys, hkeys⟩ part hpart
      obtain ⟨k, hk⟩ := exists_of_mem_forall₂ hkeys hpart
      exact exists_isKeyOf_iff.mp ⟨k, hk⟩
    · exact exists_forall₂ fun part hpart => exists_isKeyOf_iff.mpr (hsortable part hpart)
  · obtain ⟨hparts, hkeys⟩ := (build_text_eq_ok_iff_isKeyOf hlimit).mp hbuild
    have hnil : keys ≠ [] := by
      rw [← List.length_pos_iff, ← hkeys.length_eq, List.length_pos_iff]
      exact hparts
    have hkeyOf : ∀ k ∈ keys, ∃ part, IsKeyOf x limit root part k := fun k hk =>
      exists_of_forall₂ hkeys hk
    have htokens : tokens (render keys) = keys := by
      refine tokens_render hnil fun k hk => ?_
      obtain ⟨part, hpart⟩ := hkeyOf k hk
      exact hpart.isPlain hnames
    refine ⟨hkeys.imp fun part k hk => ⟨hk.2, hk.exists_field_eq hnames⟩, ?_⟩
    rw [build_text_eq_ok_iff, htokens]
    refine ⟨hnil, List.forall₂_same.mpr fun k hk => ?_⟩
    obtain ⟨part, hpart⟩ := hkeyOf k hk
    exact hpart.ofToken hnames hmade hlimit
  · have hnil : parts sort ≠ [] ↔ parts sort' ≠ [] := by
      rw [← List.length_pos_iff, ← List.length_pos_iff, hsame.length_eq]
    have hkeys : List.Forall₂ (IsKeyOf x limit root) (parts sort') keys ↔
        List.Forall₂ (IsKeyOf x limit root) (parts sort) keys :=
      forall₂_iff_of_forall₂ hsame fun h => h.isKeyOf_iff
    rw [build_text_eq_ok_iff_isKeyOf hlimit, build_text_eq_ok_iff_isKeyOf hlimit, hnil, hkeys]

open Context in
/-- Articles are sorted by the names of their authors and then by their titles. -/
theorem build_iff_sortable_writings :
    ∃ keys, build writings (.record "Article") (.text "Author.NAME Desc, ,title") = .ok keys ∧
      build writings (.record "Article") (.text (render keys)) = .ok keys ∧
      build writings (.record "Article") (.text ".author.name DESC first,TITLE up") = .ok keys := by
  have hmade : writings.registry.Made writings.catalogue :=
    (Registry.Made.empty.register (.record "Article") [{ name := "title", kind := .string }, author]).register
      (.record "Author") [{ name := "name", kind := .string }, articles]
  have hlimit : writings.settings.maxPathDepth = .ok (.ofInt 2) := rfl
  obtain ⟨haccepts, hcanonical, hcase⟩ := build_iff_sortable hmade hasPlainNames_writings hlimit
    (.record "Article") "Author.NAME Desc, ,title"
  have hparts : parts "Author.NAME Desc, ,title" = ["Author.NAME Desc", "title"] := rfl
  have hauthor : writings.Passes (.record "Article") ["Author"] [author] (.record "Author") :=
    .step ⟨_, rfl, rfl⟩ rfl rfl (.start _)
  have hname : writings.Sortable (.ofInt 2) (.record "Article") "Author.NAME"
      ([author] ++ [{ name := "name", kind := .string }]) := by
    refine ⟨.intro hauthor ⟨_, rfl, rfl⟩ rfl, by decide, ?_⟩
    rintro f ⟨⟩
    rfl
  have htitle : writings.Sortable (.ofInt 2) (.record "Article") "title"
      ([] ++ [{ name := "title", kind := .string }]) := by
    refine ⟨.intro (.start _) ⟨_, rfl, rfl⟩ rfl, by decide, ?_⟩
    rintro f ⟨⟩
    rfl
  obtain ⟨keys, hkeys⟩ := haccepts.mpr ⟨by simp [hparts], by
    rw [hparts, List.forall_mem_cons, List.forall_mem_singleton]
    exact ⟨⟨_, hname⟩, ⟨_, htitle⟩⟩⟩
  refine ⟨keys, hkeys, (hcanonical keys hkeys).2, (hcase _ ?_ keys).mp hkeys⟩
  have hparts' : parts ".author.name DESC first,TITLE up" = [".author.name DESC first", "TITLE up"] := rfl
  have hdesc : Descends "Author.NAME Desc" := ⟨"Desc", rfl, by decide⟩
  have hdesc' : Descends ".author.name DESC first" := ⟨"DESC", rfl, by decide⟩
  have hplain : ¬ Descends "title" := by
    rintro ⟨_, ⟨⟩, -⟩
  have hplain' : ¬ Descends "TITLE up" := by
    rintro ⟨direction, hdirection, hletters⟩
    obtain rfl : "up" = direction := Option.some.inj hdirection
    exact absurd hletters (by decide)
  rw [hparts, hparts']
  exact .cons ⟨by decide +kernel, iff_of_true hdesc hdesc'⟩
    (.cons ⟨by decide +kernel, iff_of_false hplain hplain'⟩ .nil)

end SortKey

end PageQuery
