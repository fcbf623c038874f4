import Mathlib
import PageQuery.Ordering.Build
import PageQuery.Predicate.Build
import PageQuery.Proofs.Request.PathErrors
import PageQuery.Proofs.Schema.Tables

/-!
# What a request text can go wrong with

Whatever the texts of a filter and a sort are, they are understood or they are wrong in a way that is
reported.  The parsers of all types fail as a conversion expects them to, and every other step names
its error.  One thing is left, which is no fault of the text: a parser is looked up by the type of a
field, and where a declaration has something in the place of a type that cannot be the key of a
table, that look-up fails by itself.
-/

namespace PageQuery

open PageQuery.Text

def filterKinds : List ErrorKind :=
  [.filterFormat, .propertyNotFound, .pathTooDeep, .valueConversion, .emptyFilterValues,
    .valueRequired]

def sortKinds : List ErrorKind :=
  [.sortFormat, .filterFormat, .propertyNotFound, .pathTooDeep, .unsupportedSortPath]

theorem Failure.fault_not_reported {kinds : List ErrorKind} {f : Fault} :
    ¬ (Failure.fault f).Reported kinds := by
  rintro ⟨r, hr, -⟩
  cases hr

/-! ## Values -/

/-- A text that denotes no value of the type asked for: the parser says so, or meets a bad value. -/
def Failure.IsBadText (e : Failure) : Prop :=
  (∃ u, e = .unreadable u) ∨ e = .fault .badValue

namespace Parser

theorem orBadValue_error {v : Option Value} {e : Failure} (h : orBadValue v = .error e) :
    e.IsBadText := by
  cases v with
  | none => exact .inr (Except.error.inj h).symm
  | some v => cases h

theorem ofReading_error {α : Type} {wrap : α → Value} {u : Unreadable} {r : Reading α}
    {e : Failure} (h : ofReading wrap u r = .error e) : e.IsBadText := by
  cases r with
  | value a => cases h
  | impossible => exact .inr (Except.error.inj h).symm
  | unreadable => exact .inl ⟨u, (Except.error.inj h).symm⟩

theorem readBoolean_error {raw : String} {e : Failure} (h : readBoolean raw = .error e) :
    e.IsBadText := by
  unfold readBoolean at h
  dsimp only at h
  split at h
  · cases h
  · split at h
    · cases h
    · exact .inl ⟨_, (Except.error.inj h).symm⟩

theorem search_displays_error {α : Type} {test : α → Except Fault Bool} {xs : List α} {f : Fault}
    (htest : ∀ x f, test x = .error f → f = .badValue) (h : search test xs = .error f) :
    f = .badValue := by
  obtain ⟨_, x, _, -, hx, -⟩ := search_eq_error.mp h
  exact htest x f hx

theorem readMember_error {enumeration : Enumeration} {raw : String} {e : Failure}
    (h : readMember enumeration raw = .error e) : e.IsBadText := by
  rw [readMember] at h
  split at h
  · cases h
  · exact .inl ⟨_, (Except.error.inj h).symm⟩
  · rename_i f hf
    rw [findMember] at hf
    split at hf
    · cases hf
    · obtain rfl := search_displays_error (fun _ _ => displays_eq_error) hf
      exact .inr (Except.error.inj h).symm

theorem offers_eq_error {wanted : String} {o : Value × Value} {f : Fault}
    (h : offers wanted o = .error f) : f = .badValue := by
  rw [offers] at h
  split at h
  · exact displays_eq_error h
  · exact displays_eq_error h

theorem readChoice_error {options : List (Value × Value)} {raw : String} {e : Failure}
    (h : readChoice options raw = .error e) : e.IsBadText := by
  rw [readChoice] at h
  split at h
  · cases h
  · exact .inl ⟨_, (Except.error.inj h).symm⟩
  · rename_i f hf
    obtain rfl := search_displays_error (fun _ _ => offers_eq_error) hf
    exact .inr (Except.error.inj h).symm

/-- Whatever a parser is given, it fails in no other way than a conversion expects. -/
theorem run_error {p : Parser} {raw : String} {e : Failure} (h : p.run raw = .error e) :
    e.IsBadText := by
  cases p <;> rw [run] at h
  case text | verbatim => cases h
  case integer | float | uuid | duration => exact orBadValue_error h
  case boolean => exact readBoolean_error h
  case decimal =>
      split at h
      · cases h
      · exact .inl ⟨_, (Except.error.inj h).symm⟩
  case dateTime | date | time => exact ofReading_error h
  case member => exact readMember_error h
  case choice => exact readChoice_error h

end Parser

theorem Field.convert_error {f : Field} {raw : String} {path : Option String} {e : RequestError}
    (h : f.convert raw path = .error e) : e.kind = .valueConversion := by
  unfold Field.convert at h
  dsimp only at h
  split at h
  · rw [← Except.error.inj h]
    rfl
  · split at h
    · cases h
    · rw [← Except.error.inj h]
      rfl

/-- A registry that was filled by introspection has no table exactly for the types with a hint that
cannot be a key. -/
theorem Context.table_eq_error {x : Context} (hreadable : x.catalogue.Readable)
    (hfilled : x.registry.Filled x.catalogue) {t : TypeRef} {f : Fault} :
    x.table t = .error f ↔ f = .badType ∧ x.catalogue.Unkeyed t := by
  rw [Context.table, hfilled.faithful.table_eq]
  exact Catalogue.table_eq_error hreadable

namespace Predicate

variable {x : Context} {root : TypeRef}

theorem bound_error {placeholder : Value} {f : Field} {property slot : Option String}
    {e : RequestError} (h : bound placeholder f property slot = .error e) :
    e.kind = .valueConversion := by
  unfold bound at h
  split at h
  · cases h
  · exact Field.convert_error h

theorem ofDates_error {s : Settings} {f : Field} {field : List String} {item : FilterItem}
    {e : RequestError} (h : ofDates s f field item = .error e) : e.kind ∈ filterKinds := by
  have hconversion {e : RequestError} (he : e.kind = .valueConversion) : e.kind ∈ filterKinds := by
    simp [he, filterKinds]
  unfold ofDates at h
  dsimp only at h
  split at h
  · rcases Outcome.bind_eq_error.mp h with hlower | ⟨lower, -, h⟩
    · exact hconversion (bound_error hlower)
    · rcases Outcome.bind_eq_error.mp h with hupper | ⟨upper, -, h⟩
      · exact hconversion (bound_error hupper)
      · split at h
        · rw [← Except.error.inj h]
          simp [RequestError.kind, filterKinds]
        · cases h
  · rw [← Except.error.inj h]
    simp [RequestError.kind, filterKinds]
  · rw [← Except.error.inj h]
    simp [RequestError.kind, filterKinds]

theorem ofLeaf_error {s : Settings} {f : Field} {field : List String} {item : FilterItem}
    {e : RequestError} (h : ofLeaf s f field item = .error e) : e.kind ∈ filterKinds := by
  unfold ofLeaf at h
  split at h
  · exact ofDates_error h
  · rw [← Except.error.inj h]
    simp [RequestError.kind, filterKinds]
  · rw [← Except.error.inj h]
    simp [RequestError.kind, filterKinds]
  · rcases Outcome.bind_eq_error.mp h with hcomparisons | ⟨tests, -, h⟩
    · unfold comparisons at hcomparisons
      split at hcomparisons
      · cases hcomparisons
      · obtain ⟨raw, -, hraw⟩ := Outcome.exists_of_mapM_eq_error hcomparisons
        simp [Field.convert_error (Outcome.map_eq_error.mp hraw), filterKinds]
    · split at h
      · rw [← Except.error.inj h]
        simp [RequestError.kind, filterKinds]
      · cases h

/-! ## Items -/

/-- Building an item looks up a parser by something that cannot be the key of a table: for a type
that it looks at, or for the elements of a collection. -/
def MeetsUnkeyed (x : Context) (root : TypeRef) (item : FilterItem) : Prop :=
  (∃ t ∈ consultedByItem x root item, x.catalogue.Unkeyed t) ∨
    item.values ≠ [] ∧ ∃ path h, x.resolve root item.property = .ok path ∧
      path.isCollection = true ∧ path.leaf.target = none ∧ path.residual = none ∧
      path.leaf.type = some h ∧ h.isHashable = false

/-- A filter meets something that cannot be a key at its first item that does, if all items before
that can be built. -/
def FirstMeets (x : Context) (root : TypeRef) (items : List FilterItem) : Prop :=
  ∃ before item after, items = before ++ item :: after ∧
    (∀ i ∈ before, ∃ p, ofItem x root i = .ok p) ∧ MeetsUnkeyed x root item

/-- An element that cannot be addressed is reported, unless there is no table for its type or no
place for it among the parsers. -/
theorem resolveElement_error {path : ResolvedPath} {e : Failure}
    (h : x.resolveElement path = .error e) :
    e.Reported filterKinds ∨
      (∃ t f, path.leaf.target = some t ∧ x.table t = .error f ∧ e = .fault f) ∨
      ∃ h, path.leaf.target = none ∧ path.residual = none ∧ path.leaf.type = some h ∧
        h.isHashable = false ∧ e = .fault .badType := by
  unfold Context.resolveElement at h
  split at h
  · rename_i htarget
    split at h
    · rw [← Except.error.inj h]
      exact .inl ⟨_, rfl, by simp [RequestError.kind, filterKinds]⟩
    · rename_i hresidual
      obtain ⟨f, hf, rfl⟩ := Outcome.mapError_eq_error.mp (Outcome.map_eq_error.mp h)
      obtain ⟨rfl, hint, htype, hhash⟩ := Field.element_eq_error.mp hf
      exact .inr (.inr ⟨hint, htarget, hresidual, htype, hhash, rfl⟩)
  · rename_i t htarget
    split at h
    · rename_i f hf
      exact .inr (.inl ⟨t, f, htarget, Outcome.map_eq_error.mp hf, (Except.error.inj h).symm⟩)
    · cases h
    · rw [← Except.error.inj h]
      exact .inl ⟨_, rfl, by simp [unknownField, RequestError.kind, filterKinds]⟩

theorem consultedByItem_eq {item : FilterItem} (hvalues : item.values ≠ []) :
    consultedByItem x root item = x.consulted root item.property ++
      match x.resolve root item.property with
      | .ok p => Context.consultedElement p
      | .error _ => [] := by
  unfold consultedByItem
  exact if_neg (by simpa using hvalues)

section Filled

variable {item : FilterItem} (hreadable : x.catalogue.Readable)
  (hfilled : x.registry.Filled x.catalogue)

include hreadable hfilled

/-- The predicate of an item cannot be built for a reason that is reported, unless a parser is looked
up by something that cannot be a key. -/
theorem ofItem_error {limit : Whole} {e : Failure}
    (hlimit : x.settings.maxPathDepth = .ok limit) (h : ofItem x root item = .error e) :
    e.Reported filterKinds ∨ e = .fault .badType ∧ MeetsUnkeyed x root item := by
  unfold ofItem at h
  split at h
  · rw [← Except.error.inj h]
    exact .inl ⟨_, rfl, by simp [RequestError.kind, filterKinds]⟩
  · rename_i hempty
    have hvalues : item.values ≠ [] := by simpa using hempty
    rcases Outcome.bind_eq_error.mp h with h | ⟨path, hpath, h⟩
    · rcases Context.resolve_error hlimit h with hreported | ⟨f, rfl, t, ht, hf⟩
      · exact .inl (hreported.mono (by decide))
      · obtain ⟨rfl, hunkeyed⟩ := (Context.table_eq_error hreadable hfilled).mp hf
        refine .inr ⟨rfl, .inl ⟨t, ?_, hunkeyed⟩⟩
        rw [consultedByItem_eq hvalues]
        exact List.mem_append_left _ ht
    · split at h
      · rename_i hcollection
        rcases Outcome.bind_eq_error.mp h with h | ⟨⟨f, field⟩, -, h⟩
        · rcases resolveElement_error h with
            hreported | ⟨t, f, htarget, hf, rfl⟩ | ⟨hint, htarget, hresidual, htype, hhash, rfl⟩
          · exact .inl hreported
          · obtain ⟨rfl, hunkeyed⟩ := (Context.table_eq_error hreadable hfilled).mp hf
            refine .inr ⟨rfl, .inl ⟨t, ?_, hunkeyed⟩⟩
            rw [consultedByItem_eq hvalues, hpath]
            exact List.mem_append_right _ (by simp [Context.consultedElement, hcollection, htarget])
          · exact .inr ⟨rfl, .inr ⟨hvalues, path, hint, hpath, hcollection, htarget, hresidual,
              htype, hhash⟩⟩
        · rcases Outcome.bind_eq_error.mp h with h | ⟨_, -, h⟩
          · obtain ⟨r, hr, rfl⟩ := Outcome.mapError_eq_error.mp h
            exact .inl ⟨r, rfl, ofLeaf_error hr⟩
          · cases h
      · obtain ⟨r, hr, rfl⟩ := Outcome.mapError_eq_error.mp h
        exact .inl ⟨r, rfl, ofLeaf_error hr⟩

theorem ofItem_of_meetsUnkeyed (h : MeetsUnkeyed x root item) :
    ofItem x root item = .error (.fault .badType) := by
  have hvalues : item.values ≠ [] := by
    rcases h with ⟨t, ht, -⟩ | ⟨hvalues, -⟩
    · rintro hnil
      simp [consultedByItem, hnil] at ht
    · exact hvalues
  rw [ofItem, if_neg (by simpa using hvalues)]
  rcases h with ⟨t, ht, hunkeyed⟩ | ⟨-, path, hint, hpath, hcollection, htarget, hresidual, htype,
    hhash⟩
  · have hbroken := (Context.table_eq_error hreadable hfilled).mpr ⟨rfl, hunkeyed⟩
    rw [consultedByItem_eq hvalues] at ht
    rcases List.mem_append.mp ht with ht | ht
    · rw [Context.resolve_of_broken ht hbroken, Outcome.error_bind]
    · cases hpath : x.resolve root item.property with
      | error e => simp [hpath] at ht
      | ok path =>
          simp only [hpath, Context.consultedElement] at ht
          split at ht
          · rename_i hcollection
            have htarget : path.leaf.target = some t := by simpa using ht
            rw [Outcome.ok_bind, if_pos hcollection, Context.resolveElement, htarget]
            simp only [hbroken, Except.map, Outcome.error_bind]
          · cases ht
  · have helement : path.leaf.element x.catalogue = .error .badType :=
      Field.element_eq_error.mpr ⟨rfl, hint, htype, hhash⟩
    rw [hpath, Outcome.ok_bind, if_pos hcollection, Context.resolveElement, htarget, hresidual,
      helement]
    rfl

theorem build_error {limit : Whole} {items : List FilterItem} {e : Failure}
    (hlimit : x.settings.maxPathDepth = .ok limit) (h : build x root items = .error e) :
    e.Reported filterKinds ∨ e = .fault .badType ∧ FirstMeets x root items := by
  obtain ⟨before, item, after, rfl, hbefore, hitem⟩ :=
    Outcome.mapM_eq_error.mp (Outcome.map_eq_error.mp h)
  rcases ofItem_error hreadable hfilled hlimit hitem with hreported | ⟨rfl, hmeets⟩
  · exact .inl hreported
  · exact .inr ⟨rfl, before, item, after, rfl, hbefore, hmeets⟩

theorem build_of_firstMeets {items : List FilterItem} (h : FirstMeets x root items) :
    build x root items = .error (.fault .badType) := by
  obtain ⟨before, item, after, rfl, hbefore, hmeets⟩ := h
  exact Outcome.map_eq_error.mpr (Outcome.mapM_eq_error.mpr
    ⟨before, item, after, rfl, hbefore, ofItem_of_meetsUnkeyed hreadable hfilled hmeets⟩)

end Filled

end Predicate

/-! ## Sorts -/

namespace SortKey

variable {x : Context} {root : TypeRef}

/-- Resolving a token of a sort looks at a type with a hint that cannot be the key of a table. -/
def MeetsUnkeyed (x : Context) (root : TypeRef) (token : SortKey) : Prop :=
  ∃ t ∈ x.consulted root (some token.property), x.catalogue.Unkeyed t

/-- A sort meets something that cannot be a key at its first token that does, if all tokens before
that can be resolved. -/
def FirstMeets (x : Context) (root : TypeRef) (tokens : List SortKey) : Prop :=
  ∃ before token after, tokens = before ++ token :: after ∧
    (∀ k ∈ before, ∃ key, ofToken x root k = .ok key) ∧ MeetsUnkeyed x root token

section Filled

variable (hreadable : x.catalogue.Readable) (hfilled : x.registry.Filled x.catalogue)

include hreadable hfilled

theorem ofToken_error {limit : Whole} {token : SortKey} {e : Failure}
    (hlimit : x.settings.maxPathDepth = .ok limit) (h : ofToken x root token = .error e) :
    e.Reported sortKinds ∨ e = .fault .badType ∧ MeetsUnkeyed x root token := by
  unfold ofToken at h
  dsimp only at h
  rcases Outcome.bind_eq_error.mp h with h | ⟨path, -, h⟩
  · rcases Context.resolve_error hlimit h with hreported | ⟨f, rfl, t, ht, hf⟩
    · exact .inl (hreported.mono (by decide))
    · obtain ⟨rfl, hunkeyed⟩ := (Context.table_eq_error hreadable hfilled).mp hf
      exact .inr ⟨rfl, t, ht, hunkeyed⟩
  · split at h
    · rw [← Except.error.inj h]
      exact .inl ⟨_, rfl, by simp [RequestError.kind, sortKinds]⟩
    · split at h
      · rw [← Except.error.inj h]
        exact .inl ⟨_, rfl, by simp [RequestError.kind, sortKinds]⟩
      · cases h

theorem ofToken_of_meetsUnkeyed {token : SortKey} (h : MeetsUnkeyed x root token) :
    ofToken x root token = .error (.fault .badType) := by
  obtain ⟨t, ht, hunkeyed⟩ := h
  have hbroken := (Context.table_eq_error hreadable hfilled).mpr ⟨rfl, hunkeyed⟩
  unfold ofToken
  dsimp only
  rw [Context.resolve_of_broken ht hbroken, Outcome.error_bind]

theorem mapM_ofToken_error {limit : Whole} {tokens : List SortKey} {e : Failure}
    (hlimit : x.settings.maxPathDepth = .ok limit)
    (h : tokens.mapM (ofToken x root) = .error e) :
    e.Reported sortKinds ∨ e = .fault .badType ∧ FirstMeets x root tokens := by
  obtain ⟨before, token, after, rfl, hbefore, htoken⟩ := Outcome.mapM_eq_error.mp h
  rcases ofToken_error hreadable hfilled hlimit htoken with hreported | ⟨rfl, hmeets⟩
  · exact .inl hreported
  · exact .inr ⟨rfl, before, token, after, rfl, hbefore, hmeets⟩

theorem mapM_ofToken_of_firstMeets {tokens : List SortKey} (h : FirstMeets x root tokens) :
    tokens.mapM (ofToken x root) = .error (.fault .badType) := by
  obtain ⟨before, token, after, rfl, hbefore, hmeets⟩ := h
  exact Outcome.mapM_eq_error.mpr
    ⟨before, token, after, rfl, hbefore, ofToken_of_meetsUnkeyed hreadable hfilled hmeets⟩

end Filled

theorem read_text (s : String) : read (.text s) = (parseAs (.text s) s).mapError .request := rfl

theorem parseAs_error {given : Value} {s : String} {e : RequestError}
    (h : parseAs given s = .error e) : e.kind ∈ sortKinds := by
  unfold parseAs at h
  split at h
  · rw [← Except.error.inj h]
    simp [RequestError.kind, sortKinds]
  · cases h

end SortKey

theorem Filter.parse_error {s : String} {e : RequestError} (h : Filter.parse s = .error e) :
    e.kind ∈ filterKinds := by
  unfold Filter.parse Filter.parseAs at h
  split at h
  · cases h
  · split at h
    · rw [← Except.error.inj h]
      simp [RequestError.kind, filterKinds]
    · cases h

/-! ## Texts -/

/-- The outcome of building the predicate of a filter text. -/
def filterOutcome (x : Context) (root : TypeRef) (s : String) :
    Except Failure (Option Predicate) :=
  (Filter.parse s).mapError .request >>= Predicate.build x root

/-- A record type with a collection of something that is no type. -/
def notes : Context where
  catalogue := { records := [{ name := "Note", annotations := [("marks", .forward "list[[int]]")] }] }

theorem readable_notes : notes.catalogue.Readable := by
  have hundeclared {name : String} (hname : name ≠ "Note") : notes.catalogue.lineage name = [] :=
    Catalogue.lineage_of_undeclared (by simp [Catalogue.record?, notes, hname.symm])
  refine ⟨fun name f => ?_, fun name hints hhints a ha => ?_⟩
  · have hnone : notes.catalogue.obstacle? name = none := by
      by_cases hname : name = "Note"
      · rw [hname]
        exact Option.isNone_iff_eq_none.mp (by decide +kernel)
      · rw [Catalogue.obstacle?, Catalogue.allAnnotations, hundeclared hname]
        rfl
    simp [hnone]
  · by_cases hname : name = "Note"
    · have hall : ((notes.catalogue.hints "Note").toOption.getD []).all (·.2.isWritable) = true := by
        decide +kernel
      rw [hname] at hhints
      rw [hhints] at hall
      exact List.all_eq_true.mp hall a ha
    · have hnil : notes.catalogue.hints name = .ok [] := by
        rw [Catalogue.hints, Catalogue.obstacle?, Catalogue.allAnnotations, Catalogue.annotations,
          hundeclared hname]
        rfl
      obtain rfl := Except.ok.inj (hnil.symm.trans hhints)
      cases ha

end PageQuery
