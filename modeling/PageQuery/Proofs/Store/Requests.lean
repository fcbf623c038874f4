import Mathlib
import PageQuery.Ordering.Build
import PageQuery.Predicate.Build
import PageQuery.Proofs.Predicate.Shape
import PageQuery.Proofs.Schema.Models
import PageQuery.Proofs.Store.Predicates

/-!
# What requests ask of a store

A filter on plain fields, with values that a store can keep, is built to a predicate that tests plain
columns, and a sort by plain fields to keys that lead to plain columns.  What is known of such predicates
and keys therefore holds of every request that is understood.
-/

namespace PageQuery

/-- Whether a field holds texts, choices, whole numbers, truth values, or days or moments. -/
def Field.isPlain (f : Field) : Bool :=
  match f.kind, f.type with
  | .string, _ | .enum, _ | .datetime, _ => true
  | .scalar, some (.type (.builtin "int")) | .scalar, some (.type (.builtin "bool")) => true
  | _, _ => false

/-- A value that a store can keep: texts are printable, whole numbers have sixty-four bits, and moments
are representable in universal time. -/
def Value.IsStorable : Value → Prop
  | .text s => IsPrintable s
  | .int n => Cell.fits n = true
  | .datetime t => ((ColumnType.withZone true t).atOffset? 0).isSome = true
  | _ => True

namespace Predicate

mutual

def operands : Predicate → List Value
  | .equals _ v => [v]
  | .contains _ piece => [.text piece]
  | .range _ lower upper => [lower, upper]
  | .any _ inner => operands inner
  | .and items | .or items => operandsOf items
  | .absent | .unknown => []

def operandsOf : List Predicate → List Value
  | [] => []
  | p :: ps => operands p ++ operandsOf ps

end

theorem operandsOf_eq (ps : List Predicate) : operandsOf ps = ps.flatMap operands := by
  induction ps with
  | nil => rfl
  | cons p ps ih => rw [operandsOf, ih, List.flatMap_cons]

/-- Joined predicates compare with the values that each of them compares with. -/
theorem operands_combine {connective : List Predicate → Predicate}
    (hconnective : connective = .and ∨ connective = .or) {ps : List Predicate} {p : Predicate}
    (h : combine connective ps = some p) : p.operands = ps.flatMap operands := by
  match ps with
  | [] => cases h
  | [q] =>
      obtain rfl := Option.some.inj h
      simp
  | q :: r :: ps =>
      obtain rfl := Option.some.inj h
      rcases hconnective with rfl | rfl <;> exact operandsOf_eq _

end Predicate

/-! ## Plain fields -/

section Fields

variable {s : Store} {c : Catalogue} {m : Model} {f : Field}

/-- A plain field that a model declares is a plain column. -/
theorem Model.Declares.exists_plain (h : m.Declares c f) (hregular : Regular s.models)
    (hm : m ∈ s.models) (hplain : f.isPlain = true) :
    ∃ type choices default, m.field? f.name = some (.column type choices default) ∧
      type.isPlain = true ∧ f = Field.ofColumn c f.name type choices ∧
      ∀ o ∈ choices, type.Compares o.1 := by
  have hkind : f.isCollection = false ∧ f.isRelation = false := by
    rw [Field.isPlain] at hplain
    rw [Field.isCollection, Field.isRelation]
    cases hf : f.kind <;> simp_all
  obtain ⟨type, choices, default, hfield, hf⟩ := h.exists_column hkind.1 hkind.2
  obtain ⟨hreference, hchoices⟩ := hregular.columns m hm _ (Store.mem_of_field? hfield)
  refine ⟨type, choices, default, hfield, ?_, hf, hchoices⟩
  cases choices with
  | cons o choices => exact (hchoices o List.mem_cons_self).isPlain
  | nil =>
      rw [hf] at hplain
      cases type <;> first | rfl | exact absurd rfl hreference | cases hplain

end Fields

/-! ## Values for columns -/

section Columns

variable {c : Catalogue} {name raw : String} {type : ColumnType} {choices : List (Value × Value)}
  {path : Option String} {v : Value}

theorem Field.kind_ofColumn_nil (htype : type.isPlain = true) :
    (ofColumn c name type []).kind = .string ∧ type = .text ∨
      (ofColumn c name type []).kind = .scalar ∧
        (type = .integer ∨ type = .natural ∨ type = .boolean) ∨
      (ofColumn c name type []).kind = .datetime ∧ (type = .date ∨ type = .dateTime) := by
  cases type with
  | text => exact .inl ⟨rfl, rfl⟩
  | integer | natural | boolean => exact .inr (.inl ⟨rfl, by simp⟩)
  | date | dateTime => exact .inr (.inr ⟨rfl, by simp⟩)
  | _ => cases htype

/-- Only a column of texts holds texts. -/
theorem Field.text_of_kind (htype : type.isPlain = true)
    (hkind : (ofColumn c name type choices).kind = .string) : type = .text := by
  cases choices with
  | cons o choices => cases hkind
  | nil =>
      rcases kind_ofColumn_nil (c := c) htype with ⟨-, rfl⟩ | ⟨hscalar, -⟩ | ⟨hdate, -⟩
      · rfl
      · exact absurd (hkind.symm.trans hscalar) nofun
      · exact absurd (hkind.symm.trans hdate) nofun

/-- What is read for a column that holds no texts, days or moments is a value that it is compared with. -/
theorem Field.compares_of_convert (htype : type.isPlain = true)
    (hchoices : ∀ o ∈ choices, type.Compares o.1)
    (hstring : (ofColumn c name type choices).kind ≠ .string)
    (hdate : (ofColumn c name type choices).kind ≠ .datetime)
    (h : (ofColumn c name type choices).convert raw path = .ok v) (hv : v.IsStorable) :
    type.Compares v := by
  obtain ⟨p, hp, hrun⟩ := convert_eq_ok h
  cases choices with
  | cons o choices =>
      obtain rfl : Parser.choice (o :: choices) = p := Option.some.inj hp
      rw [Parser.run] at hrun
      obtain ⟨o', ho', rfl⟩ := Parser.exists_of_readChoice hrun
      exact hchoices o' ho'
  | nil =>
      rcases kind_ofColumn_nil (c := c) htype with ⟨hkind, -⟩ | ⟨-, hscalar⟩ | ⟨hkind, -⟩
      · exact absurd hkind hstring
      · rcases hscalar with rfl | rfl | rfl
        · obtain rfl : Parser.integer = p := Option.some.inj hp
          rw [Parser.run] at hrun
          obtain ⟨n, -, rfl⟩ := Option.map_eq_some_iff.mp (Parser.exists_of_orBadValue hrun)
          exact .integer hv
        · obtain rfl : Parser.integer = p := Option.some.inj hp
          rw [Parser.run] at hrun
          obtain ⟨n, -, rfl⟩ := Option.map_eq_some_iff.mp (Parser.exists_of_orBadValue hrun)
          exact .natural hv
        · obtain rfl : Parser.boolean = p := Option.some.inj hp
          rw [Parser.run] at hrun
          obtain ⟨b, rfl⟩ := Parser.exists_of_readBoolean hrun
          exact .boolean b
      · exact absurd hkind hdate

/-- What is read for a column of days or moments is a bound for it. -/
theorem Field.bounds_of_convert (htype : type.isPlain = true)
    (hdate : (ofColumn c name type choices).kind = .datetime)
    (h : (ofColumn c name type choices).convert raw path = .ok v) (hv : v.IsStorable) :
    ∃ β, type.Bounds v β := by
  obtain ⟨p, hp, hrun⟩ := convert_eq_ok h
  cases choices with
  | cons o choices => cases hdate
  | nil =>
      rcases kind_ofColumn_nil (c := c) htype with ⟨hkind, -⟩ | ⟨hkind, -⟩ | ⟨-, rfl | rfl⟩
      · exact absurd (hdate.symm.trans hkind) nofun
      · exact absurd (hdate.symm.trans hkind) nofun
      · obtain rfl : Parser.date = p := Option.some.inj hp
        rw [Parser.run] at hrun
        obtain ⟨d, rfl⟩ := Parser.exists_of_ofReading hrun
        exact ⟨_, .date d⟩
      · obtain rfl : Parser.dateTime = p := Option.some.inj hp
        rw [Parser.run] at hrun
        obtain ⟨t, rfl⟩ := Parser.exists_of_ofReading hrun
        obtain ⟨u, hu⟩ := Option.isSome_iff_exists.mp hv
        exact ⟨_, .dateTime hu⟩

/-- What is read for a plain column is a value. -/
theorem Field.isNone_of_run (htype : type.isPlain = true) (hchoices : ∀ o ∈ choices, type.Compares o.1)
    {parser : Parser} (hparser : parser ∈ (ofColumn c name type choices).parser)
    (h : parser.run raw = .ok v) : v.bare.isNone = false := by
  cases choices with
  | cons o choices =>
      obtain rfl : Parser.choice (o :: choices) = parser := Option.some.inj hparser
      rw [Parser.run] at h
      obtain ⟨o', ho', rfl⟩ := Parser.exists_of_readChoice h
      exact (hchoices o' ho').isNone_bare
  | nil =>
      cases type with
      | text =>
          obtain rfl : Parser.text = parser := Option.some.inj hparser
          rw [Parser.run] at h
          obtain rfl := Except.ok.inj h
          rfl
      | integer | natural =>
          obtain rfl : Parser.integer = parser := Option.some.inj hparser
          rw [Parser.run] at h
          obtain ⟨n, -, rfl⟩ := Option.map_eq_some_iff.mp (Parser.exists_of_orBadValue h)
          rfl
      | boolean =>
          obtain rfl : Parser.boolean = parser := Option.some.inj hparser
          rw [Parser.run] at h
          obtain ⟨b, rfl⟩ := Parser.exists_of_readBoolean h
          rfl
      | date =>
          obtain rfl : Parser.date = parser := Option.some.inj hparser
          rw [Parser.run] at h
          obtain ⟨d, rfl⟩ := Parser.exists_of_ofReading h
          rfl
      | dateTime =>
          obtain rfl : Parser.dateTime = parser := Option.some.inj hparser
          rw [Parser.run] at h
          obtain ⟨t, rfl⟩ := Parser.exists_of_ofReading h
          rfl
      | _ => cases htype

/-- A slot of a date filter is open or sets a bound for the column. -/
theorem Field.slot_of_bound (htype : type.isPlain = true)
    (hdate : (ofColumn c name type choices).kind = .datetime) {placeholder : Value}
    {property slot : Option String}
    (h : Predicate.bound placeholder (ofColumn c name type choices) property slot = .ok v)
    (hv : v.IsStorable) : ∃ cell, type.Slot v cell ∧ (v.isNone = false → cell ≠ none) := by
  rw [Predicate.bound] at h
  split at h
  · obtain rfl := Except.ok.inj h
    exact ⟨none, rfl, nofun⟩
  · obtain ⟨β, hβ⟩ := bounds_of_convert htype hdate h hv
    exact ⟨some β, hβ, fun _ => nofun⟩

end Columns

/-! ## Predicates -/

namespace Store.Tests

variable {s : Store} {root base m : Model} {path relations : List String}

/-- Joined predicates test plain columns if each of them does. -/
theorem combine {connective : List Predicate → Predicate}
    (hconnective : connective = .and ∨ connective = .or) {ps : List Predicate} {p : Predicate}
    (h : Predicate.combine connective ps = some p) (hps : ∀ q ∈ ps, s.Tests base q) :
    s.Tests base p := by
  match ps with
  | [] => cases h
  | [q] =>
      obtain rfl := Option.some.inj h
      exact hps q List.mem_cons_self
  | q :: r :: ps =>
      obtain rfl := Option.some.inj h
      rcases hconnective with rfl | rfl
      · exact .and hps
      · exact .or hps

variable {c : Catalogue} {f : Field} {settings : Settings} {item : FilterItem} {p : Predicate}

section Leaf

variable {type : ColumnType} {choices : List (Value × Value)} {default : Value} {name : String}

theorem of_ofDates (hleads : s.Leads base relations m)
    (hfield : m.field? name = some (.column type choices default)) (htype : type.isPlain = true)
    (hdate : (Field.ofColumn c name type choices).kind = .datetime)
    (h : Predicate.ofDates settings (Field.ofColumn c name type choices) (relations ++ [name]) item =
      .ok p)
    (hp : ∀ v ∈ p.operands, v.IsStorable) : s.Tests base p := by
  simp only [Predicate.ofDates] at h
  split at h
  · obtain ⟨lower, hlower, h⟩ := Outcome.bind_eq_ok.mp h
    obtain ⟨upper, hupper, h⟩ := Outcome.bind_eq_ok.mp h
    split at h
    · cases h
    · rename_i hnone
      obtain rfl := Except.ok.inj h
      rw [Predicate.operands, List.forall_mem_cons, List.forall_mem_singleton] at hp
      obtain ⟨low, hlow, hlow'⟩ := Field.slot_of_bound htype hdate hlower hp.1
      obtain ⟨high, hhigh, hhigh'⟩ := Field.slot_of_bound htype hdate hupper hp.2
      refine .range hleads hfield htype hlow hhigh ?_
      rw [Bool.and_eq_true, not_and_or, Bool.not_eq_true, Bool.not_eq_true] at hnone
      exact hnone.imp hlow' hhigh'
  · cases h
  · cases h

theorem of_comparisons (hleads : s.Leads base relations m)
    (hfield : m.field? name = some (.column type choices default)) (htype : type.isPlain = true)
    (hchoices : ∀ o ∈ choices, type.Compares o.1)
    (hdate : (Field.ofColumn c name type choices).kind ≠ .datetime) {tests : List Predicate}
    (h : Predicate.comparisons (Field.ofColumn c name type choices) (relations ++ [name]) item =
      .ok tests)
    (htests : ∀ v ∈ tests.flatMap Predicate.operands, v.IsStorable) :
    ∀ q ∈ tests, s.Tests base q := by
  intro q hq
  have hoperands : ∀ v ∈ q.operands, v.IsStorable :=
    fun v hv => htests v (List.mem_flatMap.mpr ⟨q, hq, hv⟩)
  rw [Predicate.comparisons] at h
  split at h
  · rename_i hstring
    obtain rfl := Field.text_of_kind htype hstring
    rw [← Except.ok.inj h] at hq
    obtain ⟨piece, -, rfl⟩ := List.mem_map.mp hq
    exact .contains hleads hfield (hoperands (.text piece) (by simp [Predicate.operands]))
  · rename_i hstring
    obtain ⟨raw, -, hconvert⟩ := (Outcome.mem_mapM h).mp hq
    obtain ⟨v, hv, rfl⟩ := Outcome.map_eq_ok.mp hconvert
    have hcompares := Field.compares_of_convert htype hchoices hstring hdate hv
      (hoperands v (by simp [Predicate.operands]))
    exact .equals hleads hfield (.plain hcompares)

end Leaf

/-- The test of a plain field that single relations lead to tests a plain column. -/
theorem of_ofLeaf (hregular : Regular s.models) (hbase : base ∈ s.models)
    (hleads : s.Leads base relations m) (hf : m.Declares c f) (hplain : f.isPlain = true)
    (h : Predicate.ofLeaf settings f (relations ++ [f.name]) item = .ok p)
    (hp : ∀ v ∈ p.operands, v.IsStorable) : s.Tests base p := by
  obtain ⟨type, choices, default, hfield, htype, hcolumn, hchoices⟩ :=
    hf.exists_plain hregular (hleads.mem_models hbase) hplain
  generalize hname : f.name = name at h hfield hcolumn
  subst hcolumn
  rw [Predicate.ofLeaf] at h
  split at h
  · rename_i hdate
    exact of_ofDates hleads hfield htype hdate h hp
  · cases h
  · cases h
  · rename_i hdate _ _
    obtain ⟨tests, htests, h⟩ := Outcome.bind_eq_ok.mp h
    split at h
    · cases h
    · rename_i q hcombine
      obtain rfl := Except.ok.inj h
      rw [Predicate.operands_combine (.inr rfl) hcombine] at hp
      exact combine (.inr rfl) hcombine
        (of_comparisons hleads hfield htype hchoices hdate htests hp)

section Requests

variable {x : Context} (hmodels : x.catalogue.models = s.models) (hregular : Regular s.models)
  (hregistry : x.registry.Faithful x.catalogue) (hroot : s.model? root.name = some root)

include hmodels hregular hregistry hroot

/-- The predicate of an item about a plain field tests plain columns of the rows themselves. -/
theorem of_ofItem (hplain : ∀ f, Predicate.Concerns x (.model root.name) item f → f.isPlain = true)
    (h : Predicate.ofItem x (.model root.name) item = .ok p)
    (hp : ∀ v ∈ p.operands, v.IsStorable) : s.Tests root p := by
  have hmem := (mem_of_model? hroot).1
  rw [Predicate.ofItem] at h
  split at h
  · cases h
  · obtain ⟨q, hq, h⟩ := Outcome.bind_eq_ok.mp h
    obtain ⟨relations, owner, hleads, hleaf, hfield⟩ :=
      exists_of_resolve hmodels hregular hregistry hroot hq
    split at h
    · rename_i hcollection
      obtain ⟨⟨f, field⟩, helement, h⟩ := Outcome.bind_eq_ok.mp h
      obtain ⟨inner, hinner, h⟩ := Outcome.bind_eq_ok.mp h
      obtain rfl := Except.ok.inj h
      obtain ⟨g, target, hg, hmany, htarget, hbind⟩ :=
        hleaf.exists_target hregular (hleads.mem_models hmem) (.inl hcollection)
      obtain ⟨htargetm, -⟩ := mem_of_target? hbind
      obtain ⟨t, -, ht⟩ := Option.bind_eq_some_iff.mp hbind
      have htarget' : s.model? target.name = some target := by rwa [(mem_of_model? ht).2]
      obtain ⟨hf, rfl⟩ :=
        declares_of_resolveElement hmodels hregular hregistry htarget' htarget helement
      have hconcerns : Predicate.Concerns x (.model root.name) item f :=
        ⟨q, hq, by rw [if_pos hcollection]; exact ⟨_, helement⟩⟩
      rw [hfield]
      rw [ResolvedPath.isCollection] at hcollection
      rw [hcollection] at hmany
      refine .any hleads hg hmany hbind ?_
      exact of_ofLeaf hregular htargetm (.nil target) hf (hplain f hconcerns)
        (Outcome.mapError_eq_ok.mp hinner) hp
    · rename_i hcollection
      have hconcerns : Predicate.Concerns x (.model root.name) item q.leaf :=
        ⟨q, hq, by rw [if_neg hcollection]⟩
      rw [hfield] at h
      exact of_ofLeaf hregular hmem hleads hleaf (hplain _ hconcerns)
        (Outcome.mapError_eq_ok.mp h) hp

/-- The predicate of a filter on plain fields tests plain columns of the rows themselves. -/
theorem of_build {items : List FilterItem}
    (hplain : ∀ item ∈ items, ∀ f, Predicate.Concerns x (.model root.name) item f →
      f.isPlain = true)
    (h : Predicate.build x (.model root.name) items = .ok (some p))
    (hp : ∀ v ∈ p.operands, v.IsStorable) : s.Tests root p := by
  obtain ⟨ps, hps, hcombine⟩ := Outcome.map_eq_ok.mp h
  rw [Predicate.operands_combine (.inl rfl) hcombine] at hp
  refine combine (.inl rfl) hcombine fun q hq => ?_
  obtain ⟨item, hitem, hofItem⟩ := (Outcome.mem_mapM hps).mp hq
  exact of_ofItem hmodels hregular hregistry hroot (hplain item hitem) hofItem
    fun v hv => hp v (List.mem_flatMap.mpr ⟨q, hq, hv⟩)

/-- The field that an item is about is declared by a model. -/
theorem exists_declares {f : Field} (h : Predicate.Concerns x (.model root.name) item f) :
    ∃ m ∈ s.models, m.Declares x.catalogue f := by
  obtain ⟨path, hpath, hf⟩ := h
  have hmem := (mem_of_model? hroot).1
  obtain ⟨relations, owner, hleads, hleaf, -⟩ :=
    exists_of_resolve hmodels hregular hregistry hroot hpath
  split at hf
  · rename_i hcollection
    obtain ⟨field, helement⟩ := hf
    obtain ⟨g, target, -, -, htarget, hbind⟩ :=
      hleaf.exists_target hregular (hleads.mem_models hmem) (.inl hcollection)
    obtain ⟨t, -, ht⟩ := Option.bind_eq_some_iff.mp hbind
    have htarget' : s.model? target.name = some target := by rwa [(mem_of_model? ht).2]
    exact ⟨target, (mem_of_target? hbind).1,
      (declares_of_resolveElement hmodels hregular hregistry htarget' htarget helement).1⟩
  · exact ⟨owner, hleads.mem_models hmem, hf ▸ hleaf⟩

/-- The searches of the predicate of a filter on plain fields may be detached. -/
theorem isDetachable_of_build {items : List FilterItem}
    (hplain : ∀ item ∈ items, ∀ f, Predicate.Concerns x (.model root.name) item f →
      f.isPlain = true)
    (h : Predicate.build x (.model root.name) items = .ok (some p)) :
    p.isDetachable false = true := by
  refine Predicate.isDetachable_of_build h fun item hitem f hf parser hparser text v hv => ?_
  obtain ⟨m, hm, hdeclares⟩ := exists_declares hmodels hregular hregistry hroot hf
  obtain ⟨type, choices, default, -, htype, hcolumn, hchoices⟩ :=
    hdeclares.exists_plain hregular hm (hplain item hitem f hf)
  rw [hcolumn] at hparser
  exact Field.isNone_of_run htype hchoices hparser hv

end Requests

end Store.Tests

/-! ## Keys -/

namespace SortKey

/-- The cell that the names of a key lead to from a row. -/
def cell (k : SortKey) (s : Store) (m : Model) (r : Row) : Cell :=
  s.cellAhead m r k.field.dropLast (k.field.getLastD "")

/-- A key leads from a model through single relations to a plain column. -/
def LeadsTo (k : SortKey) (s : Store) (root : Model) (type : ColumnType) : Prop :=
  ∃ relations name owner choices default, s.Leads root relations owner ∧
    owner.field? name = some (.column type choices default) ∧ type.isPlain = true ∧
    k.property = String.intercalate "." (relations ++ [name]) ∧ k.field = relations ++ [name]

/-- A sort key by a plain field leads to a plain column. -/
theorem exists_leadsTo {s : Store} {root : Model} {x : Context} {token k : SortKey} (hs : s.Sound)
    (hmodels : x.catalogue.models = s.models) (hregular : Regular s.models)
    (hregistry : x.registry.Faithful x.catalogue) (hroot : s.model? root.name = some root)
    (hplain : ∀ p, x.resolve (.model root.name) (some token.property) = .ok p →
      p.leaf.isPlain = true)
    (h : ofToken x (.model root.name) token = .ok k) : ∃ type, k.LeadsTo s root type := by
  obtain ⟨p, hp, h⟩ := Outcome.bind_eq_ok.mp h
  have hmem := (Store.mem_of_model? hroot).1
  obtain ⟨relations, owner, hleads, hleaf, hfield⟩ :=
    exists_of_resolve hmodels hregular hregistry hroot hp
  obtain ⟨type, choices, default, hcolumn, htype, -, -⟩ :=
    hleaf.exists_plain hregular (hleads.mem_models hmem) (hplain p hp)
  split at h
  · cases h
  · split at h
    · cases h
    · rw [← Except.ok.inj h]
      have hseparable := hs.separable_path hmem hleads hcolumn
      refine ⟨type, relations, p.leaf.name, owner, choices, default, hleads, hcolumn, htype,
        by rw [ResolvedPath.dotted, hfield], ?_⟩
      rw [SortKey.field, ResolvedPath.dotted, hfield]
      exact split_intercalate rfl (by simp) fun word hword =>
        (isSeparable_iff.mp (hseparable word hword)).2.1

end SortKey
end PageQuery
