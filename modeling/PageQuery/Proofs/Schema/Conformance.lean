import Mathlib
import PageQuery.Proofs.Predicate.Failing
import PageQuery.Proofs.Schema.Tables
import PageQuery.Source

/-!
# Records that conform to their types

A record conforms to its type if each attribute is absent or has exactly the type that its annotation
declares, and so on through the records and collections in it.  A filter is accepted or refused by
what the annotations say.  So a filter that is accepted asks of a conforming record only what the
values there can answer: dates are set beside dates, moments beside moments, and elements are looked
for in collections.  Two ways to fail remain, and they depend on the values and not on their types.
-/

namespace PageQuery

/-! ## Conforming values -/

/-- A hint that no single type stands for, so that anything may be there. -/
def Hint.isOpen : Hint → Bool
  | .type t => t == .builtin "object" || t == .builtin "Any"
  | .collection .. => false
  | _ => true

/-- The hint of the elements of a collection: its first argument, or anything. -/
def Hint.elementOf (generic : Bool) (arguments : List Hint) : Hint :=
  let element := (arguments.filter fun g => !g.alike .andSoOn).headD (.type (.builtin "object"))
  (if generic then element.inside else element).withoutAbsent

/-- The hint of what a field of a model holds, if it is of one type. -/
def ModelField.hint? : ModelField → Option Hint
  | .column type _ _ => Field.columnHint type
  | .toOne t | .ownerOf t _ => some (.type (.model t))
  | .ownersOf t _ | .linked t | .linkedFrom t _ =>
    some (.collection "list" false [.type (.model t)])
  | .toAny => none

/-- A value conforms to a hint from which absence is stripped. -/
inductive Value.Conforms (c : Catalogue) : Hint → Value → Prop
  | absent (h : Hint) : Conforms c h .none
  | anything {h : Hint} {v : Value} (hopen : h.isOpen = true) : Conforms c h v
  | builtin {name : String} {v : Value} (htype : v.typeOf = .builtin name) :
      Conforms c (.type (.builtin name)) v
  /-- A member of an enumeration, which is a date or a moment if the enumeration is one of those. -/
  | member {name : String} {v : Value} (htype : v.typeOf = .enumeration name)
      (hdated : ∀ e, c.enumeration? name = some e → e.mixin.isDated = true →
        ∃ key u, v = .member name key e.mixin u ∧ e.mixin.holds u = true) :
      Conforms c (.type (.enumeration name)) v
  | record {name : String} {identity : Identity} {attributes : List (String × Value)}
      (hattributes : ∀ hints, c.hints name = .ok hints → ∀ a ∈ hints, isPublic a = true →
        Conforms c a.2.withoutAbsent ((attributes.lookup a.1).getD .none)) :
      Conforms c (.type (.record name)) (.record identity name attributes)
  /-- A record that holds what the fields of a model do. -/
  | mirror {name type : String} {identity : Identity} {attributes : List (String × Value)}
      (hattributes : ∀ m, c.model? name = some m → ∀ f ∈ m.fields, ∀ h, f.2.hint? = some h →
        Conforms c h ((attributes.lookup f.1).getD .none)) :
      Conforms c (.type (.model name)) (.record identity type attributes)
  | row {name : String} {key : ℤ} : Conforms c (.type (.model name)) (.row name key)
  | several {name : String} {generic : Bool} {arguments : List Hint} {v : Value}
      {elements : List Value}
      (helements : v = .list elements ∨ v = .tuple elements ∨ v = .set elements)
      (hconform : ∀ e ∈ elements, Conforms c (Hint.elementOf generic arguments) e) :
      Conforms c (.collection name generic arguments) v

/-! ## Fields of conforming values -/

theorem Hint.kind_ne_collection (c : Catalogue) (h : Hint) :
    h.kind c ≠ .collection := by
  unfold Hint.kind
  split
  · exact FieldKind.noConfusion
  · exact FieldKind.noConfusion
  · exact FieldKind.noConfusion
  · split <;> exact FieldKind.noConfusion
  · split <;> exact FieldKind.noConfusion
  · exact FieldKind.noConfusion

theorem Catalogue.exists_of_isDated {c : Catalogue} {name : String} (h : c.isDated name = true) :
    ∃ e, c.enumeration? name = some e ∧ e.mixin.isDated = true := by
  rw [isDated] at h
  cases he : c.enumeration? name with
  | none => simp [he] at h
  | some e => exact ⟨e, rfl, by simpa [he] using h⟩

theorem Catalogue.name_of_enumeration? {c : Catalogue} {name : String} {e : Enumeration}
    (h : c.enumeration? name = some e) : e.name = name := by
  have hname := List.find?_some h
  exact eq_of_beq hname

/-- The members of an enumeration of dates or moments are bounds for each other. -/
theorem Value.Bounds.members {mixin : Mixin} (hmixin : mixin.isDated = true) {u v : Value}
    (hu : mixin.holds u = true) (hv : mixin.holds v = true) (enumeration key key' : String) :
    (Value.member enumeration key mixin u).Bounds (.member enumeration key' mixin v) := by
  cases mixin with
  | date =>
      cases u <;> cases hu
      cases v <;> cases hv
      exact .date rfl rfl
  | moment =>
      cases u <;> cases hu
      cases v <;> cases hv
      exact .moment rfl rfl
  | _ => cases hmixin

theorem Value.eq_date_of_typeOf {v : Value} (h : v.typeOf = .builtin "date") : ∃ d, v = .date d := by
  cases v <;> simp [typeOf, TypeRef.absent] at h ⊢

theorem Value.eq_datetime_of_typeOf {v : Value} (h : v.typeOf = .builtin "datetime") :
    ∃ t, v = .datetime t := by
  cases v <;> simp [typeOf, TypeRef.absent] at h ⊢

namespace Field

/-- A value is absent or a date or a moment, whichever a field reads its bounds as; or it is a member
of the enumeration of which its bounds are members. -/
def Dates (f : Field) (v : Value) : Prop :=
  v = .none ∨ (f.parser = some .date ∧ ∃ d, v = .date d) ∨
    (f.parser = some .dateTime ∧ ∃ t, v = .datetime t) ∨
    ∃ e key u, f.parser = some (.member e) ∧ e.mixin.isDated = true ∧
      v = .member e.name key e.mixin u ∧ e.mixin.holds u = true

/-- A value is one that the description of a field tells the truth about. -/
structure Describes (c : Catalogue) (f : Field) (v : Value) : Prop where
  dates : f.kind = .datetime → f.Dates v
  target : f.isCollection = false → ∀ t, f.target = some t → v.Conforms c (.type t)
  elements : f.isCollection = true → ∃ elements, v.elements = .ok elements ∧ ∀ e ∈ elements,
    (∀ t, f.target = some t → e.Conforms c (.type t)) ∧
      ∀ g, f.target = none → f.element c = .ok g → g.kind = .datetime → g.Dates e

variable {c : Catalogue} {name : String} {h : Hint} {f : Field} {v : Value}

theorem describes_none : f.Describes c .none where
  dates _ := .inl rfl
  target _ _ _ := .absent _
  elements _ := ⟨[], rfl, nofun⟩

/-- A field of no date that stands for no collection promises no more than its type. -/
theorem describes_of_plain (hdates : f.kind ≠ .datetime) (hsingle : f.isCollection = false)
    (htarget : ∀ t, f.target = some t → v.Conforms c (.type t)) : f.Describes c v where
  dates hkind := absurd hkind hdates
  target _ := htarget
  elements hcollection := by
    rw [hsingle] at hcollection
    cases hcollection

/-- A field of one value that leads to no type promises no more than its dates. -/
theorem describes_of_scalar (htarget : f.target = none) (hsingle : f.isCollection = false)
    (hdates : f.kind = .datetime → f.Dates v) : f.Describes c v where
  dates := hdates
  target _ t ht := by
    rw [htarget] at ht
    cases ht
  elements hcollection := by
    rw [hsingle] at hcollection
    cases hcollection

/-- The elements of a list, a tuple or a set are its items. -/
theorem elements_of_items {xs : List Value} (h : v = .list xs ∨ v = .tuple xs ∨ v = .set xs) :
    v.elements = .ok xs := by
  rcases h with rfl | rfl | rfl <;> cases xs <;> rfl

/-- Where values are dates, bounds are read as what the values are. -/
theorem dates_of_conforms (hv : v.Conforms c h) (hkind : h.kind c = .datetime)
    (hf : f.parser = h.parser? c) : f.Dates v := by
  unfold Hint.kind at hkind
  split at hkind
  · cases hkind
  · cases hv with
    | absent => exact .inl rfl
    | anything hopen => cases hopen
    | builtin htype => exact .inr (.inl ⟨hf, Value.eq_date_of_typeOf htype⟩)
  · cases hv with
    | absent => exact .inl rfl
    | anything hopen => cases hopen
    | builtin htype => exact .inr (.inr (.inl ⟨hf, Value.eq_datetime_of_typeOf htype⟩))
  · rename_i name
    split at hkind
    · rename_i hdated
      obtain ⟨e, he, hmixin⟩ := Catalogue.exists_of_isDated hdated
      cases hv with
      | absent => exact .inl rfl
      | anything hopen => cases hopen
      | member _ hmember =>
          obtain ⟨key, u, rfl, hholds⟩ := hmember e he hmixin
          have hname : e.name = name := Catalogue.name_of_enumeration? he
          exact .inr (.inr (.inr ⟨e, key, u, by rw [hf, Hint.parser?, he]; rfl, hmixin, by rw [hname],
            hholds⟩))
    · cases hkind
  · split at hkind <;> cases hkind
  · cases hkind

theorem describes_ofSingle (hv : v.Conforms c h) (hf : ofSingle c name h = .ok f) :
    f.Describes c v := by
  rw [ofSingle] at hf
  split at hf
  · obtain rfl := Except.ok.inj hf
    refine describes_of_plain (by rintro ⟨⟩) rfl fun t ht => ?_
    cases h with
    | type u =>
        obtain rfl := Option.some.inj ht
        exact hv
    | _ => cases ht
  · rename_i hrelation
    split at hf
    · obtain rfl := Except.ok.inj hf
      exact describes_of_scalar rfl (beq_eq_false_iff_ne.mpr (Hint.kind_ne_collection c h))
        fun hkind => dates_of_conforms hv hkind rfl
    · cases hf

theorem eq_of_type_ofElement {element : Hint} (hf : (ofElement c name element).type = some h) :
    element = h := by
  unfold ofElement at hf
  dsimp only at hf
  split at hf
  · cases hf
  · exact Option.some.inj hf

theorem eq_of_target_ofElement {element : Hint} {t : TypeRef}
    (hf : (ofElement c name element).target = some t) : element = .type t := by
  unfold ofElement at hf
  dsimp only at hf
  split at hf
  · cases element with
    | type u => rw [Option.some.inj hf]
    | _ => cases hf
  · cases hf

/-- A collection of conforming elements is what a field with their hint says it is. -/
theorem describes_ofElement {collection : String} {generic : Bool} {arguments : List Hint}
    (hv : v.Conforms c (.collection collection generic arguments)) :
    (ofElement c name (Hint.elementOf generic arguments)).Describes c v := by
  refine ⟨nofun, nofun, fun _ => ?_⟩
  cases hv with
  | absent => exact ⟨[], rfl, nofun⟩
  | anything hopen => cases hopen
  | @several _ _ _ _ elements helements hconform =>
      refine ⟨elements, elements_of_items helements, fun e he => ⟨fun t ht => ?_, ?_⟩⟩
      · exact eq_of_target_ofElement ht ▸ hconform e he
      · intro g _ hg hkind
        rw [element] at hg
        split at hg
        · obtain rfl := Except.ok.inj hg
          cases hkind
        · rename_i h htype
          split at hg
          · obtain rfl := Except.ok.inj hg
            exact dates_of_conforms (eq_of_type_ofElement htype ▸ hconform e he) hkind rfl
          · cases hg

theorem describes_ofHint (hv : v.Conforms c h.withoutAbsent) (hf : ofHint c name h = .ok f) :
    f.Describes c v := by
  rw [ofHint] at hf
  split at hf
  · rename_i collection generic arguments hstripped
    obtain rfl := Except.ok.inj hf
    rw [hstripped] at hv
    exact describes_ofElement hv
  · exact describes_ofSingle hv hf

theorem describes_ofModelField? {g : ModelField} (hf : ofModelField? c name g = some f)
    (hv : ∀ h, g.hint? = some h → v.Conforms c h) : f.Describes c v := by
  cases g with
  | toAny => cases hf
  | column type choices default =>
      obtain rfl := Option.some.inj hf
      rw [ofColumn]
      split
      · exact describes_of_scalar rfl rfl (by rintro ⟨⟩)
      · split
        · rename_i h hh
          exact describes_of_scalar rfl (beq_eq_false_iff_ne.mpr (Hint.kind_ne_collection c h))
            fun hkind => dates_of_conforms (hv h hh) hkind rfl
        · exact describes_of_scalar rfl rfl (by rintro ⟨⟩)
  | toOne t | ownerOf t =>
      obtain rfl := Option.some.inj hf
      refine describes_of_plain (by rintro ⟨⟩) rfl fun u hu => ?_
      obtain rfl := Option.some.inj hu
      exact hv _ rfl
  | ownersOf t | linked t | linkedFrom t =>
      obtain rfl := Option.some.inj hf
      exact describes_ofElement (hv _ rfl)

/-- A field that the table of a type finds describes the attribute of its name in every value that
conforms to the type. -/
theorem describes_of_table {t : TypeRef} {segment : String} (hv : v.Conforms c (.type t))
    (hf : (c.table t).map (·.find? segment) = .ok (some f)) :
    f.Describes c (v.readAttribute f.name) := by
  obtain ⟨table, htable, hfound⟩ := Outcome.map_eq_ok.mp hf
  obtain ⟨fields, hfields, rfl⟩ := Outcome.map_eq_ok.mp htable
  have hmem := Table.mem_of_find? hfound
  cases hv with
  | absent => exact describes_none
  | row => exact describes_none
  | anything hopen =>
      cases t with
      | builtin name =>
          obtain rfl := Except.ok.inj hfields
          cases hmem
      | _ => simp [Hint.isOpen] at hopen
  | builtin | member =>
      obtain rfl := Except.ok.inj hfields
      cases hmem
  | @record name identity attributes hattributes =>
      rw [Catalogue.fields] at hfields
      cases hhints : c.hints name with
      | error e => simp [hhints] at hfields
      | ok hints =>
          simp only [hhints] at hfields
          obtain ⟨a, ha, hfield⟩ := (Outcome.mem_mapM hfields).mp hmem
          obtain ⟨hmember, hpublic⟩ := List.mem_filter.mp ha
          rw [name_ofHint hfield]
          exact describes_ofHint (hattributes hints hhints a hmember hpublic) hfield
  | @mirror name type identity attributes hattributes =>
      rw [Catalogue.fields] at hfields
      cases hmodel : c.model? name with
      | none =>
          simp only [hmodel, Except.ok.injEq] at hfields
          rw [← hfields] at hmem
          cases hmem
      | some m =>
          simp only [hmodel, Except.ok.injEq] at hfields
          rw [← hfields] at hmem
          obtain ⟨g, hg, hfield⟩ := List.mem_filterMap.mp hmem
          rw [name_ofModelField? hfield]
          exact describes_ofModelField? hfield
            (hattributes m hmodel g (List.mem_of_mem_filter hg))

end Field

/-! ## Paths -/

variable {x : Context} {root : TypeRef} {v : Value}

/-- The last field of a walk describes what its names lead to. -/
theorem describes_of_walk {c : Catalogue} {tables : TypeRef → Except Fault Table}
    (htables : ∀ t, tables t = c.table t) {t : TypeRef} (hv : v.Conforms c (.type t))
    {segments : List String} (hsegments : segments ≠ [])
    (hstop : (walk tables t segments).stop = .complete ∨
      ∃ rest, (walk tables t segments).stop = .collection rest) :
    ∃ before leaf, (walk tables t segments).fields = before ++ [leaf] ∧
      leaf.Describes c (v.follow ((before ++ [leaf]).map (·.name))) := by
  induction segments generalizing t v with
  | nil => exact absurd rfl hsegments
  | cons segment rest ih =>
      rw [walk] at hstop ⊢
      split at hstop
      · simp at hstop
      · simp at hstop
      · rename_i f hfound
        rw [htables] at hfound
        have hf := Field.describes_of_table hv hfound
        split at hstop
        · rename_i hcollection
          rw [if_pos hcollection]
          exact ⟨[], f, rfl, hf⟩
        · rename_i hcollection
          rw [if_neg hcollection]
          split at hstop
          · exact ⟨[], f, rfl, hf⟩
          · simp at hstop
          · rename_i next more target htarget
            obtain ⟨before, leaf, hfields, hleaf⟩ :=
              ih (hf.target (by simpa using hcollection) target htarget) (List.cons_ne_nil _ _) hstop
            exact ⟨f :: before, leaf, by simp [hfields], by simpa [Value.follow] using hleaf⟩

/-- The leaf of a path that is resolved describes what the path leads to. -/
theorem describes_of_resolve (hregistry : x.registry.Faithful x.catalogue)
    (hv : v.Conforms x.catalogue (.type root)) {path : Option String} {p : ResolvedPath}
    (h : x.resolve root path = .ok p) : p.leaf.Describes x.catalogue (v.follow p.field) := by
  obtain ⟨segments, hsegments, hchain, hstop⟩ := Context.chain_of_resolve h
  have htables : ∀ t, x.table t = x.catalogue.table t := hregistry.table_eq
  obtain ⟨before, leaf, hfields, hleaf⟩ := describes_of_walk htables hv hsegments hstop
  have hlast : p.leaf = leaf ∧ p.field = (before ++ [leaf]).map (·.name) := by
    simp [ResolvedPath.leaf, ResolvedPath.field, hchain, hfields]
  rwa [hlast.1, hlast.2]

/-- What a path addresses in an element of a collection is read from there as what it is. -/
theorem dates_of_resolveElement (hregistry : x.registry.Faithful x.catalogue) {p : ResolvedPath}
    {e : Value} (htarget : ∀ t, p.leaf.target = some t → e.Conforms x.catalogue (.type t))
    (helement : ∀ g, p.leaf.target = none → p.leaf.element x.catalogue = .ok g →
      g.kind = .datetime → g.Dates e)
    {f : Field} {field : List String} (h : x.resolveElement p = .ok (f, field))
    (hkind : f.kind = .datetime) : f.Dates (e.follow field) := by
  rw [Context.resolveElement] at h
  split at h
  · rename_i hnone
    split at h
    · cases h
    · obtain ⟨g, hg, heq⟩ := Outcome.map_eq_ok.mp h
      obtain ⟨rfl, rfl⟩ := Prod.mk.inj heq
      obtain hg := Outcome.mapError_eq_ok.mp hg
      exact helement g hnone hg hkind
  · rename_i t ht
    split at h
    · cases h
    · rename_i g hfound
      obtain ⟨rfl, rfl⟩ := Prod.mk.inj (Except.ok.inj h)
      rw [Context.table, hregistry.table_eq] at hfound
      exact (Field.describes_of_table (htarget t ht) hfound).dates hkind
    · cases h

end PageQuery
