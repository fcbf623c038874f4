import Mathlib
import PageQuery.Proofs.Schema.Tables
import PageQuery.Proofs.Text.Case
import PageQuery.Proofs.Text.Parts
import PageQuery.Proofs.Value.Agreement

/-!
# What requests can name

Tables that were filled by introspection hold public fields only, so no path of a request ever leads to
a private name, in any letter case, inside a collection or outside.  The values that a request is
compared with come from its texts and from declared constants.
-/

namespace PageQuery

open PageQuery.Text

variable {twin : Value → Value → Prop}

/-! ## Constants -/

/-- Whatever records the members or the choices of a parser hold stand for themselves. -/
def Parser.Shared (twin : Value → Value → Prop) : Parser → Prop
  | .member e => ∀ m ∈ e.members, m.2.Agrees twin m.2
  | .choice options => ∀ o ∈ options, o.1.Agrees twin o.1
  | _ => True

/-- Whatever records the declared constants hold stand for themselves. -/
structure Catalogue.Shared (twin : Value → Value → Prop) (c : Catalogue) : Prop where
  members : ∀ e ∈ c.enumerations, ∀ m ∈ e.members, m.2.Agrees twin m.2
  choices : ∀ m ∈ c.models, ∀ name type choices default,
    (name, ModelField.column type choices default) ∈ m.fields →
      ∀ o ∈ choices, o.1.Agrees twin o.1

/-- What a parser reads stands for itself. -/
theorem Parser.agrees_of_run {p : Parser} (hp : p.Shared twin) {text : String} {v : Value}
    (h : p.run text = .ok v) : v.Agrees twin v := by
  cases p with
  | text | verbatim =>
      obtain rfl := Except.ok.inj h
      exact .atom rfl
  | integer =>
      rw [run] at h
      obtain ⟨n, -, rfl⟩ := Option.map_eq_some_iff.mp (exists_of_orBadValue h)
      exact .atom rfl
  | float =>
      rw [run] at h
      obtain ⟨x, -, rfl⟩ := Option.map_eq_some_iff.mp (exists_of_orBadValue h)
      exact .atom rfl
  | uuid =>
      rw [run] at h
      obtain ⟨n, -, rfl⟩ := Option.map_eq_some_iff.mp (exists_of_orBadValue h)
      exact .atom rfl
  | duration =>
      rw [run] at h
      obtain ⟨n, -, rfl⟩ := Option.map_eq_some_iff.mp (exists_of_orBadValue h)
      exact .atom rfl
  | boolean =>
      rw [run] at h
      obtain ⟨b, rfl⟩ := exists_of_readBoolean h
      exact .atom rfl
  | decimal =>
      rw [run] at h
      split at h
      · obtain rfl := Except.ok.inj h
        exact .atom rfl
      · cases h
  | dateTime | date | time =>
      rw [run] at h
      obtain ⟨a, rfl⟩ := exists_of_ofReading h
      exact .atom rfl
  | choice options =>
      obtain ⟨o, ho, rfl⟩ := exists_of_readChoice h
      exact hp o ho
  | member e =>
      obtain ⟨m, hm, rfl⟩ := exists_of_readMember h
      exact .member (hp m (Enumeration.mem_of_mem_distinctMembers hm))

/-! ## Fields -/

namespace Field

variable {c : Catalogue}

/-- A field that requests may name: its name is public, and the values that its parser reads stand for
themselves. -/
structure Nameable (twin : Value → Value → Prop) (f : Field) : Prop where
  isPublic : isPrivate f.name = false
  shared : ∀ p ∈ f.parser, p.Shared twin

theorem shared_of_parser? (hc : c.Shared twin) {h : Hint} {p : Parser} (hp : h.parser? c = some p) :
    p.Shared twin := by
  unfold Hint.parser? at hp
  split at hp
  · obtain ⟨e, he, rfl⟩ := Option.map_eq_some_iff.mp hp
    exact hc.members e (List.mem_of_find?_eq_some he)
  · unfold builtinParser? at hp
    split at hp <;> cases hp <;> trivial
  · cases hp

theorem shared_ofSingle (hc : c.Shared twin) {name : String} {h : Hint} {f : Field}
    (hf : ofSingle c name h = .ok f) : ∀ p ∈ f.parser, p.Shared twin := by
  rw [ofSingle] at hf
  split at hf
  · obtain rfl := Except.ok.inj hf
    rintro p ⟨⟩
  · split at hf
    · obtain rfl := Except.ok.inj hf
      exact fun p hp => shared_of_parser? hc hp
    · cases hf

theorem shared_ofHint (hc : c.Shared twin) {name : String} {h : Hint} {f : Field}
    (hf : ofHint c name h = .ok f) : ∀ p ∈ f.parser, p.Shared twin := by
  rw [ofHint] at hf
  split at hf
  · obtain rfl := Except.ok.inj hf
    rintro p ⟨⟩
  · exact shared_ofSingle hc hf

theorem shared_element (hc : c.Shared twin) {field f : Field} (hf : field.element c = .ok f) :
    ∀ p ∈ f.parser, p.Shared twin := by
  rw [element] at hf
  split at hf
  · obtain rfl := Except.ok.inj hf
    rintro p ⟨⟩
  · split at hf
    · obtain rfl := Except.ok.inj hf
      exact fun p hp => shared_of_parser? hc hp
    · cases hf

theorem shared_ofModelField? (hc : c.Shared twin) {m : Model} (hm : m ∈ c.models) {name : String}
    {g : ModelField} (hg : (name, g) ∈ m.fields) {f : Field} (hf : ofModelField? c name g = some f) :
    ∀ p ∈ f.parser, p.Shared twin := by
  cases g with
  | toAny => cases hf
  | toOne | ownerOf | ownersOf | linked | linkedFrom =>
      obtain rfl := Option.some.inj hf
      rintro p ⟨⟩
  | column type choices default =>
      obtain rfl := Option.some.inj hf
      rw [ofColumn]
      split
      · rintro p ⟨⟩
        exact hc.choices m hm name type choices default hg
      · split
        · exact fun p hp => shared_of_parser? hc hp
        · rintro p ⟨⟩
          split <;> trivial

/-- Every field of a table that a declaration gives may be named. -/
theorem nameable_of_table (hc : c.Shared twin) {t : TypeRef} {segment : String} {f : Field}
    (h : (c.table t).map (·.find? segment) = .ok (some f)) : f.Nameable twin := by
  obtain ⟨table, htable, hfind⟩ := Outcome.map_eq_ok.mp h
  obtain ⟨fields, hfields, rfl⟩ := Outcome.map_eq_ok.mp htable
  have hmem := Table.mem_of_find? hfind
  cases t with
  | record name =>
      rw [Catalogue.fields] at hfields
      split at hfields
      · cases hfields
      · obtain ⟨a, ha, hf⟩ := (Outcome.mem_mapM hfields).mp hmem
        have hpublic := (List.mem_filter.mp ha).2
        rw [isPublic, Bool.and_eq_true, Bool.not_eq_true'] at hpublic
        exact ⟨name_ofHint hf ▸ hpublic.1, shared_ofHint hc hf⟩
  | model name =>
      rw [Catalogue.fields] at hfields
      split at hfields
      · obtain rfl := Except.ok.inj hfields
        cases hmem
      · rename_i m hm
        obtain rfl := Except.ok.inj hfields
        obtain ⟨g, hg, hf⟩ := List.mem_filterMap.mp hmem
        obtain ⟨hg, hpublic⟩ := List.mem_filter.mp hg
        rw [Bool.not_eq_true'] at hpublic
        exact ⟨name_ofModelField? hf ▸ hpublic,
          shared_ofModelField? hc (List.mem_of_find?_eq_some hm) hg hf⟩
  | _ =>
      obtain rfl := Except.ok.inj hfields
      cases hmem

/-- What a segment without points finds has a name without points. -/
theorem point_notMem_of_table {t : TypeRef} {segment : String} (hsegment : '.' ∉ segment.toList)
    {f : Field} (h : (c.table t).map (·.find? segment) = .ok (some f)) : '.' ∉ f.name.toList := by
  obtain ⟨table, htable, hfind⟩ := Outcome.map_eq_ok.mp h
  obtain ⟨fields, -, rfl⟩ := Outcome.map_eq_ok.mp htable
  rwa [← point_mem_lower, Table.lower_name_of_find? hfind, point_mem_lower]

end Field

/-! ## Paths -/

theorem point_notMem_of_splitPath {path : Option String} {segments : List String}
    (h : splitPath path = .ok segments) : ∀ segment ∈ segments, '.' ∉ segment.toList := by
  intro segment hsegment
  rw [splitPath] at h
  split at h
  · cases h
  · obtain rfl := Except.ok.inj h
    obtain ⟨part, hpart, rfl⟩ := List.mem_map.mp (List.mem_of_mem_filter hsegment)
    obtain ⟨chars, hchars, rfl⟩ := List.mem_map.mp hpart
    rw [trim, String.toList_ofList, String.toList_ofList]
    exact fun hpoint => (mem_of_mem_splitChars hchars (mem_of_mem_trimChars hpoint)).2 rfl

namespace Context

variable {x : Context} {root : TypeRef} {path : Option String} {p : ResolvedPath}

/-- The fields of a path that is resolved may be named, and their names have no points. -/
theorem nameable_of_resolve (hregistry : x.registry.Faithful x.catalogue)
    (hc : x.catalogue.Shared twin) (h : x.resolve root path = .ok p) :
    ∀ f ∈ p.chain, f.Nameable twin ∧ '.' ∉ f.name.toList := by
  obtain ⟨segments, hsegments, hchain, -⟩ := walk_of_resolve h
  rw [hchain]
  intro f hf
  obtain ⟨t, segment, hsegment, hfound⟩ := exists_of_mem_walk hf
  rw [Context.table, hregistry.table_eq] at hfound
  exact ⟨Field.nameable_of_table hc hfound,
    Field.point_notMem_of_table (point_notMem_of_splitPath hsegments segment hsegment) hfound⟩

theorem isPublic_of_resolve (hregistry : x.registry.Faithful x.catalogue)
    (hc : x.catalogue.Shared twin) (h : x.resolve root path = .ok p) :
    ∀ name ∈ p.field, isPrivate name = false := by
  intro name hname
  obtain ⟨f, hf, rfl⟩ := List.mem_map.mp hname
  exact (nameable_of_resolve hregistry hc h f hf).1.isPublic

/-- The parser of the leaf of a path reads values that stand for themselves. -/
theorem shared_of_resolve (hregistry : x.registry.Faithful x.catalogue)
    (hc : x.catalogue.Shared twin) (h : x.resolve root path = .ok p) :
    ∀ parser ∈ p.leaf.parser, parser.Shared twin := by
  have hchain := nameable_of_resolve hregistry hc h
  rw [ResolvedPath.leaf]
  cases hlast : p.chain.getLast? with
  | none => rintro parser ⟨⟩
  | some f => exact (hchain f (List.mem_of_getLast? hlast)).1.shared

/-- So does the parser of the field that a path addresses in the elements of a collection, and the name
of that field is public. -/
theorem nameable_of_resolveElement (hregistry : x.registry.Faithful x.catalogue)
    (hc : x.catalogue.Shared twin) {f : Field} {field : List String}
    (h : x.resolveElement p = .ok (f, field)) :
    (∀ name ∈ field, isPrivate name = false) ∧ ∀ parser ∈ f.parser, parser.Shared twin := by
  rw [resolveElement] at h
  split at h
  · split at h
    · cases h
    · obtain ⟨g, hg, heq⟩ := Outcome.map_eq_ok.mp h
      obtain ⟨rfl, rfl⟩ := Prod.mk.inj heq
      exact ⟨by simp, Field.shared_element hc (Outcome.mapError_eq_ok.mp hg)⟩
  · split at h
    · cases h
    · rename_i g hfound
      obtain ⟨rfl, rfl⟩ := Prod.mk.inj (Except.ok.inj h)
      rw [Context.table, hregistry.table_eq] at hfound
      have hnameable := Field.nameable_of_table hc hfound
      exact ⟨by simp [hnameable.isPublic], hnameable.shared⟩
    · cases h

end Context
end PageQuery
