import Mathlib
import PageQuery.Proofs.Schema.Tables
import PageQuery.Proofs.Store.Tests
import PageQuery.Proofs.Store.Places
import PageQuery.Schema.Bundled

/-!
# Paths through stored models

The table of a model has the fields that the model declares.  A path that is resolved from a model
therefore leads through single relations to a field that is declared where they end, and the elements
of a collection are rows of its target.  So what a request names in letters of any case has a place in
the store.
-/

namespace PageQuery

/-! ## Declared fields -/

/-- A model declares a field: it is made of the model's own field of its name. -/
def Model.Declares (c : Catalogue) (m : Model) (f : Field) : Prop :=
  ∃ g, m.field? f.name = some g ∧ Field.ofModelField? c f.name g = some f

theorem Model.field?_of_mem {m : Model} (hnames : (m.fields.map (·.1)).Nodup) {name : String}
    {g : ModelField} (h : (name, g) ∈ m.fields) : m.field? name = some g := by
  rw [field?, List.lookup_eq_some_iff]
  obtain ⟨before, after, heq⟩ := List.append_of_mem h
  refine ⟨before, after, heq, fun e he => ?_⟩
  rw [heq, List.map_append, List.nodup_append'] at hnames
  rw [bne_iff_ne]
  intro hname
  exact hnames.2.2 (List.mem_map_of_mem he) (by simp [← hname])

/-- A column that is not declared as a key, and whose choices are values that it is compared with. -/
def ModelField.IsRegular : ModelField → Prop
  | .column type choices _ => type ≠ .reference ∧ ∀ o ∈ choices, type.Compares o.1
  | _ => True

/-- Models whose fields have different names, whose relations lead to models among them, whose choices
are stored values, and whose rows are told apart by a key. -/
structure Regular (models : List Model) : Prop where
  names : ∀ m ∈ models, (m.fields.map (·.1)).Nodup
  targets : ∀ m ∈ models, ∀ f ∈ m.fields, ∀ t ∈ f.2.target?,
    (models.find? (·.name == t)).isSome = true
  columns : ∀ m ∈ models, ∀ f ∈ m.fields, f.2.IsRegular
  keyed : ∀ m ∈ models, m.field? "id" = some (.column .integer [] .none)

theorem Bundled.regular : Regular Bundled.models where
  names := by decide +kernel
  targets := by decide +kernel
  columns := by
    have hlow : ColumnType.Compares .integer (.int 1) := .integer rfl
    have hmiddle : ColumnType.Compares .integer (.int 5) := .integer rfl
    have hhigh : ColumnType.Compares .integer (.int 10) := .integer rfl
    simp only [models, profile, author, tag, article, comment, maker, item, spec, part, contentType,
      key, plain, words, textChoice, numberChoice, List.forall_mem_cons, List.not_mem_nil,
      false_implies, implies_true, ModelField.IsRegular, ColumnType.Compares.text, hlow, hmiddle,
      hhigh, ne_eq, reduceCtorEq, not_false_eq_true, and_self]
  keyed := by
    intro m hm
    simp only [models, List.mem_cons, List.not_mem_nil, or_false] at hm
    rcases hm with rfl | rfl | rfl | rfl | rfl | rfl | rfl | rfl | rfl | rfl <;> rfl

namespace Model.Declares

variable {s : Store} {c : Catalogue} {m : Model} {f : Field}

theorem of_table (hmodels : c.models = s.models) (hregular : Regular s.models)
    (hm : s.model? m.name = some m) {segment : String}
    (h : (c.table (.model m.name)).map (·.find? segment) = .ok (some f)) : m.Declares c f := by
  have hmodel : c.model? m.name = some m := by rw [Catalogue.model?, hmodels]; exact hm
  rw [Catalogue.table, Catalogue.fields, hmodel] at h
  have hmem := Table.mem_of_find? (Except.ok.inj h)
  obtain ⟨⟨name, g⟩, hg, hfield⟩ := List.mem_filterMap.mp hmem
  obtain rfl := Field.name_ofModelField? hfield
  exact ⟨g, field?_of_mem (hregular.names m (Store.mem_of_model? hm).1) (List.mem_of_mem_filter hg),
    hfield⟩

/-- A declared field that leads to a type is a relation to the rows of a model: to one of them, or to
several if it is a collection. -/
theorem exists_target (h : m.Declares c f) (hregular : Regular s.models) (hm : m ∈ s.models)
    (hf : f.isCollection = true ∨ f.target.isSome = true) :
    ∃ g next, m.field? f.name = some g ∧ g.isSingle = !f.isCollection ∧
      f.target = some (.model next.name) ∧ g.target?.bind s.model? = some next := by
  obtain ⟨g, hg, hfield⟩ := h
  have htarget (t : String) (ht : t ∈ g.target?) : ∃ next, s.model? t = some next ∧ next.name = t := by
    obtain ⟨next, hnext⟩ :=
      Option.isSome_iff_exists.mp (hregular.targets m hm _ (Store.mem_of_field? hg) t ht)
    exact ⟨next, hnext, (Store.mem_of_model? hnext).2⟩
  cases g with
  | toAny => cases hfield
  | column type choices default =>
      have hcolumn : f.isCollection = false ∧ f.target = none := by
        rw [← Option.some.inj hfield, Field.ofColumn]
        split
        · exact ⟨rfl, rfl⟩
        · cases type <;> exact ⟨rfl, rfl⟩
      simp [hcolumn] at hf
  | toOne t | ownerOf t | ownersOf t | linked t | linkedFrom t =>
      obtain ⟨next, hnext, rfl⟩ := htarget t rfl
      refine ⟨_, next, hg, ?_⟩
      rw [← Option.some.inj hfield]
      exact ⟨rfl, rfl, hnext⟩

/-- A declared field that leads nowhere is a column. -/
theorem exists_column (h : m.Declares c f) (hcollection : f.isCollection = false)
    (hrelation : f.isRelation = false) :
    ∃ type choices default, m.field? f.name = some (.column type choices default) ∧
      f = Field.ofColumn c f.name type choices := by
  obtain ⟨g, hg, hfield⟩ := h
  cases g with
  | toAny => cases hfield
  | column type choices default => exact ⟨type, choices, default, hg, (Option.some.inj hfield).symm⟩
  | toOne | ownerOf =>
      rw [← Option.some.inj hfield] at hrelation
      cases hrelation
  | ownersOf | linked | linkedFrom =>
      rw [← Option.some.inj hfield] at hcollection
      cases hcollection

end Model.Declares

/-! ## Paths -/

section Paths

variable {s : Store} {m : Model}

/-- A walk that ends at a field has gone through single relations. -/
theorem exists_of_walk {c : Catalogue} (hmodels : c.models = s.models) (hregular : Regular s.models)
    {tables : TypeRef → Except Fault Table} (htables : ∀ t, tables t = c.table t)
    (hm : s.model? m.name = some m) {segments : List String} (hsegments : segments ≠ [])
    (hstop : (walk tables (.model m.name) segments).stop = .complete ∨
      ∃ rest, (walk tables (.model m.name) segments).stop = .collection rest) :
    ∃ before leaf owner, (walk tables (.model m.name) segments).fields = before ++ [leaf] ∧
      s.Leads m (before.map (·.name)) owner ∧ owner.Declares c leaf := by
  induction segments generalizing m with
  | nil => exact absurd rfl hsegments
  | cons segment rest ih =>
      rw [walk] at hstop ⊢
      split at hstop
      · simp at hstop
      · simp at hstop
      · rename_i f hfound
        rw [htables] at hfound
        have hf := Model.Declares.of_table hmodels hregular hm hfound
        split at hstop
        · rename_i hcollection
          rw [if_pos hcollection]
          exact ⟨[], f, m, rfl, .nil m, hf⟩
        · rename_i hcollection
          rw [if_neg hcollection]
          split at hstop
          · exact ⟨[], f, m, rfl, .nil m, hf⟩
          · simp at hstop
          · rename_i next more t ht
            obtain ⟨g, target, hg, hsingle, htarget, hbind⟩ :=
              hf.exists_target hregular (Store.mem_of_model? hm).1 (.inr (by simp [ht]))
            rw [ht, Option.some.injEq] at htarget
            rw [Bool.not_eq_true] at hcollection
            rw [hcollection] at hsingle
            obtain ⟨name, -, hnext⟩ := Option.bind_eq_some_iff.mp hbind
            have hnext : s.model? target.name = some target := by
              rwa [(Store.mem_of_model? hnext).2]
            subst htarget
            obtain ⟨before, leaf, owner, hfields, hleads, hleaf⟩ :=
              ih hnext (List.cons_ne_nil _ _) hstop
            refine ⟨f :: before, leaf, owner, ?_, .cons hg hsingle hbind hleads, hleaf⟩
            simp [hfields]

/-- A path that is resolved from a model leads through single relations to a field that is declared
where they end. -/
theorem exists_of_resolve {x : Context} (hmodels : x.catalogue.models = s.models)
    (hregular : Regular s.models) (hregistry : x.registry.Faithful x.catalogue)
    (hm : s.model? m.name = some m) {path : Option String} {p : ResolvedPath}
    (h : x.resolve (.model m.name) path = .ok p) :
    ∃ relations owner, s.Leads m relations owner ∧ owner.Declares x.catalogue p.leaf ∧
      p.field = relations ++ [p.leaf.name] := by
  obtain ⟨segments, hsegments, hfields, hstop⟩ := Context.chain_of_resolve h
  have htables : ∀ t, x.table t = x.catalogue.table t := hregistry.table_eq
  obtain ⟨before, leaf, owner, hchain, hleads, hleaf⟩ :=
    exists_of_walk hmodels hregular htables hm hsegments hstop
  have hpath : p.leaf = leaf ∧ p.field = before.map (·.name) ++ [leaf.name] := by
    simp [ResolvedPath.leaf, ResolvedPath.field, hfields, hchain]
  rw [hpath.1]
  exact ⟨_, owner, hleads, hleaf, hpath.2⟩

/-- What a path addresses in the elements of a collection is a field of their model. -/
theorem declares_of_resolveElement {x : Context} (hmodels : x.catalogue.models = s.models)
    (hregular : Regular s.models) (hregistry : x.registry.Faithful x.catalogue)
    (hm : s.model? m.name = some m) {p : ResolvedPath} (hp : p.leaf.target = some (.model m.name))
    {f : Field} {field : List String} (h : x.resolveElement p = .ok (f, field)) :
    m.Declares x.catalogue f ∧ field = [f.name] := by
  rw [Context.resolveElement, hp] at h
  dsimp only at h
  split at h
  · cases h
  · rename_i g hfound
    rw [Context.table, hregistry.table_eq] at hfound
    obtain ⟨rfl, rfl⟩ := Prod.mk.inj (Except.ok.inj h)
    exact ⟨.of_table hmodels hregular hm hfound, rfl⟩
  · cases h

end Paths
end PageQuery
