import Mathlib
import PageQuery.Proofs.Request.History
import PageQuery.Proofs.Schema.Introspection
import PageQuery.Proofs.Schema.Tables
import PageQuery.Proofs.Text.Parts

/-!
# Declared fields are found

A record type that declares a public field, and no other one of that name up to letter case, has the
field in its table, and a path of that one name leads to it.
-/

namespace PageQuery

open PageQuery.Text

/-! ## Tables -/

theorem Table.lookup_put (key wanted : String) (f : Field) (entries : List (String × Field)) :
    (put key f entries).lookup wanted = if wanted = key then some f else entries.lookup wanted := by
  have hcons (k : String) (g : Field) (rest : List (String × Field)) :
      ((k, g) :: rest).lookup wanted = if wanted = k then some g else rest.lookup wanted := by
    rw [List.lookup_cons]
    by_cases hw : wanted = k
    · rw [hw, beq_self_eq_true, if_pos rfl]
    · rw [beq_false_of_ne hw, if_neg hw]
  induction entries with
  | nil => rw [put, hcons]
  | cons entry entries ih =>
      obtain ⟨k, g⟩ := entry
      rw [put]
      split
      · rename_i hk
        rw [hcons, hcons, hk]
        split <;> rfl
      · rename_i hk
        rw [hcons, hcons, ih]
        by_cases hw : wanted = k
        · rw [if_pos hw, if_pos hw, if_neg fun h => hk (hw.symm.trans h)]
        · rw [if_neg hw, if_neg hw]

/-- A field that is the only one of its name, letter case aside, is found in the table. -/
theorem Table.find?_of_unique {fields : List Field} {f : Field} {name : String} (hname : f.name = name)
    (hf : f ∈ fields) (hunique : ∀ g ∈ fields, lower g.name = lower name → g = f) :
    (ofFields fields).find? name = some f := by
  have hinsert : ∀ t : Table, f ∈ fields ∨ t.find? name = some f →
      (fields.foldl insert t).find? name = some f := by
    clear hf
    induction fields with
    | nil => exact fun t ht => ht.resolve_left List.not_mem_nil
    | cons g fields ih =>
        obtain ⟨hg, hrest⟩ := List.forall_mem_cons.mp hunique
        intro t ht
        refine ih hrest (t.insert g) ?_
        rw [find?, insert, lookup_put]
        by_cases hkey : lower name = lower g.name
        · exact .inr (by rw [if_pos hkey, hg hkey.symm])
        · rw [if_neg hkey]
          refine ht.imp_left fun hmem => (List.mem_cons.mp hmem).resolve_left ?_
          rintro rfl
          exact hkey (by rw [hname])
  exact hinsert {} (.inl hf)

/-! ## Declarations -/

/-- The field that a public annotation with a built-in type declares. -/
def Field.ofBuiltin (c : Catalogue) (name builtin : String) : Field :=
  { name := name
    kind := (Hint.type (.builtin builtin)).kind c
    type := some (.type (.builtin builtin))
    parser := builtinParser? builtin }

/-- A record type whose table can be made declares a public field of a built-in type, and no other field
of that name up to letter case. -/
structure Catalogue.Declares (c : Catalogue) (type name builtin : String) : Prop where
  isPublic : isPrivate name = false
  made : ∃ fields, c.fields (.record type) = .ok fields
  hinted : ∃ hints hint, c.hints type = .ok hints ∧ (name, hint) ∈ hints ∧
    hint.withoutAbsent = .type (.builtin builtin) ∧
    ∀ a ∈ hints, PageQuery.isPublic a = true → lower a.1 = lower name → a = (name, hint)

theorem Hint.kind_builtin (c : Catalogue) (builtin : String) :
    (Hint.type (.builtin builtin)).kind c = if builtin = "str" then .string
      else if builtin = "date" ∨ builtin = "datetime" then .datetime else .scalar := by
  by_cases hstr : builtin = "str"
  · rw [hstr]
    rfl
  by_cases hdate : builtin = "date"
  · rw [hdate]
    rfl
  by_cases hdatetime : builtin = "datetime"
  · rw [hdatetime]
    rfl
  · rw [if_neg hstr, if_neg (by simp [hdate, hdatetime]), Hint.kind]
    · rfl
    all_goals simp [hstr, hdate, hdatetime]

theorem Field.ofSingle_builtin (c : Catalogue) (name builtin : String) :
    ofSingle c name (.type (.builtin builtin)) = .ok (ofBuiltin c name builtin) := by
  have hkind : (Hint.type (.builtin builtin)).kind c ≠ .relation := by
    rw [Hint.kind_builtin]
    split
    · simp
    · split <;> simp
  rw [ofSingle, if_neg hkind]
  rfl

theorem Field.isCollection_ofBuiltin (c : Catalogue) (name builtin : String) :
    (ofBuiltin c name builtin).isCollection = false := by
  rw [isCollection, ofBuiltin, beq_eq_false_iff_ne, Hint.kind_builtin]
  split
  · simp
  · split <;> simp

theorem Field.ofHint_builtin {c : Catalogue} {name builtin : String} {h : Hint}
    (hh : h.withoutAbsent = .type (.builtin builtin)) :
    ofHint c name h = .ok (ofBuiltin c name builtin) := by
  rw [ofHint, hh]
  exact ofSingle_builtin c name builtin

theorem isPublic_of_withoutAbsent {name builtin : String} {h : Hint} (hname : isPrivate name = false)
    (hh : h.withoutAbsent = .type (.builtin builtin)) : isPublic (name, h) = true := by
  rw [isPublic, hname]
  cases h with
  | classWide h => cases hh
  | _ => rfl

theorem Catalogue.Declares.find? {c : Catalogue} {type name builtin : String}
    (h : c.Declares type name builtin) :
    (c.table (.record type)).map (·.find? name) = .ok (some (.ofBuiltin c name builtin)) := by
  obtain ⟨hname, ⟨fields, hfields⟩, hints, hint, hhints, hmem, hbuiltin, hunique⟩ := h
  have hmade := hfields
  rw [Catalogue.fields, hhints] at hmade
  have hdeclared : Field.ofHint c name hint = .ok (.ofBuiltin c name builtin) :=
    Field.ofHint_builtin hbuiltin
  have hmember : Field.ofBuiltin c name builtin ∈ fields :=
    (Outcome.mem_mapM hmade).mpr ⟨(name, hint),
      List.mem_filter.mpr ⟨hmem, isPublic_of_withoutAbsent hname hbuiltin⟩, hdeclared⟩
  have honly : ∀ g ∈ fields, lower g.name = lower name → g = .ofBuiltin c name builtin := by
    intro g hg hlower
    obtain ⟨a, ha, hmakes⟩ := (Outcome.mem_mapM hmade).mp hg
    obtain ⟨ha, hpublic⟩ := List.mem_filter.mp ha
    rw [Field.name_ofHint hmakes] at hlower
    rw [hunique a ha hpublic hlower] at hmakes
    exact Except.ok.inj (hmakes.symm.trans hdeclared)
  have hfound : (Table.ofFields fields).find? name = some (.ofBuiltin c name builtin) :=
    Table.find?_of_unique rfl hmember honly
  rw [table, hfields, Except.map, Except.map, hfound]

/-! ## Paths -/

/-- A name that can be written as a whole path. -/
def IsSegment (name : String) : Prop :=
  name ≠ "" ∧ '.' ∉ name.toList ∧ ∀ c ∈ name.toList, isBlankChar c = false

theorem trim_of_isSegment {name : String} (h : IsSegment name) : trim name = name := by
  rw [trim, trimChars_of_forall h.2.2, String.ofList_toList]

theorem splitPath_of_isSegment {name : String} (h : IsSegment name) :
    splitPath (some name) = .ok [name] := by
  have htrim := trim_of_isSegment h
  obtain ⟨hname, hpoint, -⟩ := h
  have hsplit : split '.' name = [name] := by
    rw [split, splitChars_last hpoint, List.map_singleton, String.ofList_toList]
  have hsegments : ((split '.' name).map trim).filter (!·.isEmpty) = [name] := by
    rw [hsplit, List.map_singleton, htrim]
    simp [hname]
  rw [splitPath, Option.getD_some, hsegments]

/-- The field that a record type declares is resolved by its name. -/
theorem Context.resolve_declared {x : Context} (hfilled : x.registry.Filled x.catalogue) {limit : Whole}
    (hlimit : x.settings.maxPathDepth = .ok limit) {type name builtin : String}
    (hsegment : IsSegment name) (h : x.catalogue.Declares type name builtin) :
    ∃ p, x.resolve (.record type) (some name) = .ok p ∧
      p.chain = [.ofBuiltin x.catalogue name builtin] := by
  have hpositive := Settings.isPositive_of_getPositive (by decide) hlimit
  have hfound := h.find?
  rw [← hfilled.faithful.table_eq (.record type)] at hfound
  have hkind := Field.isCollection_ofBuiltin x.catalogue name builtin
  have hwalk : walk x.table (.record type) [name] =
      ⟨[.record type], [.ofBuiltin x.catalogue name builtin], .complete⟩ := by
    rw [walk, Context.table, hfound]
    simp [hkind]
  have hdepth : x.checkDepth (.record type) (some name) limit [name] = .ok () := by
    rw [checkDepth, if_pos (by simpa using hpositive.2)]
  refine ⟨⟨some name, [.ofBuiltin x.catalogue name builtin], name, none⟩, ?_, rfl⟩
  rw [resolve, splitPath_of_isSegment hsegment, hlimit]
  simp only [Except.mapError, Outcome.ok_bind, hdepth, resolveSegments, hwalk]
  rfl

end PageQuery
