import Mathlib
import PageQuery.Proofs.Request.Behind
import PageQuery.Proofs.Schema.Lineage

/-!
# Types with fields are taken for record types

The fields of a type are looked for among the annotations of all types that it extends.  Whether it is a
record type is asked of its lineage only as far as structured types go; annotations have to be its own.  So
a type with fields is taken for a record type unless it is plain, extends plain types only and inherits all
of its fields without annotating anything.  Taken for one, it is the target of fields and the element type
of collections, and requests go on behind them as they start from the type itself.
-/

namespace PageQuery

open PageQuery.Text

namespace Catalogue

variable {c : Catalogue} {type : String} {fields : List Field}

/-- A plain type that extends plain types only and annotates nothing itself. -/
inductive InheritsOnly (c : Catalogue) (type : String) : Prop
  | intro {own : RecordType} {farther : List RecordType} (hlineage : c.lineage type = own :: farther)
      (hplain : ∀ r ∈ own :: farther, r.structured = false) (hsilent : own.annotations = [])

/-- A lineage begins with the type itself. -/
theorem record?_of_lineage {own : RecordType} {farther : List RecordType}
    (hlineage : c.lineage type = own :: farther) : c.record? type = some own := by
  cases hr : c.record? type with
  | none =>
      rw [lineage_of_undeclared hr] at hlineage
      cases hlineage
  | some r =>
      have hdeclared : 0 < c.records.length := List.length_pos_of_mem (List.mem_of_find?_eq_some hr)
      obtain ⟨fuel, hfuel⟩ := Nat.exists_eq_add_one_of_ne_zero hdeclared.ne'
      rw [lineage, hfuel, lineageNames, hr, List.filterMap_cons_some hr] at hlineage
      rw [(List.cons.inj hlineage).1]

theorem isRecordType_of_lineage {own : RecordType} {farther : List RecordType}
    (hlineage : c.lineage type = own :: farther) : c.isRecordType (.record type) =
      ((own :: farther).any (·.structured) || !own.annotations.isEmpty) := by
  rw [isRecordType, record?_of_lineage hlineage, hlineage]
  rfl

/-- Fields are annotated by the type itself or by one that it extends. -/
theorem exists_annotated (hfields : c.fields (.record type) = .ok fields) {f : Field} (hf : f ∈ fields) :
    ∃ r ∈ c.lineage type, f.name ∈ annotatedNames r.annotations := by
  have hname : f.name ∈ fields.map Field.name := List.mem_map_of_mem hf
  rw [names_of_fields hfields] at hname
  exact (mem_public_names_iff.mp hname).1

/-- A type with fields is taken for a record type unless it inherits all that is annotated. -/
theorem isRecordType_eq_false_iff (hfields : c.fields (.record type) = .ok fields) (hsome : fields ≠ []) :
    c.isRecordType (.record type) = false ↔ c.InheritsOnly type := by
  obtain ⟨f, hf⟩ := List.exists_mem_of_ne_nil fields hsome
  obtain ⟨r, hr, -⟩ := exists_annotated hfields hf
  obtain ⟨own, farther, hlineage⟩ := List.exists_cons_of_ne_nil (List.ne_nil_of_mem hr)
  rw [isRecordType_of_lineage hlineage, Bool.or_eq_false_iff, List.any_eq_false, Bool.not_eq_false',
    List.isEmpty_iff]
  constructor
  · rintro ⟨hplain, hsilent⟩
    exact .intro hlineage (fun r hr => eq_false_of_ne_true (hplain r hr)) hsilent
  · rintro ⟨hlineage', hplain, hsilent⟩
    obtain ⟨rfl, rfl⟩ := List.cons.inj (hlineage.symm.trans hlineage')
    exact ⟨fun r hr => ne_true_of_eq_false (hplain r hr), hsilent⟩

/-- What annotates nothing itself has its fields from the types that it extends. -/
theorem InheritsOnly.inherited (h : c.InheritsOnly type) (hfields : c.fields (.record type) = .ok fields)
    {f : Field} (hf : f ∈ fields) : ∃ r ∈ (c.lineage type).tail, f.name ∈ annotatedNames r.annotations := by
  obtain ⟨hlineage, -, hsilent⟩ := h
  obtain ⟨r, hr, hannotated⟩ := exists_annotated hfields hf
  rw [hlineage] at hr ⊢
  rcases List.mem_cons.mp hr with rfl | hr
  · rw [hsilent] at hannotated
    cases hannotated
  · exact ⟨r, hr, hannotated⟩

end Catalogue

/-! ## Fields hinted by a record type -/

theorem Hint.isSingular_record (type : String) : (Hint.type (.record type)).IsSingular where
  offers := List.cons_ne_nil _ _
  resolved text h := by simp [alternatives] at h
  present := nofun
  single := nofun
  written := nofun

section Hinted

variable {c : Catalogue} {name type : String} {e g : Hint}
  (he : e = .type (.record type) ∨ (Hint.type (.record type)).OrAbsent e)

include he

/-- Absence beside a type is taken away. -/
theorem Hint.withoutAbsent_record : e.withoutAbsent = .type (.record type) :=
  withoutAbsent_around (isSingular_record type) he (.inr fun hchoice => hchoice.ne_type _ rfl)

theorem Hint.ne_forward_of_record (text : String) : e ≠ .forward text := by
  rcases he with rfl | he
  · exact nofun
  · cases he <;> exact nofun

theorem Hint.ne_andSoOn_of_record : e ≠ .andSoOn := by
  rcases he with rfl | he
  · exact nofun
  · exact he.ne_type _

theorem Field.ofHint_record :
    ofHint c name e = .ok (if c.isRecordType (.record type) then
      { name := name, kind := .relation, type := some (.type (.record type)), target := some (.record type) }
      else { name := name, kind := .scalar, type := some (.type (.record type)) }) := by
  have hkind : (Hint.type (.record type)).kind c =
      if c.isRecordType (.record type) then .relation else .scalar := rfl
  rw [ofHint, Hint.withoutAbsent_record he]
  dsimp only
  rw [ofSingle, hkind]
  cases c.isRecordType (.record type) with
  | true => rfl
  | false => rfl

theorem Field.ofHint_recordElements (hg : e.IsElementOf g) :
    ofHint c name g = .ok (Field.mk name .collection (some (.type (.record type)))
      (if c.isRecordType (.record type) then some (.record type) else none) none) := by
  rw [ofHint_isElementOf hg (Hint.ne_andSoOn_of_record he) (Hint.ne_forward_of_record he),
    Hint.withoutAbsent_record he]
  rfl

end Hinted

namespace Catalogue

/-- A type with fields, its own or inherited ones, is taken for a record type exactly unless it annotates
nothing itself and is plain, as are all types that it extends; then all of its fields are inherited.  If it
is taken for a record type, a field hinted by it, or by it and absence, is a relation to it, the elements of
a collection of it are of it, and requests behind either come out as they do from the type itself.  If not,
the field is a scalar, the elements lead nowhere, and there are no requests behind either. -/
theorem classification_of_fields {c : Catalogue} {type : String} {fields : List Field}
    (hfields : c.fields (.record type) = .ok fields) (hsome : fields ≠ []) :
    (c.isRecordType (.record type) = false ↔ c.InheritsOnly type) ∧
    (c.InheritsOnly type → ∀ f ∈ fields, ∃ r ∈ (c.lineage type).tail, f.name ∈ annotatedNames r.annotations) ∧
    ∀ (name : String) (e g : Hint),
      e = .type (.record type) ∨ (Hint.type (.record type)).OrAbsent e → e.IsElementOf g →
        ∃ f fs, Field.ofHint c name e = .ok f ∧ Field.ofHint c name g = .ok fs ∧ fs.kind = .collection ∧
          (¬ c.InheritsOnly type →
            f.kind = .relation ∧ f.target = some (.record type) ∧ fs.target = some (.record type) ∧
            ∀ (x : Context) (limit : Whole) (root : TypeRef) (segment : String),
              x.settings.maxPathDepth = .ok limit → 1 ≤ limit.number →
                (x.Finds root segment f → x.Enters limit root segment f (.record type)) ∧
                (x.Finds root segment fs → x.Searches root segment fs (.record type))) ∧
          (c.InheritsOnly type →
            f.kind = .scalar ∧ f.target = none ∧ fs.target = none ∧
            ∀ (x : Context) (limit : Whole) (root : TypeRef) (segment : String),
              x.settings.maxPathDepth = .ok limit →
                x.Finds root segment f ∨ x.Finds root segment fs → x.Bars root segment) := by
  have hiff := isRecordType_eq_false_iff hfields hsome
  refine ⟨hiff, fun h f hf => h.inherited hfields hf, fun name e g he hg => ?_⟩
  refine ⟨_, _, Field.ofHint_record he, Field.ofHint_recordElements he hg, rfl, fun h => ?_, fun h => ?_⟩
  · have hrecord : c.isRecordType (.record type) = true := eq_true_of_ne_false (mt hiff.mp h)
    rw [hrecord]
    refine ⟨rfl, rfl, rfl, fun x limit root segment hlimit hpositive => ⟨fun hfinds => ?_, fun hfinds => ?_⟩⟩
    · exact Context.enters_of_target hlimit hfinds rfl rfl
    · exact Context.searches_of_target hlimit hfinds rfl hpositive rfl
  · rw [hiff.mpr h]
    refine ⟨rfl, rfl, rfl, fun x limit root segment hlimit hfinds => ?_⟩
    rcases hfinds with hfinds | hfinds
    · exact Context.bars_of_value hlimit hfinds rfl rfl
    · exact Context.bars_of_values hlimit hfinds rfl rfl

/-- Members and guests are persons, but guests only inherit what persons have.  A club has a head, members and
a guest. -/
def clubs : Context where
  catalogue :=
    { records :=
        [⟨"Person", false, [], [("name", .type (.builtin "str"))]⟩,
          ⟨"Member", false, ["Person"], [("since", .type (.builtin "int"))]⟩,
          ⟨"Guest", false, ["Person"], []⟩,
          ⟨"Club", true, [],
            [("head", .optional (.type (.record "Member"))),
              ("members", .collection "list" false [.type (.record "Member")]),
              ("guest", .type (.record "Guest"))]⟩] }

/-- The name of the head of a club and those of its members can be asked for, but not that of its guest. -/
theorem classification_of_fields_clubs :
    Predicate.ofItem clubs (.record "Club") ⟨some "head.name", [some "Ann"]⟩ =
        .ok (.contains ["head", "name"] "Ann") ∧
      Predicate.ofItem clubs (.record "Club") ⟨some "members.name", [some "Ann"]⟩ =
        .ok (.any ["members"] (.contains ["name"] "Ann")) ∧
      Predicate.ofItem clubs (.record "Guest") ⟨some "name", [some "Ann"]⟩ = .ok (.contains ["name"] "Ann") ∧
      ∀ p, Predicate.ofItem clubs (.record "Club") ⟨some "guest.name", [some "Ann"]⟩ ≠ .ok p := by
  have hlimit : clubs.settings.maxPathDepth = .ok (.ofInt 2) := rfl
  have hmember : ¬ clubs.catalogue.InheritsOnly "Member" := by
    rintro ⟨hlineage, -, hsilent⟩
    obtain ⟨rfl, -⟩ := List.cons.inj hlineage
    cases hsilent
  have hguest : clubs.catalogue.InheritsOnly "Guest" := by
    refine .intro rfl (fun r hr => ?_) rfl
    rcases List.mem_cons.mp hr with rfl | hr
    · rfl
    · rw [List.mem_singleton.mp hr]
  have hitem : Predicate.ofItem clubs (.record "Member") ⟨some "name", [some "Ann"]⟩ =
      .ok (.contains ["name"] "Ann") := rfl
  have hfields (name : String) (h : name = "Member" ∨ name = "Guest") :
      ∃ fields, clubs.catalogue.fields (.record name) = .ok fields ∧ fields ≠ [] := by
    rcases h with rfl | rfl
    · exact ⟨_, rfl, List.cons_ne_nil _ _⟩
    · exact ⟨_, rfl, List.cons_ne_nil _ _⟩
  obtain ⟨members, hmembers, hsome⟩ := hfields "Member" (.inl rfl)
  obtain ⟨guests, hguests, hsome'⟩ := hfields "Guest" (.inr rfl)
  obtain ⟨-, -, hmade⟩ := classification_of_fields hmembers hsome
  obtain ⟨-, -, hmade'⟩ := classification_of_fields hguests hsome'
  obtain ⟨f, fs, hf, hfs, -, htaken, -⟩ := hmade "head" _ _ (.inr .optional) (.form "list" false [])
  obtain ⟨g, gs, hg, hgs, -, htaken', -⟩ := hmade "members" _ _ (.inl rfl) (.form "list" false [])
  obtain ⟨k, ks, hk, hks, -, -, hleft⟩ := hmade' "guest" _ _ (.inl rfl) (.form "list" false [])
  obtain rfl := Except.ok.inj hf
  obtain rfl := Except.ok.inj hgs
  obtain rfl := Except.ok.inj hk
  obtain ⟨-, -, -, hrequests⟩ := htaken hmember
  obtain ⟨-, -, -, hrequests'⟩ := htaken' hmember
  obtain ⟨-, -, -, hbars⟩ := hleft hguest
  have hhead := (hrequests clubs _ (.record "Club") "head" hlimit (by decide)).1 ⟨_, rfl, rfl⟩
  have hlist := (hrequests' clubs _ (.record "Club") "members" hlimit (by decide)).2 ⟨_, rfl, rfl⟩
  have hname : pathSegments (FilterItem.mk (some "name") [some "Ann"]).property = ["name"] := rfl
  have hheadName : pathSegments (some "head.name") = ["head", "name"] := rfl
  have hlistName : pathSegments (some "members.name") = ["members", "name"] := rfl
  have hsingle (g : Field) (hfinds : clubs.Finds (.record "Member") "name" g) : g.isCollection = false := by
    have hplain : clubs.Finds (.record "Member") "name"
        { name := "name", kind := .string, type := some (.type (.builtin "str")), parser := some .text } :=
      ⟨_, rfl, rfl⟩
    rw [hfinds.unique hplain]
    rfl
  refine ⟨?_, ?_, rfl, ?_⟩
  · exact (hhead.filter (hname ▸ List.cons_ne_nil _ _) hheadName (.inl (by rw [hheadName]; decide))).eq_ok hitem
  · exact (hlist.filter hname hlistName hsingle).eq_ok hitem
  · exact (hbars clubs _ (.record "Club") "guest" hlimit (.inl ⟨_, rfl, rfl⟩)).filter rfl

end Catalogue
end PageQuery
