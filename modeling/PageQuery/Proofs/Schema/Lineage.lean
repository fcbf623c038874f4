import Mathlib
import PageQuery.Proofs.Schema.Denoting
import PageQuery.Proofs.Schema.Introspection
import PageQuery.Proofs.Schema.Sessions

/-!
# Which fields a record type has

The annotations of a record type are merged along the types that it extends, the basic one first, and each
name keeps the hint that was merged last, which is the one of the nearest type that annotates it.  The names
of the fields are then those that are neither private nor kept by a class-wide hint.  Resolving the texts
changes hints but neither names nor whether a hint is class-wide, so the names are the same whether all texts
can be resolved or not.
-/

namespace PageQuery

open PageQuery.Text

/-! ## Merged annotations -/

def annotatedNames (as : List (String × Hint)) : List String :=
  as.map Prod.fst

/-- The last annotation of its name. -/
def IsLastOf (as : List (String × Hint)) (a : String × Hint) : Prop :=
  ∃ before after, as = before ++ a :: after ∧ a.1 ∉ annotatedNames after

/-- The annotation that holds for its name along a lineage: the last one of the nearest type that annotates
the name. -/
def IsNearest (lineage : List RecordType) (a : String × Hint) : Prop :=
  ∃ nearer r farther, lineage = nearer ++ r :: farther ∧
    (∀ s ∈ nearer, a.1 ∉ annotatedNames s.annotations) ∧ IsLastOf r.annotations a

section Merge

variable {kept as : List (String × Hint)} {a b : String × Hint} {r : RecordType} {lineage : List RecordType}

/-- One annotation merged into others: it takes the place of one of its name, or stands at the end. -/
def replaced (kept : List (String × Hint)) (a : String × Hint) : List (String × Hint) :=
  if kept.any (·.1 == a.1) then kept.map fun k => if k.1 == a.1 then a else k else kept ++ [a]

/-- The annotations of types merged, the last type first. -/
def merged (lineage : List RecordType) : List (String × Hint) :=
  lineage.reverse.foldl (fun kept r => r.annotations.foldl replaced kept) []

theorem Catalogue.annotations_eq (c : Catalogue) (type : String) : c.annotations type = merged (c.lineage type) :=
  rfl

theorem mem_replaced : b ∈ replaced kept a ↔ b = a ∨ b ∈ kept ∧ b.1 ≠ a.1 := by
  rw [replaced]
  split
  · rename_i hany
    obtain ⟨k, hk, hkey⟩ := List.any_eq_true.mp hany
    rw [List.mem_map]
    constructor
    · rintro ⟨k', hk', heq⟩
      split at heq
      · exact .inl heq.symm
      · rename_i hne
        exact .inr ⟨heq ▸ hk', by simpa [heq] using hne⟩
    · rintro (rfl | ⟨hb, hne⟩)
      · exact ⟨k, hk, if_pos hkey⟩
      · exact ⟨b, hb, if_neg (by simpa using hne)⟩
  · rename_i hnone
    have hne : ∀ k ∈ kept, k.1 ≠ a.1 := fun k hk hkey =>
      hnone (List.any_eq_true.mpr ⟨k, hk, beq_iff_eq.mpr hkey⟩)
    rw [List.mem_append, List.mem_singleton, or_comm]
    exact or_congr_right ⟨fun hb => ⟨hb, hne b hb⟩, And.left⟩

theorem names_replaced : annotatedNames (replaced kept a) =
    if a.1 ∈ annotatedNames kept then annotatedNames kept else annotatedNames kept ++ [a.1] := by
  have hany : kept.any (·.1 == a.1) = true ↔ a.1 ∈ annotatedNames kept := by
    simp [annotatedNames]
  rw [replaced]
  split
  · rename_i hin
    rw [if_pos (hany.mp hin), annotatedNames, annotatedNames, List.map_map]
    refine List.map_congr_left fun k hk => ?_
    rw [Function.comp_apply]
    split
    · rename_i hkey
      exact (eq_of_beq hkey).symm
    · rfl
  · rename_i hout
    rw [if_neg fun hin => hout (hany.mpr hin), annotatedNames, List.map_append]
    rfl

theorem nodup_replaced (h : (annotatedNames kept).Nodup) : (annotatedNames (replaced kept a)).Nodup := by
  rw [names_replaced]
  split
  · exact h
  · rename_i hout
    exact List.nodup_append.mpr ⟨h, List.nodup_singleton _, fun n hn m hm heq =>
      hout (List.mem_singleton.mp hm ▸ heq ▸ hn)⟩

theorem nodup_foldl_replaced (h : (annotatedNames kept).Nodup) (as : List (String × Hint)) :
    (annotatedNames (as.foldl replaced kept)).Nodup := by
  induction as generalizing kept with
  | nil => exact h
  | cons a as ih => exact ih (nodup_replaced h)

theorem isLastOf_cons : IsLastOf (a :: as) b ↔ IsLastOf as b ∨ b = a ∧ b.1 ∉ annotatedNames as := by
  constructor
  · rintro ⟨_ | ⟨k, before⟩, after, heq, hafter⟩
    · obtain ⟨rfl, rfl⟩ := List.cons.inj heq
      exact .inr ⟨rfl, hafter⟩
    · obtain ⟨rfl, rfl⟩ := List.cons.inj heq
      exact .inl ⟨before, after, rfl, hafter⟩
  · rintro (⟨before, after, rfl, hafter⟩ | ⟨rfl, hafter⟩)
    · exact ⟨a :: before, after, rfl, hafter⟩
    · exact ⟨[], as, rfl, hafter⟩

theorem IsLastOf.mem (h : IsLastOf as b) : b ∈ as := by
  obtain ⟨before, after, rfl, -⟩ := h
  exact List.mem_append_right _ List.mem_cons_self

theorem IsLastOf.name_mem (h : IsLastOf as b) : b.1 ∈ annotatedNames as :=
  List.mem_map_of_mem h.mem

/-- What is merged is the last annotation of each name, or was there and is not replaced. -/
theorem mem_foldl_replaced :
    b ∈ as.foldl replaced kept ↔ IsLastOf as b ∨ b ∈ kept ∧ b.1 ∉ annotatedNames as := by
  induction as generalizing kept with
  | nil =>
      have hnone : ¬ IsLastOf [] b := fun h => List.not_mem_nil h.mem
      simp [hnone, annotatedNames]
  | cons a as ih =>
      have hnames : annotatedNames (a :: as) = a.1 :: annotatedNames as := rfl
      rw [List.foldl_cons, ih, mem_replaced, isLastOf_cons, hnames, List.mem_cons, not_or, or_and_right,
        or_assoc, and_assoc]

theorem merged_cons : merged (r :: lineage) = r.annotations.foldl replaced (merged lineage) := by
  rw [merged, List.reverse_cons, List.foldl_append]
  rfl

theorem nodup_merged (lineage : List RecordType) : (annotatedNames (merged lineage)).Nodup := by
  induction lineage with
  | nil => exact List.nodup_nil
  | cons r lineage ih =>
      rw [merged_cons]
      exact nodup_foldl_replaced ih _

theorem isNearest_cons : IsNearest (r :: lineage) b ↔
    IsLastOf r.annotations b ∨ IsNearest lineage b ∧ b.1 ∉ annotatedNames r.annotations := by
  constructor
  · rintro ⟨_ | ⟨s, nearer⟩, t, farther, heq, hnearer, hlast⟩
    · obtain ⟨rfl, rfl⟩ := List.cons.inj heq
      exact .inl hlast
    · obtain ⟨rfl, rfl⟩ := List.cons.inj heq
      obtain ⟨hr, hnearer⟩ := List.forall_mem_cons.mp hnearer
      exact .inr ⟨⟨nearer, t, farther, rfl, hnearer, hlast⟩, hr⟩
  · rintro (hlast | ⟨⟨nearer, t, farther, rfl, hnearer, hlast⟩, hr⟩)
    · exact ⟨[], r, lineage, rfl, nofun, hlast⟩
    · exact ⟨r :: nearer, t, farther, rfl, List.forall_mem_cons.mpr ⟨hr, hnearer⟩, hlast⟩

/-- The merged annotations are the nearest ones of their names. -/
theorem mem_merged_iff : b ∈ merged lineage ↔ IsNearest lineage b := by
  induction lineage with
  | nil =>
      refine iff_of_false List.not_mem_nil ?_
      rintro ⟨nearer, t, farther, heq, -⟩
      exact List.append_ne_nil_of_right_ne_nil nearer (List.cons_ne_nil t farther) heq.symm
  | cons r lineage ih => rw [merged_cons, mem_foldl_replaced, isNearest_cons, ih]

theorem exists_isLastOf {name : String} (h : name ∈ annotatedNames as) : ∃ hint, IsLastOf as (name, hint) := by
  induction as with
  | nil => cases h
  | cons a as ih =>
      by_cases hlater : name ∈ annotatedNames as
      · obtain ⟨hint, hlast⟩ := ih hlater
        exact ⟨hint, isLastOf_cons.mpr (.inl hlast)⟩
      · obtain rfl := (List.mem_cons.mp h).resolve_right hlater
        exact ⟨a.2, isLastOf_cons.mpr (.inr ⟨rfl, hlater⟩)⟩

/-- A name that any type of a lineage annotates has a nearest annotation. -/
theorem exists_isNearest_iff {name : String} : (∃ hint, IsNearest lineage (name, hint)) ↔
    ∃ r ∈ lineage, name ∈ annotatedNames r.annotations := by
  constructor
  · rintro ⟨hint, nearer, r, farther, rfl, -, hlast⟩
    exact ⟨r, List.mem_append_right _ List.mem_cons_self, hlast.name_mem⟩
  · rintro ⟨r, hr, hname⟩
    induction lineage with
    | nil => cases hr
    | cons s lineage ih =>
        by_cases hs : name ∈ annotatedNames s.annotations
        · obtain ⟨hint, hlast⟩ := exists_isLastOf hs
          exact ⟨hint, isNearest_cons.mpr (.inl hlast)⟩
        · have hr : r ∈ lineage := (List.mem_cons.mp hr).resolve_left fun heq => hs (heq ▸ hname)
          obtain ⟨hint, hnearest⟩ := ih hr
          exact ⟨hint, isNearest_cons.mpr (.inr ⟨hnearest, hs⟩)⟩

theorem IsNearest.unique {name : String} {g h : Hint} (hg : IsNearest lineage (name, g))
    (hh : IsNearest lineage (name, h)) : g = h := by
  have hinj := List.inj_on_of_nodup_map (nodup_merged lineage)
  exact congrArg Prod.snd (hinj (mem_merged_iff.mpr hg) (mem_merged_iff.mpr hh) rfl)

end Merge

/-! ## Fields of merged annotations -/

theorem exists_mem_of_forall₂ {α β : Type} {R : α → β → Prop} {xs : List α} {ys : List β}
    (h : List.Forall₂ R xs ys) {y : β} (hy : y ∈ ys) : ∃ x ∈ xs, R x y := by
  induction h with
  | nil => cases hy
  | cons hxy _ ih =>
      rcases List.mem_cons.mp hy with rfl | hy
      · exact ⟨_, List.mem_cons_self, hxy⟩
      · obtain ⟨x, hx, hxy⟩ := ih hy
        exact ⟨x, List.mem_cons_of_mem _ hx, hxy⟩

namespace Catalogue

variable {c : Catalogue} {type : String}

/-- What the hint of an annotation is read as: with its texts resolved if those of all annotations can be,
and as it is written otherwise. -/
def Reads (c : Catalogue) (type : String) (h g : Hint) : Prop :=
  (c.obstacle? type = none ∧ h.resolve c = .ok g) ∨ (c.obstacle? type ≠ none ∧ g = h)

theorem Reads.isClassWide_eq {h g : Hint} (hreads : c.Reads type h g) : g.isClassWide = h.isClassWide := by
  rcases hreads with ⟨-, hresolve⟩ | ⟨-, rfl⟩
  · exact Hint.isClassWide_of_resolve hresolve
  · rfl

theorem Reads.unique {h g k : Hint} (hg : c.Reads type h g) (hk : c.Reads type h k) : g = k := by
  rcases hg with ⟨hnone, hg⟩ | ⟨hsome, rfl⟩
  · rcases hk with ⟨-, hk⟩ | ⟨hsome, -⟩
    · exact Except.ok.inj (hg.symm.trans hk)
    · exact absurd hnone hsome
  · rcases hk with ⟨hnone, -⟩ | ⟨-, rfl⟩
    · exact absurd hnone hsome
    · rfl

/-- Where nothing stands in the way, every annotation that holds is resolved. -/
theorem exists_resolve {a : String × Hint} (hnone : c.obstacle? type = none)
    (ha : IsNearest (c.lineage type) a) : ∃ g, a.2.resolve c = .ok g := by
  obtain ⟨nearer, r, farther, hlineage, -, hlast⟩ := ha
  have hmem : a ∈ c.allAnnotations type := by
    rw [allAnnotations, hlineage]
    exact List.mem_flatMap.mpr ⟨r, by simp, hlast.mem⟩
  have hresolved := List.findSome?_eq_none_iff.mp hnone a hmem
  split at hresolved
  · cases hresolved
  · rename_i g hg
    exact ⟨g, hg⟩

theorem hints_eq_error_iff {f : Fault} : c.hints type = .error f ↔ c.obstacle? type = some (.broken f) := by
  rw [hints]
  split
  · rename_i broken hbroken
    rw [hbroken]
    simp
  · rename_i o hother ho
    rw [ho]
    simpa using fun heq => hother f heq
  · rename_i hnone
    rw [hnone]
    simp

/-- The hints of a type are those that its merged annotations are read as. -/
theorem forall₂_of_hints {hints : List (String × Hint)} (h : c.hints type = .ok hints) :
    List.Forall₂ (fun a b => b.1 = a.1 ∧ c.Reads type a.2 b.2) (merged (c.lineage type)) hints := by
  rw [Catalogue.hints, annotations_eq] at h
  split at h
  · cases h
  · rename_i o _ ho
    obtain rfl := Except.ok.inj h
    exact List.forall₂_same.mpr fun a _ => ⟨rfl, .inr ⟨by rw [ho]; exact Option.some_ne_none o, rfl⟩⟩
  · rename_i hnone
    obtain rfl := Except.ok.inj h
    rw [List.forall₂_map_right_iff]
    refine List.forall₂_same.mpr fun a ha => ?_
    obtain ⟨g, hg⟩ := exists_resolve hnone (mem_merged_iff.mp ha)
    rw [hg]
    exact ⟨rfl, .inl ⟨hnone, hg⟩⟩

/-- Reading hints changes neither their names nor which of them are public. -/
theorem public_names {as bs : List (String × Hint)}
    (h : List.Forall₂ (fun a b => b.1 = a.1 ∧ c.Reads type a.2 b.2) as bs) :
    annotatedNames (bs.filter isPublic) = annotatedNames (as.filter isPublic) := by
  induction h with
  | nil => rfl
  | @cons a b as bs hab _ ih =>
      obtain ⟨hname, hreads⟩ := hab
      have hpublic : isPublic b = isPublic a := by
        rw [isPublic_eq, isPublic_eq, hname, hreads.isClassWide_eq]
      rw [List.filter_cons, List.filter_cons, hpublic]
      split
      · exact congrArg₂ List.cons hname ih
      · exact ih

theorem fields_eq_ok_iff {fields : List Field} : c.fields (.record type) = .ok fields ↔
    ∃ hints, c.hints type = .ok hints ∧
      (hints.filter isPublic).mapM (fun a => Field.ofHint c a.1 a.2) = .ok fields := by
  rw [Catalogue.fields]
  cases c.hints type <;> simp

/-- The names of the fields are those of the public annotations that are merged along the lineage, in their
order, whatever the texts in them denote. -/
theorem names_of_fields {fields : List Field} (h : c.fields (.record type) = .ok fields) :
    fields.map Field.name = annotatedNames ((merged (c.lineage type)).filter isPublic) := by
  obtain ⟨hints, hhints, hfields⟩ := fields_eq_ok_iff.mp h
  rw [← public_names (forall₂_of_hints hhints)]
  have hall := Outcome.mapM_eq_ok.mp hfields
  clear h hfields
  generalize hints.filter isPublic = as at hall
  induction hall with
  | nil => rfl
  | cons ha _ ih => exact congrArg₂ List.cons (Field.name_ofHint ha) ih

theorem mem_public_names_iff {lineage : List RecordType} {name : String} :
    name ∈ annotatedNames ((merged lineage).filter isPublic) ↔
      (∃ r ∈ lineage, name ∈ annotatedNames r.annotations) ∧ isPrivate name = false ∧
        ∀ h, IsNearest lineage (name, h) → h.isClassWide = false := by
  rw [← exists_isNearest_iff]
  constructor
  · intro hmem
    obtain ⟨⟨name', h⟩, ha, rfl⟩ := List.mem_map.mp hmem
    obtain ⟨hmerged, hpublic⟩ := List.mem_filter.mp ha
    have hnearest := mem_merged_iff.mp hmerged
    rw [isPublic_eq, Bool.and_eq_true, Bool.not_eq_true', Bool.not_eq_true'] at hpublic
    exact ⟨⟨h, hnearest⟩, hpublic.1, fun g hg => hg.unique hnearest ▸ hpublic.2⟩
  · rintro ⟨⟨h, hnearest⟩, hname, hwide⟩
    have hpublic : isPublic (name, h) = true := by
      rw [isPublic_eq, hname, hwide h hnearest]
      rfl
    exact List.mem_map_of_mem (List.mem_filter.mpr ⟨mem_merged_iff.mpr hnearest, hpublic⟩)

/-- A public annotation that holds, and what it is read as. -/
def Declared (c : Catalogue) (type name : String) (g : Hint) : Prop :=
  ∃ h, IsNearest (c.lineage type) (name, h) ∧ isPrivate name = false ∧ h.isClassWide = false ∧
    c.Reads type h g

theorem mem_public_hints_iff {hints : List (String × Hint)} (h : c.hints type = .ok hints) {name : String}
    {g : Hint} : (name, g) ∈ hints.filter isPublic ↔ c.Declared type name g := by
  have hall := forall₂_of_hints h
  have hpublic {k : Hint} (hreads : c.Reads type k g) :
      isPublic (name, g) = true ↔ isPrivate name = false ∧ k.isClassWide = false := by
    rw [isPublic_eq, hreads.isClassWide_eq]
    simp
  rw [List.mem_filter]
  constructor
  · rintro ⟨hmem, hg⟩
    obtain ⟨⟨name', k⟩, hk, hname, hreads⟩ := exists_mem_of_forall₂ hall hmem
    obtain rfl : name = name' := hname
    obtain ⟨hprivate, hwide⟩ := (hpublic hreads).mp hg
    exact ⟨k, mem_merged_iff.mp hk, hprivate, hwide, hreads⟩
  · rintro ⟨k, hk, hprivate, hwide, hreads⟩
    obtain ⟨⟨name', g'⟩, hmem, hname, hreads'⟩ := exists_mem_of_forall₂ hall.flip (mem_merged_iff.mpr hk)
    obtain rfl : name' = name := hname
    obtain rfl := hreads.unique hreads'
    exact ⟨hmem, (hpublic hreads).mpr ⟨hprivate, hwide⟩⟩

/-- Each field is the one that its annotation declares. -/
theorem declared_of_mem_fields {fields : List Field} (h : c.fields (.record type) = .ok fields) {f : Field}
    (hf : f ∈ fields) : ∃ g, c.Declared type f.name g ∧ Field.ofHint c f.name g = .ok f := by
  obtain ⟨hints, hhints, hfields⟩ := fields_eq_ok_iff.mp h
  obtain ⟨⟨name, g⟩, ha, hmakes⟩ := (Outcome.mem_mapM hfields).mp hf
  obtain rfl := Field.name_ofHint hmakes
  exact ⟨g, (mem_public_hints_iff hhints).mp ha, hmakes⟩

/-- The fields cannot be made exactly if a text has a fault, or else if a public annotation is read as what
can be no key. -/
theorem fields_eq_error_iff {f : Fault} : c.fields (.record type) = .error f ↔
    c.obstacle? type = some (.broken f) ∨
      (∀ f', c.obstacle? type ≠ some (.broken f')) ∧ f = .badType ∧
        ∃ name g, c.Declared type name g ∧ g.Unkeyed := by
  rw [Catalogue.fields]
  cases hhints : c.hints type with
  | error broken =>
      have hbroken := hints_eq_error_iff.mp hhints
      rw [hbroken]
      simp
  | ok hints =>
      have hreadable : ∀ f', c.obstacle? type ≠ some (.broken f') := fun f' hbroken => by
        rw [hints_eq_error_iff.mpr hbroken] at hhints
        cases hhints
      constructor
      · intro h
        obtain ⟨⟨name, g⟩, ha, hmakes⟩ := Outcome.exists_of_mapM_eq_error h
        obtain ⟨hf, hunkeyed⟩ := Field.ofHint_eq_error.mp hmakes
        exact .inr ⟨hreadable, hf, name, g, (mem_public_hints_iff hhints).mp ha, hunkeyed⟩
      · rintro (hbroken | ⟨-, rfl, name, g, hdeclared, hunkeyed⟩)
        · exact absurd hbroken (hreadable f)
        · exact Outcome.mapM_eq_error_of_mem ((mem_public_hints_iff hhints).mpr hdeclared)
            (Field.ofHint_eq_error.mpr ⟨rfl, hunkeyed⟩) fun b f hb => (Field.ofHint_eq_error.mp hb).1

/-- No two names that a lineage annotates are equal up to letter case. -/
def HasDistinctNames (lineage : List RecordType) : Prop :=
  ∀ r ∈ lineage, ∀ s ∈ lineage, ∀ m ∈ annotatedNames r.annotations, ∀ n ∈ annotatedNames s.annotations,
    lower m = lower n → m = n

/-- Where names differ in more than letter case, the table of a type holds all of its fields. -/
theorem find?_eq_some_iff_of_distinct (hdistinct : HasDistinctNames (c.lineage type)) {fields : List Field}
    (h : c.fields (.record type) = .ok fields) {name : String} {f : Field} :
    (Table.ofFields fields).find? name = some f ↔ f ∈ fields ∧ lower f.name = lower name := by
  have hnames := names_of_fields h
  have hnodup : (fields.map Field.name).Nodup := by
    rw [hnames]
    exact (nodup_merged _).sublist (List.filter_sublist.map _)
  have hannotated : ∀ g ∈ fields, ∃ r ∈ c.lineage type, g.name ∈ annotatedNames r.annotations := by
    intro g hg
    have hmem : g.name ∈ fields.map Field.name := List.mem_map_of_mem hg
    rw [hnames] at hmem
    exact (mem_public_names_iff.mp hmem).1
  rw [Table.find?, Table.lookup_ofFields_eq_some_iff]
  constructor
  · rintro ⟨before, after, rfl, hkey, -⟩
    exact ⟨List.mem_append_right _ List.mem_cons_self, hkey⟩
  · rintro ⟨hf, hkey⟩
    obtain ⟨before, after, hfields⟩ := List.append_of_mem hf
    refine ⟨before, after, hfields, hkey, fun g hg hlower => ?_⟩
    have hgfields : g ∈ fields := hfields ▸ List.mem_append_right _ (List.mem_cons_of_mem _ hg)
    obtain ⟨r, hr, hgname⟩ := hannotated g hgfields
    obtain ⟨s, hs, hfname⟩ := hannotated f hf
    have heq := hdistinct r hr s hs _ hgname _ hfname (hlower.trans hkey.symm)
    rw [hfields, List.map_append, List.map_cons] at hnodup
    exact (List.nodup_cons.mp (List.nodup_append.mp hnodup).2.1).1 (heq ▸ List.mem_map_of_mem hg)

/-- The fields of a record type are named by the annotations of the type and of all types that it extends,
each name once, except for the private names and those whose nearest annotation is class-wide; each field is
the one that the nearest annotation of its name declares, read with its texts resolved if all texts of the
type can be.  The names are the same however the declared types change what the texts denote.  Where no two
names are equal up to letter case, the table holds all fields.  There are no fields exactly if a text has a
fault, or else if what a public annotation is read as can be no key. -/
theorem fields_are_public (c : Catalogue) (type : String) :
    (∀ fields, c.fields (.record type) = .ok fields →
      (fields.map Field.name).Nodup ∧
        (∀ name, name ∈ fields.map Field.name ↔
          (∃ r ∈ c.lineage type, name ∈ annotatedNames r.annotations) ∧ isPrivate name = false ∧
            ∀ h, IsNearest (c.lineage type) (name, h) → h.isClassWide = false) ∧
        (∀ f ∈ fields, ∃ h g, IsNearest (c.lineage type) (f.name, h) ∧ c.Reads type h g ∧
          Field.ofHint c f.name g = .ok f) ∧
        (∀ c' : Catalogue, c'.lineage type = c.lineage type → ∀ fields', c'.fields (.record type) = .ok fields' →
          fields'.map Field.name = fields.map Field.name) ∧
        (HasDistinctNames (c.lineage type) → ∃ table, c.table (.record type) = .ok table ∧
          ∀ name f, table.find? name = some f ↔ f ∈ fields ∧ lower f.name = lower name)) ∧
      ∀ fault, c.fields (.record type) = .error fault ↔
        c.obstacle? type = some (.broken fault) ∨
          (∀ f, c.obstacle? type ≠ some (.broken f)) ∧ fault = .badType ∧
            ∃ name h g, IsNearest (c.lineage type) (name, h) ∧ isPrivate name = false ∧
              h.isClassWide = false ∧ c.Reads type h g ∧ g.Unkeyed := by
  refine ⟨fun fields h => ⟨?_, fun name => ?_, fun f hf => ?_, ?_, fun hdistinct => ?_⟩, fun fault => ?_⟩
  · rw [names_of_fields h]
    exact (nodup_merged _).sublist (List.filter_sublist.map _)
  · rw [names_of_fields h]
    exact mem_public_names_iff
  · obtain ⟨g, ⟨k, hnearest, -, -, hreads⟩, hmakes⟩ := declared_of_mem_fields h hf
    exact ⟨k, g, hnearest, hreads, hmakes⟩
  · intro c' hlineage fields' h'
    rw [names_of_fields h', hlineage, names_of_fields h]
  · exact ⟨Table.ofFields fields, by rw [table, h]; rfl, fun name f => find?_eq_some_iff_of_distinct hdistinct h⟩
  · rw [fields_eq_error_iff]
    refine or_congr_right (and_congr_right fun _ => and_congr_right fun _ => ?_)
    constructor
    · rintro ⟨name, g, ⟨h, hnearest, hprivate, hwide, hreads⟩, hunkeyed⟩
      exact ⟨name, h, g, hnearest, hprivate, hwide, hreads, hunkeyed⟩
    · rintro ⟨name, h, g, hnearest, hprivate, hwide, hreads, hunkeyed⟩
      exact ⟨name, g, ⟨h, hnearest, hprivate, hwide, hreads⟩, hunkeyed⟩

/-- Drafts extend notes: they make one field class-wide and another one not, and the text of a third one
names nothing. -/
def extended : Catalogue where
  records := [
    { name := "Note"
      structured := false
      annotations := [("title", .type (.builtin "str")), ("count", .classWide (.type (.builtin "int"))),
        ("kind", .type (.builtin "str")), ("_key", .type (.builtin "int"))] },
    { name := "Draft"
      structured := false
      bases := ["Note"]
      annotations := [("kind", .classWide (.type (.builtin "str"))), ("count", .type (.builtin "int")),
        ("owner", .forward "Missing")] }]

/-- The unresolved draft has the fields of both types but for the private one and the one that it makes
class-wide. -/
theorem fields_are_public_extended :
    extended.obstacle? "Draft" ≠ none ∧
      ∃ fields, extended.fields (.record "Draft") = .ok fields ∧
        fields.map Field.name = ["title", "count", "owner"] ∧
        (∀ h, IsNearest (extended.lineage "Draft") ("count", h) → h.isClassWide = false) ∧
        ¬ ∀ h, IsNearest (extended.lineage "Draft") ("kind", h) → h.isClassWide = false := by
  have hobstacle : (extended.obstacle? "Draft").isSome = true := rfl
  obtain ⟨fields, hfields, hnames⟩ : ∃ fields, extended.fields (.record "Draft") = .ok fields ∧
      fields.map Field.name = ["title", "count", "owner"] := ⟨_, rfl, rfl⟩
  obtain ⟨-, hiff, -⟩ := (fields_are_public extended "Draft").1 fields hfields
  have hcount : "count" ∈ fields.map Field.name := hnames ▸ by decide
  have hkind : "kind" ∉ fields.map Field.name := hnames ▸ by decide
  have hannotated : ∃ r ∈ extended.lineage "Draft", "kind" ∈ annotatedNames r.annotations :=
    ⟨_, List.mem_cons_self, by decide⟩
  refine ⟨Option.isSome_iff_ne_none.mp hobstacle, fields, hfields, hnames, ((hiff "count").mp hcount).2.2, ?_⟩
  exact fun hwide => hkind ((hiff "kind").mpr ⟨hannotated, rfl, hwide⟩)

end Catalogue
end PageQuery
