import Mathlib
import PageQuery.Proofs.Outcome

/-!
# Registries filled by introspection

A registry that was only ever filled by looking at declarations holds no table that differs from what
a declaration gives, so looking a table up has the same outcome before and after it is registered.
Making a table fails in one way only, apart from a text in a hint that is no expression: the parser
of a single value is looked up by its type, and a type that cannot be the key of a table has no
place there.
-/

namespace PageQuery

namespace Registry

/-- A registry that started empty and was filled by introspection, in any order and any number of
times. -/
inductive Filled (c : Catalogue) : Registry → Prop
  | empty : Filled c {}
  | introspect {r : Registry} (hfilled : Filled c r) (t : TypeRef) :
      Filled c (r.introspect c t).1

/-- Every registered table is the one of its declaration. -/
def Faithful (c : Catalogue) (r : Registry) : Prop :=
  ∀ t table, r.tables.lookup t = some table → c.table t = .ok table

theorem lookup_filter_ne {t u : TypeRef} (hu : (u == t) = false) (tables : List (TypeRef × Table)) :
    (tables.filter (·.1 != t)).lookup u = tables.lookup u := by
  induction tables with
  | nil => rfl
  | cons entry tables ih =>
      obtain ⟨v, table⟩ := entry
      by_cases hv : v = t
      · rw [List.filter_cons_of_neg (by simp [hv]), ih, List.lookup_cons, hv, hu]
      · rw [List.filter_cons_of_pos (by simpa using hv), List.lookup_cons, List.lookup_cons, ih]

theorem Faithful.put {c : Catalogue} {r : Registry} {t : TypeRef} {table : Table}
    (hr : r.Faithful c) (htable : c.table t = .ok table) : (r.put t table).Faithful c := by
  intro u found hfound
  rw [Registry.put, List.lookup_cons] at hfound
  cases hu : u == t with
  | true =>
      simp only [hu, Option.some.injEq] at hfound
      rw [beq_iff_eq.mp hu, htable, hfound]
  | false =>
      rw [hu] at hfound
      exact hr u found (lookup_filter_ne hu r.tables ▸ hfound)

theorem Faithful.introspect {c : Catalogue} {r : Registry} (hr : r.Faithful c) (t : TypeRef) :
    (r.introspect c t).1.Faithful c := by
  unfold Registry.introspect
  dsimp only
  split
  · exact hr
  · rename_i fields hfields
    refine hr.put ?_
    rw [Catalogue.table, hfields]
    rfl

theorem Filled.faithful {c : Catalogue} {r : Registry} (h : Filled c r) : r.Faithful c := by
  induction h with
  | empty => intro t table htable; cases htable
  | introspect _ t ih => exact ih.introspect t

/-- A table is found as its declaration gives it, whatever was looked up before. -/
theorem Faithful.table_eq {c : Catalogue} {r : Registry} (h : r.Faithful c) (t : TypeRef) :
    r.table c t = c.table t := by
  unfold Registry.table
  split
  · rename_i table htable
    exact (h t table htable).symm
  · rfl

/-- Consulting a registry fills it by introspection. -/
theorem Filled.consult {c : Catalogue} {r : Registry} (h : Filled c r) (t : TypeRef) :
    Filled c (r.consult c t).1 := by
  unfold Registry.consult
  split
  · exact h
  · exact h.introspect t

/-- A session that looks at any types one after the other keeps its registry filled by
introspection. -/
theorem Filled.consultAll {c : Catalogue} {r : Registry} (h : Filled c r) (ts : List TypeRef) :
    Filled c (r.consultAll c ts).1 := by
  unfold Registry.consultAll
  generalize ([] : List LogEntry) = notes
  induction ts generalizing r notes with
  | nil => exact h
  | cons t ts ih => exact ih (h.consult t) _

end Registry

/-! ## Hints that cannot be keys -/

/-- A hint declares a single value whose type cannot be the key of a table. -/
def Hint.Unkeyed (h : Hint) : Prop :=
  (∀ name generic arguments, h.withoutAbsent ≠ .collection name generic arguments) ∧
    h.withoutAbsent.isHashable = false

theorem Hint.isHashable_of_relation {c : Catalogue} {h : Hint} (hkind : h.kind c = .relation) :
    h.isHashable = true := by
  cases h <;> first | rfl | cases hkind

theorem Field.ofSingle_eq_error {c : Catalogue} {name : String} {h : Hint} {f : Fault} :
    Field.ofSingle c name h = .error f ↔ f = .badType ∧ h.isHashable = false := by
  unfold Field.ofSingle
  by_cases hrelation : h.kind c = .relation
  · simp [hrelation, Hint.isHashable_of_relation hrelation]
  · cases h.isHashable <;> simp [hrelation, eq_comm]

theorem Field.ofHint_eq_error {c : Catalogue} {name : String} {h : Hint} {f : Fault} :
    Field.ofHint c name h = .error f ↔ f = .badType ∧ h.Unkeyed := by
  unfold Field.ofHint Hint.Unkeyed
  split
  · simp_all
  · rename_i hsingle
    rw [Field.ofSingle_eq_error]
    constructor
    · rintro ⟨hf, hhash⟩
      exact ⟨hf, fun name generic arguments h => hsingle name generic arguments h, hhash⟩
    · rintro ⟨hf, -, hhash⟩
      exact ⟨hf, hhash⟩

theorem Field.element_eq_error {c : Catalogue} {field : Field} {f : Fault} :
    field.element c = .error f ↔ f = .badType ∧ ∃ h, field.type = some h ∧ h.isHashable = false := by
  unfold Field.element
  split
  · simp_all
  · rename_i h hh
    constructor
    · intro he
      split at he
      · cases he
      · rename_i hhash
        exact ⟨(Except.error.inj he).symm, h, hh, by simpa using hhash⟩
    · rintro ⟨rfl, h', hh', hhash⟩
      obtain rfl : h = h' := by simpa [hh] using hh'
      rw [if_neg (by simp [hhash])]

namespace Catalogue

theorem lineage_of_undeclared {c : Catalogue} {name : String} (h : c.record? name = none) :
    c.lineage name = [] := by
  have hnames : c.lineageNames c.records.length name = [] := by
    cases c.records.length with
    | zero => rfl
    | succ fuel => rw [lineageNames, h]
  rw [lineage, hnames, List.filterMap_nil]

/-- Every text in a hint is an expression: what it names may be missing or misused, but it can be
read, and what it denotes can be written, as errors have to that name the type of a field. -/
structure Readable (c : Catalogue) : Prop where
  not_broken : ∀ name f, c.obstacle? name ≠ some (.broken f)
  writable : ∀ name hints, c.hints name = .ok hints → ∀ a ∈ hints, a.2.isWritable = true

/-- A type has a public field that declares a single value whose type cannot be a key. -/
def Unkeyed (c : Catalogue) (t : TypeRef) : Prop :=
  ∃ name hints a, t = .record name ∧ c.hints name = .ok hints ∧ a ∈ hints ∧ isPublic a = true ∧
    a.2.Unkeyed

theorem hints_ok {c : Catalogue} (hc : c.Readable) (name : String) :
    ∃ hints, c.hints name = .ok hints := by
  unfold Catalogue.hints
  dsimp only
  split
  · rename_i f hbroken
    exact absurd hbroken (hc.not_broken name f)
  · exact ⟨_, rfl⟩
  · exact ⟨_, rfl⟩

/-- Where all texts in hints can be read, a table cannot be made exactly if the type has a hint that
cannot be a key. -/
theorem table_eq_error {c : Catalogue} (hc : c.Readable) {t : TypeRef} {f : Fault} :
    c.table t = .error f ↔ f = .badType ∧ c.Unkeyed t := by
  rw [Catalogue.table, Outcome.map_eq_error]
  unfold Catalogue.fields
  split
  · rename_i name
    obtain ⟨hints, hhints⟩ := hints_ok hc name
    rw [hhints]
    dsimp only
    constructor
    · intro h
      obtain ⟨a, hmem, ha⟩ := Outcome.exists_of_mapM_eq_error h
      obtain ⟨hmem, hpublic⟩ := List.mem_filter.mp hmem
      obtain ⟨hf, hunkeyed⟩ := Field.ofHint_eq_error.mp ha
      exact ⟨hf, name, hints, a, rfl, hhints, hmem, hpublic, hunkeyed⟩
    · rintro ⟨rfl, name', hints', a, hname, hhints', hmem, hpublic, hunkeyed⟩
      obtain rfl : name = name' := by simpa using hname
      obtain rfl : hints = hints' := by simpa [hhints] using hhints'
      refine Outcome.mapM_eq_error_of_mem (List.mem_filter.mpr ⟨hmem, hpublic⟩)
        (Field.ofHint_eq_error.mpr ⟨rfl, hunkeyed⟩) ?_
      intro b f hb
      exact (Field.ofHint_eq_error.mp hb).1
  · rename_i name
    refine iff_of_false (by split <;> simp) ?_
    rintro ⟨-, name', -, -, hname, -⟩
    cases hname
  · rename_i hrecord _
    refine iff_of_false (by simp) ?_
    rintro ⟨-, name, -, -, hname, -⟩
    exact hrecord name hname

end Catalogue
end PageQuery
