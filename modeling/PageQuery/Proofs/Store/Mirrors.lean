import Mathlib
import PageQuery.Proofs.Predicate.Testing
import PageQuery.Proofs.Store.Places

/-!
# Mirrors of rows

The mirror of a row is a record in memory with the same attributes: the values of its columns, mirrors
of the rows that single relations lead to, and lists of mirrors for the other relations.  Models refer
to each other in circles, so mirrors are nested to a depth.  A path that is no longer than that finds in
a mirror what it finds in the store.
-/

namespace PageQuery

namespace Store

variable {s : Store} {m m' target : Model} {name : String} {f : ModelField}

/-- What a record that mirrors a row has for a field; `nested` mirrors related rows. -/
def mirrored (s : Store) (nested : Model → Row → Value) (r : Row) (name : String)
    (f : ModelField) : Value :=
  match f with
  | .column type _ _ =>
    match r.value s.zoned name type with
    | .ok v => v
    | .error _ => .none
  | f =>
    match f.target?.bind s.model? with
    | none => .none
    | some target =>
      let records := (s.related r name f).map (nested target)
      if f.isSingle then records.headD .none else .list records

/-- The record that mirrors a row of a model, with related rows nested up to a depth. -/
def mirror (s : Store) : Nat → Model → Row → Value
  | 0, _, _ => .none
  | depth + 1, m, r =>
    .record (.own r.key.toNat) m.name
      (m.fields.map fun f => (f.1, s.mirrored (s.mirror depth) r f.1 f.2))

theorem lookup_map {α β : Type} (g : String → α → β) (entries : List (String × α)) (name : String) :
    (entries.map fun e => (e.1, g e.1 e.2)).lookup name = (entries.lookup name).map (g name) := by
  induction entries with
  | nil => rfl
  | cons e entries ih =>
      rw [List.map_cons, List.lookup_cons, List.lookup_cons, ih]
      split
      · rename_i heq
        rw [beq_iff_eq.mp heq]
        rfl
      · rfl

theorem readAttribute_mirror (hfield : m.field? name = some f) (depth : ℕ) (r : Row) :
    (s.mirror (depth + 1) m r).readAttribute name = s.mirrored (s.mirror depth) r name f := by
  rw [mirror, Value.readAttribute, lookup_map (fun name f => s.mirrored (s.mirror depth) r name f),
    ← Model.field?, hfield]
  rfl

theorem mirrored_relation (htarget : f.target?.bind s.model? = some target)
    (nested : Model → Row → Value) (r : Row) :
    s.mirrored nested r name f =
      if f.isSingle then ((s.related r name f).head?.map (nested target)).getD .none
      else .list ((s.related r name f).map (nested target)) := by
  cases f with
  | column => simp [ModelField.target?] at htarget
  | _ => simp only [mirrored, htarget, List.headD_eq_head?_getD, List.head?_map]

/-- Single relations lead in a mirror to the mirror of the row that they lead to. -/
theorem Leads.follow_mirror {names : List String} (h : s.Leads m names m') {depth : ℕ}
    (hdepth : names.length ≤ depth) (r : Row) :
    (s.mirror depth m r).follow names =
      ((s.ahead m r names).map (s.mirror (depth - names.length) m')).getD .none := by
  induction h generalizing r depth with
  | nil => rfl
  | @cons m next last name f names hfield hsingle htarget hrest ih =>
      obtain ⟨depth, rfl⟩ : ∃ d, depth = d + 1 := Nat.exists_eq_add_one.mpr (by simp at hdepth; omega)
      rw [List.length_cons, Nat.add_le_add_iff_right] at hdepth
      rw [Value.follow, readAttribute_mirror hfield, mirrored_relation htarget, if_pos hsingle,
        ahead_cons hfield htarget]
      cases (s.related r name f).head? with
      | none => exact Value.follow_none names
      | some t => simpa using ih hdepth t

/-- A mirror has what a reader of a column sees. -/
theorem mirrored_column (hzoned : s.zoned = true) {type : ColumnType} (htype : type ≠ .json)
    (nested : Model → Row → Value) (r : Row) (name : String) (choices : List (Value × Value))
    (default : Value) :
    s.mirrored nested r name (.column type choices default) = type.read (r.cell name) := by
  have hvalue : r.value s.zoned name type = type.decode true (r.cell name) := by
    rw [hzoned]
    cases type with
    | json => exact absurd rfl htype
    | _ => rfl
  rw [mirrored, hvalue]
  rfl

/-- What a column of a type holds in a store, or a missing cell. -/
inductive Holding (s : Store) (type : ColumnType) : Cell → Prop
  | absent : Holding s type .absent
  | column {m : Model} {r : Row} {name : String} {choices : List (Value × Value)} {default : Value}
      (hm : m ∈ s.models) (hr : r ∈ s.rows m.name)
      (hfield : m.field? name = some (.column type choices default)) :
      Holding s type (r.cell name)

theorem Holding.holds {type : ColumnType} {c : Cell} (hc : s.Holding type c) (h : s.Sound) :
    type.Holds c := by
  cases hc with
  | absent => exact .absent type
  | column hm hr hfield => exact h.holds _ hm _ hr _ _ _ _ hfield

theorem Leads.holding_cellAhead {relations : List String} (hm : m ∈ s.models)
    (hleads : s.Leads m relations m') {type : ColumnType} {choices : List (Value × Value)}
    {default : Value} (hfield : m'.field? name = some (.column type choices default)) {r : Row}
    (hr : r ∈ s.rows m.name) : s.Holding type (s.cellAhead m r relations name) := by
  rw [cellAhead]
  cases ht : s.ahead m r relations with
  | none => exact .absent
  | some t => exact .column (hleads.mem_models hm) (hleads.mem_rows hr ht) hfield

theorem Sound.holds_cellAhead (h : s.Sound) {relations : List String} (hm : m ∈ s.models)
    (hleads : s.Leads m relations m') {type : ColumnType} {choices : List (Value × Value)}
    {default : Value} (hfield : m'.field? name = some (.column type choices default)) {r : Row}
    (hr : r ∈ s.rows m.name) : type.Holds (s.cellAhead m r relations name) :=
  (hleads.holding_cellAhead hm hfield hr).holds h

/-- A path that ends at a column finds in a mirror what a reader of the cell sees that it finds in the
store. -/
theorem Leads.follow_column {relations : List String} (hleads : s.Leads m relations m')
    (hzoned : s.zoned = true) {type : ColumnType} {choices : List (Value × Value)} {default : Value}
    (hfield : m'.field? name = some (.column type choices default)) (htype : type ≠ .json) (r : Row)
    {depth : ℕ} (hdepth : relations.length < depth) :
    (s.mirror depth m r).follow (relations ++ [name]) =
      type.read (s.cellAhead m r relations name) := by
  rw [Value.follow_append, hleads.follow_mirror hdepth.le, cellAhead]
  cases ht : s.ahead m r relations with
  | none => exact (type.read_absent).symm
  | some t =>
      obtain ⟨rest, hrest⟩ : ∃ d, depth - relations.length = d + 1 :=
        Nat.exists_eq_add_one.mpr (by omega)
      rw [hrest, Option.map_some, Option.getD_some, Value.follow, Value.follow,
        readAttribute_mirror hfield, mirrored_column hzoned htype]
      rfl

/-- A path that ends at a plain column finds in a mirror the value of the cell. -/
theorem Sound.follow_column (h : s.Sound) {relations : List String} (hm : m ∈ s.models)
    (hleads : s.Leads m relations m') {type : ColumnType} {choices : List (Value × Value)}
    {default : Value} (hfield : m'.field? name = some (.column type choices default))
    (htype : type.isPlain = true) {r : Row} (hr : r ∈ s.rows m.name) {depth : ℕ}
    (hdepth : relations.length < depth) :
    (s.mirror depth m r).follow (relations ++ [name]) =
      type.valueOf (s.cellAhead m r relations name) := by
  have hjson : type ≠ .json := by
    rintro rfl
    cases htype
  rw [hleads.follow_column h.zoned hfield hjson r hdepth,
    (h.holds_cellAhead hm hleads hfield hr).read_eq htype]

/-! ## Rows that may be missing -/

def mirror? (s : Store) (depth : ℕ) (m : Model) (o : Option Row) : Value :=
  (o.map (s.mirror depth m)).getD .none

/-- The cell that single relations and a column lead to from a row that may be missing. -/
def cellAhead? (s : Store) (m : Model) (o : Option Row) (relations : List String)
    (name : String) : Cell :=
  (o.map fun r => s.cellAhead m r relations name).getD .absent

theorem Leads.follow_column? {relations : List String} (hleads : s.Leads m relations m')
    (hzoned : s.zoned = true) {type : ColumnType} {choices : List (Value × Value)} {default : Value}
    (hfield : m'.field? name = some (.column type choices default)) (htype : type ≠ .json)
    (o : Option Row) {depth : ℕ} (hdepth : relations.length < depth) :
    (s.mirror? depth m o).follow (relations ++ [name]) =
      type.read (s.cellAhead? m o relations name) := by
  cases o with
  | none => exact (Value.follow_none _).trans (type.read_absent).symm
  | some r => exact hleads.follow_column hzoned hfield htype r hdepth

theorem Leads.holding_cellAhead? {relations : List String} (hm : m ∈ s.models)
    (hleads : s.Leads m relations m') {type : ColumnType} {choices : List (Value × Value)}
    {default : Value} (hfield : m'.field? name = some (.column type choices default))
    {o : Option Row} (ho : ∀ r ∈ o, r ∈ s.rows m.name) :
    s.Holding type (s.cellAhead? m o relations name) := by
  cases o with
  | none => exact .absent
  | some r => exact hleads.holding_cellAhead hm hfield (ho r rfl)

/-- The rows that a collection behind single relations holds; none where there is no row. -/
def gathered (s : Store) (m : Model) (o : Option Row) (relations : List String) (name : String)
    (f : ModelField) : List Row :=
  ((o.bind fun r => s.ahead m r relations).map fun t => s.related t name f).getD []

theorem mem_rows_of_gathered (htarget : f.target?.bind s.model? = some target) {o : Option Row}
    {relations : List String} {e : Row} (he : e ∈ s.gathered m o relations name f) :
    e ∈ s.rows target.name := by
  rw [gathered] at he
  cases ht : o.bind fun r => s.ahead m r relations with
  | none => simp [ht] at he
  | some t =>
      rw [ht, Option.map_some, Option.getD_some] at he
      obtain ⟨model, hmodel, hmem⟩ := mem_rows_of_related he
      rw [(mem_of_target? htarget).2, Option.some.injEq] at hmodel
      exact hmodel ▸ hmem

/-- A path that ends at a collection finds in a mirror the mirrors of its rows. -/
theorem Leads.elements_mirror? {relations : List String} (hleads : s.Leads m relations m')
    (hfield : m'.field? name = some f) (hmany : f.isSingle = false)
    (htarget : f.target?.bind s.model? = some target) (o : Option Row) {depth : ℕ}
    (hdepth : relations.length < depth) :
    ((s.mirror? depth m o).follow (relations ++ [name])).elements =
      .ok ((s.gathered m o relations name f).map (s.mirror (depth - (relations.length + 1)) target)) := by
  cases o with
  | none => exact congrArg Value.elements (Value.follow_none _)
  | some r =>
      rw [mirror?, Option.map_some, Option.getD_some, Value.follow_append,
        hleads.follow_mirror hdepth.le, gathered, Option.bind_some]
      cases ht : s.ahead m r relations with
      | none => rfl
      | some t =>
          obtain ⟨rest, hrest⟩ : ∃ d, depth - relations.length = d + 1 :=
            Nat.exists_eq_add_one.mpr (by omega)
          rw [hrest, Option.map_some, Option.getD_some, Value.follow, Value.follow,
            readAttribute_mirror hfield, mirrored_relation htarget, hmany,
            if_neg Bool.false_ne_true, ← Nat.sub_sub, hrest, Nat.add_sub_cancel, Option.map_some,
            Option.getD_some]
          cases s.related t name f <;> rfl

end Store
end PageQuery
