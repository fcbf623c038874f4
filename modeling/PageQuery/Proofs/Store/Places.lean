import Mathlib
import PageQuery.Proofs.Store.Cells
import PageQuery.Proofs.Store.Names

/-!
# Places and the rows that they are in

In a sound store every cell is one that its column holds, and every key that refers to a row finds it.
The names of a path then lead to the place that the declarations tell.  A path of single relations leads
from a row to one row at most, and the cell of a place is that of the row that its names lead to, although
the key of a related row is looked for in the row that refers to it.
-/

namespace PageQuery

/-- A store as a database keeps it: moments are in universal time, field names come apart, rows are in
the order of their keys, cells are held by their columns, and keys refer to rows. -/
structure Store.Sound (s : Store) : Prop where
  zoned : s.zoned = true
  zone : s.zone = 0
  separable : ∀ m ∈ s.models, ∀ f ∈ m.fields, isSeparable f.1 = true
  sorted : ∀ model, (s.rows model).Pairwise fun a b => a.key < b.key
  fits : ∀ model, ∀ r ∈ s.rows model, Cell.fits r.key = true
  holds : ∀ m ∈ s.models, ∀ r ∈ s.rows m.name, ∀ name type choices default,
    m.field? name = some (.column type choices default) → type.Holds (r.cell name)
  refers : ∀ m ∈ s.models, ∀ r ∈ s.rows m.name, ∀ name target,
    m.field? name = some (.toOne target) →
      r.cell (keyColumn name) = .absent ∨
        ∃ t ∈ s.rows target, r.cell (keyColumn name) = .whole t.key

namespace Store

variable {s : Store} {m m' target : Model} {name : String} {f : ModelField}

theorem mem_of_model? (h : s.model? name = some m) : m ∈ s.models ∧ m.name = name := by
  rw [model?, List.find?_eq_some_iff_append] at h
  obtain ⟨hname, before, after, hmodels, -⟩ := h
  exact ⟨by simp [hmodels], by simpa using hname⟩

theorem mem_of_target? (h : f.target?.bind s.model? = some target) :
    target ∈ s.models ∧ f.target? = some target.name := by
  obtain ⟨t, ht, htarget⟩ := Option.bind_eq_some_iff.mp h
  obtain ⟨hmem, rfl⟩ := mem_of_model? htarget
  exact ⟨hmem, ht⟩

/-! ## Rows -/

theorem Sound.key_injective (h : s.Sound) {model : String} {a b : Row} (ha : a ∈ s.rows model)
    (hb : b ∈ s.rows model) (hkey : a.key = b.key) : a = b := by
  have hnodup : ((s.rows model).map (·.key)).Nodup :=
    List.pairwise_map.mpr ((h.sorted model).imp fun hlt => hlt.ne)
  exact List.inj_on_of_nodup_map hnodup ha hb hkey

/-- A model has no more rows than there are keys. -/
theorem Sound.length_rows_le (h : s.Sound) (model : String) :
    (s.rows model).length ≤ 2 ^ 64 := by
  have hnodup : ((s.rows model).map (·.key)).Nodup :=
    List.pairwise_map.mpr ((h.sorted model).imp fun hlt => hlt.ne)
  have hsubset : ((s.rows model).map (·.key)).toFinset ⊆ Finset.Ico (-(2 ^ 63)) (2 ^ 63) := by
    intro key hkey
    obtain ⟨r, hr, rfl⟩ := List.mem_map.mp (List.mem_toFinset.mp hkey)
    have hfits := h.fits model r hr
    rw [Cell.fits, Bool.and_eq_true, decide_eq_true_eq, decide_eq_true_eq] at hfits
    exact Finset.mem_Ico.mpr hfits
  have hcard := Finset.card_le_card hsubset
  rw [List.toFinset_card_of_nodup hnodup, List.length_map, Int.card_Ico] at hcard
  exact hcard

/-- A row is found by its key. -/
theorem Sound.row?_key (h : s.Sound) {model : String} {r : Row} (hr : r ∈ s.rows model) :
    s.row? model r.key = some r := by
  rw [row?]
  cases hfound : (s.rows model).find? (·.key == r.key) with
  | none =>
      rw [List.find?_eq_none] at hfound
      exact absurd (beq_self_eq_true r.key) (hfound r hr)
  | some t =>
      have hkey : t.key = r.key := by simpa using List.find?_some hfound
      rw [h.key_injective (List.mem_of_find?_eq_some hfound) hr hkey]

/-- A relation leads to rows of its target. -/
theorem mem_rows_of_related {r t : Row} (h : t ∈ s.related r name f) :
    ∃ model, f.target? = some model ∧ t ∈ s.rows model := by
  cases f with
  | column | toAny => cases h
  | toOne model =>
      simp only [related, Option.mem_toList, Option.bind_eq_some_iff] at h
      obtain ⟨key, -, ht⟩ := h
      exact ⟨model, rfl, List.mem_of_find?_eq_some ht⟩
  | ownerOf model via => exact ⟨model, rfl, List.mem_of_mem_filter (List.mem_of_mem_take h)⟩
  | ownersOf model via | linked model | linkedFrom model via =>
      exact ⟨model, rfl, List.mem_of_mem_filter h⟩

/-- A single relation leads to one row at most. -/
theorem related_of_isSingle (h : f.isSingle = true) (r : Row) :
    s.related r name f = (s.related r name f).head?.toList := by
  cases f with
  | column | ownersOf | linked | linkedFrom => simp [ModelField.isSingle] at h
  | toAny => rfl
  | toOne model =>
      rw [related]
      cases (r.relatedKey? name).bind (s.row? model) <;> rfl
  | ownerOf model via =>
      rw [related]
      cases s.rowsWith model via r.key <;> rfl

/-! ## Paths of single relations -/

/-- Single relations lead from a model to another one. -/
inductive Leads (s : Store) : Model → List String → Model → Prop
  | nil (m : Model) : Leads s m [] m
  | cons {m next last : Model} {name : String} {f : ModelField} {names : List String}
      (hfield : m.field? name = some f) (hsingle : f.isSingle = true)
      (htarget : f.target?.bind s.model? = some next) (hrest : Leads s next names last) :
      Leads s m (name :: names) last

/-- The row that single relations lead to from a row of a model, if there is one. -/
def ahead (s : Store) : Model → Row → List String → Option Row
  | _, r, [] => some r
  | m, r, name :: names =>
    match m.field? name with
    | none => none
    | some f =>
      match f.target?.bind s.model?, (s.related r name f).head? with
      | some next, some t => s.ahead next t names
      | _, _ => none

theorem ahead_cons (hfield : m.field? name = some f)
    (htarget : f.target?.bind s.model? = some target) (r : Row) (names : List String) :
    s.ahead m r (name :: names) =
      (s.related r name f).head?.bind fun t => s.ahead target t names := by
  rw [ahead, hfield]
  dsimp only
  rw [htarget]
  cases (s.related r name f).head? <;> rfl

theorem Leads.mem_models {names : List String} (h : s.Leads m names m') (hm : m ∈ s.models) :
    m' ∈ s.models := by
  induction h with
  | nil => exact hm
  | cons _ _ htarget _ ih => exact ih (mem_of_target? htarget).1

theorem Leads.modelAt {names : List String} (h : s.Leads m names m') :
    s.modelAt (some m) names = some m' := by
  induction h with
  | nil => rfl
  | cons hfield hsingle htarget _ ih =>
      rw [Store.modelAt, List.foldl_cons, Option.bind_some, hfield, Option.bind_some, htarget]
      exact ih

theorem Leads.append {names rest : List String} {last : Model} (h : s.Leads m names m')
    (hrest : s.Leads m' rest last) : s.Leads m (names ++ rest) last := by
  induction h with
  | nil => exact hrest
  | cons hfield hsingle htarget _ ih => exact .cons hfield hsingle htarget (ih hrest)

theorem Leads.split {names rest : List String} {last : Model} (h : s.Leads m (names ++ rest) last) :
    ∃ middle, s.Leads m names middle ∧ s.Leads middle rest last := by
  induction names generalizing m with
  | nil => exact ⟨m, .nil m, h⟩
  | cons name names ih =>
      cases h with
      | cons hfield hsingle htarget hrest =>
          obtain ⟨middle, hnames, hlast⟩ := ih hrest
          exact ⟨middle, .cons hfield hsingle htarget hnames, hlast⟩

/-- The last step of a path of single relations. -/
theorem Leads.last_step {names : List String} {last : Model}
    (h : s.Leads m (names ++ [name]) last) :
    ∃ middle f, s.Leads m names middle ∧ middle.field? name = some f ∧ f.isSingle = true ∧
      f.target?.bind s.model? = some last := by
  obtain ⟨middle, hnames, hlast⟩ := h.split
  cases hlast with
  | cons hfield hsingle htarget hrest =>
      cases hrest
      exact ⟨middle, _, hnames, hfield, hsingle, htarget⟩

theorem Leads.ahead_append {names : List String} (h : s.Leads m names m') (r : Row)
    (rest : List String) :
    s.ahead m r (names ++ rest) = (s.ahead m r names).bind fun t => s.ahead m' t rest := by
  induction h generalizing r with
  | nil => rfl
  | cons hfield hsingle htarget _ ih =>
      rw [List.cons_append, ahead_cons hfield htarget, ahead_cons hfield htarget,
        Option.bind_assoc]
      exact congrArg _ (funext fun t => ih t)

theorem Leads.ahead_concat {names : List String} (h : s.Leads m names m')
    (hfield : m'.field? name = some f) (htarget : f.target?.bind s.model? = some target) (r : Row) :
    s.ahead m r (names ++ [name]) =
      (s.ahead m r names).bind fun t => (s.related t name f).head? := by
  rw [h.ahead_append]
  apply congrArg
  funext t
  rw [ahead_cons hfield htarget]
  cases (s.related t name f).head? <;> rfl

/-- Single relations lead to rows of the last model. -/
theorem Leads.mem_rows {names : List String} (h : s.Leads m names m') {r t : Row}
    (hr : r ∈ s.rows m.name) (ht : s.ahead m r names = some t) : t ∈ s.rows m'.name := by
  induction h generalizing r with
  | nil => exact Option.some.inj ht ▸ hr
  | cons hfield hsingle htarget _ ih =>
      rw [ahead_cons hfield htarget] at ht
      obtain ⟨next, hnext, ht⟩ := Option.bind_eq_some_iff.mp ht
      obtain ⟨model, hmodel, hmem⟩ := mem_rows_of_related (List.mem_of_head? hnext)
      rw [(mem_of_target? htarget).2, Option.some.injEq] at hmodel
      exact ih (hmodel ▸ hmem) ht

/-! ## Where names lead -/

/-- The cell that single relations and a column lead to; nothing if there is no such row. -/
def cellAhead (s : Store) (m : Model) (r : Row) (relations : List String) (name : String) : Cell :=
  ((s.ahead m r relations).map (·.cell name)).getD .absent

theorem mem_of_field? (h : m.field? name = some f) : (name, f) ∈ m.fields := by
  rw [Model.field?, List.lookup_eq_some_iff] at h
  obtain ⟨before, after, hfields, -⟩ := h
  simp [hfields]

theorem Sound.separable_field (h : s.Sound) (hm : m ∈ s.models) (hfield : m.field? name = some f) :
    isSeparable name = true :=
  h.separable m hm _ (mem_of_field? hfield)

theorem Sound.denoted? (h : s.Sound) (hm : m ∈ s.models) (hfield : m.field? name = some f) :
    m.denoted? name = some (name, f) := by
  have hname := (isSeparable_iff.mp (h.separable_field hm hfield)).2.2.2
  rw [Model.denoted?, if_neg hname, hfield]

theorem Sound.place_column (h : s.Sound) (hm : m ∈ s.models) {type : ColumnType}
    {choices : List (Value × Value)} {default : Value}
    (hfield : m.field? name = some (.column type choices default)) (rest : List String) :
    s.place m (name :: rest) = .ok ⟨[], name, type, rest⟩ := by
  rw [place, h.denoted? hm hfield]

theorem Sound.place_relation (h : s.Sound) (hm : m ∈ s.models) (hfield : m.field? name = some f)
    (htarget : f.target?.bind s.model? = some target) {next : String} {g : ModelField}
    (hnext : target.field? next = some g) (rest : List String) :
    s.place m (name :: next :: rest) =
      (s.place target (next :: rest)).map (Place.through name f) := by
  have hthere : ((next :: rest).head?.bind target.denoted?).isSome = true := by
    rw [List.head?_cons, Option.bind_some, h.denoted? (mem_of_target? htarget).1 hnext]
    rfl
  rw [place, h.denoted? hm hfield]
  cases f with
  | column => simp [ModelField.target?] at htarget
  | _ =>
      dsimp only
      rw [htarget]
      dsimp only
      rw [if_pos hthere]

/-- The first name of a path is that of a field. -/
theorem Leads.exists_field {relations : List String} (h : s.Leads m relations m')
    (hfield : m'.field? name = some f) (rest : List String) :
    ∃ word words g, relations ++ name :: rest = word :: words ∧ m.field? word = some g := by
  cases h with
  | nil => exact ⟨name, rest, f, rfl, hfield⟩
  | cons hword => exact ⟨_, _, _, rfl, hword⟩

theorem cellAhead_cons (hfield : m.field? name = some f)
    (htarget : f.target?.bind s.model? = some target) (r : Row) (names : List String)
    (column : String) :
    s.cellAhead m r (name :: names) column =
      ((s.related r name f).head?.map fun t => s.cellAhead target t names column).getD .absent := by
  rw [cellAhead, ahead_cons hfield htarget]
  cases (s.related r name f).head? <;> rfl

/-- A row that refers to another one holds the key of the row that it leads to. -/
theorem Sound.cell_keyColumn (h : s.Sound) (hm : m ∈ s.models) {r : Row} (hr : r ∈ s.rows m.name)
    {model : String} (hfield : m.field? name = some (.toOne model)) :
    r.cell (keyColumn name) =
      ((s.related r name (.toOne model)).head?.map fun t => .whole t.key).getD .absent := by
  rcases h.refers m hm r hr name model hfield with habsent | ⟨t, ht, hkey⟩
  · simp [related, Row.relatedKey?, habsent, Cell.whole?]
  · simp [related, Row.relatedKey?, hkey, Cell.whole?, h.row?_key ht]

/-- The names of single relations and a column lead to a place.  The key of the last row may be looked
for in the row before it, where the same cell is found. -/
theorem Sound.place_ahead (h : s.Sound) {relations : List String} (hm : m ∈ s.models)
    (hleads : s.Leads m relations m') {type : ColumnType} {choices : List (Value × Value)}
    {default : Value} (hfield : m'.field? name = some (.column type choices default)) :
    ∃ before column last, s.Leads m before last ∧
      (∀ rest, s.place m (relations ++ name :: rest) = .ok ⟨before, column, type, rest⟩) ∧
      ∀ r ∈ s.rows m.name, s.cellAhead m r before column = s.cellAhead m r relations name := by
  induction hleads with
  | nil m => exact ⟨[], name, m, .nil m, h.place_column hm hfield, fun r hr => rfl⟩
  | @cons m next last relation f relations hrelation hsingle htarget hrest ih =>
      obtain ⟨before, column, last', hbefore, hplace, hcell⟩ := ih (mem_of_target? htarget).1 hfield
      have hstep (rest : List String) : s.place m ((relation :: relations) ++ name :: rest) =
          .ok (Place.through relation f ⟨before, column, type, rest⟩) := by
        obtain ⟨word, words, g, hwords, hword⟩ := hrest.exists_field hfield rest
        rw [List.cons_append, hwords, h.place_relation hm hrelation htarget hword, ← hwords, hplace]
        rfl
      have hcells (r : Row) :
          (s.related r relation f).head?.map (fun t => s.cellAhead next t before column) =
            (s.related r relation f).head?.map fun t => s.cellAhead next t relations name := by
        refine Option.map_congr fun t ht => ?_
        obtain ⟨model, hmodel, hmem⟩ := mem_rows_of_related (List.mem_of_head? ht)
        rw [(mem_of_target? htarget).2, Option.some.injEq] at hmodel
        exact hcell t (hmodel ▸ hmem)
      by_cases hshort : ∃ t, f = .toOne t ∧ before = [] ∧ column = "id"
      · obtain ⟨t, rfl, rfl, rfl⟩ := hshort
        refine ⟨[], keyColumn relation, m, .nil m, fun rest => ?_, fun r hr => ?_⟩
        · rw [hstep]
          rfl
        · rw [cellAhead_cons hrelation htarget, ← hcells]
          exact h.cell_keyColumn hm hr hrelation
      · refine ⟨relation :: before, column, last', .cons hrelation hsingle htarget hbefore,
          fun rest => ?_, fun r hr => ?_⟩
        · rw [hstep]
          cases f with
          | toOne t =>
              rw [Place.through, if_neg]
              intro hboth
              rw [Bool.and_eq_true, List.isEmpty_iff, decide_eq_true_eq] at hboth
              exact hshort ⟨t, rfl, hboth.1, hboth.2⟩
          | _ => rfl
        · rw [cellAhead_cons hrelation htarget, cellAhead_cons hrelation htarget, hcells]

/-- Names behind a collection lead from its target, whose place is seen from the other end. -/
theorem Sound.place_through (h : s.Sound) {relations : List String} (hm : m ∈ s.models)
    (hleads : s.Leads m relations m') (hfield : m'.field? name = some f)
    (hmany : f.isSingle = false) (htarget : f.target?.bind s.model? = some target)
    {next : String} {g : ModelField} (hnext : target.field? next = some g) {rest : List String}
    {p : Place} (hplace : s.place target (next :: rest) = .ok p) :
    s.place m (relations ++ name :: next :: rest) =
      .ok { p with relations := relations ++ name :: p.relations } := by
  induction hleads with
  | nil m =>
      rw [List.nil_append, h.place_relation hm hfield htarget hnext, hplace]
      cases f with
      | toOne => simp [ModelField.isSingle] at hmany
      | _ => rfl
  | @cons m middle last relation f' relations hrelation hsingle htarget' hrest ih =>
      have hstep := ih (mem_of_target? htarget').1 hfield
      obtain ⟨word, words, g, hwords, hword⟩ := hrest.exists_field hfield (next :: rest)
      rw [hwords] at hstep
      rw [List.cons_append, hwords, h.place_relation hm hrelation htarget' hword, hstep]
      cases f' with
      | toOne => simp [Place.through, Except.map]
      | _ => rfl

/-- Where the tests of a predicate are rooted: at the selected row itself, or at the elements of a
collection that single relations lead to from another base. -/
inductive Base (s : Store) (root : Model) : List String → Model → Prop
  | row : Base s root [] root
  | elements {path relations : List String} {base owner target : Model} {name : String}
      {f : ModelField} (hbase : Base s root path base) (hleads : s.Leads base relations owner)
      (hfield : owner.field? name = some f) (hmany : f.isSingle = false)
      (htarget : f.target?.bind s.model? = some target) :
      Base s root (path ++ (relations ++ [name])) target

theorem Base.mem_models {root : Model} {path : List String} (h : s.Base root path m)
    (hroot : root ∈ s.models) : m ∈ s.models := by
  cases h with
  | row => exact hroot
  | elements _ _ _ _ htarget => exact (mem_of_target? htarget).1

theorem Sound.separable_leads (h : s.Sound) {names : List String} (hm : m ∈ s.models)
    (hleads : s.Leads m names m') : ∀ word ∈ names, isSeparable word = true := by
  induction hleads with
  | nil => nofun
  | cons hfield _ htarget _ ih =>
      exact List.forall_mem_cons.mpr
        ⟨h.separable_field hm hfield, ih (mem_of_target? htarget).1⟩

theorem Sound.separable_path (h : s.Sound) {relations : List String} (hm : m ∈ s.models)
    (hleads : s.Leads m relations m') (hfield : m'.field? name = some f) :
    ∀ word ∈ relations ++ [name], isSeparable word = true := by
  rw [List.forall_mem_append, List.forall_mem_singleton]
  exact ⟨h.separable_leads hm hleads, h.separable_field (hleads.mem_models hm) hfield⟩

theorem Sound.separable_base (h : s.Sound) {root base : Model} {path : List String}
    (hroot : root ∈ s.models) (hbase : s.Base root path base) :
    ∀ word ∈ path, isSeparable word = true := by
  induction hbase with
  | row => nofun
  | elements hbase hleads hfield _ _ ih =>
      rw [List.forall_mem_append]
      exact ⟨ih, h.separable_path (hbase.mem_models hroot) hleads hfield⟩

/-- Names behind a base lead from it to a place that is seen from the root along the path of the base,
as a path that ends at a collection is never shortened. -/
theorem Sound.place_behind (h : s.Sound) {root base : Model} {path : List String}
    (hroot : root ∈ s.models) (hbase : s.Base root path base) {next : String} {g : ModelField}
    (hnext : base.field? next = some g) {rest : List String} {p : Place}
    (hplace : s.place base (next :: rest) = .ok p) :
    s.place root (path ++ next :: rest) = .ok { p with relations := path ++ p.relations } := by
  induction hbase generalizing next g rest p with
  | row => exact hplace
  | @elements path relations base owner target name f hbase hleads hfield hmany htarget ih =>
      have hthrough := h.place_through (hbase.mem_models hroot) hleads hfield hmany htarget hnext
        hplace
      obtain ⟨word, words, g, hwords, hword⟩ := hleads.exists_field hfield (next :: rest)
      rw [hwords] at hthrough
      have hstep := ih hword hthrough
      rw [← hwords] at hstep
      simpa using hstep

/-- The names of a column behind a base lead to a place whose cell, in the row that its relations lead
to from the base, is the one that the names lead to. -/
theorem Sound.place_base (h : s.Sound) {root base : Model} {path relations : List String}
    (hroot : root ∈ s.models) (hbase : s.Base root path base) (hleads : s.Leads base relations m)
    {type : ColumnType} {choices : List (Value × Value)} {default : Value}
    (hfield : m.field? name = some (.column type choices default)) :
    ∃ before column last, s.Leads base before last ∧
      (∀ rest, s.place root (path ++ (relations ++ [name]) ++ rest) =
        .ok ⟨path ++ before, column, type, rest⟩) ∧
      ∀ r ∈ s.rows base.name,
        s.cellAhead base r before column = s.cellAhead base r relations name := by
  obtain ⟨before, column, last, hbefore, hplace, hcell⟩ :=
    h.place_ahead (hbase.mem_models hroot) hleads hfield
  refine ⟨before, column, last, hbefore, fun rest => ?_, hcell⟩
  have hplace := hplace rest
  obtain ⟨word, words, g, hwords, hword⟩ := hleads.exists_field hfield rest
  rw [hwords] at hplace
  simpa [← hwords] using h.place_behind hroot hbase hword hplace

/-! ## Stores that are seen to be sound -/

/-- Whether a row is seen to be sound: its columns hold their cells, and the keys in it find rows. -/
def isSoundRow (s : Store) (m : Model) (r : Row) : Bool :=
  m.fields.all fun f =>
    match f.2 with
    | .column type _ _ => type.holds (r.cell f.1)
    | .toOne target => (r.cell (keyColumn f.1)).isAbsent ||
        (s.rows target).any fun t => r.cell (keyColumn f.1) == .whole t.key
    | _ => true

def isSound (s : Store) : Bool :=
  s.zoned && s.zone == 0 && (s.models.all fun m => m.fields.all fun f => isSeparable f.1) &&
    (s.tables.all fun t =>
      decide (t.2.Pairwise fun a b => a.key < b.key) && t.2.all fun r => Cell.fits r.key) &&
    s.models.all fun m => (s.rows m.name).all (s.isSoundRow m)

theorem rows_eq_nil_or_mem (s : Store) (model : String) :
    s.rows model = [] ∨ (model, s.rows model) ∈ s.tables := by
  rw [rows]
  cases hlookup : s.tables.lookup model with
  | none => exact .inl rfl
  | some rs =>
      obtain ⟨before, after, htables, -⟩ := List.lookup_eq_some_iff.mp hlookup
      exact .inr (by simp [htables])

theorem sound_of_isSound (h : s.isSound = true) : s.Sound := by
  simp only [isSound, isSoundRow, Bool.and_eq_true, List.all_eq_true, decide_eq_true_eq,
    beq_iff_eq] at h
  obtain ⟨⟨⟨⟨hzoned, hzone⟩, hseparable⟩, htables⟩, hrows⟩ := h
  refine ⟨hzoned, hzone, hseparable, fun model => ?_, fun model r hr => ?_, ?_, ?_⟩
  · rcases s.rows_eq_nil_or_mem model with hnil | hmem
    · rw [hnil]
      exact .nil
    · exact (htables _ hmem).1
  · rcases s.rows_eq_nil_or_mem model with hnil | hmem
    · rw [hnil] at hr
      cases hr
    · exact (htables _ hmem).2 r hr
  · intro m hm r hr name type choices default hfield
    exact .of_holds (hrows m hm r hr _ (mem_of_field? hfield))
  · intro m hm r hr name target hfield
    have hkey := hrows m hm r hr _ (mem_of_field? hfield)
    simpa [Cell.isAbsent] using hkey

end Store
end PageQuery
