import Mathlib
import PageQuery.Proofs.Store.Sorting

/-!
# Selected rows

Outside of searches a lowered predicate follows single relations only, and so do sort keys.  Each row of
the model then has exactly one binding, so it is selected once or not at all, and the rows that are
selected are those that pass, in the order of the keys.
-/

namespace PageQuery

/-! ## Paths of settled conditions -/

namespace Formula

variable {zoned : Bool} {paths : List (List String)} {fs : List (Formula Test)}
  {gs : List (Formula Check)}

/-- What is left of formulas joined by `and` is what is left of each of them. -/
theorem exists_of_settleAll (h : settleAll zoned paths fs = .ok (some gs)) :
    ∀ g ∈ gs, ∃ f ∈ fs, f.settle zoned paths = .ok (.depends g) := by
  induction fs generalizing gs with
  | nil =>
      cases h
      nofun
  | cons f fs ih =>
      rw [settleAll] at h
      split at h
      · cases h
      · cases h
      · intro g hg
        obtain ⟨f', hf', hsettle⟩ := ih h g hg
        exact ⟨f', List.mem_cons_of_mem _ hf', hsettle⟩
      · rename_i g hsettle
        obtain ⟨rest, hrest, hmap⟩ := Outcome.map_eq_ok.mp h
        obtain ⟨gs', rfl, rfl⟩ := Option.map_eq_some_iff.mp hmap
        refine List.forall_mem_cons.mpr ⟨⟨f, List.mem_cons_self, hsettle⟩, fun g' hg' => ?_⟩
        obtain ⟨f', hf', hsettle'⟩ := ih hrest g' hg'
        exact ⟨f', List.mem_cons_of_mem _ hf', hsettle'⟩

/-- What is left of formulas joined by `or` is what is left of some of them. -/
theorem exists_of_settleSome (h : settleSome zoned paths fs = .ok (some gs)) :
    ∀ g ∈ gs, ∃ f ∈ fs, f.settle zoned paths = .ok (.depends g) := by
  induction fs generalizing gs with
  | nil =>
      cases h
      nofun
  | cons f fs ih =>
      rw [settleSome] at h
      split at h
      · cases h
      · cases h
      · intro g hg
        obtain ⟨f', hf', hsettle⟩ := ih h g hg
        exact ⟨f', List.mem_cons_of_mem _ hf', hsettle⟩
      · rename_i g hsettle
        obtain ⟨rest, hrest, hmap⟩ := Outcome.map_eq_ok.mp h
        obtain ⟨gs', rfl, rfl⟩ := Option.map_eq_some_iff.mp hmap
        refine List.forall_mem_cons.mpr ⟨⟨f, List.mem_cons_self, hsettle⟩, fun g' hg' => ?_⟩
        obtain ⟨f', hf', hsettle'⟩ := ih hrest g' hg'
        exact ⟨f', List.mem_cons_of_mem _ hf', hsettle'⟩

end Formula

namespace Store

/-- What is settled is checked along paths of the tests that it was settled from. -/
theorem checkPaths_of_settle {zoned : Bool} {paths : List (List String)} {f : Formula Test}
    {g : Formula Check} (h : f.settle zoned paths = .ok (.depends g)) :
    checkPaths g ⊆ relationPaths f := by
  induction f using Formula.induct generalizing g with
  | test t =>
      rw [Formula.settle] at h
      split at h
      · cases h
      · cases h
      · split at h
        · cases h
          exact List.Subset.refl _
        · cases h
      · cases h
        exact List.Subset.refl _
  | keyAmong model inner =>
      rw [Formula.settle] at h
      split at h
      · cases h
      · cases h
      · cases h
        exact List.nil_subset _
      · cases h
        exact List.nil_subset _
  | group connective items ih =>
      obtain ⟨gs, rfl, hgs⟩ : ∃ gs, g = .group connective gs ∧
          ∀ g' ∈ gs, ∃ f ∈ items, f.settle zoned paths = .ok (.depends g') := by
        cases connective with
        | and =>
            rw [Formula.settle] at h
            split at h
            · cases h
            · cases h
            · cases h
            · rename_i hgs
              cases h
              exact ⟨_, rfl, Formula.exists_of_settleAll hgs⟩
        | or =>
            rw [Formula.settle] at h
            split at h
            · cases h
            · cases h
            · split at h <;> cases h
            · rename_i hgs
              cases h
              exact ⟨_, rfl, Formula.exists_of_settleSome hgs⟩
      rw [checkPaths, checkPathsOf_eq, relationPaths, relationPathsOf_eq]
      intro path hpath
      obtain ⟨g', hg', hpath⟩ := List.mem_flatMap.mp hpath
      obtain ⟨f, hf, hsettle⟩ := hgs g' hg'
      exact List.mem_flatMap.mpr ⟨f, hf, ih f hf hsettle hpath⟩

end Store

/-! ## Keys and columns -/

section Columns

variable {s : Store} {root : Model} {keys : List SortKey} {q : Query}

/-- A column of an order holds, behind single relations, the cells that a key leads to. -/
structure SortKey.Column (s : Store) (root : Model) (k : SortKey) (o : Store.OrderColumn) :
    Prop where
  leads : ∃ last, s.Leads root o.relations last
  parts : o.parts = []
  descending : o.descending = k.descending
  cell : ∀ r ∈ s.rows root.name, s.cellAhead root r o.relations o.column = k.cell s root r

theorem SortKey.LeadsTo.orderNames {k : SortKey} {type : ColumnType} (hk : k.LeadsTo s root type)
    (h : s.Sound) (hroot : root ∈ s.models) : Query.orderNames k = (k.field, k.descending) := by
  obtain ⟨relations, name, owner, choices, default, hleads, hfield, -, hproperty, hnames⟩ := hk
  obtain ⟨property, descending⟩ := k
  obtain rfl : property = _ := hproperty
  rw [hnames]
  exact Query.orderNames_eq (by simp) (h.separable_path hroot hleads hfield) descending

theorem SortKey.LeadsTo.exists_orderPlace {k : SortKey} {type : ColumnType}
    (hk : k.LeadsTo q.store root type) (h : q.store.Sound) (hroot : q.model? = some root) :
    ∃ p last, q.orderPlace k.field = .ok p ∧ p.rest = [] ∧ q.store.Leads root p.relations last ∧
      ∀ r ∈ q.store.rows root.name,
        q.store.cellAhead root r p.relations p.column = k.cell q.store root r := by
  obtain ⟨relations, name, owner, choices, default, hleads, hfield, -, -, hnames⟩ := hk
  obtain ⟨before, column, last, hbefore, hplace, hcell⟩ :=
    h.place_ahead (Store.mem_of_model? hroot).1 hleads hfield
  refine ⟨⟨before, column, type, []⟩, last, ?_, rfl, hbefore, fun r hr => ?_⟩
  · rw [Query.orderPlace, hroot, hnames]
    exact hplace []
  · simpa [SortKey.cell, hnames] using hcell r hr

theorem map_eq_of_forall₂ {α β γ : Type} {R : α → β → Prop} {f : α → γ} {g : β → γ} {xs : List α}
    {ys : List β} (h : List.Forall₂ R xs ys) (hR : ∀ x, ∀ y ∈ ys, R x y → g y = f x) :
    ys.map g = xs.map f := by
  induction h with
  | nil => rfl
  | cons hxy _ ih =>
      rw [List.map_cons, List.map_cons, hR _ _ List.mem_cons_self hxy,
        ih fun x y hy => hR x y (List.mem_cons_of_mem _ hy)]

/-- A query is ordered by the names of keys that lead to columns. -/
theorem Query.orderBy_eq (h : q.store.Sound) (hroot : q.model? = some root)
    (hkeys : ∀ k ∈ keys, ∃ type, k.LeadsTo q.store root type) :
    q.orderBy keys = .ok { q with order := keys.map fun k => (k.field, k.descending) } := by
  have hnames : keys.map orderNames = keys.map fun k => (k.field, k.descending) := by
    apply List.map_congr_left
    intro k hk
    obtain ⟨type, hleads⟩ := hkeys k hk
    exact hleads.orderNames h (Store.mem_of_model? hroot).1
  have hplaces : ∃ ps, (keys.map fun k => (k.field, k.descending)).mapM
      (fun o => q.orderPlace o.1) = .ok ps := by
    obtain ⟨ps, hps⟩ := exists_forall₂ (R := fun k p => q.orderPlace (SortKey.field k) = .ok p)
      fun k hk => by
        obtain ⟨type, hleads⟩ := hkeys k hk
        obtain ⟨p, -, hp, -⟩ := hleads.exists_orderPlace h hroot
        exact ⟨p, hp⟩
    exact ⟨ps, Outcome.mapM_eq_ok.mpr (List.forall₂_map_left_iff.mpr hps)⟩
  obtain ⟨ps, hps⟩ := hplaces
  simp only [orderBy, hnames, hps]
  rfl

/-- The columns that an ordered query is sorted by hold the cells that its keys lead to. -/
theorem Query.exists_orderColumns (h : q.store.Sound) (hroot : q.model? = some root)
    (hkeys : ∀ k ∈ keys, ∃ type, k.LeadsTo q.store root type)
    (horder : q.order = keys.map fun k => (k.field, k.descending)) :
    ∃ columns, q.orderColumns = .ok columns ∧
      List.Forall₂ (SortKey.Column q.store root) keys columns := by
  have hcolumns : ∃ columns, List.Forall₂ (fun k o => SortKey.Column q.store root k o ∧
      ∃ p, q.orderPlace k.field = .ok p ∧ p.rest = [] ∧
        o = ⟨p.relations, p.column, [], k.descending⟩) keys columns := by
    apply exists_forall₂
    intro k hk
    obtain ⟨type, hleads⟩ := hkeys k hk
    obtain ⟨p, last, hp, hrest, hbefore, hcell⟩ := hleads.exists_orderPlace h hroot
    exact ⟨_, ⟨⟨last, hbefore⟩, rfl, rfl, hcell⟩, p, hp, hrest, rfl⟩
  obtain ⟨columns, hcolumns⟩ := hcolumns
  refine ⟨columns, ?_, hcolumns.imp fun _ _ h => h.1⟩
  rw [orderColumns, horder]
  apply Outcome.mapM_eq_ok.mpr
  rw [List.forall₂_map_left_iff]
  refine hcolumns.imp fun k o h => ?_
  obtain ⟨-, p, hp, hrest, rfl⟩ := h
  dsimp only
  rw [hp]
  dsimp only
  rw [hrest]
  rfl

end Columns

/-! ## Selecting -/

namespace Store

variable {s : Store} {root : Model} {keys : List SortKey} {columns : List OrderColumn}

/-- Paths of single relations from a model. -/
def Forward (s : Store) (root : Model) (paths : List (List String)) : Prop :=
  ∀ path ∈ paths, ∃ last, s.Leads root path last

theorem Leads.forward_stages {path : List String} {last : Model} (h : s.Leads root path last) :
    s.Forward root (stages path) := by
  intro p hp
  obtain ⟨rest, rfl⟩ := (mem_stages.mp hp).2
  obtain ⟨middle, hmiddle, -⟩ := h.split
  exact ⟨middle, hmiddle⟩

/-- Along paths of single relations a row has one binding, which gives the rows that they lead to. -/
theorem Forward.exists_bindings {paths : List (List String)} (h : s.Forward root paths)
    (hrooted : Rooted paths) (r : Row) :
    ∃ b, s.bindings (some root) r paths = [b] ∧ Chooses r (s.ahead root r) paths b := by
  apply exists_bindings_eq hrooted rfl
  intro path hpath
  obtain ⟨last, hlast⟩ := h path hpath
  have hne : path ≠ [] := fun hnil => hrooted.ne_nil (hnil ▸ hpath)
  obtain ⟨names, name, rfl⟩ := (List.eq_nil_or_concat path).resolve_left hne
  rw [List.concat_eq_append] at hlast ⊢
  rw [List.dropLast_concat]
  exact nexts_base .row hlast (some r)

/-- What a row is sorted by when it is selected. -/
def Selected.ofRow (s : Store) (root : Model) (keys : List SortKey) (r : Row) : Selected :=
  ⟨r, keys.map (·.cell s root r)⟩

theorem cellAt_column {k : SortKey} {o : OrderColumn} (ho : SortKey.Column s root k o)
    {paths : List (List String)} (hstages : stages o.relations ⊆ paths) {r : Row}
    (hr : r ∈ s.rows root.name) {b : Binding} (hb : Chooses r (s.ahead root r) paths b) :
    (s.cellAt b o.relations o.column o.parts).getD .absent = k.cell s root r := by
  have hpath : o.relations = [] ∨ o.relations ∈ paths := by
    by_cases hnil : o.relations = []
    · exact .inl hnil
    · exact .inr (hstages (mem_stages.mpr ⟨hnil, List.prefix_rfl⟩))
  have hrow : (b.lookup o.relations).getD none = s.ahead root r o.relations :=
    hb.parent rfl hpath
  rw [Store.cellAt, hrow, ho.parts, ← ho.cell r hr]
  rfl

theorem flatMap_ite {α β : Type} (xs : List α) (test : α → Bool) (f : α → β) :
    (xs.flatMap fun x => if test x then [f x] else []) = (xs.filter test).map f := by
  induction xs with
  | nil => rfl
  | cons x xs ih =>
      rw [List.flatMap_cons, ih, List.filter_cons]
      cases test x <;> rfl

/-- The rows that a condition selects along single relations are those that pass, each of them once and
sorted by the cells that the keys lead to. -/
theorem select_eq (hroot : s.model? root.name = some root) {paths : List (List String)}
    (hrooted : Rooted paths) (hforward : s.Forward root paths)
    (hcolumns : List.Forall₂ (SortKey.Column s root) keys columns) {g : Formula Check}
    {passes : Row → Bool} (hpasses : ∀ r ∈ s.rows root.name, ∀ more b,
      Chooses r (s.ahead root r) more b → paths ⊆ more → s.satisfies g b = passes r) :
    s.select root.name paths g columns =
      ((((s.rows root.name).filter passes).map (Selected.ofRow s root keys)).mergeSort fun a b =>
        cellsInOrder (keys.map (·.descending)) a.cells b.cells).map (·.row) := by
  have hstages : ∀ o ∈ columns, ∃ last, s.Leads root o.relations last := by
    intro o ho
    obtain ⟨k, hk⟩ := exists_of_forall₂ hcolumns ho
    exact hk.leads
  have hpathsAll : Rooted (paths ++ columns.flatMap fun o => stages o.relations).eraseDups :=
    (hrooted.append (.flatMap fun o _ => .stages o.relations)).eraseDups
  have hforwardAll : s.Forward root (paths ++ columns.flatMap fun o => stages o.relations).eraseDups := by
    intro p hp
    rw [List.mem_eraseDups, List.mem_append, List.mem_flatMap] at hp
    rcases hp with hp | ⟨o, ho, hp⟩
    · exact hforward p hp
    · obtain ⟨last, hlast⟩ := hstages o ho
      exact hlast.forward_stages p hp
  have hrows : ∀ r ∈ s.rows root.name,
      ((s.bindings (some root) r
          (paths ++ columns.flatMap fun o => stages o.relations).eraseDups).filter
        (s.satisfies g)).map (fun b => (⟨r, columns.map fun o =>
          (s.cellAt b o.relations o.column o.parts).getD .absent⟩ : Selected)) =
      if passes r then [Selected.ofRow s root keys r] else [] := by
    intro r hr
    obtain ⟨b, hb, hchooses⟩ := hforwardAll.exists_bindings hpathsAll r
    have hsatisfies := hpasses r hr _ b hchooses fun p hp =>
      List.mem_eraseDups.mpr (List.mem_append_left _ hp)
    have hcells : (columns.map fun o => (s.cellAt b o.relations o.column o.parts).getD .absent) =
        keys.map (·.cell s root r) := by
      apply map_eq_of_forall₂ hcolumns
      intro k o ho hk
      refine cellAt_column hk (fun p hp => ?_) hr hchooses
      exact List.mem_eraseDups.mpr (List.mem_append_right _ (List.mem_flatMap.mpr ⟨o, ho, hp⟩))
    rw [hb, List.filter_singleton, hsatisfies]
    cases passes r <;> simp [Selected.ofRow, hcells]
  have hdescending : columns.map (·.descending) = keys.map (·.descending) :=
    map_eq_of_forall₂ hcolumns fun k o _ hk => hk.descending
  rw [select, hroot, hdescending, List.flatMap_congr hrows, flatMap_ite]

/-- The rows that are selected along single relations are those that pass, in the order of the keys. -/
theorem Sound.select_inOrder (h : s.Sound) (hroot : s.model? root.name = some root)
    (hkeys : ∀ k ∈ keys, ∃ type, k.LeadsTo s root type) {paths : List (List String)}
    (hrooted : Rooted paths) (hforward : s.Forward root paths)
    (hcolumns : List.Forall₂ (SortKey.Column s root) keys columns) {g : Formula Check}
    {passes : Row → Bool} (hpasses : ∀ r ∈ s.rows root.name, ∀ more b,
      Chooses r (s.ahead root r) more b → paths ⊆ more → s.satisfies g b = passes r) :
    (s.select root.name paths g columns).Perm ((s.rows root.name).filter passes) ∧
      (s.select root.name paths g columns).Pairwise (SortKey.InOrder s root keys) := by
  have hmem := (mem_of_model? hroot).1
  have hiff : ∀ a ∈ s.rows root.name, ∀ b ∈ s.rows root.name,
      (cellsInOrder (keys.map (·.descending)) (Selected.ofRow s root keys a).cells
        (Selected.ofRow s root keys b).cells = true ↔ SortKey.InOrder s root keys a b) := by
    intro a ha b hb
    apply SortKey.cellsInOrder_iff
    intro k hk
    obtain ⟨type, hleads⟩ := hkeys k hk
    obtain ⟨-, hholds⟩ := hleads.valueOf_mirror h hmem le_rfl ha
    obtain ⟨-, hholds'⟩ := hleads.valueOf_mirror h hmem le_rfl hb
    exact hholds.ordered hleads.isPlain hholds'
  rw [select_eq hroot hrooted hforward hcolumns hpasses]
  constructor
  · refine ((List.mergeSort_perm _ _).map _).trans ?_
    rw [List.map_map]
    exact List.Perm.of_eq (List.map_id _)
  · have hselected : ∀ x ∈ ((s.rows root.name).filter passes).map (Selected.ofRow s root keys),
        ∃ r ∈ s.rows root.name, Selected.ofRow s root keys r = x := by
      intro x hx
      obtain ⟨r, hr, rfl⟩ := List.mem_map.mp hx
      exact ⟨r, List.mem_of_mem_filter hr, rfl⟩
    rw [List.pairwise_map]
    refine (SortKey.pairwise_mergeSort_of_mem ?_ ?_).imp_of_mem ?_
    · intro x hx y hy z hz
      obtain ⟨a, ha, rfl⟩ := hselected x hx
      obtain ⟨b, hb, rfl⟩ := hselected y hy
      obtain ⟨c, hc, rfl⟩ := hselected z hz
      rw [hiff a ha b hb, hiff b hb c hc, hiff a ha c hc]
      exact SortKey.InOrder.trans
    · intro x hx y hy
      obtain ⟨a, ha, rfl⟩ := hselected x hx
      obtain ⟨b, hb, rfl⟩ := hselected y hy
      rw [hiff a ha b hb, hiff b hb a ha]
      exact SortKey.inOrder_total keys s root a b
    · intro x y hx hy hxy
      rw [List.mem_mergeSort] at hx hy
      obtain ⟨a, ha, rfl⟩ := hselected x hx
      obtain ⟨b, hb, rfl⟩ := hselected y hy
      exact (hiff a ha b hb).mp hxy

end Store
end PageQuery
