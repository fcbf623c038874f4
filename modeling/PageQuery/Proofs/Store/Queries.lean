import Mathlib
import PageQuery.Proofs.Store.Selecting
import PageQuery.Store.Query

/-!
# Counting and slicing queries

A query whose filter was lowered selects the rows that pass, in the order of its keys.  It fails in one
way only: the condition, beside the tables that are joined for the order, is nested more deeply than a
store takes.  Otherwise it counts the rows that pass, and its slices are those of one list of rows.
-/

namespace PageQuery

namespace Query

def narrowed (q : Query) : Option Predicate → Except Failure Query
  | Option.none => .ok q
  | some p => do
    let condition ← Condition.ofPredicate q.store q.model [] p
    (q.restrict condition).mapError .fault

def ordered (q : Query) (keys : List SortKey) : Except Failure Query :=
  if keys.isEmpty then .ok q else (q.orderBy keys).mapError .fault

def asking (q : Query) (predicate : Option Predicate) (keys : List SortKey) :
    Except Failure Query := do
  (← q.narrowed predicate).ordered keys

/-- The condition of a query, beside the tables that are joined for its order, is nested more deeply
than a store takes. -/
def IsTooDeep (q : Query) : Prop :=
  ∃ columns, q.orderColumns = .ok columns ∧
    q.settled (q.joinedTables columns) = .error .tooComplex

/-- The filter of a query selects the rows of its model that pass, unless it is nested too deeply. -/
structure Selects (q : Query) (root : Model) (passes : Row → Bool) : Prop where
  forward : q.store.Forward root (Store.relationPaths q.filter)
  settled : ((∀ tables, q.settled tables = .ok Option.none) ∧
      ∀ r ∈ q.store.rows root.name, passes r = false) ∨
    ∃ g, (∀ tables, q.settled tables =
        if Store.maxDepth < g.depth q.store q.model tables then .error .tooComplex
        else .ok (some g)) ∧
      ∀ r ∈ q.store.rows root.name, ∀ paths b,
        Store.Chooses r (q.store.ahead root r) paths b → Store.relationPaths q.filter ⊆ paths →
          q.store.satisfies g b = passes r

variable {s : Store} {root : Model}

/-- A query without a filter selects all rows. -/
theorem selects_all : Selects { store := s, model := root.name } root fun _ => true := by
  refine ⟨nofun, .inr ⟨.empty, fun tables => ?_, fun r _ paths b _ _ => rfl⟩⟩
  rfl

/-- A query that is restricted by a lowered predicate selects the rows that pass it. -/
theorem selects_of_formed (h : s.Sound) (hroot : s.model? root.name = some root) {c : Condition}
    {f : Formula Test} {passes : Row → Option Row → Bool}
    (hformed : s.Formed root root [] c f passes) :
    Selects { store := s, model := root.name, filter := f } root fun r => passes r (some r) := by
  have hself {r : Row} (hr : r ∈ s.rows root.name) : ∀ e ∈ some r, e ∈ s.rows root.name := by
    simpa using hr
  constructor
  · intro path hpath
    dsimp only at hpath
    rw [Store.relationPaths_eq] at hpath
    obtain ⟨y, hy, hpath⟩ := List.mem_flatMap.mp hpath
    obtain ⟨before, last, hbefore, hstage⟩ := (hformed.leaves y hy).relations path hpath
    exact hbefore.forward_stages path hstage
  · obtain ⟨v, hv, halways, hnever, hdepends⟩ := hformed.exists_settle f.needed
    have hverdict : f.verdict s.zoned = .ok v := by rw [h.zoned, Formula.verdict, hv]
    cases v with
    | always => exact absurd rfl halways
    | never =>
        refine .inl ⟨fun tables => ?_, fun r hr => hnever rfl r hr (some r) (hself hr)⟩
        rw [Query.settled]
        dsimp only
        rw [hverdict]
    | depends g =>
        obtain ⟨hplaced, hmeets⟩ := hdepends g rfl
        refine .inr ⟨g, fun tables => ?_, fun r hr paths b hb hpaths => ?_⟩
        · rw [Query.settled]
          dsimp only
          rw [hverdict]
          dsimp only
          rw [Store.fits_of_placed hplaced, if_pos rfl]
        · have hsub : Store.checkPaths g ⊆ paths :=
            List.Subset.trans (Store.checkPaths_of_settle hv) hpaths
          rw [← hmeets r hr (some r) (hself hr)]
          refine Store.satisfies_eq_met h hroot hr hplaced hb.itself
            fun check before last hcheck hrelations _ => ?_
          rw [hb.parent rfl]
          · rfl
          · rw [← hrelations]
            exact (Store.relations_mem_checkPaths hcheck).imp_right fun hmem => hsub hmem

end Query

/-! ## Rows that can be read -/

theorem Outcome.forM_eq_ok {α ε : Type} {f : α → Except ε Unit} {xs : List α}
    (h : ∀ x ∈ xs, f x = .ok ()) : xs.forM f = .ok () := by
  induction xs with
  | nil => rfl
  | cons x xs ih =>
      obtain ⟨hx, hxs⟩ := List.forall_mem_cons.mp h
      rw [List.forM_eq_forM] at ih ⊢
      rw [List.forM_cons, hx]
      exact ih hxs

theorem Outcome.foldlM_eq_ok {α ε : Type} {f : Unit → α → Except ε Unit} {xs : List α}
    (h : ∀ x ∈ xs, f () x = .ok ()) : xs.foldlM f () = .ok () := by
  induction xs with
  | nil => rfl
  | cons x xs ih =>
      obtain ⟨hx, hxs⟩ := List.forall_mem_cons.mp h
      rw [List.foldlM_cons, hx]
      exact ih hxs

/-- What the columns of a model hold can be read. -/
theorem Store.Sound.readable {s : Store} (h : s.Sound) {m : Model} (hm : m ∈ s.models)
    (hnames : (m.fields.map (·.1)).Nodup) {r : Row} (hr : r ∈ s.rows m.name) :
    s.readable m r = .ok () := by
  apply Outcome.foldlM_eq_ok
  rintro ⟨name, f⟩ hf
  cases f with
  | column type choices default =>
      have hfield := Model.field?_of_mem hnames hf
      obtain ⟨v, hv⟩ := (h.holds m hm r hr name type choices default hfield).exists_decode
      have hvalue : ∃ w, r.value s.zoned name type = .ok w := by
        rw [h.zoned]
        cases type with
        | json => exact ⟨_, rfl⟩
        | _ => exact ⟨v, hv⟩
      obtain ⟨w, hw⟩ := hvalue
      dsimp only
      rw [hw]
      rfl
  | _ => rfl

/-! ## Counts and slices -/

namespace Query

variable {q : Query} {root : Model} {passes : Row → Bool} {keys : List SortKey}

theorem length_eraseDups_le {α : Type} [BEq α] [LawfulBEq α] (xs ys : List α) :
    ys.eraseDups.length ≤ (xs ++ ys).eraseDups.length := by
  refine ((nodup_eraseDups ys).subperm fun y hy => ?_).length_le
  exact List.mem_eraseDups.mpr (List.mem_append_right xs (List.mem_eraseDups.mp hy))

/-- Tables that are joined make a condition no shallower. -/
theorem depth_nil_le (s : Store) (model : String) (tables : List Store.JoinedTable)
    (g : Formula Check) : g.depth s model [] ≤ g.depth s model tables := by
  have hlength := length_eraseDups_le tables (s.joinsOf (s.model? model) g)
  rw [Formula.depth, Formula.depth, List.nil_append]
  omega

theorem Selects.settled_nil (hq : q.Selects root passes) {tables : List Store.JoinedTable}
    (h : q.settled tables ≠ .error .tooComplex) : q.settled [] ≠ .error .tooComplex := by
  rcases hq.settled with ⟨hnone, -⟩ | ⟨g, hg, -⟩
  · rw [hnone]
    exact nofun
  · have hdepth := depth_nil_le q.store q.model tables g
    rw [hg] at h ⊢
    split at h
    · exact absurd rfl h
    · rw [if_neg (by omega)]
      exact nofun

/-- A condition that is not nested too deeply beside some tables selects no row, or the rows that
pass. -/
theorem Selects.settled_cases (hq : q.Selects root passes) {tables : List Store.JoinedTable}
    (hdeep : q.settled tables ≠ .error .tooComplex) :
    (q.settled tables = .ok Option.none ∧ (q.store.rows root.name).filter passes = []) ∨
      ∃ g, q.settled tables = .ok (some g) ∧ ∀ r ∈ q.store.rows root.name, ∀ paths b,
        Store.Chooses r (q.store.ahead root r) paths b → Store.relationPaths q.filter ⊆ paths →
          q.store.satisfies g b = passes r := by
  rcases hq.settled with ⟨hnone, hpasses⟩ | ⟨g, hg, hpasses⟩
  · refine .inl ⟨hnone tables, List.filter_eq_nil_iff.mpr fun r hr => ?_⟩
    simp [hpasses r hr]
  · refine .inr ⟨g, ?_, hpasses⟩
    rw [hg] at hdeep ⊢
    split
    · rename_i hdepth
      exact absurd (if_pos hdepth) hdeep
    · rfl

/-- A slice whose bounds are not negative follows from what the condition is settled to. -/
theorem slice_eq (hjoined : q.joined = []) {columns : List Store.OrderColumn}
    (hcolumns : q.orderColumns = .ok columns) (start size : ℕ) :
    q.slice start (start + size) = q.settled (q.joinedTables columns) >>= fun
      | Option.none => .ok []
      | some f =>
        if size = 0 then .ok []
        else if Cell.fits start = true ∧ Cell.fits size = true then
          q.completed (((q.store.select q.model (Store.relationPaths q.filter) f columns).drop
            start).take size)
        else .error .outOfStore := by
  have hpositive : ¬ (((start : ℤ) < 0 || (start : ℤ) + size < 0) = true) := by
    simp only [Bool.or_eq_true, decide_eq_true_eq]
    omega
  have hstop : ((start : ℤ) + size).toNat = start + size := by omega
  rw [slice, if_neg hpositive, hjoined, hcolumns]
  simp only [List.forM_eq_forM, List.forM_nil, Outcome.ok_bind, add_sub_cancel_left, hstop,
    Int.toNat_natCast]
  cases q.settled (q.joinedTables columns) with
  | error f => rfl
  | ok settled =>
      cases settled with
      | none => rfl
      | some f =>
          simp only [Outcome.ok_bind, List.drop_take, Nat.add_sub_cancel_left]
          by_cases hsize : size = 0
          · rw [if_pos (by omega), if_pos hsize]
            rfl
          · rw [if_neg (by omega), if_neg hsize]
            by_cases hfits : Cell.fits start = true ∧ Cell.fits size = true
            · rw [if_neg (by simp [hfits]), if_pos hfits]
              rfl
            · rw [if_pos (by simpa [imp_iff_not_or] using hfits), if_neg hfits]
              rfl

theorem completed_eq (h : q.store.Sound) (hregular : Regular q.store.models)
    (hmodel : q.model = root.name) (hroot : q.store.model? root.name = some root)
    (hprefetched : q.prefetched = []) {rows : List Row} (hrows : rows ⊆ q.store.rows root.name) :
    q.completed rows = .ok (rows.map fun r => .row root.name r.key) := by
  have hmem := (Store.mem_of_model? hroot).1
  have hmodel? : q.model? = some root := by rw [model?, hmodel, hroot]
  have hreadable : rows.forM (q.store.readable root) = .ok () :=
    Outcome.forM_eq_ok fun r hr => h.readable hmem (hregular.names root hmem) (hrows hr)
  simp only [completed, hmodel?, hreadable, hprefetched, hmodel]
  rfl

section Rows

variable (hq : q.Selects root passes) (h : q.store.Sound) (hmodel : q.model = root.name)
  (hroot : q.store.model? root.name = some root)

include hq h hmodel hroot

/-- A query counts the rows that pass. -/
theorem Selects.count_eq (hdeep : q.settled [] ≠ .error .tooComplex) :
    q.count = .ok ((q.store.rows root.name).filter passes).length := by
  rcases hq.settled_cases hdeep with ⟨hnone, hnil⟩ | ⟨g, hok, hpasses⟩
  · rw [count, hnone, hnil]
    rfl
  · have hnone : List.Forall₂ (SortKey.Column q.store root) [] [] := .nil
    obtain ⟨hperm, -⟩ := h.select_inOrder hroot (List.forall_mem_nil _)
      (Store.rooted_relationPaths q.filter) hq.forward hnone hpasses
    rw [count, hok, hmodel, ← hperm.length_eq]
    rfl

/-- The slices of a query that is not nested too deeply are those of the rows that pass, in the order
of its keys.  Only a slice whose bounds a store cannot keep may be refused. -/
theorem Selects.exists_rows (hregular : Regular q.store.models)
    (hkeys : ∀ k ∈ keys, ∃ type, k.LeadsTo q.store root type)
    (horder : q.order = keys.map fun k => (k.field, k.descending)) (hjoined : q.joined = [])
    (hprefetched : q.prefetched = []) (hdeep : ¬ q.IsTooDeep) :
    ∃ chosen : List Row, chosen.Perm ((q.store.rows root.name).filter passes) ∧
      chosen.Pairwise (SortKey.InOrder q.store root keys) ∧
      ∀ start size : ℕ, 0 < size →
        q.slice start (start + size) =
            .ok (((chosen.drop start).take size).map fun r => .row root.name r.key) ∨
          q.slice start (start + size) = .error .outOfStore ∧
            ¬ (Cell.fits start = true ∧ Cell.fits size = true) := by
  have hmodel? : q.model? = some root := by rw [model?, hmodel, hroot]
  obtain ⟨columns, hcolumns, hall⟩ := exists_orderColumns h hmodel? hkeys horder
  rcases hq.settled_cases fun hsettled => hdeep ⟨columns, hcolumns, hsettled⟩ with
    ⟨hnone, hnil⟩ | ⟨g, hok, hpasses⟩
  · refine ⟨[], by rw [hnil], .nil, fun start size _ => .inl ?_⟩
    rw [slice_eq hjoined hcolumns, hnone, List.drop_nil, List.take_nil]
    rfl
  · obtain ⟨hperm, hsorted⟩ := h.select_inOrder hroot hkeys (Store.rooted_relationPaths q.filter)
      hq.forward hall hpasses
    refine ⟨_, hperm, hsorted, fun start size hsize => ?_⟩
    rw [slice_eq hjoined hcolumns, hok, Outcome.ok_bind, hmodel]
    dsimp only
    rw [if_neg hsize.ne']
    by_cases hfits : Cell.fits start = true ∧ Cell.fits size = true
    · rw [if_pos hfits]
      refine .inl (completed_eq h hregular hmodel hroot hprefetched fun r hr => ?_)
      have hselected := List.mem_of_mem_drop (List.mem_of_mem_take hr)
      exact List.mem_of_mem_filter (hperm.mem_iff.mp hselected)
    · rw [if_neg hfits]
      exact .inr ⟨rfl, hfits⟩

end Rows

/-- A query that is nested too deeply shows no rows. -/
theorem slice_of_isTooDeep (hdeep : q.IsTooDeep) (hjoined : q.joined = []) (start size : ℕ) :
    q.slice start (start + size) = .error .tooComplex := by
  obtain ⟨columns, hcolumns, hsettled⟩ := hdeep
  rw [slice_eq hjoined hcolumns, hsettled]
  rfl

/-- Counting a query fails, if it does, because it is nested too deeply. -/
theorem Selects.count_cases (hq : q.Selects root passes) (h : q.store.Sound)
    (hmodel : q.model = root.name) (hroot : q.store.model? root.name = some root) :
    q.count = .error .tooComplex ∨ q.count = .ok ((q.store.rows root.name).filter passes).length := by
  by_cases hdeep : q.settled [] = .error .tooComplex
  · rw [count, hdeep]
    exact .inl rfl
  · exact .inr (hq.count_eq h hmodel hroot hdeep)

/-- A query that is not nested too deeply can be counted. -/
theorem Selects.settled_of_not_isTooDeep (hq : q.Selects root passes) (h : q.store.Sound)
    (hroot : q.model? = some root) (hkeys : ∀ k ∈ keys, ∃ type, k.LeadsTo q.store root type)
    (horder : q.order = keys.map fun k => (k.field, k.descending)) (hdeep : ¬ q.IsTooDeep) :
    q.settled [] ≠ .error .tooComplex := by
  obtain ⟨columns, hcolumns, -⟩ := exists_orderColumns h hroot hkeys horder
  exact hq.settled_nil fun hsettled => hdeep ⟨columns, hcolumns, hsettled⟩

/-- A query by keys that tell rows apart fails because it is nested too deeply, or because a store cannot
keep the bounds of the slice; otherwise it counts and shows the rows that pass in the one order of the
keys. -/
theorem Selects.read_cases (hq : q.Selects root passes) (h : q.store.Sound)
    (hregular : Regular q.store.models) (hmodel : q.model = root.name)
    (hroot : q.store.model? root.name = some root)
    (hkeys : ∀ k ∈ keys, ∃ type, k.LeadsTo q.store root type)
    (horder : q.order = keys.map fun k => (k.field, k.descending)) (hjoined : q.joined = [])
    (hprefetched : q.prefetched = []) {arranged : List Row}
    (hperm : arranged.Perm ((q.store.rows root.name).filter passes))
    (hsorted : arranged.Pairwise (SortKey.InOrder q.store root keys))
    (htold : ∀ a ∈ (q.store.rows root.name).filter passes,
      ∀ b ∈ (q.store.rows root.name).filter passes, SortKey.InOrder q.store root keys a b →
        SortKey.InOrder q.store root keys b a → a = b) (start : ℕ) {size : ℕ} (hsize : 0 < size) :
    (q.IsTooDeep ∧ (q.count = .error .tooComplex ∨
      q.count = .ok arranged.length ∧ q.slice start (start + size) = .error .tooComplex)) ∨
    (¬ q.IsTooDeep ∧ q.count = .ok arranged.length ∧
      (q.slice start (start + size) =
          .ok (((arranged.drop start).take size).map fun r => .row root.name r.key) ∨
        q.slice start (start + size) = .error .outOfStore ∧
          ¬ (Cell.fits start = true ∧ Cell.fits size = true))) := by
  rw [hperm.length_eq]
  by_cases hdeep : q.IsTooDeep
  · refine .inl ⟨hdeep, (hq.count_cases h hmodel hroot).imp_right fun hcount => ⟨hcount, ?_⟩⟩
    exact slice_of_isTooDeep hdeep hjoined start size
  · have hmodel? : q.model? = some root := by rw [model?, hmodel, hroot]
    refine .inr ⟨hdeep, hq.count_eq h hmodel hroot
      (hq.settled_of_not_isTooDeep h hmodel? hkeys horder hdeep), ?_⟩
    obtain ⟨chosen, hchosen, hinOrder, hslice⟩ :=
      hq.exists_rows h hmodel hroot hregular hkeys horder hjoined hprefetched hdeep
    obtain rfl : chosen = arranged :=
      SortKey.eq_of_inOrder (hchosen.trans hperm.symm) hinOrder hsorted fun a ha b hb =>
        htold a (hchosen.mem_iff.mp ha) b (hchosen.mem_iff.mp hb)
    exact hslice start size hsize

end Query
end PageQuery
