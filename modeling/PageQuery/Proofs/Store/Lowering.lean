import Mathlib
import PageQuery.Proofs.Store.Reaching
import PageQuery.Proofs.Store.Tests

/-!
# Lowered predicates

A predicate on columns is lowered to a condition.  Its tests are rooted at a base, the selected row itself
or the elements of a collection, and are met by the row at the base, which may be missing.  A search for
keys is met by the selected row, wherever it stands: it finds the row exactly when some row that the path
of its collection leads to from there passes, however many bindings that row has.
-/

namespace PageQuery

open Formula

namespace Store

variable {s : Store} {root base m : Model} {path relations : List String} {name : String}

/-- Whether what is left of a formula is met where `r` is the selected row and `o` the row at the
base. -/
def met (s : Store) (root base : Model) (path : List String) (r : Row) (o : Option Row) :
    Formula Check → Bool
  | .test c =>
    c.demand.holds
      ((o.bind fun e => s.ahead base e (c.relations.drop path.length)).map (·.cell c.column))
  | .keyAmong _ inner =>
    (s.bindings (some root) r (checkPaths inner).eraseDups).any (s.satisfies inner)
  | .group _ _ => false

/-- A check of a column behind a base, or a search for keys of the root, whose numbers a store can
keep. -/
inductive Placed (s : Store) (root base : Model) (path : List String) : Formula Check → Prop
  | check {c : Check} {before : List String} {last : Model} (hleads : s.Leads base before last)
      (hrelations : c.relations = path ++ before) (hparts : c.parts = [])
      (hfits : (Formula.test c).fits = true) : Placed s root base path (.test c)
  | search {inner : Formula Check} (hfits : inner.fits = true) :
      Placed s root base path (.keyAmong root.name inner)

/-- A leaf of a formula is settled whatever paths have to lead to a row, and leaves checks and
searches behind the base. -/
structure Settles (s : Store) (root base : Model) (path : List String) (y : Formula Test) :
    Prop where
  settled : ∃ v, (∀ paths, y.settle true paths = .ok v) ∧ v ≠ .always ∧
    ∀ g, v = .depends g →
      g.meets (fun _ => false) = false ∧ ∀ z ∈ g.leaves, s.Placed root base path z
  relations : ∀ q ∈ relationPaths y, ∃ before last, s.Leads base before last ∧
    q ∈ stages (path ++ before)

/-! ## One test -/

theorem fits_check {t : Test} {d : Demand}
    (h : ∀ n, .whole n ∈ d.cells → Cell.fits n = true) : (Formula.test (t.check d)).fits = true := by
  rw [Formula.fits, List.all_eq_true]
  intro cell hcell
  cases cell with
  | whole n => exact h n hcell
  | _ => rfl

theorem settle_test {t : Test} {v : Verdict Demand} (h : t.demand true = .ok v) (hv : v ≠ .always)
    (paths : List (List String)) :
    (Formula.test t).settle true paths = .ok (v.map fun d => .test (t.check d)) := by
  rw [settle, h]
  cases v with
  | always => exact absurd rfl hv
  | _ => rfl

/-- A lookup of a plain column behind a base is prepared to a test of the place that its names lead
to. -/
theorem Sound.test_eq (h : s.Sound) (hroot : root ∈ s.models) (hbase : s.Base root path base)
    (hleads : s.Leads base relations m) {type : ColumnType} {choices : List (Value × Value)}
    {default : Value} (hfield : m.field? name = some (.column type choices default))
    {before : List String} {column : String} (hplace : ∀ rest,
      s.place root (path ++ (relations ++ [name]) ++ rest) = .ok ⟨path ++ before, column, type, rest⟩)
    {comparison asked : Comparison} {v w : Value}
    (hasked : Test.asked type comparison.suffix = .ok ([], comparison))
    (hprepare : Test.prepare true type comparison v = .ok (asked, w)) :
    s.test root ⟨path ++ (relations ++ [name]), comparison, v⟩ =
      .ok ⟨⟨path ++ before, column, type, []⟩, [], asked, w⟩ := by
  have hunbroken : ∀ word ∈ path ++ (relations ++ [name]), isUnbroken word.toList = true := by
    intro word hword
    refine (isSeparable_iff.mp ?_).1
    rcases List.mem_append.mp hword with hword | hword
    · exact h.separable_base hroot hbase word hword
    · exact h.separable_path (hbase.mem_models hroot) hleads hfield word hword
  rw [test, Lookup.lookupNames_name (by simp) hunbroken]
  simp only [hplace, Outcome.ok_bind, hasked, Test.partType, Test.isYearly, List.getLast?_nil,
    Option.map_none, Option.getD_none, Bool.false_and, Bool.false_eq_true, if_false, h.zoned,
    hprepare]
  rfl

theorem prepare_ofTest (hroot : s.model? root.name = some root) {path : List String}
    {comparison : Comparison} {v : Value} {t : Test}
    (h : s.test root ⟨path, comparison, v⟩ = .ok t) :
    s.prepare root.name (Condition.ofTest path comparison v) = .ok (.single (.test t)) := by
  have htest : s.prepare root.name (.test ⟨path, comparison, v⟩) = .ok (.test t) := by
    rw [prepare, hroot]
    dsimp only
    rw [h]
    rfl
  rw [Condition.ofTest, Formula.single, prepare, prepareAll_singleton htest]
  rfl

/-- A test of a column behind a base answers by the cell that its names lead to from the row there. -/
theorem Sound.exists_test (h : s.Sound) (hroot : s.model? root.name = some root)
    (hbase : s.Base root path base) (hleads : s.Leads base relations m) {type : ColumnType}
    {choices : List (Value × Value)} {default : Value}
    (hfield : m.field? name = some (.column type choices default)) {comparison asked : Comparison}
    {v w : Value} {passes : Cell → Bool}
    (hasked : Test.asked type comparison.suffix = .ok ([], comparison))
    (hprepare : Test.prepare true type comparison v = .ok (asked, w))
    (hanswers : ∀ p : Place, p.type = type →
      Test.Answers ⟨p, [], asked, w⟩ (s.Holding type) passes) :
    ∃ t, s.prepare root.name (Condition.ofTest (path ++ (relations ++ [name])) comparison v) =
        .ok (.single (.test t)) ∧ s.Settles root base path (.test t) ∧
      ∀ paths r o, (∀ e ∈ o, e ∈ s.rows base.name) →
        answers (s.met root base path r o) paths (.test t) =
          passes (s.cellAhead? base o relations name) := by
  have hmem := (mem_of_model? hroot).1
  obtain ⟨before, column, last, hbefore, hplace, hcell⟩ :=
    h.place_base hmem hbase hleads hfield
  have htest := h.test_eq hmem hbase hleads hfield hplace hasked hprepare
  obtain ⟨verdict, hdemand, halways, hfits, hpasses⟩ :=
    hanswers ⟨path ++ before, column, type, []⟩ rfl
  have hsettle := settle_test hdemand halways
  refine ⟨_, prepare_ofTest hroot htest, ⟨⟨_, hsettle, ?_, ?_⟩, ?_⟩, ?_⟩
  · cases verdict with
    | always => exact absurd rfl halways
    | _ => exact nofun
  · cases verdict with
    | depends d =>
        rintro g ⟨⟩
        refine ⟨rfl, fun z hz => ?_⟩
        obtain rfl := List.mem_singleton.mp hz
        exact .check hbefore rfl rfl (fits_check (hfits d rfl))
    | _ => exact nofun
  · intro q hq
    exact ⟨before, last, hbefore, hq⟩
  · intro paths r o ho
    have hcells : ((o.bind fun e => s.ahead base e before).map (·.cell column)).getD .absent =
        s.cellAhead? base o relations name := by
      cases o with
      | none => rfl
      | some e => exact hcell e (ho e rfl)
    have hholding := hleads.holding_cellAhead? (hbase.mem_models hmem) hfield ho
    have hanswer : answers (s.met root base path r o) paths
        (.test ⟨⟨path ++ before, column, type, []⟩, [], asked, w⟩) =
          verdict.passes ((o.bind fun e => s.ahead base e before).map (·.cell column)) := by
      rw [answers, hsettle]
      cases verdict with
      | always => exact absurd rfl halways
      | never => rfl
      | depends d => simp [Verdict.map, meets, met, Test.check, Verdict.passes]
    rw [hanswer, hpasses _ (hcells ▸ hholding), hcells]

/-! ## Formed conditions -/

/-- A condition behind a base is prepared to a formula that can be settled.  It is not met unless some
of its tests and searches is, and it is met where the selected row and the row at the base pass. -/
structure Formed (s : Store) (root base : Model) (path : List String) (c : Condition)
    (f : Formula Test) (passes : Row → Option Row → Bool) : Prop where
  prepared : s.prepare root.name c = .ok f
  full : f.meets (fun _ => false) = false
  leaves : ∀ y ∈ f.leaves, s.Settles root base path y
  answers : ∀ paths, ∀ r ∈ s.rows root.name, ∀ o, (∀ e ∈ o, e ∈ s.rows base.name) →
    f.meets (answers (s.met root base path r o) paths) = passes r o

theorem isEmpty_of_full {α : Type} {f : Formula α} (h : f.meets (fun _ => false) = false) :
    f.isEmpty = false := by
  cases hempty : f.isEmpty with
  | false => rfl
  | true =>
      rw [meets_of_isEmpty hempty] at h
      cases h

namespace Formed

variable {c d : Condition} {f g : Formula Test} {passes passes' : Row → Option Row → Bool}

theorem join_and (h : s.Formed root base path c f passes) (h' : s.Formed root base path d g passes') :
    s.Formed root base path (c.join .and d) (f.join .and g)
      fun r o => passes r o && passes' r o where
  prepared := prepare_join .and h.prepared h'.prepared
  full := by rw [meets_join_and, h.full, Bool.false_and]
  leaves := by
    rw [leaves_join, List.forall_mem_append]
    exact ⟨h.leaves, h'.leaves⟩
  answers paths r hr o ho := by
    rw [meets_join_and, h.answers paths r hr o ho, h'.answers paths r hr o ho]

theorem join_or (h : s.Formed root base path c f passes) (h' : s.Formed root base path d g passes') :
    s.Formed root base path (c.join .or d) (f.join .or g)
      fun r o => passes r o || passes' r o where
  prepared := prepare_join .or h.prepared h'.prepared
  full := by
    rw [meets_join_or _ (isEmpty_of_full h.full) (isEmpty_of_full h'.full), h.full, h'.full]
    rfl
  leaves := by
    rw [leaves_join, List.forall_mem_append]
    exact ⟨h.leaves, h'.leaves⟩
  answers paths r hr o ho := by
    rw [meets_join_or _ (isEmpty_of_full h.full) (isEmpty_of_full h'.full),
      h.answers paths r hr o ho, h'.answers paths r hr o ho]

theorem foldl_and (h : s.Formed root base path c f passes) {ds : List Condition}
    {tests : List (Row → Option Row → Bool)}
    (hds : List.Forall₂ (fun d test => ∃ g, s.Formed root base path d g test) ds tests) :
    ∃ g, s.Formed root base path (ds.foldl (Formula.join .and) c) g
      fun r o => passes r o && tests.all (· r o) := by
  induction hds generalizing c f passes with
  | nil => exact ⟨f, by simpa using h⟩
  | cons hd _ ih =>
      obtain ⟨g, hg⟩ := hd
      simpa [Bool.and_assoc] using ih (h.join_and hg)

theorem foldl_or (h : s.Formed root base path c f passes) {ds : List Condition}
    {tests : List (Row → Option Row → Bool)}
    (hds : List.Forall₂ (fun d test => ∃ g, s.Formed root base path d g test) ds tests) :
    ∃ g, s.Formed root base path (ds.foldl (Formula.join .or) c) g
      fun r o => passes r o || tests.any (· r o) := by
  induction hds generalizing c f passes with
  | nil => exact ⟨f, by simpa using h⟩
  | cons hd _ ih =>
      obtain ⟨g, hg⟩ := hd
      simpa [Bool.or_assoc] using ih (h.join_or hg)

/-- What a formed condition is settled to asks for checks behind the base and searches, whose answers
tell whether the selected row and the row at the base pass. -/
theorem exists_settle (h : s.Formed root base path c f passes) (paths : List (List String)) :
    ∃ v, f.settle true paths = .ok v ∧ v ≠ .always ∧
      (v = .never → ∀ r ∈ s.rows root.name, ∀ o, (∀ e ∈ o, e ∈ s.rows base.name) →
        passes r o = false) ∧
      ∀ g, v = .depends g → (∀ z ∈ g.leaves, s.Placed root base path z) ∧
        ∀ r ∈ s.rows root.name, ∀ o, (∀ e ∈ o, e ∈ s.rows base.name) →
          g.meets (s.met root base path r o) = passes r o := by
  have hleaves : ∀ y ∈ f.leaves, ∃ v, y.settle true paths = .ok v := by
    intro y hy
    obtain ⟨⟨v, hv, -⟩, -⟩ := h.leaves y hy
    exact ⟨v, hv paths⟩
  obtain ⟨v, hv, hanswers, hstems⟩ := Formula.exists_settle f hleaves
  refine ⟨v, hv, ?_, ?_, ?_⟩
  · -- nothing is settled to `always`: where no check and no search is met, no leaf answers
    rintro rfl
    have hfalse : f.meets (Formula.answers (fun _ => false) paths) = false := by
      refine (meets_congr fun y hy => ?_).trans h.full
      obtain ⟨⟨v, hv, halways, hfull⟩, -⟩ := h.leaves y hy
      rw [Formula.answers, hv]
      cases v with
      | never => rfl
      | always => exact absurd rfl halways
      | depends g => exact (hfull g rfl).1
    rw [← hanswers, Formula.answers, hv] at hfalse
    cases hfalse
  · rintro rfl r hr o ho
    rw [← h.answers paths r hr o ho, ← hanswers, Formula.answers, hv]
  · rintro g rfl
    refine ⟨fun z hz => ?_, fun r hr o ho => ?_⟩
    · obtain ⟨y, hy, g', hg', hz⟩ := hstems g rfl z hz
      obtain ⟨⟨v, hv, -, hplaced⟩, -⟩ := h.leaves y hy
      exact (hplaced g' (Except.ok.inj ((hv paths).symm.trans hg'))).2 z hz
    · rw [← h.answers paths r hr o ho, ← hanswers, Formula.answers, hv]

end Formed

/-! ## Searches in collections -/

theorem Placed.fits {z : Formula Check} (h : s.Placed root base path z) : z.fits = true := by
  cases h with
  | check _ _ _ hfits => exact hfits
  | search hfits => rwa [Formula.fits]

theorem fits_of_placed {g : Formula Check} (h : ∀ z ∈ g.leaves, s.Placed root base path z) :
    g.fits = true := by
  rw [fits_eq, List.all_eq_true]
  exact fun z hz => (h z hz).fits

/-- The path of a check is one of the paths of the condition, unless it is of the row itself. -/
theorem relations_mem_checkPaths {g : Formula Check} {c : Check} (h : .test c ∈ g.leaves) :
    c.relations = [] ∨ c.relations ∈ checkPaths g := by
  rw [checkPaths_eq]
  by_cases hrelations : c.relations = []
  · exact .inl hrelations
  · exact .inr (List.mem_flatMap.mpr
      ⟨.test c, h, mem_stages.mpr ⟨hrelations, List.prefix_rfl⟩⟩)

section Search

variable (h : s.Sound) (hroot : s.model? root.name = some root) {r : Row}
  (hr : r ∈ s.rows root.name)

include h hroot hr

/-- A binding of the selected row satisfies a condition if that is met by the row and the one that the
binding gives for the base. -/
theorem satisfies_eq_met {g : Formula Check} (hg : ∀ z ∈ g.leaves, s.Placed root base path z)
    {b : Binding} (hitself : b.lookup [] = some (some r)) {o : Option Row}
    (hrows : ∀ c before last, .test c ∈ g.leaves → c.relations = path ++ before →
      s.Leads base before last → b.row (path ++ before) = o.bind fun e => s.ahead base e before) :
    s.satisfies g b = g.meets (s.met root base path r o) := by
  rw [satisfies_eq_meets]
  apply meets_congr
  intro z hz
  cases hg z hz with
  | @check c before last hleads hrelations hparts hfits =>
      have hrow := hrows c before last hz hrelations hleads
      rw [satisfies, cellAt, met, hparts, hrelations, List.drop_left, ← hrow]
      rfl
  | search hfits =>
      rw [satisfies, met, hitself]
      dsimp only
      rw [h.row?_key hr, hroot]
      rfl

/-- The selected row satisfies a condition behind a base with one of its bindings exactly if it is met
where one of the rows that the path of the base leads to is at the base. -/
theorem any_bindings_eq (hbase : s.Base root path base) {g : Formula Check}
    (hplaced : ∀ z ∈ g.leaves, s.Placed root base path z) :
    (s.bindings (some root) r (checkPaths g).eraseDups).any (s.satisfies g) =
      (s.reach (some root) r path).any fun o => g.meets (s.met root base path r o) := by
  have hrooted := (rooted_checkPaths g).eraseDups
  have hclosed : ∀ {c : Check}, .test c ∈ g.leaves → stages c.relations ⊆ (checkPaths g).eraseDups := by
    intro c hc p hp
    rcases relations_mem_checkPaths hc with hnil | hmem
    · simp [hnil, stages] at hp
    · exact List.mem_eraseDups.mpr (stages_subset_checkPaths hmem hp)
  rw [Bool.eq_iff_iff, List.any_eq_true, List.any_eq_true]
  constructor
  · rintro ⟨b, hb, hsatisfies⟩
    have hbinds := binds_of_mem_bindings hrooted (nodup_eraseDups _) hb
    have hreached : stages path ⊆ (checkPaths g).eraseDups →
        b.row path ∈ s.reach (some root) r path := hbinds.row_mem_reach
    -- without a check nothing is asked of the row at the base, so any that is reached will do
    obtain ⟨o, ho, hrow⟩ : ∃ o ∈ s.reach (some root) r path,
        ∀ {c : Check}, .test c ∈ g.leaves → path <+: c.relations → b.row path = o := by
      by_cases hcheck : ∃ c : Check, .test c ∈ g.leaves ∧ path <+: c.relations
      · obtain ⟨c, hc, hbegins⟩ := hcheck
        refine ⟨b.row path, hreached fun p hp => hclosed hc ?_, fun _ _ => rfl⟩
        obtain ⟨hp, hp'⟩ := mem_stages.mp hp
        exact mem_stages.mpr ⟨hp, hp'.trans hbegins⟩
      · obtain ⟨o, os, hos⟩ := List.exists_cons_of_ne_nil (reach_ne_nil (s := s) (some root) r path)
        exact ⟨o, hos ▸ List.mem_cons_self, fun hc hbegins => absurd ⟨_, hc, hbegins⟩ hcheck⟩
    refine ⟨o, ho, ?_⟩
    rw [← satisfies_eq_met h hroot hr hplaced hbinds.itself fun c before last hc hrelations hleads => ?_]
    · exact hsatisfies
    · rw [hbinds.row_base hbase hleads (hrelations ▸ hclosed hc),
        hrow hc (hrelations ▸ List.prefix_append path before)]
  · rintro ⟨o, ho, hmet⟩
    obtain ⟨choice, hchoice, rfl⟩ := exists_follows ho
    have hitself : s.choosing base path choice [] = some r := by
      rw [choosing_of_begins List.nil_prefix, hchoice.itself]
    have hfollows : ∀ p ∈ (checkPaths g).eraseDups, s.choosing base path choice p ∈
        s.nexts (some root) p (s.choosing base path choice p.dropLast) := by
      intro p hp
      rw [List.mem_eraseDups, checkPaths_eq] at hp
      obtain ⟨z, hz, hp⟩ := List.mem_flatMap.mp hp
      cases hplaced z hz with
      | check hleads hrelations =>
          obtain ⟨hne, hbegins⟩ := mem_stages.mp hp
          exact hchoice.choosing hbase hne hleads (hrelations ▸ hbegins)
      | search => simp [checkPaths] at hp
    obtain ⟨b, hb, hchooses⟩ := exists_binding hrooted hitself hfollows
    refine ⟨b, hb, ?_⟩
    rw [satisfies_eq_met h hroot hr hplaced hchooses.itself fun c before last hc hrelations _ => ?_]
    · exact hmet
    · rw [hchooses.parent hitself, choosing_append]
      rw [← hrelations]
      exact (relations_mem_checkPaths hc).imp_right List.mem_eraseDups.mpr

end Search

/-- A search for the rows with an element that passes is formed wherever it stands. -/
theorem Formed.search (h : s.Sound) (hroot : s.model? root.name = some root) {target : Model}
    {behind : List String} (hbase : s.Base root behind target) {c : Condition} {inner : Formula Test}
    {passes : Row → Option Row → Bool} (hformed : s.Formed root target behind c inner passes) :
    s.Formed root base path (.single (.keyAmong root.name c)) (.single (.keyAmong root.name inner))
      fun r _ => (s.reach (some root) r behind).any (passes r) := by
  have hsearch : s.prepare root.name (.keyAmong root.name c) = .ok (.keyAmong root.name inner) := by
    rw [prepare, hformed.prepared]
    rfl
  obtain ⟨v, hv, halways, hnever, hdepends⟩ := hformed.exists_settle inner.needed
  have hsettle : ∀ paths, (Formula.keyAmong root.name inner).settle true paths =
      .ok (v.map (.keyAmong root.name)) := by
    intro paths
    rw [settle, hv]
    cases v with
    | always => exact absurd rfl halways
    | _ => rfl
  have hreached {r : Row} (hr : r ∈ s.rows root.name) :
      ∀ o ∈ s.reach (some root) r behind, ∀ e ∈ o, e ∈ s.rows target.name :=
    fun _ ho => mem_rows_of_reach hr hbase.modelAt ho
  refine ⟨?_, rfl, ?_, ?_⟩
  · rw [Formula.single, prepare, prepareAll_singleton hsearch]
    rfl
  · rintro y hy
    obtain rfl := List.mem_singleton.mp hy
    refine ⟨⟨_, hsettle, ?_, ?_⟩, fun q hq => absurd hq List.not_mem_nil⟩
    · cases v with
      | always => exact absurd rfl halways
      | _ => rintro ⟨⟩
    · cases v with
      | depends g =>
          rintro _ ⟨⟩
          refine ⟨rfl, fun z hz => ?_⟩
          obtain rfl := List.mem_singleton.mp hz
          exact .search (fits_of_placed (hdepends g rfl).1)
      | _ => rintro _ ⟨⟩
  · intro paths r hr o _
    have hanswer : (Formula.single (.keyAmong root.name inner)).meets
        (Formula.answers (s.met root base path r o) paths) =
          Formula.answers (s.met root base path r o) paths (.keyAmong root.name inner) := by
      simp [Formula.single, meets, meetsAll]
    rw [hanswer, Formula.answers, hsettle]
    cases v with
    | always => exact absurd rfl halways
    | never =>
        refine (List.any_eq_false.mpr fun o ho => ?_).symm
        rw [hnever rfl r hr o (hreached hr o ho)]
        exact Bool.false_ne_true
    | depends g =>
        obtain ⟨hplaced, hmeets⟩ := hdepends g rfl
        have hbindings := any_bindings_eq h hroot hr hbase hplaced
        rw [Verdict.map]
        dsimp only
        rw [meets, met, hbindings, Bool.eq_iff_iff, List.any_eq_true, List.any_eq_true]
        exact exists_congr fun o => and_congr_right fun ho => by
          rw [hmeets r hr o (hreached hr o ho)]

end Store
end PageQuery
