import Mathlib
import PageQuery.Proofs.Store.Predicates
import PageQuery.Proofs.Store.Queries
import PageQuery.Schema.Bundled

/-!
# Searches of a store

A store is searched by a predicate the way the predicate reads with its searches detached: a collection
that is searched within another is looked for from the selected row again, so what is found in it may
belong to another element than the one that is tested beside it.  The rows that are found are those on
whose mirrors the predicate holds itself if no search stands beside such a test.
-/

namespace PageQuery

namespace Query

variable {s : Store} {root : Model} {q : Query} {p : Predicate} {passes : Row → Bool}

/-- A predicate that tests columns makes a query that selects the rows on whose mirrors it holds if its
searches are detached; where they may be, these are the rows on whose mirrors it holds as it stands. -/
theorem exists_narrowed_some (hs : s.Sound) (hroot : s.model? root.name = some root) {p : Predicate}
    (hp : s.Tests root p) :
    ∃ f passes depth,
      ({ store := s, model := root.name } : Query).narrowed (some p) =
        .ok { store := s, model := root.name, filter := f } ∧
      Selects { store := s, model := root.name, filter := f } root passes ∧
      ∀ n ≥ depth, ∀ r ∈ s.rows root.name,
        p.holdsDetached 0 (s.mirror n root r) [] (s.mirror n root r) = .ok (passes r) ∧
          (p.isDetachable false = true → p.holds 0 (s.mirror n root r) = .ok (passes r)) := by
  obtain ⟨passes, holding, depth, hlowers⟩ := hs.lowers hroot hp .row
  obtain ⟨c, f, hcondition, hformed⟩ := hlowers.formed
  refine ⟨f, _, depth, ?_, selects_of_formed hs hroot hformed, fun n hn r hr => ?_⟩
  · simp only [narrowed, hcondition, Outcome.ok_bind, restrict, hformed.prepared]
    rfl
  · have hself : ∀ e ∈ some r, e ∈ s.rows root.name := by simpa using hr
    refine ⟨hlowers.detached n hn n hn r hr (some r) hself, fun hdetachable => ?_⟩
    rw [hlowers.passes_eq hdetachable hr]
    exact hlowers.holds n hn (some r) hself

/-- A query finds the rows of its model that pass: it counts them, and shows each of them once, unless
the bounds of a slice are none that a store can keep. -/
def Finds (q : Query) (root : Model) (passes : Row → Bool) : Prop :=
  ∃ found : List Row, (found.map (·.key)).Nodup ∧
    (∀ r, r ∈ found ↔ r ∈ q.store.rows root.name ∧ passes r = true) ∧
    q.count = .ok found.length ∧
    ∀ start size : ℕ, 0 < size →
      q.slice start (start + size) =
          .ok (((found.drop start).take size).map fun r => .row root.name r.key) ∨
        q.slice start (start + size) = .error .outOfStore ∧
          ¬ (Cell.fits start = true ∧ Cell.fits size = true)

/-- A query without an order finds the rows that it selects if it is not nested too deeply. -/
theorem Selects.finds (hq : q.Selects root passes) (h : q.store.Sound)
    (hregular : Regular q.store.models) (hmodel : q.model = root.name)
    (hroot : q.store.model? root.name = some root) (horder : q.order = [])
    (hjoined : q.joined = []) (hprefetched : q.prefetched = []) (hdeep : ¬ q.IsTooDeep) :
    q.Finds root passes := by
  have hkeys : ∀ k ∈ ([] : List SortKey), ∃ type, k.LeadsTo q.store root type := nofun
  have hmodel? : q.model? = some root := by rw [model?, hmodel, hroot]
  obtain ⟨found, hperm, -, hslice⟩ :=
    hq.exists_rows h hmodel hroot hregular hkeys horder hjoined hprefetched hdeep
  refine ⟨found, ?_, fun r => hperm.mem_iff.trans List.mem_filter, ?_, hslice⟩
  · exact (hperm.map _).nodup_iff.mpr
      (List.pairwise_map.mpr (((h.sorted root.name).filter _).imp fun hlt => hlt.ne))
  · rw [hperm.length_eq]
    exact hq.count_eq h hmodel hroot
      (hq.settled_of_not_isTooDeep h hmodel? hkeys horder hdeep)

/-- A predicate that tests columns and searches collections, within each other to any depth, makes a
query of a store.  Unless that is nested more deeply than a store takes, it finds the rows on whose
mirrors the predicate holds with its searches detached; and where the searches may be detached, these are
the rows on whose mirrors it holds. -/
theorem finds_detached (hs : s.Sound) (hregular : Regular s.models)
    (hroot : s.model? root.name = some root) (hp : s.Tests root p) :
    ∃ q passes depth,
      ({ store := s, model := root.name } : Query).narrowed (some p) = .ok q ∧ q.store = s ∧
      (q.IsTooDeep ∧ (∀ start size : ℕ, q.slice start (start + size) = .error .tooComplex) ∨
        q.Finds root passes) ∧
      ∀ n ≥ depth, ∀ r ∈ s.rows root.name,
        p.holdsDetached 0 (s.mirror n root r) [] (s.mirror n root r) = .ok (passes r) ∧
          (p.isDetachable false = true → p.holds 0 (s.mirror n root r) = .ok (passes r)) := by
  obtain ⟨f, passes, depth, hnarrowed, hselects, hholds⟩ := exists_narrowed_some hs hroot hp
  refine ⟨_, passes, depth, hnarrowed, rfl, ?_, hholds⟩
  by_cases hdeep : ({ store := s, model := root.name, filter := f } : Query).IsTooDeep
  · exact .inl ⟨hdeep, fun start size => slice_of_isTooDeep hdeep rfl start size⟩
  · exact .inr (hselects.finds hs hregular rfl hroot rfl rfl rfl hdeep)

/-! ## Two articles -/

def ada : Row where
  key := 1
  cells := [("name", .text "ada"), ("email", .text "")]

/-- A store of the bundled models with two articles of one author.  Only the second has a comment. -/
def twoArticles : Store where
  models := Bundled.models
  tables := [("Author", [ada]),
    ("Article", [{ key := 1, cells := [("title", .text "x"), ("author_id", .whole 1)] },
      { key := 2, cells := [("title", .text "y"), ("author_id", .whole 1)] }]),
    ("Comment", [{ key := 1, cells := [("article_id", .whole 2), ("body", .text "z")] }])]

/-- Asks for an article with the title of the first that has a comment like that of the second. -/
def commented : Predicate :=
  .any ["articles"] (.and [.equals ["title"] (.text "x"),
    .any ["comments"] (.equals ["body"] (.text "z"))])

theorem tests_words {m : Model} {name : String} (h : m.field? name = some Bundled.words)
    (text : String) : twoArticles.Tests m (.equals [name] (.text text)) :=
  .equals (.nil m) h (.plain (.text text))

theorem tests_commented : twoArticles.Tests Bundled.author commented := by
  have hcomments : twoArticles.Tests Bundled.article
      (.any ["comments"] (.equals ["body"] (.text "z"))) :=
    .any (.nil _) rfl rfl rfl (tests_words (m := Bundled.comment) rfl "z")
  have harticle : twoArticles.Tests Bundled.article
      (.and [.equals ["title"] (.text "x"), .any ["comments"] (.equals ["body"] (.text "z"))]) :=
    .and (List.forall_mem_cons.mpr
      ⟨tests_words rfl "x", List.forall_mem_singleton.mpr hcomments⟩)
  exact .any (.nil _) rfl rfl rfl harticle

/-- The author is found, although no article of his is like that: the comment of the second article
passes for one of the first. -/
theorem finds_detached_commented :
    (twoArticles.Sound ∧ Regular twoArticles.models ∧
        twoArticles.model? Bundled.author.name = some Bundled.author ∧
        twoArticles.Tests Bundled.author commented) ∧
      (∀ n, commented.holds 0 (twoArticles.mirror (n + 3) Bundled.author ada) = .ok false) ∧
      ∃ q, ({ store := twoArticles, model := "Author" } : Query).narrowed (some commented) = .ok q ∧
        q.count = .ok 1 ∧ q.slice 0 10 = .ok [.row "Author" 1] := by
  have hs : twoArticles.Sound := Store.sound_of_isSound (by decide +kernel)
  have hroot : twoArticles.model? Bundled.author.name = some Bundled.author := rfl
  refine ⟨⟨hs, Bundled.regular, hroot, tests_commented⟩, fun n => by cbv, ?_⟩
  have hshown : (({ store := twoArticles, model := "Author" } : Query).narrowed
      (some commented)).toOption.any fun q => (q.slice 0 10).toOption.isSome := by
    decide +kernel
  obtain ⟨q, passes, depth, hnarrowed, hstore, hfinds, hholds⟩ :=
    finds_detached hs Bundled.regular hroot tests_commented
  have hrows : q.store.rows Bundled.author.name = [ada] := hstore ▸ rfl
  refine ⟨q, hnarrowed, ?_⟩
  obtain ⟨-, hdeep⟩ | ⟨found, hnodup, hmem, hcount, hslice⟩ := hfinds
  · have hnarrowed' : ({ store := twoArticles, model := "Author" } : Query).narrowed
        (some commented) = .ok q := hnarrowed
    have hrefused : q.slice 0 10 = .error .tooComplex := hdeep 0 10
    rw [hnarrowed', Except.toOption, Option.any_some, hrefused] at hshown
    cases hshown
  · have hpasses : passes ada = true := by
      have hdetached := (hholds (depth + 3) (by omega) ada (List.mem_singleton_self ada)).1
      exact Except.ok.inj (hdetached.symm.trans (by cbv))
    have hone : found.Perm [ada] := by
      refine (List.perm_ext_iff_of_nodup (hnodup.of_map _) (List.nodup_singleton _)).mpr fun r => ?_
      rw [hmem, hrows, List.mem_singleton, and_iff_left_iff_imp]
      rintro rfl
      exact hpasses
    obtain rfl := List.perm_singleton.mp hone
    exact ⟨hcount, (hslice 0 10 (by decide)).resolve_right fun h => h.2 (by decide)⟩

end Query
end PageQuery
