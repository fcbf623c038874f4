import Mathlib
import PageQuery.Proofs.Predicate.Shape
import PageQuery.Proofs.Request.Spelling

/-!
# Which fields a predicate is about

The tests of a built predicate are all about one field, and the names that lead to it are the segments of
the path that was written, letter case aside.  There is one exception.  A path that ends on a collection of
records has no segment left for the elements, and its last one, which names the collection, is looked up a
second time: if the elements have a field of that name, they are tested by it.
-/

namespace PageQuery

open PageQuery.Text

namespace Predicate

mutual

/-- The names that lead to each field that a predicate tests, through collections as well. -/
def targets : Predicate → List (List String)
  | .equals field _ | .contains field _ | .range field _ _ => [field]
  | .any collection inner => inner.targets.map (collection ++ ·)
  | .and items | .or items => allTargets items
  | .absent | .unknown => []

def allTargets : List Predicate → List (List String)
  | [] => []
  | p :: ps => p.targets ++ allTargets ps

end

theorem allTargets_eq (ps : List Predicate) : allTargets ps = ps.flatMap targets := by
  induction ps with
  | nil => rfl
  | cons p ps ih => rw [allTargets, ih, List.flatMap_cons]

section Leaf

variable {placeholder : Value} {f : Field} {field : List String} {item : FilterItem} {p : Predicate}

theorem IsTest.targets_eq (h : IsTest f field item p) : p.targets = [field] := by
  cases h <;> rfl

/-- What an item asks of one field is about that field. -/
theorem IsLeaf.targets (h : IsLeaf placeholder f field item p) :
    p.targets ≠ [] ∧ ∀ names ∈ p.targets, names = field := by
  cases h with
  | range => exact ⟨List.cons_ne_nil _ _, fun names => List.mem_singleton.mp⟩
  | test hp =>
      rw [hp.targets_eq]
      exact ⟨List.cons_ne_nil _ _, fun names => List.mem_singleton.mp⟩
  | @or ps hlength hps =>
      rw [Predicate.targets, allTargets_eq]
      constructor
      · obtain ⟨q, rest, rfl⟩ := List.exists_cons_of_length_pos (Nat.zero_lt_of_lt hlength)
        rw [List.flatMap_cons, (hps q List.mem_cons_self).targets_eq]
        exact List.cons_ne_nil _ _
      · intro names hnames
        obtain ⟨q, hq, hnames⟩ := List.mem_flatMap.mp hnames
        rw [(hps q hq).targets_eq] at hnames
        exact List.mem_singleton.mp hnames

end Leaf

end Predicate

namespace Context

variable {x : Context} {root t : TypeRef} {segments rest : List String} {f : Field}
  {chain : List Field} {path : Option String} {p : ResolvedPath}

/-! ## Paths that end on records -/

/-- Following segments ends on a collection whose elements are records of a type. -/
def EndsOnRecords (x : Context) (root : TypeRef) (segments : List String) (t : TypeRef) : Prop :=
  ∃ chain f, x.Meets root segments chain [] ∧ chain.getLast? = some f ∧ f.target = some t

theorem Completes.not_endsOnRecords (h : x.Completes root segments chain) (t : TypeRef) :
    ¬ x.EndsOnRecords root segments t := by
  rintro ⟨_, _, hmeets, -, -⟩
  cases h.walk_eq.2.symm.trans hmeets.walk_eq.2

/-- A path that meets a collection ends on records of a type if nothing remains behind the collection and
that is the type which the collection leads to. -/
theorem Meets.endsOnRecords_iff (h : x.Meets root segments chain rest) (hlast : chain.getLast? = some f)
    (t : TypeRef) : x.EndsOnRecords root segments t ↔ rest = [] ∧ f.target = some t := by
  constructor
  · rintro ⟨chain', g, hmeets, hg, htarget⟩
    obtain rfl : chain = chain' := h.walk_eq.1.symm.trans hmeets.walk_eq.1
    obtain rfl : f = g := Option.some.inj (hlast.symm.trans hg)
    refine ⟨?_, htarget⟩
    injection h.walk_eq.2.symm.trans hmeets.walk_eq.2
  · rintro ⟨rfl, htarget⟩
    exact ⟨chain, f, h, hlast, htarget⟩

/-- The fields up to a collection have the names of the segments up to it. -/
theorem Meets.lower_names (hmade : x.registry.Made x.catalogue) (h : x.Meets root segments chain rest) :
    (chain.map (·.name)).map lower ++ rest.map lower = segments.map lower := by
  obtain ⟨hpasses, hfinds, -⟩ := h
  simp [← hpasses.lower_names hmade, hfinds.lower_name hmade]

/-- Names follow a path: they are its segments, letter case aside.  Where the path ends on a collection of
records, though, the last segment finds a field of the records as well, and stands twice. -/
def Follows (x : Context) (root : TypeRef) (segments names : List String) : Prop :=
  ((∀ t, ¬ x.EndsOnRecords root segments t) → names.map lower = segments.map lower) ∧
    ∀ t, x.EndsOnRecords root segments t →
      ∃ last f, segments.getLast? = some last ∧ x.Finds t last f ∧
        names.map lower = (segments ++ [last]).map lower

theorem Meets.getLast?_segments {last : String} (h : x.Meets root segments chain [last]) :
    segments.getLast? = some last := by
  obtain ⟨-, -, -⟩ := h
  simp

/-- A path that is followed to its end is spelled by the fields on it. -/
theorem Completes.follows (hmade : x.registry.Made x.catalogue) (h : x.Completes root segments chain) :
    x.Follows root segments (chain.map (·.name)) :=
  ⟨fun _ => h.lower_names hmade, fun t hends => absurd hends (h.not_endsOnRecords t)⟩

/-- So is a path that ends on a collection of single values. -/
theorem Meets.follows_of_values (hmade : x.registry.Made x.catalogue) (h : x.Meets root segments chain [])
    (hlast : chain.getLast? = some f) (htarget : f.target = none) :
    x.Follows root segments (chain.map (·.name)) := by
  refine ⟨fun _ => by simpa using h.lower_names hmade, fun t hends => ?_⟩
  simp [h.endsOnRecords_iff hlast, htarget] at hends

/-- In a collection of records the last segment of a path finds the field of the elements.  It is the one
behind the collection, if there is one, or else the one that found the collection. -/
theorem Meets.follows_of_records (hmade : x.registry.Made x.catalogue)
    (h : x.Meets root segments chain rest) (hone : rest.length ≤ 1) (hlast : chain.getLast? = some f)
    (htarget : f.target = some t) {g : Field} (hfinds : x.Finds t (segments.getLast?.getD "") g) :
    x.Follows root segments (chain.map (·.name) ++ [g.name]) := by
  have hnames := h.lower_names hmade
  have hlower := hfinds.lower_name hmade
  have hends := h.endsOnRecords_iff hlast
  obtain ⟨last, hsegments⟩ := Option.ne_none_iff_exists'.mp (mt List.getLast?_eq_none_iff.mp h.ne_nil)
  rw [hsegments, Option.getD_some] at hfinds hlower
  rcases Nat.le_one_iff_eq_zero_or_eq_one.mp hone with hnone | hsome
  · obtain rfl := List.length_eq_zero_iff.mp hnone
    refine ⟨fun hnot => absurd ((hends t).mpr ⟨rfl, htarget⟩) (hnot t), fun u hu => ?_⟩
    obtain rfl : t = u := Option.some.inj (htarget.symm.trans ((hends u).mp hu).2)
    exact ⟨last, g, hsegments, hfinds, by simpa [hlower] using hnames⟩
  · obtain ⟨segment, rfl⟩ := List.length_eq_one_iff.mp hsome
    refine ⟨fun _ => ?_, fun u hu => absurd ((hends u).mp hu).1 (List.cons_ne_nil _ _)⟩
    obtain rfl : last = segment := Option.some.inj (hsegments.symm.trans h.getLast?_segments)
    simpa [hlower] using hnames

/-! ## Resolved paths -/

theorem admits_of_resolve (h : x.resolve root path = .ok p) : ∃ limit, x.Admits limit root path p := by
  obtain ⟨_, -, hrest⟩ := Outcome.bind_eq_ok.mp h
  obtain ⟨limit, hlimit, -⟩ := Outcome.bind_eq_ok.mp hrest
  exact ⟨limit, (resolve_eq_ok_iff hlimit).mp h⟩

/-- The fields of a path that leads to one value follow it. -/
theorem follows_of_resolve (hmade : x.registry.Made x.catalogue) (h : x.resolve root path = .ok p)
    (hsingle : p.isCollection = false) : x.Follows root (pathSegments path) p.field := by
  obtain ⟨limit, ⟨hcompletes, -⟩ | ⟨hmeets, -, -⟩⟩ := admits_of_resolve h
  · exact hcompletes.follows hmade
  · obtain ⟨f, hlast, hcollection⟩ := hmeets.exists_last
    simp [ResolvedPath.isCollection, ResolvedPath.leaf, hlast, hcollection] at hsingle

/-- Elements that are no records are themselves what a path addresses, and it has no segment for them. -/
theorem residual_of_resolveElement {field : List String} (h : x.resolveElement p = .ok (f, field))
    (htarget : p.leaf.target = none) : p.residual = none ∧ field = [] := by
  rw [resolveElement, htarget] at h
  dsimp only at h
  split at h
  · cases h
  · rename_i hresidual
    obtain ⟨g, -, hg⟩ := Outcome.map_eq_ok.mp h
    exact ⟨hresidual, (Prod.mk.inj hg).2.symm⟩

/-- Elements that are records are addressed by a field that the last segment of the path finds. -/
theorem finds_of_resolveElement {field : List String} (h : x.resolveElement p = .ok (f, field))
    (htarget : p.leaf.target = some t) : x.Finds t p.cleanPath f ∧ field = [f.name] := by
  rw [resolveElement, htarget] at h
  dsimp only at h
  split at h
  · cases h
  · rename_i g hfound
    obtain ⟨rfl, rfl⟩ := Prod.mk.inj (Except.ok.inj h)
    obtain ⟨table, htable, hg⟩ := Outcome.map_eq_ok.mp hfound
    exact ⟨⟨table, htable, hg⟩, rfl⟩
  · cases h

/-- The fields up to a collection, and then the one of its elements, follow the path. -/
theorem follows_of_resolveElement (hmade : x.registry.Made x.catalogue)
    (h : x.resolve root path = .ok p) (hcollection : p.isCollection = true) {field : List String}
    (helement : x.resolveElement p = .ok (f, field)) :
    x.Follows root (pathSegments path) (p.field ++ field) := by
  obtain ⟨limit, ⟨hcompletes, -⟩ | @⟨chain, rest, hmeets, hone, -⟩⟩ := admits_of_resolve h
  · obtain ⟨g, hlast, hsingle⟩ := hcompletes.exists_last
    simp [ResolvedPath.isCollection, ResolvedPath.leaf, hlast, hsingle] at hcollection
  obtain ⟨g, hlast, -⟩ := hmeets.exists_last
  cases htarget : g.target with
  | none =>
      obtain ⟨hresidual, rfl⟩ :=
        residual_of_resolveElement helement (by simpa [ResolvedPath.leaf, hlast] using htarget)
      obtain rfl : rest = [] := List.head?_eq_none_iff.mp hresidual
      rw [List.append_nil]
      exact hmeets.follows_of_values hmade hlast htarget
  | some t =>
      obtain ⟨hfinds, rfl⟩ :=
        finds_of_resolveElement helement (by simpa [ResolvedPath.leaf, hlast] using htarget)
      exact hmeets.follows_of_records hmade hone hlast htarget hfinds

end Context

namespace Predicate

variable {x : Context} {root : TypeRef} {item : FilterItem} {p : Predicate}

/-! ## The fields of a built predicate -/

/-- Whatever an item is built to tests something, and all that it tests is the field which the path of the
item spells.  A path that ends on a collection of records spells none of their fields, and is built only if
they have a field by the name of the collection, which is what is tested then. -/
theorem targets_of_ofItem (hmade : x.registry.Made x.catalogue) (h : ofItem x root item = .ok p) :
    p.targets ≠ [] ∧ ∀ names ∈ p.targets, x.Follows root (pathSegments item.property) names := by
  cases isClause_of_ofItem h with
  | leaf hpath hcollection _ hp =>
      obtain ⟨hsome, hall⟩ := hp.targets
      refine ⟨hsome, fun names hnames => ?_⟩
      rw [hall names hnames]
      exact Context.follows_of_resolve hmade hpath hcollection
  | any hpath hcollection _ helement _ hinner =>
      obtain ⟨hsome, hall⟩ := hinner.targets
      rw [targets]
      refine ⟨mt List.map_eq_nil_iff.mp hsome, fun names hnames => ?_⟩
      obtain ⟨field, hfield, rfl⟩ := List.mem_map.mp hnames
      rw [hall field hfield]
      exact Context.follows_of_resolveElement hmade hpath hcollection helement

/-- Notes whose tags are records, which have a field of the same name. -/
def journal : Context where
  catalogue :=
    { records :=
        [⟨"Note", true, [], [("tags", .collection "list" false [.type (.record "Entry")])]⟩,
          ⟨"Entry", true, [], [("tags", .type (.builtin "str"))]⟩] }

/-- A note that is asked for its tags is asked for the tags of its tags, as it is by the longer path. -/
theorem targets_of_ofItem_journal :
    ofItem journal (.record "Note") ⟨some "Tags", [some "x"]⟩ =
        .ok (.any ["tags"] (.contains ["tags"] "x")) ∧
      journal.EndsOnRecords (.record "Note") ["Tags"] (.record "Entry") ∧
      journal.Follows (.record "Note") ["Tags"] ["tags", "tags"] ∧
      (∀ t, ¬ journal.EndsOnRecords (.record "Note") ["tags", "tags"] t) ∧
      journal.Follows (.record "Note") ["tags", "tags"] ["tags", "tags"] := by
  have hshort : ofItem journal (.record "Note") ⟨some "Tags", [some "x"]⟩ =
      .ok (.any ["tags"] (.contains ["tags"] "x")) := rfl
  have hlong : ofItem journal (.record "Note") ⟨some "tags.tags", [some "x"]⟩ =
      .ok (.any ["tags"] (.contains ["tags"] "x")) := rfl
  have hmeets (segment : String) (hsegment : lower segment = "tags") (rest : List String) :
      ∃ f, journal.Meets (.record "Note") ([] ++ segment :: rest) [f] rest ∧
        f.target = some (.record "Entry") :=
    ⟨_, .intro (.start _) ⟨_, rfl, by rw [hsegment]; rfl⟩ rfl, rfl⟩
  refine ⟨hshort, ?_, ?_, ?_, ?_⟩
  · obtain ⟨f, hmeets, htarget⟩ := hmeets "Tags" rfl []
    exact ⟨_, f, hmeets, rfl, htarget⟩
  · exact (targets_of_ofItem .empty hshort).2 _ List.mem_cons_self
  · obtain ⟨f, hmeets, -⟩ := hmeets "tags" rfl ["tags"]
    exact fun t hends => List.cons_ne_nil _ _ ((hmeets.endsOnRecords_iff rfl t).mp hends).1
  · exact (targets_of_ofItem .empty hlong).2 _ List.mem_cons_self

end Predicate
end PageQuery
