import Mathlib
import PageQuery.Proofs.Request.PathErrors

/-!
# Which paths may be walked

Following the segments of a path from a type passes fields that lead to one record each, until it comes
to the last segment, to a collection, to a name that is not there, or to a field that leads nowhere.
That, the number of segments and the depth limit decide what becomes of the path: the check of the depth
and the walk itself look at different stretches of it, and this module says what the two come to
together.
-/

namespace PageQuery

open PageQuery.Text

/-- The segments of a path: its parts between points, trimmed, without those of which nothing is left. -/
def pathSegments (path : Option String) : List String :=
  ((split '.' (path.getD "")).map trim).filter (!·.isEmpty)

theorem splitPath_of_nil {path : Option String} (h : pathSegments path = []) :
    splitPath path = .error (.emptyPath path) := by
  rw [splitPath, ← pathSegments, h]

theorem splitPath_of_ne_nil {path : Option String} (h : pathSegments path ≠ []) :
    splitPath path = .ok (pathSegments path) := by
  rw [splitPath, ← pathSegments]
  split
  · contradiction
  · rfl

namespace Context

variable {x : Context} {root t u : TypeRef} {segments before rest : List String}
  {segment : String} {f : Field} {chain passed : List Field}

/-! ## Where a path leads -/

/-- A type has a field under the name of a segment, letter case aside. -/
def Finds (x : Context) (t : TypeRef) (segment : String) (f : Field) : Prop :=
  ∃ table, x.table t = .ok table ∧ table.entries.lookup (lower segment) = some f

/-- A type has no field under the name of a segment. -/
def Lacks (x : Context) (t : TypeRef) (segment : String) : Prop :=
  ∃ table, x.table t = .ok table ∧ table.entries.lookup (lower segment) = none

/-- Following segments from a type passes one field after the other, each of which leads to a single
record of the next type. -/
inductive Passes (x : Context) : TypeRef → List String → List Field → TypeRef → Prop
  | start (t : TypeRef) : Passes x t [] [] t
  | step {t u v : TypeRef} {segment : String} {rest : List String} {f : Field} {fs : List Field}
      (hfinds : x.Finds t segment f) (hsingle : f.isCollection = false) (htarget : f.target = some u)
      (hrest : Passes x u rest fs v) : Passes x t (segment :: rest) (f :: fs) v

/-- Every segment is found, and no field on the way is a collection. -/
inductive Completes (x : Context) (root : TypeRef) : List String → List Field → Prop
  | intro {before : List String} {passed : List Field} {t : TypeRef} {segment : String} {f : Field}
      (hpasses : x.Passes root before passed t) (hfinds : x.Finds t segment f)
      (hsingle : f.isCollection = false) : Completes x root (before ++ [segment]) (passed ++ [f])

/-- A collection is met, and some segments remain behind it. -/
inductive Meets (x : Context) (root : TypeRef) : List String → List Field → List String → Prop
  | intro {before rest : List String} {passed : List Field} {t : TypeRef} {segment : String}
      {f : Field} (hpasses : x.Passes root before passed t) (hfinds : x.Finds t segment f)
      (hcollection : f.isCollection = true) :
      Meets x root (before ++ segment :: rest) (passed ++ [f]) rest

/-- A type that is come to lacks the name of the next segment, and some segments remain behind that
one. -/
inductive Misses (x : Context) (root : TypeRef) :
    List String → TypeRef → String → List String → Prop
  | intro {before rest : List String} {passed : List Field} {t : TypeRef} {segment : String}
      (hpasses : x.Passes root before passed t) (hlacks : x.Lacks t segment) :
      Misses x root (before ++ segment :: rest) t segment rest

/-- A field leads to no record, but there is a next segment. -/
inductive RunsOut (x : Context) (root : TypeRef) : List String → Field → String → Prop
  | intro {before rest : List String} {passed : List Field} {t : TypeRef} {segment next : String}
      {f : Field} (hpasses : x.Passes root before passed t) (hfinds : x.Finds t segment f)
      (hsingle : f.isCollection = false) (htarget : f.target = none) :
      RunsOut x root (before ++ segment :: next :: rest) f next

/-- A type that is come to has no table, and some segments remain behind the next one. -/
inductive Breaks (x : Context) (root : TypeRef) : List String → Fault → List String → Prop
  | intro {before rest : List String} {passed : List Field} {t : TypeRef} {segment : String}
      {fault : Fault} (hpasses : x.Passes root before passed t) (hbroken : x.table t = .error fault) :
      Breaks x root (before ++ segment :: rest) fault rest

/-- Following segments comes to one at which it stops. -/
theorem exists_stop (x : Context) (root : TypeRef) (h : segments ≠ []) :
    ∃ before segment rest passed t, segments = before ++ segment :: rest ∧
      x.Passes root before passed t ∧
      ((∃ fault, x.table t = .error fault) ∨ x.Lacks t segment ∨
        ∃ f, x.Finds t segment f ∧
          (f.isCollection = true ∨ f.isCollection = false ∧ (rest = [] ∨ f.target = none))) := by
  induction segments generalizing root with
  | nil => exact absurd rfl h
  | cons segment rest ih =>
      cases htable : x.table root with
      | error fault =>
          exact ⟨[], segment, rest, [], root, rfl, .start root, .inl ⟨fault, htable⟩⟩
      | ok table =>
          cases hfound : table.entries.lookup (lower segment) with
          | none =>
              exact ⟨[], segment, rest, [], root, rfl, .start root, .inr (.inl ⟨table, htable, hfound⟩)⟩
          | some f =>
              have hfinds : x.Finds root segment f := ⟨table, htable, hfound⟩
              by_cases hstop : f.isCollection = true ∨
                  f.isCollection = false ∧ (rest = [] ∨ f.target = none)
              · exact ⟨[], segment, rest, [], root, rfl, .start root, .inr (.inr ⟨f, hfinds, hstop⟩)⟩
              · simp only [not_or, not_and, Bool.not_eq_true] at hstop
                obtain ⟨hsingle, hon⟩ := hstop
                obtain ⟨hrest, htarget⟩ := hon hsingle
                obtain ⟨u, hu⟩ := Option.ne_none_iff_exists'.mp htarget
                obtain ⟨before, segment', rest', passed, t, rfl, hpasses, hstop⟩ := ih u hrest
                exact ⟨segment :: before, segment', rest', f :: passed, t, rfl,
                  .step hfinds hsingle hu hpasses, hstop⟩

/-- A path has segments, and following them ends in one of five ways. -/
theorem exists_ending (x : Context) (root : TypeRef) (h : segments ≠ []) :
    (∃ chain, x.Completes root segments chain) ∨ (∃ chain rest, x.Meets root segments chain rest) ∨
      (∃ t segment rest, x.Misses root segments t segment rest) ∨
      (∃ f next, x.RunsOut root segments f next) ∨
      ∃ fault rest, x.Breaks root segments fault rest := by
  obtain ⟨before, segment, rest, passed, t, rfl, hpasses, hstop⟩ := exists_stop x root h
  rcases hstop with ⟨fault, hbroken⟩ | hlacks | ⟨f, hfinds, hcollection | ⟨hsingle, hlast⟩⟩
  · exact .inr (.inr (.inr (.inr ⟨fault, rest, .intro hpasses hbroken⟩)))
  · exact .inr (.inr (.inl ⟨t, segment, rest, .intro hpasses hlacks⟩))
  · exact .inr (.inl ⟨_, rest, .intro hpasses hfinds hcollection⟩)
  · cases rest with
    | nil => exact .inl ⟨_, .intro hpasses hfinds hsingle⟩
    | cons next rest =>
        have htarget : f.target = none := hlast.resolve_left (List.cons_ne_nil _ _)
        exact .inr (.inr (.inr (.inl ⟨f, next, .intro hpasses hfinds hsingle htarget⟩)))

theorem Completes.ne_nil (h : x.Completes root segments chain) : segments ≠ [] := by
  cases h
  simp

theorem Meets.ne_nil (h : x.Meets root segments chain rest) : segments ≠ [] := by
  cases h
  simp

theorem Misses.ne_nil (h : x.Misses root segments t segment rest) : segments ≠ [] := by
  cases h
  simp

theorem RunsOut.ne_nil {next : String} (h : x.RunsOut root segments f next) : segments ≠ [] := by
  cases h
  simp

theorem Breaks.ne_nil {fault : Fault} (h : x.Breaks root segments fault rest) : segments ≠ [] := by
  cases h
  simp

/-! ## Walks -/

theorem map_find?_of_finds (h : x.Finds t segment f) :
    (x.table t).map (·.find? segment) = .ok (some f) := by
  obtain ⟨table, htable, hfound⟩ := h
  rw [htable, Except.map, Table.find?, hfound]

theorem map_find?_of_lacks (h : x.Lacks t segment) :
    (x.table t).map (·.find? segment) = .ok none := by
  obtain ⟨table, htable, hfound⟩ := h
  rw [htable, Except.map, Table.find?, hfound]

/-- Passed fields stand at the head of a walk, which ends as the one behind them does. -/
theorem Passes.walk_append (h : x.Passes t before passed u) (hrest : rest ≠ []) :
    (walk x.table t (before ++ rest)).fields = passed ++ (walk x.table u rest).fields ∧
      (walk x.table t (before ++ rest)).stop = (walk x.table u rest).stop := by
  induction h with
  | start => exact ⟨rfl, rfl⟩
  | step hfinds hsingle htarget _ ih =>
      obtain ⟨next, more, hmore⟩ := List.exists_cons_of_ne_nil (List.append_ne_nil_of_right_ne_nil _ hrest)
      rw [hmore] at ih
      rw [List.cons_append, hmore, walk, map_find?_of_finds hfinds]
      simp only [hsingle, Bool.false_eq_true, if_false, htarget, List.cons_append]
      exact ⟨congrArg _ ih.1, ih.2⟩

/-- Nothing stops a walk along fields that are passed. -/
theorem Passes.walk_stop (h : x.Passes t before passed u) :
    (walk x.table t before).stop = .complete := by
  induction h with
  | start => rfl
  | @step t u v segment rest f fs hfinds hsingle htarget _ ih =>
      rw [walk, map_find?_of_finds hfinds]
      cases rest with
      | nil => simp [hsingle]
      | cons next rest => simp [hsingle, htarget, ih]

theorem Completes.walk_eq (h : x.Completes root segments chain) :
    (walk x.table root segments).fields = chain ∧
      (walk x.table root segments).stop = .complete := by
  obtain ⟨hpasses, hfinds, hsingle⟩ := h
  obtain ⟨hfields, hstop⟩ := hpasses.walk_append (List.cons_ne_nil _ [])
  rw [hfields, hstop, walk, map_find?_of_finds hfinds]
  simp [hsingle]

theorem Meets.walk_eq (h : x.Meets root segments chain rest) :
    (walk x.table root segments).fields = chain ∧
      (walk x.table root segments).stop = .collection rest := by
  obtain ⟨hpasses, hfinds, hcollection⟩ := h
  obtain ⟨hfields, hstop⟩ := hpasses.walk_append (List.cons_ne_nil _ rest)
  rw [hfields, hstop, walk, map_find?_of_finds hfinds]
  simp [hcollection]

theorem Misses.walk_stop (h : x.Misses root segments t segment rest) :
    (walk x.table root segments).stop = .missing t segment := by
  obtain ⟨hpasses, hlacks⟩ := h
  rw [(hpasses.walk_append (List.cons_ne_nil _ rest)).2, walk, map_find?_of_lacks hlacks]

theorem RunsOut.walk_eq {next : String} (h : x.RunsOut root segments f next) :
    (walk x.table root segments).fields.getLast? = some f ∧
      (walk x.table root segments).stop = .noFields next := by
  obtain ⟨hpasses, hfinds, hsingle, htarget⟩ := h
  obtain ⟨hfields, hstop⟩ := hpasses.walk_append (List.cons_ne_nil _ (_ :: _))
  rw [hfields, hstop, walk, map_find?_of_finds hfinds]
  simp [hsingle, htarget]

theorem Breaks.walk_stop {fault : Fault} (h : x.Breaks root segments fault rest) :
    (walk x.table root segments).stop = .broken fault := by
  obtain ⟨hpasses, hbroken⟩ := h
  rw [(hpasses.walk_append (List.cons_ne_nil _ rest)).2, walk, hbroken]
  rfl

/-! ## The check of the depth

A path within the limit passes the check.  Of a longer one the check walks along all segments but the
last, so it meets what the walk meets if some segment remains behind it; otherwise it passes fields to
the end, and the path is too deep. -/

/-- Leaving the last segment out makes no difference to a stop that has segments behind it. -/
theorem dropLast_stop (before : List String) (segment : String) (hrest : rest ≠ []) :
    (before ++ segment :: rest).dropLast = before ++ segment :: rest.dropLast := by
  rw [List.dropLast_append_of_ne_nil (List.cons_ne_nil _ _), List.dropLast_cons_of_ne_nil hrest]

section Depth

variable {path : Option String} {limit : Whole}

theorem checkDepth_of_short (h : (segments.length : ℤ) ≤ limit.number) :
    x.checkDepth root path limit segments = .ok () := if_pos h

theorem checkDepth_of_complete (hlong : ¬ (segments.length : ℤ) ≤ limit.number)
    (h : (walk x.table root segments.dropLast).stop = .complete) :
    x.checkDepth root path limit segments = .error (.request (.tooDeep path limit)) := by
  rw [checkDepth, if_neg hlong, h]

/-- A path that is too long and stops at its last segment is too deep, whatever it stops at. -/
theorem Passes.checkDepth_of_last (h : x.Passes root before passed t)
    (hlong : ¬ ((before ++ [segment]).length : ℤ) ≤ limit.number) :
    x.checkDepth root path limit (before ++ [segment]) = .error (.request (.tooDeep path limit)) := by
  refine checkDepth_of_complete hlong ?_
  rw [List.dropLast_concat, h.walk_stop]

theorem Completes.checkDepth_eq (h : x.Completes root segments chain)
    (hlong : ¬ (segments.length : ℤ) ≤ limit.number) :
    x.checkDepth root path limit segments = .error (.request (.tooDeep path limit)) := by
  obtain ⟨hpasses, -, -⟩ := h
  exact hpasses.checkDepth_of_last hlong

theorem Meets.checkDepth_eq (h : x.Meets root segments chain rest)
    (hlong : ¬ (segments.length : ℤ) ≤ limit.number) :
    x.checkDepth root path limit segments =
      if rest = [] then .error (.request (.tooDeep path limit)) else .ok () := by
  obtain ⟨hpasses, hfinds, hcollection⟩ := h
  split
  · rename_i hlast
    subst hlast
    exact hpasses.checkDepth_of_last hlong
  · rename_i hrest
    rw [checkDepth, if_neg hlong, dropLast_stop _ _ hrest,
      (Meets.intro hpasses hfinds hcollection).walk_eq.2]

theorem Misses.checkDepth_eq (h : x.Misses root segments t segment rest)
    (hlong : ¬ (segments.length : ℤ) ≤ limit.number) :
    x.checkDepth root path limit segments = .error (.request
      (if rest = [] then .tooDeep path limit else unknownField t segment path)) := by
  obtain ⟨hpasses, hlacks⟩ := h
  split
  · rename_i hlast
    subst hlast
    exact hpasses.checkDepth_of_last hlong
  · rename_i hrest
    rw [checkDepth, if_neg hlong, dropLast_stop _ _ hrest, (Misses.intro hpasses hlacks).walk_stop]

theorem RunsOut.checkDepth_eq {next : String} (h : x.RunsOut root segments f next)
    (hlong : ¬ (segments.length : ℤ) ≤ limit.number) :
    x.checkDepth root path limit segments = .error (.request (.tooDeep path limit)) := by
  obtain ⟨hpasses, hfinds, hsingle, htarget⟩ := h
  rename_i before rest passed t segment
  rw [checkDepth, if_neg hlong, dropLast_stop _ _ (List.cons_ne_nil _ _)]
  cases rest with
  | nil =>
      rw [List.dropLast_singleton, (Completes.intro hpasses hfinds hsingle).walk_eq.2]
  | cons more rest =>
      rw [List.dropLast_cons_cons, (RunsOut.intro hpasses hfinds hsingle htarget).walk_eq.2]

theorem Breaks.checkDepth_eq {fault : Fault} (h : x.Breaks root segments fault rest)
    (hlong : ¬ (segments.length : ℤ) ≤ limit.number) :
    x.checkDepth root path limit segments =
      .error (if rest = [] then .request (.tooDeep path limit) else .fault fault) := by
  obtain ⟨hpasses, hbroken⟩ := h
  split
  · rename_i hlast
    subst hlast
    exact hpasses.checkDepth_of_last hlong
  · rename_i hrest
    rw [checkDepth, if_neg hlong, dropLast_stop _ _ hrest, (Breaks.intro hpasses hbroken).walk_stop]

end Depth

/-! ## What becomes of a path -/

/-- The policy admits a path that is followed to its end within the limit, and one that meets a
collection with at most one segment behind it, if it is within the limit or there is that segment. -/
inductive Admits (x : Context) (limit : Whole) (root : TypeRef) (path : Option String) :
    ResolvedPath → Prop
  | whole {chain : List Field} (hcompletes : x.Completes root (pathSegments path) chain)
      (hshort : ((pathSegments path).length : ℤ) ≤ limit.number) :
      Admits x limit root path ⟨path, chain, (pathSegments path).getLast?.getD "", none⟩
  | collection {chain : List Field} {rest : List String}
      (hmeets : x.Meets root (pathSegments path) chain rest) (hone : rest.length ≤ 1)
      (hdepth : ((pathSegments path).length : ℤ) ≤ limit.number ∨ rest ≠ []) :
      Admits x limit root path ⟨path, chain, (pathSegments path).getLast?.getD "", rest.head?⟩

section Resolve

variable {path : Option String} {limit : Whole}

theorem resolve_of_nil (h : pathSegments path = []) :
    x.resolve root path = .error (.request (.emptyPath path)) := by
  rw [resolve, splitPath_of_nil h]
  rfl

variable (hlimit : x.settings.maxPathDepth = .ok limit)

include hlimit

theorem resolve_of_checkDepth {r : Except Failure Unit} (hsegments : pathSegments path ≠ [])
    (h : x.checkDepth root path limit (pathSegments path) = r) :
    x.resolve root path = r >>= fun _ => x.resolveSegments root path (pathSegments path) := by
  rw [resolve, splitPath_of_ne_nil hsegments, hlimit, ← h]
  rfl

theorem resolve_of_short (hsegments : pathSegments path ≠ [])
    (hshort : ((pathSegments path).length : ℤ) ≤ limit.number) :
    x.resolve root path = x.resolveSegments root path (pathSegments path) :=
  resolve_of_checkDepth hlimit hsegments (checkDepth_of_short hshort)

theorem Completes.resolve_eq (h : x.Completes root (pathSegments path) chain) :
    x.resolve root path =
      if ((pathSegments path).length : ℤ) ≤ limit.number then
        .ok ⟨path, chain, (pathSegments path).getLast?.getD "", none⟩
      else .error (.request (.tooDeep path limit)) := by
  split
  · rename_i hshort
    obtain ⟨hfields, hstop⟩ := h.walk_eq
    rw [resolve_of_short hlimit h.ne_nil hshort, resolveSegments, hstop, hfields]
  · rename_i hlong
    rw [resolve_of_checkDepth hlimit h.ne_nil (h.checkDepth_eq hlong), Outcome.error_bind]

theorem Meets.resolve_eq (h : x.Meets root (pathSegments path) chain rest) :
    x.resolve root path =
      if ((pathSegments path).length : ℤ) ≤ limit.number ∨ rest ≠ [] then
        if rest.length ≤ 1 then
          .ok ⟨path, chain, (pathSegments path).getLast?.getD "", rest.head?⟩
        else .error (.request (.pastCollection path ((chain.getLast?.map (·.name)).getD "")))
      else .error (.request (.tooDeep path limit)) := by
  have hsegments : x.resolveSegments root path (pathSegments path) =
      if rest.length ≤ 1 then .ok ⟨path, chain, (pathSegments path).getLast?.getD "", rest.head?⟩
      else .error (.request (.pastCollection path ((chain.getLast?.map (·.name)).getD ""))) := by
    obtain ⟨hfields, hstop⟩ := h.walk_eq
    rw [resolveSegments, hstop, hfields]
    rcases rest with _ | ⟨last, _ | ⟨next, rest⟩⟩
    · rfl
    · rfl
    · rfl
  by_cases hshort : ((pathSegments path).length : ℤ) ≤ limit.number
  · rw [resolve_of_short hlimit h.ne_nil hshort, hsegments]
    exact (if_pos (.inl hshort)).symm
  · rw [resolve_of_checkDepth hlimit h.ne_nil (h.checkDepth_eq hshort)]
    by_cases hlast : rest = []
    · rw [if_pos hlast, Outcome.error_bind]
      exact (if_neg (by simp [hshort, hlast])).symm
    · rw [if_neg hlast, Outcome.ok_bind, hsegments]
      exact (if_pos (.inr hlast)).symm

theorem Misses.resolve_eq (h : x.Misses root (pathSegments path) t segment rest) :
    x.resolve root path = .error (.request
      (if ((pathSegments path).length : ℤ) ≤ limit.number ∨ rest ≠ [] then
        unknownField t segment path
      else .tooDeep path limit)) := by
  by_cases hshort : ((pathSegments path).length : ℤ) ≤ limit.number
  · rw [resolve_of_short hlimit h.ne_nil hshort, resolveSegments, h.walk_stop, if_pos (.inl hshort)]
  · rw [resolve_of_checkDepth hlimit h.ne_nil (h.checkDepth_eq hshort), Outcome.error_bind]
    by_cases hlast : rest = []
    · rw [if_pos hlast, if_neg (by simp [hshort, hlast])]
    · rw [if_neg hlast, if_pos (.inr hlast)]

theorem RunsOut.resolve_eq {next : String} (h : x.RunsOut root (pathSegments path) f next) :
    x.resolve root path = .error (.request
      (if ((pathSegments path).length : ℤ) ≤ limit.number then .noFields next path f.name
      else .tooDeep path limit)) := by
  split
  · rename_i hshort
    obtain ⟨hlast, hstop⟩ := h.walk_eq
    rw [resolve_of_short hlimit h.ne_nil hshort, resolveSegments, hstop, hlast]
    rfl
  · rename_i hlong
    rw [resolve_of_checkDepth hlimit h.ne_nil (h.checkDepth_eq hlong), Outcome.error_bind]

theorem Breaks.resolve_eq {fault : Fault} (h : x.Breaks root (pathSegments path) fault rest) :
    x.resolve root path = .error
      (if ((pathSegments path).length : ℤ) ≤ limit.number ∨ rest ≠ [] then .fault fault
      else .request (.tooDeep path limit)) := by
  by_cases hshort : ((pathSegments path).length : ℤ) ≤ limit.number
  · rw [resolve_of_short hlimit h.ne_nil hshort, resolveSegments, h.walk_stop, if_pos (.inl hshort)]
  · rw [resolve_of_checkDepth hlimit h.ne_nil (h.checkDepth_eq hshort), Outcome.error_bind]
    by_cases hlast : rest = []
    · rw [if_pos hlast, if_neg (by simp [hshort, hlast])]
    · rw [if_neg hlast, if_pos (.inr hlast)]

/-- A path is resolved exactly if the policy admits it. -/
theorem resolve_eq_ok_iff {p : ResolvedPath} :
    x.resolve root path = .ok p ↔ x.Admits limit root path p := by
  constructor
  · intro h
    by_cases hsegments : pathSegments path = []
    · rw [resolve_of_nil hsegments] at h
      cases h
    rcases exists_ending x root hsegments with ⟨chain, hend⟩ | ⟨chain, rest, hend⟩ |
      ⟨t, segment, rest, hend⟩ | ⟨f, next, hend⟩ | ⟨fault, rest, hend⟩
    · rw [hend.resolve_eq hlimit] at h
      split at h
      · rename_i hshort
        exact Except.ok.inj h ▸ .whole hend hshort
      · cases h
    · rw [hend.resolve_eq hlimit] at h
      split at h
      · rename_i hdepth
        split at h
        · rename_i hone
          exact Except.ok.inj h ▸ .collection hend hone hdepth
        · cases h
      · cases h
    · rw [hend.resolve_eq hlimit] at h
      cases h
    · rw [hend.resolve_eq hlimit] at h
      cases h
    · rw [hend.resolve_eq hlimit] at h
      cases h
  · rintro (⟨hcompletes, hshort⟩ | ⟨hmeets, hone, hdepth⟩)
    · rw [hcompletes.resolve_eq hlimit, if_pos hshort]
    · rw [hmeets.resolve_eq hlimit, if_pos hdepth, if_pos hone]

end Resolve

end Context

def Outcome.kind? {α : Type} (r : Except Failure α) : Option ErrorKind :=
  (request? r).map (·.kind)

namespace Context

/-- The navigation policy.  A path is resolved exactly if it is admitted.  One without segments is badly
written; a name that is not there, found missing before the last segment or within the limit, is reported
as such, and so is a step behind a field that leads nowhere, within the limit; whatever else is wrong
makes the path too deep.  Where a type that is looked at has no table, there is nothing to walk along, and
the fault of making the table comes out. -/
theorem resolve_policy {x : Context} {limit : Whole} (hlimit : x.settings.maxPathDepth = .ok limit)
    (root : TypeRef) (path : Option String) :
    (∀ p, x.resolve root path = .ok p ↔ x.Admits limit root path p) ∧
    (pathSegments path = [] → Outcome.kind? (x.resolve root path) = some .filterFormat) ∧
    (∀ t segment rest, x.Misses root (pathSegments path) t segment rest →
      ((pathSegments path).length : ℤ) ≤ limit.number ∨ rest ≠ [] →
        Outcome.kind? (x.resolve root path) = some .propertyNotFound) ∧
    (∀ f next, x.RunsOut root (pathSegments path) f next →
      Outcome.kind? (x.resolve root path) =
        some (if ((pathSegments path).length : ℤ) ≤ limit.number then .propertyNotFound
          else .pathTooDeep)) ∧
    (∀ t ∈ x.consulted root path, ∀ fault, x.table t = .error fault →
      x.resolve root path = .error (.fault fault)) ∧
    ((∀ t ∈ x.consulted root path, ∃ table, x.table t = .ok table) → pathSegments path ≠ [] →
      (∀ p, ¬ x.Admits limit root path p) →
      (∀ t segment rest, x.Misses root (pathSegments path) t segment rest →
        limit.number < (pathSegments path).length ∧ rest = []) →
      (∀ f next, ¬ x.RunsOut root (pathSegments path) f next) →
      Outcome.kind? (x.resolve root path) = some .pathTooDeep) := by
  refine ⟨fun p => resolve_eq_ok_iff hlimit, ?_, ?_, ?_, ?_, ?_⟩
  · intro hnil
    rw [resolve_of_nil hnil]
    rfl
  · intro t segment rest hmisses hdepth
    rw [hmisses.resolve_eq hlimit, if_pos hdepth]
    rfl
  · intro f next hruns
    rw [hruns.resolve_eq hlimit]
    split <;> rfl
  · intro t ht fault hfault
    exact resolve_of_broken ht hfault
  · intro hmade hsegments hadmits hmisses hruns
    rcases exists_ending x root hsegments with ⟨chain, hend⟩ | ⟨chain, rest, hend⟩ |
      ⟨t, segment, rest, hend⟩ | ⟨f, next, hend⟩ | ⟨fault, rest, hend⟩
    · rw [hend.resolve_eq hlimit, if_neg fun hshort => hadmits _ (.whole hend hshort)]
      rfl
    · rw [hend.resolve_eq hlimit]
      split
      · rename_i hdepth
        rw [if_neg fun hone => hadmits _ (.collection hend hone hdepth)]
        rfl
      · rfl
    · obtain ⟨hlong, hlast⟩ := hmisses t segment rest hend
      rw [hend.resolve_eq hlimit, if_neg (by simp [hlast, hlong])]
      rfl
    · exact absurd hend (hruns f next)
    · have hresolve := hend.resolve_eq hlimit
      split at hresolve
      · rcases resolve_error hlimit hresolve with ⟨r, hr, -⟩ | ⟨_, -, t, ht, hbroken⟩
        · cases hr
        · obtain ⟨table, htable⟩ := hmade t ht
          rw [hbroken] at htable
          cases htable
      · rw [hresolve]
        rfl

def articles : Field where
  name := "articles"
  kind := .collection
  target := some (.record "Article")

def author : Field where
  name := "author"
  kind := .relation
  target := some (.record "Author")

/-- A registry with the tables of authors and articles. -/
def writings : Context where
  catalogue := {}
  registry :=
    { tables :=
        [(.record "Author", .ofFields [{ name := "name", kind := .string }, articles]),
          (.record "Article", .ofFields [{ name := "title", kind := .string }, author])] }

/-- Three segments are one too many, unless a collection lies before the last one. -/
theorem resolve_policy_writings :
    writings.resolve (.record "Article") (some "Author. ARTICLES .title") =
        .ok ⟨some "Author. ARTICLES .title", [author, articles], "title", some "title"⟩ ∧
      Outcome.kind? (writings.resolve (.record "Article") (some "author.age.years")) =
        some .propertyNotFound ∧
      Outcome.kind? (writings.resolve (.record "Article") (some "author.name.first")) =
        some .pathTooDeep := by
  have hauthor (segment : String) (h : lower segment = "author") :
      writings.Finds (.record "Article") segment author := ⟨_, rfl, by rw [h]; rfl⟩
  have hpasses (segment : String) (h : lower segment = "author") :
      writings.Passes (.record "Article") [segment] [author] (.record "Author") :=
    .step (hauthor segment h) rfl rfl (.start _)
  have hlimit : writings.settings.maxPathDepth = .ok (.ofInt 2) := rfl
  have hmeets : writings.Meets (.record "Article") (["Author"] ++ "ARTICLES" :: ["title"])
      ([author] ++ [articles]) ["title"] :=
    .intro (hpasses "Author" rfl) ⟨_, rfl, rfl⟩ rfl
  have hmisses : writings.Misses (.record "Article") (["author"] ++ "age" :: ["years"])
      (.record "Author") "age" ["years"] :=
    .intro (hpasses "author" rfl) ⟨_, rfl, rfl⟩
  have hruns : writings.RunsOut (.record "Article") (["author"] ++ "name" :: ["first"])
      { name := "name", kind := .string } "first" :=
    .intro (hpasses "author" rfl) ⟨_, rfl, rfl⟩ rfl rfl
  refine ⟨?_, ?_, ?_⟩
  · refine ((resolve_policy hlimit _ _).1 _).mpr ?_
    exact .collection hmeets le_rfl (.inr (List.cons_ne_nil _ _))
  · exact (resolve_policy hlimit _ _).2.2.1 _ _ _ hmisses (.inr (List.cons_ne_nil _ _))
  · exact (resolve_policy hlimit _ _).2.2.2.1 _ _ hruns

end Context
end PageQuery
