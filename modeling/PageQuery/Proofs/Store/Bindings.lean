import Mathlib
import PageQuery.Proofs.Store.Formulas
import PageQuery.Proofs.Store.Places

/-!
# Bindings of rows

A binding gives a related row for each relation path of a condition.  The bindings of a row are all the
ways to choose such rows step by step.  Paths of single relations leave no choice, so they have one
binding; behind one collection there is a binding for each of its elements, and one that gives no row
if it has none.
-/

namespace PageQuery

def Binding.row (b : Binding) (path : List String) : Option Row :=
  (b.lookup path).getD none

/-! ## Paths in order -/

theorem stages_concat (relations : List String) (name : String) :
    stages (relations ++ [name]) = stages relations ++ [relations ++ [name]] := by
  rw [stages, stages, List.length_append, List.length_singleton, List.range_succ, List.map_append]
  congr 1
  · apply List.map_congr_left
    intro n hn
    exact List.take_append_of_le_length (List.mem_range.mp hn)
  · simp

theorem mem_stages {relations path : List String} :
    path ∈ stages relations ↔ path ≠ [] ∧ path <+: relations := by
  induction relations using List.reverseRecOn with
  | nil => simp [stages]
  | append_singleton relations name ih =>
      rw [stages_concat, List.mem_append, ih, List.mem_singleton, List.prefix_concat_iff]
      constructor
      · rintro (⟨hpath, hbegins⟩ | rfl)
        · exact ⟨hpath, .inr hbegins⟩
        · exact ⟨by simp, .inl rfl⟩
      · rintro ⟨hpath, rfl | hbegins⟩
        · exact .inr rfl
        · exact .inl ⟨hpath, hbegins⟩

theorem nodup_eraseDups {α : Type} [BEq α] [LawfulBEq α] (xs : List α) : xs.eraseDups.Nodup := by
  induction xs using List.reverseRecOn with
  | nil => simp
  | append_singleton xs x ih =>
      rw [List.eraseDups_append]
      by_cases hx : x ∈ xs
      · simpa [List.removeAll, hx] using ih
      · have hdisjoint : List.Disjoint xs.eraseDups [x] := by simpa [List.mem_eraseDups] using hx
        simpa [List.removeAll, hx, List.eraseDups_cons] using
          ih.append (List.nodup_singleton x) hdisjoint

/-- Each relation path follows the path before it. -/
inductive Rooted : List (List String) → Prop
  | nil : Rooted []
  | concat {paths : List (List String)} {path : List String} {name : String} (hpaths : Rooted paths)
      (hbefore : path = [] ∨ path ∈ paths) : Rooted (paths ++ [path ++ [name]])

namespace Rooted

theorem append {paths more : List (List String)} (h : Rooted paths) (hmore : Rooted more) :
    Rooted (paths ++ more) := by
  induction hmore with
  | nil => rwa [List.append_nil]
  | concat _ hbefore ih =>
      rw [← List.append_assoc]
      exact .concat ih (hbefore.imp id (List.mem_append_right _))

theorem stages (relations : List String) : Rooted (stages relations) := by
  induction relations using List.reverseRecOn with
  | nil => exact .nil
  | append_singleton relations name ih =>
      rw [stages_concat]
      refine .concat ih ?_
      by_cases hrelations : relations = []
      · exact .inl hrelations
      · exact .inr (mem_stages.mpr ⟨hrelations, List.prefix_rfl⟩)

theorem flatMap {α : Type} {xs : List α} {paths : α → List (List String)}
    (h : ∀ x ∈ xs, Rooted (paths x)) : Rooted (xs.flatMap paths) := by
  induction xs with
  | nil => exact .nil
  | cons x xs ih =>
      obtain ⟨hx, hxs⟩ := List.forall_mem_cons.mp h
      exact hx.append (ih hxs)

theorem eraseDups {paths : List (List String)} (h : Rooted paths) : Rooted paths.eraseDups := by
  induction h with
  | nil => exact .nil
  | @concat paths path name hpaths hbefore ih =>
      rw [List.eraseDups_append]
      by_cases hmem : path ++ [name] ∈ paths
      · simpa [List.removeAll, hmem] using ih
      · have hlast : ([path ++ [name]].removeAll paths).eraseDups = [path ++ [name]] := by
          simp [List.removeAll, hmem, List.eraseDups_cons]
        rw [hlast]
        exact .concat ih (hbefore.imp id List.mem_eraseDups.mpr)

theorem ne_nil {paths : List (List String)} (h : Rooted paths) : [] ∉ paths := by
  induction h with
  | nil => simp
  | concat _ _ ih => simpa using ih

theorem parent_mem {paths : List (List String)} (h : Rooted paths) {path : List String}
    (hpath : path ∈ paths) : path.dropLast = [] ∨ path.dropLast ∈ paths := by
  induction h with
  | nil => cases hpath
  | concat _ hbefore ih =>
      rcases List.mem_append.mp hpath with hold | hlast
      · exact (ih hold).imp id (List.mem_append_left _)
      · obtain rfl := List.mem_singleton.mp hlast
        rw [List.dropLast_concat]
        exact hbefore.imp id (List.mem_append_left _)

end Rooted

theorem Store.rooted_relationPaths (f : Formula Test) : Rooted (relationPaths f) := by
  induction f using Formula.induct with
  | test t => exact .stages t.place.relations
  | keyAmong model inner => exact .nil
  | group c items ih =>
      rw [relationPaths, relationPathsOf_eq]
      exact .flatMap ih

theorem Store.rooted_checkPaths (g : Formula Check) : Rooted (checkPaths g) := by
  induction g using Formula.induct with
  | test c => exact .stages c.relations
  | keyAmong model inner => exact .nil
  | group c items ih =>
      rw [checkPaths, checkPathsOf_eq]
      exact .flatMap ih

/-- With a path of its checks a condition has all the paths before it. -/
theorem Store.stages_subset_checkPaths {g : Formula Check} {path : List String}
    (h : path ∈ checkPaths g) : stages path ⊆ checkPaths g := by
  induction g using Formula.induct with
  | test c =>
      intro q hq
      obtain ⟨hq, hbegins⟩ := mem_stages.mp hq
      exact mem_stages.mpr ⟨hq, hbegins.trans (mem_stages.mp h).2⟩
  | keyAmong model inner => cases h
  | group c items ih =>
      rw [checkPaths, checkPathsOf_eq] at h ⊢
      obtain ⟨f, hf, hpath⟩ := List.mem_flatMap.mp h
      intro q hq
      exact List.mem_flatMap.mpr ⟨f, hf, ih f hf hpath hq⟩

namespace Store

variable {s : Store} {root : Option Model} {r : Row}

/-- The rows that the last relation of a path leads to from a row, which may be missing. -/
def nexts (s : Store) (root : Option Model) (path : List String) (o : Option Row) :
    List (Option Row) :=
  match o, path.getLast? with
  | some r, some name =>
    match s.relationAt? root path with
    | none => [none]
    | some f =>
      match s.related r name f with
      | [] => [none]
      | rs => rs.map some
  | _, _ => [none]

theorem reached_eq (b : Binding) (path : List String) :
    s.reached root b path = s.nexts root path (b.row path.dropLast) := by
  simp only [reached, nexts, Binding.row]
  cases b.lookup path.dropLast with
  | none => rfl
  | some o => cases o <;> cases path.getLast? <;> rfl

theorem bindings_concat (paths : List (List String)) (path : List String) :
    s.bindings root r (paths ++ [path]) =
      (s.bindings root r paths).flatMap fun b : Binding =>
        (s.nexts root path (b.row path.dropLast)).map fun t => (path, t) :: b := by
  simp only [bindings, List.foldl_append, List.foldl_cons, List.foldl_nil, reached_eq]

theorem row_cons_self (b : Binding) (path : List String) (t : Option Row) :
    Binding.row ((path, t) :: b) path = t := by
  rw [Binding.row, List.lookup_cons_self, Option.getD_some]

theorem row_cons_of_ne (b : Binding) {path path' : List String} (h : path' ≠ path)
    (t : Option Row) : Binding.row ((path, t) :: b) path' = Binding.row b path' := by
  rw [Binding.row, List.lookup_cons, beq_false_of_ne h, Binding.row]

/-- A binding of a row gives the row itself, for each path a row that the path leads to, and no row
for any other path. -/
structure Binds (s : Store) (root : Option Model) (r : Row) (paths : List (List String))
    (b : Binding) : Prop where
  itself : b.lookup [] = some (some r)
  follows : ∀ path ∈ paths, b.row path ∈ s.nexts root path (b.row path.dropLast)
  nothing : ∀ path ∉ paths, path ≠ [] → b.row path = none

theorem binds_of_mem_bindings {paths : List (List String)} (hpaths : Rooted paths)
    (hnodup : paths.Nodup) {b : Binding} (hb : b ∈ s.bindings root r paths) :
    s.Binds root r paths b := by
  induction hpaths generalizing b with
  | nil =>
      obtain rfl : b = [([], some r)] := by simpa [bindings] using hb
      refine ⟨by simp, nofun, fun path _ hpath => ?_⟩
      rw [row_cons_of_ne _ hpath]
      rfl
  | @concat paths path name hpaths hbefore ih =>
      rw [bindings_concat, List.mem_flatMap] at hb
      obtain ⟨b, hmem, hb⟩ := hb
      obtain ⟨t, ht, rfl⟩ := List.mem_map.mp hb
      rw [List.nodup_append'] at hnodup
      have hnew : path ++ [name] ∉ paths := fun hold =>
        hnodup.2.2 hold List.mem_cons_self
      obtain ⟨hitself, hfollows, hnothing⟩ := ih hnodup.1 hmem
      rw [List.dropLast_concat] at ht
      refine ⟨?_, fun path' hpath' => ?_, fun path' hpath' hne => ?_⟩
      · rw [List.lookup_cons, beq_false_of_ne (by simp)]
        exact hitself
      · rcases List.mem_append.mp hpath' with hold | hlast
        · have hparent : path'.dropLast ≠ path ++ [name] := by
            intro heq
            rcases hpaths.parent_mem hold with hnil | hmem
            · simp [hnil] at heq
            · exact hnew (heq ▸ hmem)
          have hself : path' ≠ path ++ [name] := fun heq => hnew (heq ▸ hold)
          rw [row_cons_of_ne _ hself, row_cons_of_ne _ hparent]
          exact hfollows path' hold
        · obtain rfl := List.mem_singleton.mp hlast
          rw [row_cons_self, List.dropLast_concat, row_cons_of_ne _ (by simp)]
          exact ht
      · rw [List.mem_append, not_or, List.mem_singleton] at hpath'
        rw [row_cons_of_ne _ hpath'.2]
        exact hnothing path' hpath'.1 hne

/-- A binding gives the chosen rows. -/
structure Chooses (r : Row) (choice : List String → Option Row) (paths : List (List String))
    (b : Binding) : Prop where
  itself : b.lookup [] = some (some r)
  rows : ∀ path ∈ paths, b.row path = choice path

section Choice

variable {choice : List String → Option Row}

theorem Chooses.parent {paths : List (List String)} {b : Binding} (h : Chooses r choice paths b)
    (hitself : choice [] = some r) {path : List String} (hpath : path = [] ∨ path ∈ paths) :
    b.row path = choice path := by
  rcases hpath with rfl | hmem
  · rw [Binding.row, h.itself, hitself, Option.getD_some]
  · exact h.rows path hmem

theorem Chooses.cons {paths : List (List String)} {b : Binding} (h : Chooses r choice paths b)
    (path : List String) (name : String) :
    Chooses r choice (paths ++ [path ++ [name]])
      ((path ++ [name], choice (path ++ [name])) :: b) := by
  refine ⟨?_, fun path' hpath' => ?_⟩
  · rw [List.lookup_cons, beq_false_of_ne (by simp)]
    exact h.itself
  · by_cases hself : path' = path ++ [name]
    · rw [hself, row_cons_self]
    · rw [row_cons_of_ne _ hself]
      exact h.rows path' (by simpa [hself] using hpath')

/-- Every choice of rows that follow each other along the paths is one of the bindings. -/
theorem exists_binding {paths : List (List String)} (hpaths : Rooted paths)
    (hitself : choice [] = some r)
    (hfollows : ∀ path ∈ paths, choice path ∈ s.nexts root path (choice path.dropLast)) :
    ∃ b ∈ s.bindings root r paths, Chooses r choice paths b := by
  induction hpaths with
  | nil => exact ⟨[([], some r)], by simp [bindings], by simp, nofun⟩
  | @concat paths path name hpaths hbefore ih =>
      obtain ⟨b, hb, hchooses⟩ := ih fun path hpath => hfollows path (List.mem_append_left _ hpath)
      have hlast := hfollows (path ++ [name]) (by simp)
      rw [List.dropLast_concat] at hlast
      refine ⟨_, ?_, hchooses.cons path name⟩
      rw [bindings_concat, List.mem_flatMap]
      refine ⟨b, hb, List.mem_map.mpr ⟨_, ?_, rfl⟩⟩
      rwa [List.dropLast_concat, hchooses.parent hitself hbefore]

/-- Where the paths leave no choice, a row has one binding. -/
theorem exists_bindings_eq {paths : List (List String)} (hpaths : Rooted paths)
    (hitself : choice [] = some r)
    (hfollows : ∀ path ∈ paths, s.nexts root path (choice path.dropLast) = [choice path]) :
    ∃ b, s.bindings root r paths = [b] ∧ Chooses r choice paths b := by
  induction hpaths with
  | nil => exact ⟨[([], some r)], rfl, by simp, nofun⟩
  | @concat paths path name hpaths hbefore ih =>
      obtain ⟨b, hb, hchooses⟩ := ih fun path hpath => hfollows path (List.mem_append_left _ hpath)
      have hlast := hfollows (path ++ [name]) (by simp)
      rw [List.dropLast_concat] at hlast
      refine ⟨_, ?_, hchooses.cons path name⟩
      rw [bindings_concat, hb, List.flatMap_singleton, List.dropLast_concat,
        hchooses.parent hitself hbefore, hlast, List.map_singleton]

end Choice

/-! ## Paths behind a base -/

section Base

variable {root base m : Model} {path before : List String} {name : String} {f : ModelField}

theorem modelAt_append (m : Option Model) (path more : List String) :
    s.modelAt m (path ++ more) = s.modelAt (s.modelAt m path) more := by
  rw [modelAt, List.foldl_append]
  rfl

theorem modelAt_concat {target : Model} (hm : s.modelAt (some root) path = some m)
    (hfield : m.field? name = some f) (htarget : f.target?.bind s.model? = some target) :
    s.modelAt (some root) (path ++ [name]) = some target := by
  rw [modelAt_append, hm, modelAt, List.foldl_cons, Option.bind_some, hfield, Option.bind_some,
    htarget, List.foldl_nil]

theorem exists_of_modelAt_concat (h : s.modelAt (some root) (path ++ [name]) = some m) :
    ∃ middle f, s.modelAt (some root) path = some middle ∧ middle.field? name = some f ∧
      f.target?.bind s.model? = some m := by
  have hlast : s.modelAt (some root) (path ++ [name]) =
      ((s.modelAt (some root) path).bind (·.field? name)).bind fun f => f.target?.bind s.model? := by
    rw [modelAt_append]
    rfl
  obtain ⟨f, hf, htarget⟩ := Option.bind_eq_some_iff.mp (hlast.symm.trans h)
  obtain ⟨middle, hmiddle, hfield⟩ := Option.bind_eq_some_iff.mp hf
  exact ⟨middle, f, hmiddle, hfield, htarget⟩

theorem Base.modelAt (h : s.Base root path base) : s.modelAt (some root) path = some base := by
  induction h with
  | row => rfl
  | elements _ hleads hfield _ htarget ih =>
      rw [← List.append_assoc]
      refine modelAt_concat ?_ hfield htarget
      rw [modelAt_append, ih, hleads.modelAt]

theorem relationAt?_concat (hm : s.modelAt (some root) path = some m)
    (hfield : m.field? name = some f) : s.relationAt? (some root) (path ++ [name]) = some f := by
  rw [relationAt?, List.dropLast_concat, hm, Option.bind_some, List.getLast?_concat,
    Option.bind_some, hfield]

theorem nexts_some (hm : s.modelAt (some root) path = some m) (hfield : m.field? name = some f)
    (r : Row) :
    s.nexts (some root) (path ++ [name]) (some r) =
      if s.related r name f = [] then [none] else (s.related r name f).map some := by
  simp only [nexts, List.getLast?_concat, relationAt?_concat hm hfield]
  cases s.related r name f <;> simp

/-- A single relation leaves no choice. -/
theorem nexts_of_isSingle (hm : s.modelAt (some root) path = some m)
    (hfield : m.field? name = some f) (hsingle : f.isSingle = true) (o : Option Row) :
    s.nexts (some root) (path ++ [name]) o = [o.bind fun r => (s.related r name f).head?] := by
  cases o with
  | none => rfl
  | some r =>
      rw [nexts_some hm hfield, related_of_isSingle hsingle, Option.bind_some]
      cases (s.related r name f).head? <;> simp

/-- A relation of any kind leads to one of its rows, or to no row where there is none. -/
theorem mem_nexts (hm : s.modelAt (some root) path = some m) (hfield : m.field? name = some f)
    {r : Row} {t : Option Row} :
    t ∈ s.nexts (some root) (path ++ [name]) (some r) ↔
      (∃ e ∈ s.related r name f, t = some e) ∨ s.related r name f = [] ∧ t = none := by
  rw [nexts_some hm hfield]
  cases s.related r name f with
  | nil => simp
  | cons e es => simp [eq_comm]

/-- Paths of single relations from a base are followed without a choice. -/
theorem nexts_base (hbase : s.Base root path base) (hleads : s.Leads base (before ++ [name]) m)
    (o : Option Row) :
    s.nexts (some root) (path ++ (before ++ [name])) (o.bind fun e => s.ahead base e before) =
      [o.bind fun e => s.ahead base e (before ++ [name])] := by
  obtain ⟨middle, f, hbefore, hfield, hsingle, htarget⟩ := hleads.last_step
  have hm : s.modelAt (some root) (path ++ before) = some middle := by
    rw [modelAt_append, hbase.modelAt, hbefore.modelAt]
  rw [← List.append_assoc, nexts_of_isSingle hm hfield hsingle, Option.bind_assoc]
  congr 2
  funext e
  rw [hbefore.ahead_concat hfield htarget]

/-- From the row of a base, a binding gives the rows that single relations lead to. -/
theorem Binds.row_base {paths : List (List String)} {b : Binding}
    (hbinds : s.Binds (some root) r paths b) (hbase : s.Base root path base)
    (hleads : s.Leads base before m) (hpaths : stages (path ++ before) ⊆ paths) :
    b.row (path ++ before) = (b.row path).bind fun e => s.ahead base e before := by
  induction before using List.reverseRecOn generalizing m with
  | nil =>
      rw [List.append_nil]
      cases b.row path <;> rfl
  | append_singleton before name ih =>
      obtain ⟨middle, -, hbefore, -⟩ := hleads.last_step
      have hbegins : stages (path ++ before) ⊆ stages (path ++ (before ++ [name])) := by
        rw [← List.append_assoc, stages_concat]
        exact List.subset_append_left _ _
      have hparent := ih hbefore (List.Subset.trans hbegins hpaths)
      have hlast : path ++ (before ++ [name]) ∈ paths :=
        hpaths (mem_stages.mpr ⟨by simp, List.prefix_rfl⟩)
      have hrow := hbinds.follows _ hlast
      have hdrop : (path ++ (before ++ [name])).dropLast = path ++ before := by
        rw [← List.append_assoc, List.dropLast_concat]
      rw [hdrop, hparent, nexts_base hbase hleads, List.mem_singleton] at hrow
      exact hrow

/-- The rows that a path leads to from a row, through any relations.  A missing row stands for those of
a relation that leads to none. -/
def reach (s : Store) (root : Option Model) (r : Row) (path : List String) : List (Option Row) :=
  (stages path).foldl (fun os p => os.flatMap (s.nexts root p)) [some r]

theorem reach_concat (root : Option Model) (r : Row) (path : List String) (name : String) :
    s.reach root r (path ++ [name]) =
      (s.reach root r path).flatMap (s.nexts root (path ++ [name])) := by
  rw [reach, stages_concat, List.foldl_append]
  rfl

theorem nexts_ne_nil (root : Option Model) (path : List String) (o : Option Row) :
    s.nexts root path o ≠ [] := by
  cases o with
  | none => simp [nexts]
  | some r =>
      cases hlast : path.getLast? with
      | none => simp [nexts, hlast]
      | some name =>
          cases hrelation : s.relationAt? root path with
          | none => simp [nexts, hlast, hrelation]
          | some f =>
              simp only [nexts, hlast, hrelation]
              cases s.related r name f <;> simp

theorem reach_ne_nil (root : Option Model) (r : Row) (path : List String) :
    s.reach root r path ≠ [] := by
  induction path using List.reverseRecOn with
  | nil => simp [reach, stages]
  | append_singleton path name ih =>
      obtain ⟨o, os, hos⟩ := List.exists_cons_of_ne_nil ih
      rw [reach_concat, hos, List.flatMap_cons]
      exact List.append_ne_nil_of_left_ne_nil (nexts_ne_nil root _ o) _

/-- Rows that follow each other along a path, from a row. -/
structure Follows (s : Store) (root : Option Model) (r : Row) (path : List String)
    (choice : List String → Option Row) : Prop where
  itself : choice [] = some r
  steps : ∀ p, p ≠ [] → p <+: path → choice p ∈ s.nexts root p (choice p.dropLast)

theorem Follows.mem_reach {root : Option Model} {choice : List String → Option Row}
    (h : s.Follows root r path choice) : choice path ∈ s.reach root r path := by
  induction path using List.reverseRecOn with
  | nil => simp [reach, stages, h.itself]
  | append_singleton path name ih =>
      rw [reach_concat, List.mem_flatMap]
      refine ⟨choice path, ih ⟨h.itself, fun p hp hbegins => ?_⟩, ?_⟩
      · exact h.steps p hp (hbegins.trans (List.prefix_append path [name]))
      · simpa using h.steps (path ++ [name]) (by simp) List.prefix_rfl

/-- Every row that a path leads to is reached by rows that follow each other. -/
theorem exists_follows {root : Option Model} {o : Option Row} (ho : o ∈ s.reach root r path) :
    ∃ choice, s.Follows root r path choice ∧ choice path = o := by
  induction path using List.reverseRecOn generalizing o with
  | nil =>
      obtain rfl : o = some r := by simpa [reach, stages] using ho
      exact ⟨fun _ => some r, ⟨rfl, fun p hp hbegins => absurd (List.prefix_nil.mp hbegins) hp⟩, rfl⟩
  | append_singleton path name ih =>
      rw [reach_concat, List.mem_flatMap] at ho
      obtain ⟨o', ho', ho⟩ := ho
      obtain ⟨choice, hchoice, rfl⟩ := ih ho'
      have hshort {p : List String} (hp : p <+: path) : p ≠ path ++ [name] := by
        rintro rfl
        simpa using hp.length_le
      refine ⟨fun p => if p = path ++ [name] then o else choice p, ⟨?_, fun p hp hbegins => ?_⟩,
        if_pos rfl⟩
      · rw [if_neg (hshort List.nil_prefix)]
        exact hchoice.itself
      · rcases List.prefix_concat_iff.mp hbegins with rfl | hbegins
        · rw [if_pos rfl, List.dropLast_concat, if_neg (hshort List.prefix_rfl)]
          exact ho
        · rw [if_neg (hshort hbegins), if_neg (hshort ((List.dropLast_prefix p).trans hbegins))]
          exact hchoice.steps p hp hbegins

/-- A binding of the paths up to a base gives a row that the path of the base leads to. -/
theorem Binds.row_mem_reach {root : Option Model} {paths : List (List String)} {b : Binding}
    (hbinds : s.Binds root r paths b) (hpaths : stages path ⊆ paths) :
    b.row path ∈ s.reach root r path := by
  have hfollows : s.Follows root r path b.row := by
    refine ⟨?_, fun p hp hbegins => ?_⟩
    · rw [Binding.row, hbinds.itself, Option.getD_some]
    · exact hbinds.follows p (hpaths (mem_stages.mpr ⟨hp, hbegins⟩))
  exact hfollows.mem_reach

/-- A path leads to rows of the model at its end. -/
theorem mem_rows_of_reach (hr : r ∈ s.rows root.name) (hm : s.modelAt (some root) path = some m)
    {o : Option Row} (ho : o ∈ s.reach (some root) r path) : ∀ e ∈ o, e ∈ s.rows m.name := by
  rintro e rfl
  induction path using List.reverseRecOn generalizing m e with
  | nil =>
      obtain rfl : root = m := Option.some.inj hm
      obtain rfl : e = r := by simpa [reach, stages] using ho
      exact hr
  | append_singleton path name ih =>
      obtain ⟨middle, f, hmiddle, hfield, htarget⟩ := exists_of_modelAt_concat hm
      rw [reach_concat, List.mem_flatMap] at ho
      obtain ⟨o, -, ho⟩ := ho
      cases o with
      | none => simp [nexts] at ho
      | some t =>
          rcases (mem_nexts hmiddle hfield).mp ho with ⟨e', he', heq⟩ | ⟨-, hnone⟩
          · obtain rfl := Option.some.inj heq
            obtain ⟨model, hmodel, hmem⟩ := mem_rows_of_related he'
            rw [(mem_of_target? htarget).2, Option.some.injEq] at hmodel
            exact hmodel ▸ hmem
          · cases hnone

/-- Rows that follow each other up to a base, and behind it those that single relations lead to. -/
def choosing (s : Store) (base : Model) (path : List String) (choice : List String → Option Row)
    (p : List String) : Option Row :=
  if path <+: p then (choice path).bind fun e => s.ahead base e (p.drop path.length) else choice p

section Choosing

variable {choice : List String → Option Row}

theorem choosing_append :
    s.choosing base path choice (path ++ before) =
      (choice path).bind fun e => s.ahead base e before := by
  rw [choosing, if_pos (List.prefix_append path before), List.drop_left]

theorem choosing_of_begins {p : List String} (h : p <+: path) :
    s.choosing base path choice p = choice p := by
  rw [choosing]
  split_ifs with hbegins
  · obtain rfl : path = p := hbegins.eq_of_length_le h.length_le
    rw [List.drop_length]
    cases choice path <;> rfl
  · rfl

/-- Rows that follow each other up to a base are followed along single relations behind it. -/
theorem Follows.choosing (hbase : s.Base root path base) (h : s.Follows (some root) r path choice)
    {p : List String} (hp : p ≠ []) (hleads : s.Leads base before m)
    (hbegins : p <+: path ++ before) :
    s.choosing base path choice p ∈
      s.nexts (some root) p (s.choosing base path choice p.dropLast) := by
  by_cases hshort : p <+: path
  · rw [choosing_of_begins hshort, choosing_of_begins ((List.dropLast_prefix p).trans hshort)]
    exact h.steps p hp hshort
  · have hpath : path <+: p :=
      (List.prefix_or_prefix_of_prefix hbegins (List.prefix_append path before)).resolve_left hshort
    obtain ⟨between, rfl⟩ := hpath
    rw [List.prefix_append_right_inj] at hbegins
    obtain ⟨names, word, rfl⟩ := (List.eq_nil_or_concat between).resolve_left fun hnil =>
      hshort (by rw [hnil, List.append_nil])
    obtain ⟨rest, rfl⟩ := hbegins
    rw [List.concat_eq_append] at hleads ⊢
    obtain ⟨middle, hnames, -⟩ := hleads.split
    have hdrop : (path ++ (names ++ [word])).dropLast = path ++ names := by
      rw [← List.append_assoc, List.dropLast_concat]
    rw [hdrop, choosing_append, choosing_append, nexts_base hbase hnames]
    exact List.mem_singleton_self _

end Choosing

end Base

end Store
end PageQuery
