import Mathlib
import PageQuery.Ordering.Build
import PageQuery.Proofs.Predicate.Addressing
import PageQuery.Proofs.Schema.Elements

/-!
# Requests behind a field

A field that leads to one record is passed on the way of a path, a filter or a sort: what comes behind it
is what the rest asks of the type that it leads to, with the name of the field before the names that are
found there.  A collection is not passed but searched: one more segment is looked up in the type of its
elements, and some element has to satisfy what a filter asks of that type.  In either case a request behind
the field fails as the rest of it does.
-/

namespace PageQuery

open PageQuery.Text

open Outcome (Tracks)

/-! ## The path of an item

The path that an item is written with is named in errors only. -/

namespace Predicate

variable {settings : Settings} {f : Field} {field : List String} {item : FilterItem}

theorem convert_elsewhere (raw : String) (path path' : Option String) :
    Tracks RequestError.SameKind id (f.convert raw path) (f.convert raw path') := by
  unfold Field.convert
  cases f.parser with
  | none => exact .error rfl
  | some parser =>
      dsimp only
      cases parser.run raw with
      | error e => exact .error rfl
      | ok v => exact .ok v

theorem bound_elsewhere (placeholder : Value) (path path' slot : Option String) :
    Tracks RequestError.SameKind id (bound placeholder f path slot) (bound placeholder f path' slot) := by
  unfold bound
  split
  · exact .ok _
  · exact convert_elsewhere _ path path'

theorem ofDates_elsewhere (path : Option String) :
    Tracks RequestError.SameKind id (ofDates settings f field item)
      (ofDates settings f field { item with property := path }) := by
  unfold ofDates
  dsimp only
  split
  · refine (bound_elsewhere _ _ _ _).bind fun lower _ => (bound_elsewhere _ _ _ _).bind fun upper _ => ?_
    dsimp only [id]
    split
    · exact .error rfl
    · exact .ok _
  · exact .error rfl
  · exact .error rfl

theorem comparisons_elsewhere (path : Option String) :
    Tracks RequestError.SameKind id (comparisons f field item)
      (comparisons f field { item with property := path }) := by
  unfold comparisons
  split
  · exact .ok _
  · exact .mapM fun v _ => (convert_elsewhere v _ _).map_both fun _ => rfl

/-- What is made of an item on a field does not depend on the path that it is written with. -/
theorem ofLeaf_elsewhere (path : Option String) :
    Tracks RequestError.SameKind id (ofLeaf settings f field item)
      (ofLeaf settings f field { item with property := path }) := by
  unfold ofLeaf
  split
  · exact ofDates_elsewhere path
  · exact .error rfl
  · exact .error rfl
  · refine (comparisons_elsewhere path).bind fun tests _ => ?_
    dsimp only [id]
    cases combine .or tests with
    | none => exact .error rfl
    | some p => exact .ok p

theorem mapError_ofLeaf_elsewhere (path : Option String) :
    Tracks Failure.SameClass id ((ofLeaf settings f field item).mapError .request)
      ((ofLeaf settings f field { item with property := path }).mapError .request) :=
  (ofLeaf_elsewhere path).mapError fun _ _ hkind => .request hkind

theorem mapError_ofLeaf_behind (name : String) (path : Option String) :
    Tracks Failure.SameClass (readdressed (name :: ·)) ((ofLeaf settings f field item).mapError .request)
      ((ofLeaf settings f (name :: field) { item with property := path }).mapError .request) := by
  rw [ofLeaf_readdressed (name :: ·) field]
  exact ((ofLeaf_elsewhere path).map_right _).mapError fun _ _ hkind => .request hkind

end Predicate

/-! ## Resolved paths -/

namespace ResolvedPath

variable {p : ResolvedPath}

/-- A resolved path with a field before it, as another path that is written out. -/
def behind (f : Field) (path : Option String) (p : ResolvedPath) : ResolvedPath :=
  { p with path := path, chain := f :: p.chain }

theorem leaf_behind (hchain : p.chain ≠ []) (f : Field) (path : Option String) :
    (p.behind f path).leaf = p.leaf := by
  rw [leaf, leaf, behind, List.getLast?_cons, List.getLast?_eq_some_getLast hchain]
  rfl

theorem isCollection_behind (hchain : p.chain ≠ []) (f : Field) (path : Option String) :
    (p.behind f path).isCollection = p.isCollection := by
  rw [isCollection, isCollection, leaf_behind hchain]

theorem field_behind (f : Field) (path : Option String) : (p.behind f path).field = f.name :: p.field := rfl

theorem dotted_behind (hchain : p.chain ≠ []) (f : Field) (path : Option String) :
    (p.behind f path).dotted = f.name ++ "." ++ p.dotted := by
  obtain ⟨g, gs, hg⟩ := List.exists_cons_of_ne_nil hchain
  rw [dotted, field_behind, dotted, field, hg, List.map_cons, String.intercalate_cons_cons]

end ResolvedPath

namespace Context

variable {x : Context} {limit : Whole} {root t : TypeRef} {path path' : Option String}
  {segments chain : List String} {segment : String} {f g : Field}

theorem Finds.unique (h : x.Finds t segment f) (h' : x.Finds t segment g) : f = g := by
  obtain ⟨table, htable, hfound⟩ := h
  obtain ⟨table', htable', hfound'⟩ := h'
  obtain rfl := Except.ok.inj (htable.symm.trans htable')
  exact Option.some.inj (hfound.symm.trans hfound')

theorem chain_ne_nil_of_resolve {p : ResolvedPath} (h : x.resolve root path = .ok p) : p.chain ≠ [] := by
  obtain ⟨limit, hcompletes | hmeets⟩ := admits_of_resolve h
  · exact Completes.chain_ne_nil ‹_›
  · rename_i hmeets _ _
    obtain ⟨f, hlast, -⟩ := hmeets.exists_last
    exact List.ne_nil_of_mem (List.mem_of_getLast? hlast)

/-- The number of segments is no obstacle to a path: it is within the limit, or a collection lies before
its last segment. -/
def Allows (x : Context) (limit : Whole) (root : TypeRef) (path : Option String) : Prop :=
  ((pathSegments path).length : ℤ) ≤ limit.number ∨
    ∃ chain rest, x.Meets root (pathSegments path) chain rest ∧ rest ≠ []

theorem allows_of_resolve (hlimit : x.settings.maxPathDepth = .ok limit) {p : ResolvedPath}
    (h : x.resolve root path = .ok p) : x.Allows limit root path := by
  obtain ⟨-, hshort⟩ | ⟨hmeets, -, hdepth⟩ := (resolve_eq_ok_iff hlimit).mp h
  · exact .inl hshort
  · exact hdepth.imp_right fun hrest => ⟨_, _, hmeets, hrest⟩

theorem Allows.resolve_eq (hlimit : x.settings.maxPathDepth = .ok limit) (h : x.Allows limit root path)
    (hsegments : pathSegments path ≠ []) :
    x.resolve root path = x.resolveSegments root path (pathSegments path) := by
  by_cases hshort : ((pathSegments path).length : ℤ) ≤ limit.number
  · exact resolve_of_short hlimit hsegments hshort
  · obtain ⟨chain, rest, hmeets, hrest⟩ := h.resolve_left hshort
    rw [resolve_of_checkDepth hlimit hsegments (hmeets.checkDepth_eq hshort), if_neg hrest, Outcome.ok_bind]

theorem resolveElement_behind {p : ResolvedPath} (hchain : p.chain ≠ []) :
    Tracks Failure.SameClass id (x.resolveElement p) (x.resolveElement (p.behind f path')) := by
  rw [resolveElement, resolveElement, ResolvedPath.leaf_behind hchain]
  cases p.leaf.target with
  | none =>
      dsimp only [ResolvedPath.behind]
      cases p.residual with
      | some name => exact .error (.request rfl)
      | none =>
          cases p.leaf.element x.catalogue with
          | error fault => exact .error (.refl _)
          | ok g => exact .ok _
  | some u =>
      dsimp only [ResolvedPath.behind]
      split
      · exact .error (.refl _)
      · exact .ok _
      · exact .error (.request rfl)

/-! ## Passing a field -/

section Passing

variable (hfinds : x.Finds root segment f) (hsingle : f.isCollection = false) (htarget : f.target = some t)

include hfinds hsingle htarget

/-- A collection that is met behind a field is met from the type that the field leads to. -/
theorem Meets.of_cons {chain : List Field} {rest : List String}
    (h : x.Meets root (segment :: segments) chain rest) : ∃ passed, x.Meets t segments passed rest := by
  generalize hall : segment :: segments = all at h
  obtain ⟨hpasses, hfound, hcollection⟩ := h
  cases hpasses with
  | start =>
      obtain ⟨rfl, rfl⟩ := List.cons.inj hall
      rw [hfinds.unique hfound, hcollection] at hsingle
      cases hsingle
  | step hfirst _ hto hpasses =>
      obtain ⟨rfl, rfl⟩ := List.cons.inj hall
      obtain rfl := hfinds.unique hfirst
      obtain rfl := Option.some.inj (htarget.symm.trans hto)
      exact ⟨_, .intro hpasses hfound hcollection⟩

theorem Allows.of_cons (hpath : pathSegments path' = segment :: pathSegments path)
    (h : x.Allows limit root path') : x.Allows limit t path := by
  rcases h with hshort | ⟨chain, rest, hmeets, hrest⟩
  · rw [hpath, List.length_cons] at hshort
    exact .inl (by omega)
  · rw [hpath] at hmeets
    obtain ⟨passed, hmeets⟩ := Meets.of_cons hfinds hsingle htarget hmeets
    exact .inr ⟨passed, rest, hmeets, hrest⟩

theorem resolveSegments_behind (hsegments : segments ≠ []) :
    Tracks Failure.SameClass (·.behind f path') (x.resolveSegments t path segments)
      (x.resolveSegments root path' (segment :: segments)) := by
  obtain ⟨hfields, hstop⟩ := (Passes.step hfinds hsingle htarget (.start t)).walk_append hsegments
  rw [List.singleton_append] at hfields hstop
  have hlast : (segment :: segments).getLast? = segments.getLast? := by
    rw [List.getLast?_cons, List.getLast?_eq_some_getLast hsegments]
    rfl
  rw [resolveSegments, resolveSegments, hlast]
  simp only [hfields, hstop]
  cases (walk x.table t segments).stop with
  | complete => exact .ok _
  | missing u name => exact .error (.request rfl)
  | noFields name => exact .error (.request rfl)
  | collection rest =>
      rcases rest with _ | ⟨name, _ | ⟨next, rest⟩⟩
      · exact .ok _
      · exact .ok _
      · exact .error (.request rfl)
  | broken fault => exact .error (.refl _)

variable (hlimit : x.settings.maxPathDepth = .ok limit)

include hlimit

theorem resolve_behind (hsegments : pathSegments path ≠ [])
    (hpath : pathSegments path' = segment :: pathSegments path) (hallows : x.Allows limit root path') :
    Tracks Failure.SameClass (·.behind f path') (x.resolve t path) (x.resolve root path') := by
  rw [hallows.resolve_eq hlimit (hpath ▸ List.cons_ne_nil _ _), hpath,
    (hallows.of_cons hfinds hsingle htarget hpath).resolve_eq hlimit hsegments]
  exact resolveSegments_behind hfinds hsingle htarget hsegments

end Passing

end Context

/-- Requests that go on behind a field of one record are what their rest is for the type that the field
leads to, as long as the number of segments is no obstacle.  A path passes the field first, a filter tests
what its rest tests, but behind the field, and so does a key of a sort. -/
structure Context.Enters (x : Context) (limit : Whole) (root : TypeRef) (segment : String) (f : Field)
    (t : TypeRef) : Prop where
  path {path path' : Option String} (hsegments : pathSegments path ≠ [])
    (hpath : pathSegments path' = segment :: pathSegments path) (hallows : x.Allows limit root path') :
    Tracks Failure.SameClass (·.behind f path') (x.resolve t path) (x.resolve root path')
  filter {item : FilterItem} {path' : Option String} (hsegments : pathSegments item.property ≠ [])
    (hpath : pathSegments path' = segment :: pathSegments item.property)
    (hallows : x.Allows limit root path') :
    Tracks Failure.SameClass (Predicate.readdressed (f.name :: ·)) (Predicate.ofItem x t item)
      (Predicate.ofItem x root { item with property := path' })
  sort {token : SortKey} {path' : String} (hsegments : pathSegments (some token.property) ≠ [])
    (hpath : pathSegments (some path') = segment :: pathSegments (some token.property))
    (hallows : x.Allows limit root (some path')) :
    Tracks Failure.SameClass (fun k => { k with property := f.name ++ "." ++ k.property })
      (SortKey.ofToken x t token) (SortKey.ofToken x root { token with property := path' })
  refused {path' : Option String} (hlong : ¬ x.Allows limit root path') (p : ResolvedPath) :
    x.resolve root path' ≠ .ok p

/-- Requests that go on behind a collection ask its elements for what they ask the type of the elements for:
one more segment is looked up there, and a filter on it asks some element for what it asks that type for,
unless it is a collection again.  Nothing may stand behind that segment, and there is no sort through a
collection. -/
structure Context.Searches (x : Context) (root : TypeRef) (segment : String) (f : Field) (t : TypeRef) :
    Prop where
  path {path path' : Option String} {last : String} (hlast : pathSegments path = [last])
    (hpath : pathSegments path' = [segment, last]) :
    Tracks Failure.SameClass (fun p => (p.leaf, p.field)) (x.resolve t path)
      (x.resolve root path' >>= x.resolveElement)
  filter {item : FilterItem} {path' : Option String} {last : String}
    (hlast : pathSegments item.property = [last]) (hpath : pathSegments path' = [segment, last])
    (hsingle : ∀ g, x.Finds t last g → g.isCollection = false) :
    Tracks Failure.SameClass (.any [f.name]) (Predicate.ofItem x t item)
      (Predicate.ofItem x root { item with property := path' })
  refused {path' : Option String} {last next : String} {rest : List String}
    (hpath : pathSegments path' = segment :: last :: next :: rest) :
    x.resolve root path' = .error (.request (.pastCollection path' f.name))
  unsorted {token : SortKey} {last : String} (hpath : pathSegments (some token.property) = [segment, last]) :
    SortKey.ofToken x root token = .error (.request (.sortThroughCollection token.property f.name))

/-- Nothing behind a field can be asked for. -/
structure Context.Bars (x : Context) (root : TypeRef) (segment : String) : Prop where
  path {path' : Option String} {next : String} {rest : List String}
    (hpath : pathSegments path' = segment :: next :: rest) (e : Field × List String) :
    (x.resolve root path' >>= x.resolveElement) ≠ .ok e
  filter {item : FilterItem} {next : String} {rest : List String}
    (hpath : pathSegments item.property = segment :: next :: rest) (p : Predicate) :
    Predicate.ofItem x root item ≠ .ok p
  sort {token : SortKey} {next : String} {rest : List String}
    (hpath : pathSegments (some token.property) = segment :: next :: rest) (k : SortKey) :
    SortKey.ofToken x root token ≠ .ok k

namespace Context

variable {x : Context} {limit : Whole} {root t : TypeRef} {segment : String} {f : Field}

theorem enters_of_target (hlimit : x.settings.maxPathDepth = .ok limit) (hfinds : x.Finds root segment f)
    (hsingle : f.isCollection = false) (htarget : f.target = some t) : x.Enters limit root segment f t where
  path hsegments hpath hallows := resolve_behind hfinds hsingle htarget hlimit hsegments hpath hallows
  filter := by
    intro item path' hsegments hpath hallows
    unfold Predicate.ofItem
    split
    · exact .error (.request rfl)
    refine (resolve_behind hfinds hsingle htarget hlimit hsegments hpath hallows).bind fun p hp => ?_
    have hchain := chain_ne_nil_of_resolve hp
    rw [ResolvedPath.isCollection_behind hchain, ResolvedPath.leaf_behind hchain]
    cases p.isCollection with
    | true =>
        refine (resolveElement_behind hchain).bind fun e _ => ?_
        refine (Predicate.mapError_ofLeaf_elsewhere path').bind fun inner _ => ?_
        exact .ok (Predicate.any p.field inner)
    | false => exact Predicate.mapError_ofLeaf_behind f.name path'
  sort := by
    intro token path' hsegments hpath hallows
    unfold SortKey.ofToken
    refine (resolve_behind hfinds hsingle htarget hlimit hsegments hpath hallows).bind fun p hp => ?_
    have hchain := chain_ne_nil_of_resolve hp
    rw [ResolvedPath.isCollection_behind hchain, ResolvedPath.leaf_behind hchain,
      ResolvedPath.dotted_behind hchain]
    cases p.isCollection with
    | true => exact .error (.request rfl)
    | false =>
        cases p.leaf.isRelation with
        | true => exact .error (.request rfl)
        | false => exact .ok (SortKey.mk p.dotted token.descending)
  refused hlong p hp := hlong (allows_of_resolve hlimit hp)

section Searching

variable {path path' : Option String} {last : String} {rest : List String}

/-- A path of one segment is what is found there. -/
theorem resolve_last (hlimit : x.settings.maxPathDepth = .ok limit) (hpositive : 1 ≤ limit.number)
    (hlast : pathSegments path = [last]) :
    x.resolve t path = match (x.table t).map (·.find? last) with
      | .error fault => .error (.fault fault)
      | .ok none => .error (.request (unknownField t last path))
      | .ok (some g) => .ok ⟨path, [g], last, none⟩ := by
  rw [resolve_of_short hlimit (hlast ▸ List.cons_ne_nil _ _) (by rw [hlast]; exact hpositive), hlast]
  split
  · rename_i fault hfound
    rw [resolveSegments, walk, hfound]
  · rename_i hfound
    rw [resolveSegments, walk, hfound]
  · rename_i g hfound
    exact Predicate.resolveSegments_of_found hfound path

variable (hlimit : x.settings.maxPathDepth = .ok limit) (hfinds : x.Finds root segment f)
  (hcollection : f.isCollection = true)

include hlimit hfinds hcollection

/-- A collection lets one more segment through. -/
theorem resolve_through (hpath : pathSegments path' = segment :: last :: rest) :
    x.resolve root path' =
      if rest = [] then .ok ⟨path', [f], last, some last⟩
      else .error (.request (.pastCollection path' f.name)) := by
  have hmeets : x.Meets root (pathSegments path') [f] (last :: rest) := by
    rw [hpath]
    exact .intro (.start root) hfinds hcollection
  rw [hmeets.resolve_eq hlimit, if_pos (.inr (List.cons_ne_nil _ _))]
  cases rest with
  | nil =>
      rw [hpath]
      rfl
  | cons next rest => rfl

theorem through_of_resolve (hpath : pathSegments path' = segment :: last :: rest) {p : ResolvedPath}
    (hp : x.resolve root path' = .ok p) : p.leaf = f ∧ p.residual = some last := by
  rw [resolve_through hlimit hfinds hcollection hpath] at hp
  split at hp
  · obtain rfl := Except.ok.inj hp
    exact ⟨rfl, rfl⟩
  · cases hp

omit hlimit hfinds hcollection in
theorem resolveElement_ne_ok {p : ResolvedPath} (htarget : p.leaf.target = none)
    (hresidual : p.residual = some last) (e : Field × List String) : x.resolveElement p ≠ .ok e := by
  intro h
  rw [resolveElement, htarget, hresidual] at h
  cases h

omit hlimit hfinds hcollection in
theorem resolveElement_through (htarget : f.target = some t) :
    x.resolveElement ⟨path', [f], last, some last⟩ = match (x.table t).map (·.find? last) with
      | .error fault => .error (.fault fault)
      | .ok (some g) => .ok (g, [g.name])
      | .ok none => .error (.request (unknownField t last path')) := by
  have hleaf : (ResolvedPath.mk path' [f] last (some last)).leaf = f := rfl
  rw [resolveElement, hleaf, htarget]
  rfl

theorem searches_of_target (hpositive : 1 ≤ limit.number) (htarget : f.target = some t) :
    x.Searches root segment f t where
  path := by
    intro path path' last hlast hpath
    rw [resolve_through hlimit hfinds hcollection hpath, if_pos rfl, Outcome.ok_bind,
      resolve_last hlimit hpositive hlast, resolveElement_through htarget]
    generalize (x.table t).map (·.find? last) = found
    rcases found with fault | _ | g
    · exact .error (.refl _)
    · exact .error (.request rfl)
    · exact .ok (ResolvedPath.mk path [g] last none)
  filter := by
    intro item path' last hlast hpath hsingle
    unfold Predicate.ofItem
    split
    · exact .error (.request rfl)
    have hthrough : (ResolvedPath.mk path' [f] last (some last)).isCollection = true := hcollection
    rw [resolve_through hlimit hfinds hcollection hpath, if_pos rfl, Outcome.ok_bind, hthrough, if_pos rfl,
      resolve_last hlimit hpositive hlast, resolveElement_through htarget]
    cases hfound : (x.table t).map (·.find? last) with
    | error fault => exact .error (.refl _)
    | ok found =>
        cases found with
        | none => exact .error (.request rfl)
        | some g =>
            obtain ⟨table, htable, hg⟩ := Outcome.map_eq_ok.mp hfound
            have hplain : (ResolvedPath.mk item.property [g] last none).isCollection = false :=
              hsingle g ⟨table, htable, hg⟩
            rw [Outcome.ok_bind, Outcome.ok_bind, hplain, if_neg Bool.false_ne_true]
            dsimp only
            rw [Outcome.bind_ok_eq_map]
            exact (Predicate.mapError_ofLeaf_elsewhere path').map_right _
  refused := by
    intro path' last next rest hpath
    rw [resolve_through hlimit hfinds hcollection hpath, if_neg (List.cons_ne_nil _ _)]
  unsorted := by
    intro token last hpath
    rw [SortKey.ofToken, resolve_through hlimit hfinds hcollection hpath, if_pos rfl, Outcome.ok_bind]
    exact if_pos hcollection

/-- Elements that are no records cannot be asked for anything. -/
theorem bars_of_values (htarget : f.target = none) : x.Bars root segment where
  path := by
    intro path' next rest hpath e h
    obtain ⟨p, hp, he⟩ := Outcome.bind_eq_ok.mp h
    obtain ⟨hleaf, hresidual⟩ := through_of_resolve hlimit hfinds hcollection hpath hp
    exact resolveElement_ne_ok (hleaf ▸ htarget) hresidual e he
  filter := by
    intro item next rest hpath q h
    cases Predicate.isClause_of_ofItem h with
    | leaf hp hsingle =>
        obtain ⟨hleaf, -⟩ := through_of_resolve hlimit hfinds hcollection hpath hp
        rw [ResolvedPath.isCollection, hleaf, hcollection] at hsingle
        cases hsingle
    | any hp _ _ he =>
        obtain ⟨hleaf, hresidual⟩ := through_of_resolve hlimit hfinds hcollection hpath hp
        exact resolveElement_ne_ok (hleaf ▸ htarget) hresidual _ he
  sort := by
    intro token next rest hpath k h
    obtain ⟨p, hp, hk⟩ := Outcome.bind_eq_ok.mp h
    obtain ⟨hleaf, -⟩ := through_of_resolve hlimit hfinds hcollection hpath hp
    rw [if_pos (by rw [ResolvedPath.isCollection, hleaf, hcollection])] at hk
    cases hk

end Searching

/-- A field that leads to no record cannot be passed. -/
theorem bars_of_value (hlimit : x.settings.maxPathDepth = .ok limit) (hfinds : x.Finds root segment f)
    (hsingle : f.isCollection = false) (htarget : f.target = none) : x.Bars root segment := by
  have hresolve {path : Option String} {next : String} {rest : List String}
      (hpath : pathSegments path = segment :: next :: rest) (p : ResolvedPath) : x.resolve root path ≠ .ok p := by
    have hruns : x.RunsOut root (pathSegments path) f next := by
      rw [hpath]
      exact .intro (.start root) hfinds hsingle htarget
    rw [hruns.resolve_eq hlimit]
    exact nofun
  refine ⟨fun hpath e h => ?_, fun hpath q h => ?_, fun hpath k h => ?_⟩
  · obtain ⟨p, hp, -⟩ := Outcome.bind_eq_ok.mp h
    exact hresolve hpath p hp
  · cases Predicate.isClause_of_ofItem h with
    | leaf hp | any hp => exact hresolve hpath _ hp
  · obtain ⟨p, hp, -⟩ := Outcome.bind_eq_ok.mp h
    exact hresolve hpath p hp

end Context
end PageQuery
