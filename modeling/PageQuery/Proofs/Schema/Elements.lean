import Mathlib
import PageQuery.Predicate.Build
import PageQuery.Proofs.Request.Navigation
import PageQuery.Proofs.Schema.Choices
import PageQuery.Proofs.Schema.Conformance

/-!
# Elements of collections are classified as fields are

What a field of one value is, its kind, its type and its parser, is settled when the field is made.  For a
collection the same is done for its elements, but later, when a filter asks for them.  Both come to the same:
an element of a collection is what a plain field of its hint would be, and a filter on the collection asks
some element for what it would ask such a field for.
-/

namespace PageQuery

open PageQuery.Text

namespace Hint

/-! ## Hints of collections -/

/-- A hint in a choice between it and absence. -/
inductive OrAbsent (h : Hint) : Hint → Prop
  | optional : OrAbsent h (.optional h)
  | union : OrAbsent h (.union [h, absent])
  | unionBehind : OrAbsent h (.union [absent, h])
  | either : OrAbsent h (.either h absent)
  | eitherBehind : OrAbsent h (.either absent h)

/-- A hint is that of the elements of a collection: the first argument of a collection form, which may stand
in choices between it and absence. -/
inductive IsElementOf (e : Hint) : Hint → Prop
  | form (name : String) (generic : Bool) (more : List Hint) :
      IsElementOf e (.collection name generic (e :: more))
  | orAbsent {g g' : Hint} (hg : IsElementOf e g) (hg' : g.OrAbsent g') : IsElementOf e g'

/-- A hint of one value: it offers something, no text is left in it to be resolved, and it stands neither
for the absent value itself, nor for a collection, nor for further arguments. -/
structure IsSingular (h : Hint) : Prop where
  offers : h.alternatives ≠ []
  resolved : ∀ text, .forward text ∉ h.alternatives
  present : h.withoutAbsent ≠ .nothing
  single : ∀ name generic arguments, h.withoutAbsent ≠ .collection name generic arguments
  written : h ≠ .andSoOn

theorem OrAbsent.alternatives_eq {h e : Hint} (he : h.OrAbsent e)
    (hresolved : ∀ text, Hint.forward text ∉ h.alternatives) :
    e.alternatives = h.alternatives ++ [absent] ∨ e.alternatives = absent :: h.alternatives := by
  have hinside := map_inside_of_resolved hresolved
  cases he with
  | optional | union => exact .inl (by simp [alternatives, alternativesOf, hinside, absent, inside])
  | unionBehind => exact .inr (by simp [alternatives, alternativesOf, hinside, absent, inside])
  | either => exact .inl rfl
  | eitherBehind => exact .inr rfl

theorem OrAbsent.leaves {h e s : Hint} (he : h.OrAbsent e) (hs : ∀ text, s ≠ .forward text)
    (hleaves : Leaves h.alternatives s) : Leaves e.alternatives s := by
  rcases he.alternatives_eq (hleaves.forward_notMem hs) with heq | heq
  · rw [heq]
    exact hleaves.absent_behind
  · rw [heq]
    exact hleaves.absent_before

theorem IsElementOf.leaves {e g : Hint} (hg : e.IsElementOf g) :
    ∃ name generic more, Leaves g.alternatives (.collection name generic (e :: more)) := by
  induction hg with
  | form name generic more => exact ⟨name, generic, more, List.mem_singleton_self _, fun a ha =>
      .inl (List.mem_singleton.mp ha)⟩
  | orAbsent _ hg' ih =>
      obtain ⟨name, generic, more, hleaves⟩ := ih
      exact ⟨name, generic, more, hg'.leaves nofun hleaves⟩

theorem IsSingular.ne_forward {h : Hint} (hh : h.IsSingular) (text : String) : h ≠ .forward text := by
  rintro rfl
  exact hh.resolved text (List.mem_singleton_self _)

/-- What is left of a hint that is no choice is left of a choice between it and absence. -/
theorem OrAbsent.withoutAbsent_eq {h e : Hint} (he : h.OrAbsent e) (hh : h.IsSingular)
    (hchoice : ¬ h.IsChoice) : e.withoutAbsent = h.withoutAbsent := by
  obtain ⟨s, hleaves⟩ := exists_leaves hh.offers hchoice
  have hs (text : String) : s ≠ .forward text := fun heq => hh.resolved text (heq ▸ hleaves.1)
  rw [withoutAbsent_of_leaves hleaves, withoutAbsent_of_leaves (he.leaves hs hleaves)]

/-- A choice between several types is one beside absence as well, and stays as it is. -/
theorem OrAbsent.withoutAbsent_of_isChoice {h e : Hint} (he : h.OrAbsent e) (hh : h.IsSingular)
    (hchoice : h.IsChoice) : e.withoutAbsent = e := by
  obtain ⟨a, ha, b, hb, hne⟩ := hchoice
  have hmem : ∀ g ∈ h.alternatives, g ∈ e.alternatives := by
    intro g hg
    rcases he.alternatives_eq hh.resolved with heq | heq
    · rw [heq]
      exact List.mem_append_left _ hg
    · rw [heq]
      exact List.mem_cons_of_mem _ hg
  exact Hint.withoutAbsent_of_isChoice ⟨a, hmem a ha, b, hmem b hb, hne⟩

/-- What is left of the hint of an element, with or without absence around it. -/
theorem withoutAbsent_around {h e : Hint} (hh : h.IsSingular) (he : e = h ∨ h.OrAbsent e)
    (hsame : e = h ∨ ¬ h.IsChoice) : e.withoutAbsent = h.withoutAbsent := by
  rcases hsame with heq | hchoice
  · rw [heq]
  · rcases he with heq | he
    · rw [heq]
    · exact he.withoutAbsent_eq hh hchoice

theorem OrAbsent.ne_type {h e : Hint} (he : h.OrAbsent e) (t : TypeRef) : e ≠ .type t := by
  cases he <;> exact nofun

theorem OrAbsent.isHashable_eq {h e : Hint} (he : h.OrAbsent e) : e.isHashable = h.isHashable := by
  cases he <;> simp [isHashable, areHashable, absent]

theorem IsChoice.ne_type {h : Hint} (hchoice : h.IsChoice) (t : TypeRef) : h ≠ .type t := by
  rintro rfl
  obtain ⟨a, ha, b, hb, hne, -⟩ := hchoice
  exact hne ((List.mem_singleton.mp ha).trans (List.mem_singleton.mp hb).symm)

theorem kind_eq_relation_iff {c : Catalogue} {h : Hint} : h.kind c = .relation ↔ h.isRecord c = true := by
  unfold kind isRecord
  split
  · simp [Catalogue.isRecordType]
  · simp [Catalogue.isRecordType]
  · simp [Catalogue.isRecordType]
  · split <;> simp [Catalogue.isRecordType]
  · simp
  · rename_i hother
    split
    · exact absurd rfl (hother _)
    · simp

end Hint

/-! ## Fields of collections and of their elements -/

namespace Field

variable {c : Catalogue} {name : String}

/-- The elements of a collection have the hint that its form names first. -/
theorem ofHint_isElementOf {e g : Hint} (hg : e.IsElementOf g) (hwritten : e ≠ .andSoOn)
    (hresolved : ∀ text, e ≠ .forward text) : ofHint c name g = .ok (ofElement c name e.withoutAbsent) := by
  obtain ⟨form, generic, more, hleaves⟩ := hg.leaves
  have hfirst : (e :: more).filter (fun g => !g.alike .andSoOn) =
      e :: more.filter fun g => !g.alike .andSoOn :=
    List.filter_cons_of_pos (by rw [Hint.alike_eq_false_iff.mpr hwritten]; rfl)
  rw [ofHint, Hint.withoutAbsent_of_leaves hleaves]
  simp only [hfirst, List.headD_cons, Hint.inside_of_ne_forward hresolved, ite_self]

theorem ofHint_isSingular {h : Hint} (hh : h.IsSingular) :
    ofHint c name h = ofSingle c name h.withoutAbsent := by
  rw [ofHint]
  split
  · rename_i form generic arguments hcollection
    exact absurd hcollection (hh.single form generic arguments)
  · rfl

/-- What an element is by itself is what a field of one value is. -/
theorem element_ofElement {s : Hint} (hpresent : s ≠ .nothing) (hrecord : s.isRecord c = false) :
    (ofElement c name s).element c = ofSingle c name s := by
  have hkind : s.kind c ≠ .relation := by
    rw [Ne, Hint.kind_eq_relation_iff, hrecord]
    decide
  have htype : (ofElement c name s).type = some s := by
    cases s with
    | nothing => exact absurd rfl hpresent
    | _ => rfl
  simp only [element, htype, ofSingle, if_neg hkind]
  rfl

theorem target_ofElement {s : Hint} :
    (ofElement c name s).target = if s.isRecord c then s.asType? else none := rfl

/-- A record type is the target of a relation as well as of a collection. -/
theorem ofSingle_isRecord {s : Hint} (hrecord : s.isRecord c = true) :
    ∃ t r, s = .type t ∧ ofSingle c name s = .ok r ∧ r.kind = .relation ∧ r.target = some t ∧
      (ofElement c name s).target = some t := by
  cases s with
  | type t =>
      refine ⟨t, _, rfl, if_pos (Hint.kind_eq_relation_iff.mpr hrecord), rfl, rfl, ?_⟩
      exact if_pos hrecord
  | _ => cases hrecord

theorem ofSingle_of_ne_type {h : Hint} (hh : ∀ t, h ≠ .type t) :
    ofSingle c name h =
      if h.isHashable then .ok { name := name, kind := .scalar, type := some h } else .error .badType := by
  cases h with
  | type t => exact absurd rfl (hh t)
  | _ => rfl

/-- A choice has no parser, so the field it makes depends on it by its type alone. -/
theorem ofSingle_orAbsent {h e : Hint} (he : h.OrAbsent e) (hchoice : h.IsChoice) :
    ofSingle c name e = (ofSingle c name h).map fun f => { f with type := some e } := by
  rw [ofSingle_of_ne_type he.ne_type, ofSingle_of_ne_type hchoice.ne_type, he.isHashable_eq]
  split <;> rfl

end Field

/-! ## Filters on collections and on plain fields -/

namespace Predicate

mutual

/-- A predicate with its tests and searches made elsewhere; the tests within a search stay as they are. -/
def readdressed (place : List String → List String) : Predicate → Predicate
  | .equals field value => .equals (place field) value
  | .contains field text => .contains (place field) text
  | .range field lower upper => .range (place field) lower upper
  | .any collection inner => .any (place collection) inner
  | .and items => .and (readdressedAll place items)
  | .or items => .or (readdressedAll place items)
  | .absent => .absent
  | .unknown => .unknown

/-- Several predicates with their tests and searches made elsewhere. -/
def readdressedAll (place : List String → List String) : List Predicate → List Predicate
  | [] => []
  | p :: ps => readdressed place p :: readdressedAll place ps

end

variable {settings : Settings} {f : Field} {item : FilterItem}

section Readdressed

variable (place : List String → List String)

theorem readdressedAll_eq (ps : List Predicate) : readdressedAll place ps = ps.map (readdressed place) := by
  induction ps with
  | nil => rfl
  | cons p ps ih => rw [readdressedAll, ih, List.map_cons]

theorem combine_readdressed (tests : List Predicate) :
    combine .or (tests.map (readdressed place)) = (combine .or tests).map (readdressed place) := by
  rcases tests with _ | ⟨p, _ | ⟨q, tests⟩⟩
  · rfl
  · rfl
  · change some (or ((p :: q :: tests).map (readdressed place))) = some (or _)
    rw [readdressedAll_eq]

theorem comparisons_readdressed (field : List String) :
    comparisons f (place field) item = (comparisons f field item).map (List.map (readdressed place)) := by
  unfold comparisons
  split
  · rw [Except.map, List.map_map]
    rfl
  · induction usableValues item with
    | nil => rfl
    | cons v vs ih =>
        rw [List.mapM_cons, List.mapM_cons, ih]
        cases f.convert v item.property with
        | error e => rfl
        | ok w =>
            cases vs.mapM fun v => (f.convert v item.property).map (equals field) <;> rfl

theorem ofDates_readdressed (field : List String) :
    ofDates settings f (place field) item = (ofDates settings f field item).map (readdressed place) := by
  unfold ofDates
  dsimp only
  split
  · rename_i low high _
    cases bound settings.datePlaceholder f item.property low with
    | error e => rfl
    | ok lower =>
        cases bound settings.datePlaceholder f item.property high with
        | error e => rfl
        | ok upper =>
            simp only [Outcome.ok_bind]
            split <;> rfl
  · rfl
  · rfl

/-- The predicate of an item is made for a field and asked of the names that lead to it. -/
theorem ofLeaf_readdressed (field : List String) :
    ofLeaf settings f (place field) item = (ofLeaf settings f field item).map (readdressed place) := by
  unfold ofLeaf
  split
  · exact ofDates_readdressed place field
  · rfl
  · rfl
  · rw [comparisons_readdressed place field]
    cases comparisons f field item with
    | error e => rfl
    | ok tests =>
        simp only [Except.map, Outcome.ok_bind, combine_readdressed]
        cases combine .or tests <;> rfl

end Readdressed

/-- The error for an item on a field whose values nothing can be compared with. -/
def unparsedError (f : Field) (item : FilterItem) : RequestError :=
  match usableValues item with
  | [] => .noUsableValue item.property
  | v :: _ =>
    .incomparable v f.typeName (match item.property with
      | some p => if p.isEmpty then some f.name else some p
      | none => some f.name)

theorem ofLeaf_unparsed (hkind : f.kind = .scalar) (hparser : f.parser = none) (field : List String) :
    ofLeaf settings f field item = .error (unparsedError f item) := by
  rw [ofLeaf, hkind]
  dsimp only
  rw [comparisons, hkind, if_neg nofun, unparsedError]
  cases usableValues item with
  | nil => rfl
  | cons v vs =>
      rw [List.mapM_cons]
      simp only [Field.convert, hparser]
      rfl

theorem kind_unparsedError (f g : Field) (item : FilterItem) :
    (unparsedError f item).kind = (unparsedError g item).kind := by
  unfold unparsedError
  split <;> rfl

/-- What an item on a path of one segment depends on before the field is looked at. -/
def admitted (x : Context) (item : FilterItem) : Except Failure Unit :=
  if item.values.isEmpty then .error (.request (.noValues item.property))
  else do
    let limit ← x.settings.maxPathDepth
    if 1 ≤ limit.number then .ok () else .error (.request (.tooDeep item.property limit))

variable {x : Context} {root : TypeRef} {segment : String}

theorem resolve_segment (hsegment : pathSegments item.property = [segment])
    (hvalues : item.values.isEmpty = false) :
    x.resolve root item.property =
      admitted x item >>= fun _ => x.resolveSegments root item.property [segment] := by
  have hsplit : splitPath item.property = .ok [segment] := by
    rw [splitPath_of_ne_nil (by rw [hsegment]; exact List.cons_ne_nil _ _), hsegment]
  rw [Context.resolve, hsplit, admitted, hvalues]
  cases x.settings.maxPathDepth with
  | error e => rfl
  | ok limit =>
      simp only [Except.mapError, Outcome.ok_bind, Bool.false_eq_true, if_false, Context.checkDepth,
        List.length_singleton, Nat.cast_one]
      split <;> rfl

/-- A segment that is found is a whole path. -/
theorem resolveSegments_of_found (hfound : (x.table root).map (·.find? segment) = .ok (some f))
    (path : Option String) : x.resolveSegments root path [segment] = .ok ⟨path, [f], segment, none⟩ := by
  rw [Context.resolveSegments, walk, hfound]
  cases hcollection : f.isCollection <;> simp [hcollection]

theorem ofItem_eq (hsegment : pathSegments item.property = [segment]) :
    ofItem x root item = admitted x item >>= fun _ =>
      x.resolveSegments root item.property [segment] >>= fun p =>
        if p.isCollection then do
          let (f, field) ← x.resolveElement p
          let inner ← (ofLeaf x.settings f field item).mapError .request
          .ok (.any p.field inner)
        else (ofLeaf x.settings p.leaf p.field item).mapError .request := by
  cases hvalues : item.values.isEmpty with
  | true => simp [ofItem, admitted, hvalues]
  | false =>
      rw [ofItem, hvalues, if_neg (by decide), resolve_segment hsegment hvalues]
      cases admitted x item <;> rfl

/-- An item on a collection of values is one on what its elements are. -/
theorem ofItem_elements (hsegment : pathSegments item.property = [segment]) (hfinds : x.Finds root segment f)
    (hcollection : f.isCollection = true) (htarget : f.target = none) :
    ofItem x root item = admitted x item >>= fun _ => (f.element x.catalogue).mapError .fault >>= fun e =>
      ((ofLeaf x.settings e [] item).mapError .request).map (.any [f.name]) := by
  rw [ofItem_eq hsegment, resolveSegments_of_found (Context.map_find?_of_finds hfinds)]
  have hleaf : (ResolvedPath.mk item.property [f] segment none).leaf = f := rfl
  simp only [Outcome.ok_bind, ResolvedPath.isCollection, hleaf, hcollection, if_true,
    Context.resolveElement, htarget]
  cases f.element x.catalogue with
  | error fault => rfl
  | ok e =>
      cases hinner : ofLeaf x.settings e [] item with
      | error err => simp [Except.mapError, Except.map, hinner]
      | ok inner => simp [Except.mapError, Except.map, hinner, ResolvedPath.field]

/-- An item on a plain field, or on one that cannot be made. -/
theorem ofItem_plain {r : Except Fault Field} (hsegment : pathSegments item.property = [segment])
    (hfound : (x.table root).map (·.find? segment) = r.map some)
    (hplain : ∀ f, r = .ok f → f.isCollection = false) :
    ofItem x root item = admitted x item >>= fun _ => r.mapError .fault >>= fun f =>
      (ofLeaf x.settings f [f.name] item).mapError .request := by
  rw [ofItem_eq hsegment]
  cases r with
  | error fault =>
      have hbroken : x.resolveSegments root item.property [segment] = .error (.fault fault) := by
        rw [Context.resolveSegments, walk, hfound]
        rfl
      rw [hbroken]
      rfl
  | ok f =>
      rw [resolveSegments_of_found hfound]
      have hleaf : (ResolvedPath.mk item.property [f] segment none).leaf = f := rfl
      simp only [Outcome.ok_bind, ResolvedPath.isCollection, hleaf, hplain f rfl, Bool.false_eq_true,
        if_false]
      rfl

end Predicate

open Predicate in
/-- A filter on a collection of values asks some element for what the same filter asks a plain field of its
hint for, and fails in the same class where that one fails. -/
theorem Predicate.ofItem_like_plain {x : Context} {root root' : TypeRef} {item : FilterItem} {segment : String}
    {f : Field} {plain : Except Fault Field} (hsegment : pathSegments item.property = [segment])
    (hfinds : x.Finds root segment f) (hcollection : f.isCollection = true) (htarget : f.target = none)
    (hfound : (x.table root').map (·.find? segment) = plain.map some)
    (hplain : ∀ g, plain = .ok g → g.isCollection = false)
    (helement : f.element x.catalogue = plain ∨ ∃ type,
      f.element x.catalogue = plain.map (fun g => { g with type := some type }) ∧
        ∀ g, plain = .ok g → g.kind = .scalar ∧ g.parser = none) :
    Outcome.Tracks Failure.SameClass (fun p => .any [f.name] (p.readdressed fun _ => []))
      (ofItem x root' item) (ofItem x root item) := by
  rw [ofItem_elements hsegment hfinds hcollection htarget,
    ofItem_plain hsegment hfound hplain]
  refine (Outcome.Tracks.refl .refl _).bind fun _ _ => ?_
  cases plain with
  | error fault =>
      rcases helement with helement | ⟨type, helement, -⟩
      all_goals
        rw [helement]
        exact .error (.refl _)
  | ok g =>
      rcases helement with helement | ⟨type, helement, hunparsed⟩
      · rw [helement]
        simp only [Except.mapError, Outcome.ok_bind]
        rw [ofLeaf_readdressed (fun _ => []) [g.name]]
        cases ofLeaf x.settings g [g.name] item with
        | error err => exact .error (.refl _)
        | ok p => exact .ok p
      · obtain ⟨hkind, hparser⟩ := hunparsed g rfl
        rw [helement]
        simp only [Except.mapError, Except.map, Outcome.ok_bind]
        rw [ofLeaf_unparsed hkind hparser, ofLeaf_unparsed (f := { g with type := some type }) hkind hparser]
        exact .error (.request (kind_unparsedError _ _ _))

theorem Field.isCollection_ofSingle {c : Catalogue} {name : String} {s : Hint} {f : Field}
    (hf : ofSingle c name s = .ok f) : f.isCollection = false := by
  rw [ofSingle] at hf
  split at hf
  · obtain rfl := Except.ok.inj hf
    rfl
  · split at hf
    · obtain rfl := Except.ok.inj hf
      exact beq_false_of_ne (Hint.kind_ne_collection c s)
    · cases hf

theorem Field.unparsed_of_isChoice {c : Catalogue} {name : String} {h : Hint} (hchoice : h.IsChoice) {f : Field}
    (hf : ofSingle c name h = .ok f) : f.kind = .scalar ∧ f.parser = none := by
  rw [ofSingle_of_ne_type hchoice.ne_type] at hf
  split at hf
  · obtain rfl := Except.ok.inj hf
    exact ⟨rfl, rfl⟩
  · cases hf

/-- A collection of elements of a hint, which may stand in a choice with absence.  If the hint is a record
type but for absence, the collection leads to the type that a plain field of it leads to.  Otherwise its
elements are by themselves what a plain field of the hint is, or cannot be told for the same reason; only
where absence is added to a choice between several types, their type is the larger choice, which stands for
itself.  So a filter on the collection asks some element for what the same filter asks a plain field for, and
fails in the same class where that one fails. -/
theorem Field.elements_like_fields {c : Catalogue} {name : String} {h e g : Hint} (hh : h.IsSingular)
    (he : e = h ∨ h.OrAbsent e) (hg : e.IsElementOf g) :
    ∃ f, ofHint c name g = .ok f ∧ f.name = name ∧ f.kind = .collection ∧
      (h.withoutAbsent.isRecord c = true → ∃ r, ofHint c name h = .ok r ∧ r.kind = .relation ∧
        r.target.isSome ∧ f.target = r.target) ∧
      (h.withoutAbsent.isRecord c = false → f.target = none ∧
        (e = h ∨ ¬ h.IsChoice → f.element c = ofHint c name h) ∧
        (h.OrAbsent e ∧ h.IsChoice →
          f.element c = (ofHint c name h).map fun plain => { plain with type := some e }) ∧
        ∀ (x : Context) (root root' : TypeRef) (item : FilterItem) (segment : String), x.catalogue = c →
          pathSegments item.property = [segment] → x.Finds root segment f →
          (x.table root').map (·.find? segment) = (ofHint c name h).map some →
          (∀ p, Predicate.ofItem x root' item = .ok p →
            Predicate.ofItem x root item = .ok (.any [name] (p.readdressed fun _ => []))) ∧
          ∀ err, Predicate.ofItem x root' item = .error err →
            ∃ err', Predicate.ofItem x root item = .error err' ∧ err'.SameClass err) := by
  have hsingle : ofHint c name h = ofSingle c name h.withoutAbsent := ofHint_isSingular hh
  have hmade : ofHint c name g = .ok (ofElement c name e.withoutAbsent) := by
    rcases he with rfl | he
    · exact ofHint_isElementOf hg hh.written hh.ne_forward
    · exact ofHint_isElementOf hg (he.ne_type _) (by cases he <;> exact nofun)
  refine ⟨_, hmade, rfl, rfl, fun hrecord => ?_, fun hrecord => ?_⟩
  · obtain ⟨t, r, ht, hr, hkind, htarget, htarget'⟩ := ofSingle_isRecord hrecord
    have hchoice : ¬ h.IsChoice := fun hchoice =>
      hchoice.ne_type t (by rw [← ht, Hint.withoutAbsent_of_isChoice hchoice])
    rw [Hint.withoutAbsent_around hh he (.inr hchoice), hsingle]
    exact ⟨r, hr, hkind, by rw [htarget]; rfl, by rw [htarget, htarget']⟩
  · have hsame (hsame : e = h ∨ ¬ h.IsChoice) :
        (ofElement c name e.withoutAbsent).element c = ofHint c name h := by
      rw [Hint.withoutAbsent_around hh he hsame, hsingle]
      exact element_ofElement hh.present hrecord
    have hlarger (hlarger : h.OrAbsent e ∧ h.IsChoice) :
        (ofElement c name e.withoutAbsent).element c =
          (ofHint c name h).map fun plain => { plain with type := some e } := by
      obtain ⟨he, hchoice⟩ := hlarger
      have hrecord' : e.isRecord c = false := by cases he <;> rfl
      rw [he.withoutAbsent_of_isChoice hh hchoice, element_ofElement (by cases he <;> exact nofun) hrecord',
        ofSingle_orAbsent he hchoice, hsingle, Hint.withoutAbsent_of_isChoice hchoice]
    have htarget : (ofElement c name e.withoutAbsent).target = none := by
      rw [target_ofElement]
      refine if_neg ?_
      by_cases hchoice : e = h ∨ ¬ h.IsChoice
      · rw [Hint.withoutAbsent_around hh he hchoice, hrecord]
        decide
      · obtain ⟨hne, hchoice⟩ := not_or.mp hchoice
        have he := he.resolve_left hne
        rw [he.withoutAbsent_of_isChoice hh (not_not.mp hchoice)]
        cases he <;> exact nofun
    refine ⟨htarget, hsame, hlarger, ?_⟩
    intro x root root' item segment hx hsegment hfinds hfound
    subst hx
    have hplain : ∀ g, ofHint x.catalogue name h = .ok g → g.isCollection = false := by
      intro g hg
      rw [hsingle] at hg
      exact isCollection_ofSingle hg
    have htracks := Predicate.ofItem_like_plain hsegment hfinds rfl htarget hfound hplain <| by
      by_cases hchoice : e = h ∨ ¬ h.IsChoice
      · exact .inl (hsame hchoice)
      · obtain ⟨hne, hchoice⟩ := not_or.mp hchoice
        have hchoice := not_not.mp hchoice
        refine .inr ⟨e, hlarger ⟨he.resolve_left hne, hchoice⟩, fun g hg => ?_⟩
        rw [hsingle, Hint.withoutAbsent_of_isChoice hchoice] at hg
        exact unparsed_of_isChoice hchoice hg
    exact ⟨fun p hp => htracks.eq_ok hp, fun err herr => htracks.exists_error herr⟩

/-- Charts with ranks, which may be absent, and places with one rank. -/
def rankings : Context where
  catalogue :=
    { records :=
        [⟨"Chart", true, [],
            [("ranks", .optional (.collection "List" true [.either (.type (.builtin "int")) .absent]))]⟩,
          ⟨"Place", true, [], [("ranks", .type (.builtin "int"))]⟩] }

/-- A filter on the ranks of a chart asks some of them for the rank that a place is asked for. -/
theorem Field.elements_like_fields_rankings :
    Predicate.ofItem rankings (.record "Place") ⟨some "Ranks", [some "7"]⟩ = .ok (.equals ["ranks"] (.int 7)) ∧
      Predicate.ofItem rankings (.record "Chart") ⟨some "Ranks", [some "7"]⟩ =
        .ok (.any ["ranks"] (.equals [] (.int 7))) := by
  have hsingular : (Hint.type (.builtin "int")).IsSingular :=
    ⟨List.cons_ne_nil _ _, by simp [Hint.alternatives], nofun, nofun, by simp [Hint.andSoOn]⟩
  have hg : (Hint.either (.type (.builtin "int")) .absent).IsElementOf
      (.optional (.collection "List" true [.either (.type (.builtin "int")) .absent])) :=
    .orAbsent (.form "List" true []) .optional
  have hplain : Predicate.ofItem rankings (.record "Place") ⟨some "Ranks", [some "7"]⟩ =
      .ok (.equals ["ranks"] (.int 7)) := rfl
  obtain ⟨f, hf, -, -, -, helements⟩ :
      ∃ f, ofHint rankings.catalogue "ranks" _ = .ok f ∧ _ :=
    elements_like_fields hsingular (.inr .either) hg
  obtain rfl := Except.ok.inj hf
  obtain ⟨-, -, -, hfilter⟩ := helements rfl
  exact ⟨hplain, (hfilter rankings (.record "Chart") (.record "Place") ⟨some "Ranks", [some "7"]⟩ "Ranks" rfl rfl
    ⟨_, rfl, rfl⟩ rfl).1 _ hplain⟩

/-- Absence added to a choice between numbers and texts is not taken away again. -/
theorem Field.elements_unlike_fields : ¬ ∀ (c : Catalogue) (name : String) (h e g : Hint) (f : Field),
    h.IsSingular → h.OrAbsent e → e.IsElementOf g → h.withoutAbsent.isRecord c = false →
      ofHint c name g = .ok f → f.element c = ofHint c name h := by
  intro hall
  have hsingular : (Hint.either (.type (.builtin "int")) (.type (.builtin "str"))).IsSingular :=
    ⟨List.cons_ne_nil _ _, by simp [Hint.alternatives], nofun, nofun, nofun⟩
  have heq := hall {} "marks" _ _ _ _ hsingular .either (.form "list" false []) rfl rfl
  have htype := congrArg (fun r => r.toOption.bind Field.type) heq
  cases Option.some.inj htype

end PageQuery
