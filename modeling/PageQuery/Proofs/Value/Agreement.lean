import Mathlib
import PageQuery.Predicate.Holds
import PageQuery.Proofs.Outcome
import PageQuery.Schema.Table
import PageQuery.Source

/-!
# Values that agree on everything public

Two values agree if they differ in private attributes at most: of records, of the records that these
lead to, and of those that their collections hold.  The records of the one and of the other need not be
the same.  But whether two records are equal is for their type to say: it may look at private attributes,
or at no attribute at all.  So it is told which records stand for each other, and those that do have to be
equal to others alike.  Whatever else is done to values besides reading attributes then has the same
outcome for values that agree, and so has reading a public attribute.
-/

namespace PageQuery

/-- Two tests that agree on the items of two lists, place by place, answer alike. -/
theorem anyHolds_eq_of_forall₂ {α β ε : Type} {R : α → β → Prop} {test : α → Except ε Bool}
    {test' : β → Except ε Bool} {xs : List α} {ys : List β} (h : List.Forall₂ R xs ys)
    (htest : ∀ x ∈ xs, ∀ y, R x y → test x = test' y) : anyHolds test xs = anyHolds test' ys := by
  induction h with
  | nil => rfl
  | @cons x y xs ys hxy hrest ih =>
      obtain ⟨hx, hxs⟩ := List.forall_mem_cons.mp htest
      rw [anyHolds, anyHolds, hx y hxy, ih hxs]

namespace Value

def isAtom : Value → Bool
  | .list _ | .tuple _ | .set _ | .mapping _ | .member .. | .record .. => false
  | _ => true

/-- Two values that differ in private attributes at most, where `twin` tells which records stand for each
other. -/
inductive Agrees (twin : Value → Value → Prop) : Value → Value → Prop
  | atom {v : Value} (h : v.isAtom = true) : Agrees twin v v
  | list {xs ys : List Value} (h : List.Forall₂ (Agrees twin) xs ys) :
      Agrees twin (.list xs) (.list ys)
  | tuple {xs ys : List Value} (h : List.Forall₂ (Agrees twin) xs ys) :
      Agrees twin (.tuple xs) (.tuple ys)
  | set {xs ys : List Value} (h : List.Forall₂ (Agrees twin) xs ys) :
      Agrees twin (.set xs) (.set ys)
  | mapping {es fs : List (String × Value)} (hkeys : es.map (·.1) = fs.map (·.1))
      (h : List.Forall₂ (Agrees twin) (es.map (·.2)) (fs.map (·.2))) :
      Agrees twin (.mapping es) (.mapping fs)
  | member {enumeration name : String} {mixin : Mixin} {u v : Value} (h : Agrees twin u v) :
      Agrees twin (.member enumeration name mixin u) (.member enumeration name mixin v)
  | record {i j : Identity} {type : String} {as bs : List (String × Value)}
      (htwin : twin (.record i type as) (.record j type bs))
      (h : ∀ name, isPrivate name = false →
        Agrees twin ((as.lookup name).getD .none) ((bs.lookup name).getD .none)) :
      Agrees twin (.record i type as) (.record j type bs)

/-- Records that stand for others are equal exactly if these are. -/
def Respects (twin : Value → Value → Prop) : Prop :=
  ∀ ⦃r r' s s' : Value⦄, twin r r' → twin s s' → r.same s = r'.same s'

/-- Two entries with the same key and values that agree. -/
def EntriesAgree (twin : Value → Value → Prop) (e f : String × Value) : Prop :=
  e.1 = f.1 ∧ Agrees twin e.2 f.2

theorem forall₂_entriesAgree_iff {twin : Value → Value → Prop} {es fs : List (String × Value)} :
    List.Forall₂ (EntriesAgree twin) es fs ↔
      es.map (·.1) = fs.map (·.1) ∧ List.Forall₂ (Agrees twin) (es.map (·.2)) (fs.map (·.2)) := by
  induction es generalizing fs with
  | nil => cases fs <;> simp
  | cons e es ih =>
      cases fs with
      | nil => simp
      | cons f fs => simp [EntriesAgree, ih, and_assoc, and_left_comm]

theorem sizeOf_snd_lt {es : List (String × Value)} {e : String × Value} (he : e ∈ es) :
    sizeOf e.2 < sizeOf es := by
  have hsize := List.sizeOf_lt_of_mem he
  obtain ⟨key, v⟩ := e
  rw [Prod.mk.sizeOf_spec] at hsize
  dsimp only
  omega

/-- Whether a value is compared by other values that it consists of. -/
def isContainer : Value → Bool
  | .list _ | .tuple _ | .set _ | .mapping _ | .member _ _ .other _ | .record .. => true
  | _ => false

/-- How values are compared that are no containers: as numbers, or else by what they are. -/
def sameScalar (u v : Value) : Except Fault Bool :=
  match u.asNum?, v.asNum? with
  | some a, some b => a.same b
  | _, _ => .ok (sameAtom u.bare v.bare)

theorem same_eq_sameScalar {u : Value} (h : u.isContainer = false) (v : Value) :
    u.same v = u.sameScalar v := by
  cases u with
  | list | tuple | set | mapping | record => cases h
  | member enumeration name mixin u =>
      cases mixin with
      | other => cases h
      | _ =>
          simp only [same]
          rfl
  | _ =>
      simp only [same]
      rfl

/-- Whether a value is ordered by other values that it consists of. -/
def isRow : Value → Bool
  | .list _ | .tuple _ | .set _ | .member _ _ .other _ => true
  | _ => false

/-- How values are ordered that are not ordered by others: as numbers, or else by what they are. -/
def lessScalar (u v : Value) : Except Fault Bool :=
  match u.asNum?, v.asNum? with
  | some a, some b => a.less b
  | _, _ => lessAtom u.bare v.bare

theorem less_eq_lessScalar {u : Value} (h : u.isRow = false) (v : Value) :
    u.less v = u.lessScalar v := by
  cases u with
  | list | tuple | set => cases h
  | member enumeration name mixin u =>
      cases mixin with
      | other => cases h
      | _ =>
          simp only [less]
          rfl
  | _ =>
      simp only [less]
      rfl

namespace Agrees

variable {twin : Value → Value → Prop} {u u' v v' : Value}

theorem none : Agrees twin .none .none := .atom rfl

theorem bare (h : Agrees twin u v) : Agrees twin u.bare v.bare := by
  cases h with
  | atom h => cases u <;> first | exact .atom rfl | cases h
  | list h => exact .list h
  | tuple h => exact .tuple h
  | set h => exact .set h
  | mapping hkeys h => exact .mapping hkeys h
  | @member _ _ mixin _ _ h =>
      cases mixin with
      | plain => exact .member h
      | _ => exact h
  | record htwin h => exact .record htwin h

theorem isNone_eq (h : Agrees twin u v) : u.isNone = v.isNone := by
  cases h <;> rfl

theorem typeOf_eq (h : Agrees twin u v) : u.typeOf = v.typeOf := by
  cases h <;> rfl

theorem asDateTime?_eq (h : Agrees twin u v) : u.asDateTime? = v.asDateTime? := by
  rw [asDateTime?, asDateTime?]
  have hbare := h.bare
  generalize u.bare = u, v.bare = v at hbare
  cases hbare <;> rfl

theorem asText?_eq (h : Agrees twin u v) : u.asText? = v.asText? := by
  rw [asText?, asText?]
  have hbare := h.bare
  generalize u.bare = u, v.bare = v at hbare
  cases hbare <;> rfl

theorem asNum?_eq (h : Agrees twin u v) : u.asNum? = v.asNum? := by
  rw [asNum?, asNum?]
  have hbare := h.bare
  generalize u.bare = u, v.bare = v at hbare
  cases hbare <;> rfl

theorem isTruthy_eq (h : Agrees twin u v) : u.isTruthy = v.isTruthy := by
  rw [isTruthy, isTruthy]
  have hbare := h.bare
  generalize u.bare = u, v.bare = v at hbare
  cases hbare with
  | list h => cases h <;> rfl
  | tuple h => cases h <;> rfl
  | set h => cases h <;> rfl
  | mapping hkeys h => cases forall₂_entriesAgree_iff.mpr ⟨hkeys, h⟩ <;> rfl
  | _ => rfl

/-! ## Attributes and elements -/

theorem readAttribute (h : Agrees twin u v) {name : String} (hname : isPrivate name = false) :
    Agrees twin (u.readAttribute name) (v.readAttribute name) := by
  cases h with
  | record _ h => exact h name hname
  | atom h => cases u <;> first | exact .none | cases h
  | _ => exact .none

/-- Public names lead from values that agree to values that agree. -/
theorem follow {names : List String} (hnames : ∀ name ∈ names, isPrivate name = false)
    (h : Agrees twin u v) : Agrees twin (u.follow names) (v.follow names) := by
  induction names generalizing u v with
  | nil => exact h
  | cons name names ih =>
      obtain ⟨hname, hnames⟩ := List.forall_mem_cons.mp hnames
      exact ih hnames (h.readAttribute hname)

theorem forall₂_of_atoms {xs : List Value} (h : ∀ x ∈ xs, x.isAtom = true) :
    List.Forall₂ (Agrees twin) xs xs :=
  List.forall₂_same.mpr fun x hx => .atom (h x hx)

/-- Mappings that agree have the same keys, with values that agree. -/
theorem lookup {es fs : List (String × Value)}
    (h : List.Forall₂ (EntriesAgree twin) es fs) (key : String) :
    es.lookup key = Option.none ∧ fs.lookup key = Option.none ∨
      ∃ x y, es.lookup key = some x ∧ fs.lookup key = some y ∧ Agrees twin x y := by
  induction h with
  | nil => exact .inl ⟨rfl, rfl⟩
  | @cons e f es fs he hes ih =>
      obtain ⟨k, x⟩ := e
      obtain ⟨k', y⟩ := f
      obtain ⟨rfl, hxy⟩ := he
      rw [List.lookup_cons, List.lookup_cons]
      cases key == k with
      | true => exact .inr ⟨x, y, rfl, rfl, hxy⟩
      | false => exact ih

/-- Values that agree consist of parts that agree, or neither consists of any. -/
theorem parts (h : Agrees twin u v) :
    (∃ xs ys, u.parts = .ok xs ∧ v.parts = .ok ys ∧ List.Forall₂ (Agrees twin) xs ys) ∨
      ∃ f, u.parts = .error f ∧ v.parts = .error f := by
  rw [Value.parts, Value.parts]
  have hbare := h.bare
  generalize u.bare = u, v.bare = v at hbare
  cases hbare with
  | list h => exact .inl ⟨_, _, rfl, rfl, h⟩
  | tuple h => exact .inl ⟨_, _, rfl, rfl, h⟩
  | set h => exact .inl ⟨_, _, rfl, rfl, h⟩
  | mapping hkeys h =>
      refine .inl ⟨_, _, rfl, rfl, ?_⟩
      rw [List.forall₂_map_left_iff, List.forall₂_map_right_iff]
      exact (forall₂_entriesAgree_iff.mpr ⟨hkeys, h⟩).imp fun e f hkey => hkey.1 ▸ .atom rfl
  | atom h =>
      cases u with
      | text s => exact .inl ⟨_, _, rfl, rfl, forall₂_of_atoms (by simp [isAtom])⟩
      | bytes octets => exact .inl ⟨_, _, rfl, rfl, forall₂_of_atoms (by simp [isAtom])⟩
      | list | tuple | set | mapping | member | record => cases h
      | _ => exact .inr ⟨_, rfl, rfl⟩
  | member => exact .inr ⟨_, rfl, rfl⟩
  | record => exact .inr ⟨_, rfl, rfl⟩

/-- Values that agree have elements that agree, or neither has any. -/
theorem elements (h : Agrees twin u v) :
    (∃ xs ys, u.elements = .ok xs ∧ v.elements = .ok ys ∧ List.Forall₂ (Agrees twin) xs ys) ∨
      ∃ f, u.elements = .error f ∧ v.elements = .error f := by
  rw [Value.elements, Value.elements, h.isTruthy_eq]
  split
  · exact h.parts
  · exact .inl ⟨[], [], rfl, rfl, .nil⟩

/-! ## Equality -/

theorem sameAtom_eq (hu : Agrees twin u u') (hv : Agrees twin v v') :
    sameAtom u v = sameAtom u' v' := by
  cases hu with
  | atom hu =>
      cases hv with
      | atom => rfl
      | _ => cases u <;> first | rfl | cases hu
  | @member _ _ mixin _ _ hu =>
      cases hv with
      | @member _ _ mixin' _ _ hv => cases mixin <;> cases mixin' <;> rfl
      | atom hv =>
          cases v with
          | member => cases hv
          | _ => cases mixin <;> rfl
      | _ => cases mixin <;> rfl
  | _ =>
      cases hv with
      | atom hv => cases v <;> rfl
      | _ => rfl

theorem sameScalar_eq (hu : Agrees twin u u') (hv : Agrees twin v v') :
    u.sameScalar v = u'.sameScalar v' := by
  rw [sameScalar, sameScalar, hu.asNum?_eq, hv.asNum?_eq, sameAtom_eq hu.bare hv.bare]

mutual

/-- Values that agree are equal to values that agree alike. -/
theorem same_eq (htwin : Respects twin) {u u' v v' : Value} (hu : Agrees twin u u')
    (hv : Agrees twin v v') : u.same v = u'.same v' := by
  have hbare := hv.bare
  cases hu with
  | list hxs =>
      rw [same, same]
      generalize v.bare = w, v'.bare = w' at hbare
      cases hbare with
      | list hys => simp only [hxs.length_eq, hys.length_eq, sameItems_eq htwin hxs hys]
      | atom hw => cases w <;> first | rfl | cases hw
      | _ => rfl
  | tuple hxs =>
      rw [same, same]
      generalize v.bare = w, v'.bare = w' at hbare
      cases hbare with
      | tuple hys => exact sameItems_eq htwin hxs hys
      | atom hw => cases w <;> first | rfl | cases hw
      | _ => rfl
  | set hxs =>
      rw [same, same]
      generalize v.bare = w, v'.bare = w' at hbare
      cases hbare with
      | set hys => simp only [hxs.length_eq, hys.length_eq, subset_eq htwin hxs hys]
      | atom hw => cases w <;> first | rfl | cases hw
      | _ => rfl
  | mapping hkeys hvalues =>
      rw [same, same]
      generalize v.bare = w, v'.bare = w' at hbare
      cases hbare with
      | mapping hkeys' hvalues' =>
          have hes := forall₂_entriesAgree_iff.mpr ⟨hkeys, hvalues⟩
          have hfs := forall₂_entriesAgree_iff.mpr ⟨hkeys', hvalues'⟩
          simp only [hes.length_eq, hfs.length_eq, sameEntries_eq htwin hes hfs]
      | atom hw => cases w <;> first | rfl | cases hw
      | _ => rfl
  | record hr h =>
      cases hv with
      | record hs => exact htwin hr hs
      | atom hv => cases v <;> first | (cases hv; done) | simp only [same]
      | _ => simp only [same]
  | atom hu =>
      have hscalar : u.isContainer = false := by cases u <;> first | rfl | cases hu
      rw [same_eq_sameScalar hscalar, same_eq_sameScalar hscalar, (Agrees.atom hu).sameScalar_eq hv]
  | @member _ _ mixin _ _ hu =>
      cases mixin with
      | other => rw [same, same, same_eq htwin hu hv]
      | _ =>
          rw [same_eq_sameScalar rfl, same_eq_sameScalar rfl, (Agrees.member hu).sameScalar_eq hv]
termination_by sizeOf u

theorem sameItems_eq (htwin : Respects twin) {xs xs' ys ys' : List Value}
    (hxs : List.Forall₂ (Agrees twin) xs xs') (hys : List.Forall₂ (Agrees twin) ys ys') : sameItems xs ys = sameItems xs' ys' := by
  cases hxs with
  | nil => cases hys <;> simp only [sameItems]
  | cons hx hxs =>
      cases hys with
      | nil => simp only [sameItems]
      | cons hy hys => rw [sameItems, sameItems, same_eq htwin hx hy, sameItems_eq htwin hxs hys]
termination_by sizeOf xs

theorem sameEntries_eq (htwin : Respects twin) {es es' fs fs' : List (String × Value)}
    (hes : List.Forall₂ (EntriesAgree twin) es es')
    (hfs : List.Forall₂ (EntriesAgree twin) fs fs') :
    sameEntries es fs = sameEntries es' fs' := by
  cases hes with
  | nil => simp only [sameEntries]
  | @cons e e' es es' he hes =>
      have hsize := sizeOf_snd_lt (List.mem_cons_self (a := e) (l := es))
      change sameEntries ((e.1, e.2) :: es) fs = sameEntries ((e'.1, e'.2) :: es') fs'
      rw [sameEntries, sameEntries, sameEntries_eq htwin hes hfs, ← he.1]
      rcases lookup hfs e.1 with ⟨hnone, hnone'⟩ | ⟨y, y', hsome, hsome', hy⟩
      · rw [hnone, hnone']
      · rw [hsome, hsome']
        dsimp only
        rw [same_eq htwin he.2 hy]
termination_by sizeOf es

theorem subset_eq (htwin : Respects twin) {xs xs' ys ys' : List Value} (hxs : List.Forall₂ (Agrees twin) xs xs')
    (hys : List.Forall₂ (Agrees twin) ys ys') : subset xs ys = subset xs' ys' := by
  cases hxs with
  | nil => simp only [subset]
  | @cons x x' xs xs' hx hxs =>
      have hany : anyHolds (same x) ys = anyHolds (same x') ys' :=
        anyHolds_eq_of_forall₂ hys fun y _ y' hy => same_eq htwin hx hy
      rw [subset, subset, hany, subset_eq htwin hxs hys]
termination_by sizeOf xs

end

/-! ## Order -/

theorem lessAtom_eq (hu : Agrees twin u u') (hv : Agrees twin v v') :
    lessAtom u v = lessAtom u' v' := by
  cases hu with
  | atom hu =>
      cases hv with
      | atom => rfl
      | _ => cases u <;> rfl
  | _ =>
      cases hv with
      | atom hv => cases v <;> rfl
      | _ => rfl

theorem lessScalar_eq (hu : Agrees twin u u') (hv : Agrees twin v v') :
    u.lessScalar v = u'.lessScalar v' := by
  rw [lessScalar, lessScalar, hu.asNum?_eq, hv.asNum?_eq, lessAtom_eq hu.bare hv.bare]

mutual

/-- Values that agree are below values that agree alike. -/
theorem less_eq (htwin : Respects twin) {u u' v v' : Value} (hu : Agrees twin u u')
    (hv : Agrees twin v v') : u.less v = u'.less v' := by
  have hbare := hv.bare
  cases hu with
  | list hxs =>
      rw [less, less]
      generalize v.bare = w, v'.bare = w' at hbare
      cases hbare with
      | list hys => exact lessItems_eq htwin hxs hys
      | atom hw => cases w <;> first | rfl | cases hw
      | _ => rfl
  | tuple hxs =>
      rw [less, less]
      generalize v.bare = w, v'.bare = w' at hbare
      cases hbare with
      | tuple hys => exact lessItems_eq htwin hxs hys
      | atom hw => cases w <;> first | rfl | cases hw
      | _ => rfl
  | set hxs =>
      rw [less, less]
      generalize v.bare = w, v'.bare = w' at hbare
      cases hbare with
      | set hys => simp only [hxs.length_eq, hys.length_eq, subset_eq htwin hxs hys]
      | atom hw => cases w <;> first | rfl | cases hw
      | _ => rfl
  | atom hu =>
      have hscalar : u.isRow = false := by cases u <;> first | rfl | cases hu
      rw [less_eq_lessScalar hscalar, less_eq_lessScalar hscalar, (Agrees.atom hu).lessScalar_eq hv]
  | mapping hkeys hes =>
      rw [less_eq_lessScalar rfl, less_eq_lessScalar rfl,
        (Agrees.mapping hkeys hes).lessScalar_eq hv]
  | @member _ _ mixin _ _ hu =>
      cases mixin with
      | other => rw [less, less, less_eq htwin hu hv]
      | _ =>
          rw [less_eq_lessScalar rfl, less_eq_lessScalar rfl, (Agrees.member hu).lessScalar_eq hv]
  | record hr h =>
      rw [less_eq_lessScalar rfl, less_eq_lessScalar rfl, (Agrees.record hr h).lessScalar_eq hv]
termination_by sizeOf u

theorem lessItems_eq (htwin : Respects twin) {xs xs' ys ys' : List Value}
    (hxs : List.Forall₂ (Agrees twin) xs xs') (hys : List.Forall₂ (Agrees twin) ys ys') : lessItems xs ys = lessItems xs' ys' := by
  cases hxs with
  | nil => cases hys <;> simp only [lessItems, List.isEmpty]
  | cons hx hxs =>
      cases hys with
      | nil => simp only [lessItems]
      | cons hy hys =>
          rw [lessItems, lessItems, same_eq htwin hx hy, less_eq htwin hx hy,
            lessItems_eq htwin hxs hys]
termination_by sizeOf xs

end

/-! ## Sorting and testing -/

theorem isSameMember_eq (hu : Agrees twin u u') (hv : Agrees twin v v') :
    u.isSameMember v = u'.isSameMember v' := by
  cases hu with
  | atom hu =>
      cases hv with
      | atom => rfl
      | _ => cases u <;> rfl
  | _ =>
      cases hv with
      | atom hv => cases v <;> rfl
      | _ => rfl

theorem sortValue (h : Agrees twin u v) : Agrees twin u.sortValue v.sortValue := by
  cases h with
  | atom h => cases u <;> first | exact .atom rfl | cases h
  | list h => exact .list h
  | tuple h => exact .tuple h
  | set h => exact .set h
  | mapping hkeys h => exact .mapping hkeys h
  | member h => exact h
  | record htwin h => exact .record htwin h

theorem before_eq (htwin : Respects twin) (hu : Agrees twin u u') (hv : Agrees twin v v') :
    u.before v = u'.before v' := by
  rw [before, before, hu.isNone_eq, hv.isNone_eq, same_eq htwin hu hv, less_eq htwin hu hv]

theorem containsText_eq (h : Agrees twin u v) (text : String) :
    u.containsText text = v.containsText text := by
  rw [containsText, containsText, h.asText?_eq]

theorem alignBound_eq (h : Agrees twin u v) (zone : ℤ) (bound : Value) :
    alignBound zone bound u = alignBound zone bound v := by
  rw [alignBound, alignBound, h.asDateTime?_eq]

theorem alignedMember {zone : ℤ} {bound aligned : Value} {b t : DateTime} (h : Agrees twin bound bound)
    (haligned : alignMember zone bound b t = .ok aligned) : Agrees twin aligned aligned := by
  rw [alignMember] at haligned
  split at haligned
  · obtain rfl := Except.ok.inj haligned
    exact h
  · split at haligned
    · cases haligned
    · obtain rfl := Except.ok.inj haligned
      cases b.align? zone t with
      | none => exact h
      | some shifted => exact .atom rfl

/-- A bound that stands for itself does so when it is aligned. -/
theorem aligned {zone : ℤ} {bound aligned : Value} (h : Agrees twin bound bound)
    (haligned : alignBound zone bound u = .ok aligned) : Agrees twin aligned aligned := by
  rw [alignBound] at haligned
  split at haligned
  · split at haligned
    · exact h.alignedMember haligned
    · split at haligned
      · obtain rfl := Except.ok.inj haligned
        exact .atom rfl
      · cases haligned
  · obtain rfl := Except.ok.inj haligned
    exact h

theorem inRange_eq (htwin : Respects twin) (h : Agrees twin u v) {lower upper : Value}
    (hlower : Agrees twin lower lower) (hupper : Agrees twin upper upper) (zone : ℤ) :
    inRange zone u lower upper = inRange zone v lower upper := by
  rw [inRange, inRange, h.isNone_eq, h.alignBound_eq, h.alignBound_eq]
  split
  · rfl
  · cases hlow : alignBound zone lower v with
    | error f => rfl
    | ok low =>
        cases hhigh : alignBound zone upper v with
        | error f => rfl
        | ok high =>
            have hbelow : u.less low = v.less low := less_eq htwin h (hlower.aligned hlow)
            have habove : high.less u = high.less v := less_eq htwin (hupper.aligned hhigh) h
            rw [Outcome.ok_bind, Outcome.ok_bind, hbelow, habove]
            rfl

end Agrees
end Value
end PageQuery
