import Mathlib
import PageQuery.Predicate.Holds

/-!
# Detached searches

A predicate that asks for some element of a collection may ask the same of a collection of that element.
Read as it stands, the inner collection is that of the element.  Detached, it is looked for from the root
record again, along all names that lead to it, so that the element whose collection it is need not be the
one that is tested beside it.  On the way a record without elements stands for one missing element.
-/

namespace PageQuery

/-- The elements that names lead to from a record, through single records and through lists.  A missing
one stands for those of an empty list. -/
def Value.spread (v : Value) : List String → List Value
  | [] => [v]
  | name :: names =>
    match v.readAttribute name with
    | .list [] => Value.none.spread names
    | .list (u :: us) => (u :: us).flatMap fun u => u.spread names
    | u => u.spread names

namespace Value

theorem spread_append (v : Value) (names more : List String) :
    v.spread (names ++ more) = (v.spread names).flatMap fun u => u.spread more := by
  induction names generalizing v with
  | nil => simp [spread]
  | cons name names ih =>
      rw [List.cons_append, spread, spread]
      split
      · exact ih none
      · rw [List.flatMap_assoc]
        exact List.flatMap_congr fun u _ => ih u
      · exact ih _

end Value

namespace Predicate

mutual

/-- Whether an element that `before` leads to from a root record satisfies a predicate the collections
of which are looked for from the root record, not from the element. -/
def holdsDetached (zone : LocalZone) (root : Value) (before : List String) :
    Predicate → Value → Except Failure Bool
  | .and items, v => holdsDetachedAll zone root before items v
  | .or items, v => holdsDetachedSome zone root before items v
  | .any collection inner, _ =>
    anyHolds (holdsDetached zone root (before ++ collection) inner)
      (root.spread (before ++ collection))
  | .contains field text, v => holds zone (.contains field text) v
  | .equals field value, v => holds zone (.equals field value) v
  | .range field lower upper, v => holds zone (.range field lower upper) v
  | .absent, v => holds zone .absent v
  | .unknown, v => holds zone .unknown v

def holdsDetachedAll (zone : LocalZone) (root : Value) (before : List String) :
    List Predicate → Value → Except Failure Bool
  | [], _ => .ok true
  | p :: ps, v =>
    match holdsDetached zone root before p v with
    | .ok true => holdsDetachedAll zone root before ps v
    | r => r

def holdsDetachedSome (zone : LocalZone) (root : Value) (before : List String) :
    List Predicate → Value → Except Failure Bool
  | [], _ => .ok false
  | p :: ps, v =>
    match holdsDetached zone root before p v with
    | .ok false => holdsDetachedSome zone root before ps v
    | r => r

end

mutual

def searches : Predicate → Bool
  | .any _ _ => true
  | .and items | .or items => someSearches items
  | _ => false

def someSearches : List Predicate → Bool
  | [] => false
  | p :: ps => searches p || someSearches ps

end

mutual

/-- Whether the searches of a predicate may be detached: within another search, none stands beside
anything that has to hold of the same element, and nothing is met by a missing element. -/
def isDetachable (inside : Bool) : Predicate → Bool
  | .and items =>
    (!inside || items.length ≤ 1 || !someSearches items) && allDetachable inside items
  | .or items => allDetachable inside items
  | .any _ inner => isDetachable true inner
  | .equals _ v => !inside || !v.bare.isNone
  | _ => true

def allDetachable (inside : Bool) : List Predicate → Bool
  | [] => true
  | p :: ps => isDetachable inside p && allDetachable inside ps

end

/-- Where each of several predicates has a verdict, with detached searches, so do they all joined. -/
theorem holdsDetachedAll_eq {zone : LocalZone} {root v : Value} {before : List String}
    {verdict : Predicate → Bool} {ps : List Predicate}
    (h : ∀ p ∈ ps, p.holdsDetached zone root before v = .ok (verdict p)) :
    holdsDetachedAll zone root before ps v = .ok (ps.all verdict) := by
  induction ps with
  | nil => rfl
  | cons p ps ih =>
      obtain ⟨hp, hps⟩ := List.forall_mem_cons.mp h
      rw [holdsDetachedAll, hp, List.all_cons]
      cases verdict p with
      | true => exact ih hps
      | false => rfl

theorem holdsDetachedSome_eq {zone : LocalZone} {root v : Value} {before : List String}
    {verdict : Predicate → Bool} {ps : List Predicate}
    (h : ∀ p ∈ ps, p.holdsDetached zone root before v = .ok (verdict p)) :
    holdsDetachedSome zone root before ps v = .ok (ps.any verdict) := by
  induction ps with
  | nil => rfl
  | cons p ps ih =>
      obtain ⟨hp, hps⟩ := List.forall_mem_cons.mp h
      rw [holdsDetachedSome, hp, List.any_cons]
      cases verdict p with
      | true => rfl
      | false => exact ih hps

theorem someSearches_eq (ps : List Predicate) : someSearches ps = ps.any searches := by
  induction ps with
  | nil => rfl
  | cons p ps ih => rw [someSearches, ih, List.any_cons]

theorem allDetachable_eq (inside : Bool) (ps : List Predicate) :
    allDetachable inside ps = ps.all (isDetachable inside) := by
  induction ps with
  | nil => rfl
  | cons p ps ih => rw [allDetachable, ih, List.all_cons]

end Predicate
end PageQuery
