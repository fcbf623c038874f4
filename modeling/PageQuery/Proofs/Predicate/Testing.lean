import Mathlib
import PageQuery.Predicate.Holds

/-!
# Testing connectives and collections

Tests stop as soon as the outcome is known, so a test that ends says less than all of its parts: a
conjunction that fails has one part that fails, whatever the parts behind it would do.  A predicate
is *quiet* on a record if no comparison in it fails there; then every test ends, in any order.
-/

namespace PageQuery

/-! ## Following names -/

theorem Value.follow_none (names : List String) : Value.none.follow names = .none := by
  induction names with
  | nil => rfl
  | cons name names ih => exact ih

theorem Value.follow_append (v : Value) (names more : List String) :
    v.follow (names ++ more) = (v.follow names).follow more := by
  induction names generalizing v with
  | nil => rfl
  | cons name names ih => exact ih (v.readAttribute name)

/-! ## Tests that stop early -/

section Shortcut

variable {α ε : Type} {test : α → Except ε Bool}

theorem exists_of_anyHolds {xs : List α} (h : anyHolds test xs = .ok true) :
    ∃ x ∈ xs, test x = .ok true := by
  induction xs with
  | nil => simp [anyHolds] at h
  | cons x xs ih =>
      rw [anyHolds] at h
      split at h
      · obtain ⟨y, hmem, hy⟩ := ih h
        exact ⟨y, List.mem_cons_of_mem x hmem, hy⟩
      · exact ⟨x, List.mem_cons_self, h⟩

theorem forall_of_anyHolds {xs : List α} (h : anyHolds test xs = .ok false) :
    ∀ x ∈ xs, test x = .ok false := by
  induction xs with
  | nil => simp
  | cons x xs ih =>
      rw [anyHolds] at h
      split at h
      · rename_i hx
        exact List.forall_mem_cons.mpr ⟨hx, ih h⟩
      · rename_i hx
        exact absurd h hx

theorem anyHolds_ends {xs : List α} (h : ∀ x ∈ xs, ∃ b, test x = .ok b) :
    ∃ b, anyHolds test xs = .ok b := by
  induction xs with
  | nil => exact ⟨false, rfl⟩
  | cons x xs ih =>
      obtain ⟨⟨b, hx⟩, hxs⟩ := List.forall_mem_cons.mp h
      cases b
      · simpa [anyHolds, hx] using ih hxs
      · exact ⟨true, by rw [anyHolds, hx]⟩

theorem anyHolds_verdict {xs : List α} {b : Bool}
    (h : anyHolds test xs = .ok b) : b = true ↔ ∃ x ∈ xs, test x = .ok true := by
  cases b with
  | true => exact iff_of_true rfl (exists_of_anyHolds h)
  | false =>
      have hall := forall_of_anyHolds h
      refine iff_of_false Bool.false_ne_true ?_
      rintro ⟨x, hmem, hx⟩
      rw [hall x hmem] at hx
      cases hx

theorem exists_of_anyHolds_error {xs : List α} {e : ε} (h : anyHolds test xs = .error e) :
    ∃ x ∈ xs, test x = .error e := by
  induction xs with
  | nil => simp [anyHolds] at h
  | cons x xs ih =>
      rw [anyHolds] at h
      split at h
      · obtain ⟨y, hmem, hy⟩ := ih h
        exact ⟨y, List.mem_cons_of_mem x hmem, hy⟩
      · exact ⟨x, List.mem_cons_self, h⟩

theorem anyHolds_map {β : Type} {test : β → Except ε Bool} {g : α → β} {passes : α → Bool}
    {xs : List α} (h : ∀ x ∈ xs, test (g x) = .ok (passes x)) :
    anyHolds test (xs.map g) = .ok (xs.any passes) := by
  induction xs with
  | nil => rfl
  | cons x xs ih =>
      obtain ⟨hx, hxs⟩ := List.forall_mem_cons.mp h
      rw [List.map_cons, anyHolds, hx, List.any_cons]
      cases passes x with
      | true => rfl
      | false => exact ih hxs

end Shortcut

namespace Predicate

variable {zone : ℤ}

/-! ## Connectives -/

theorem holdsAll_eq_true {ps : List Predicate} {v : Value} :
    holdsAll zone ps v = .ok true ↔ ∀ p ∈ ps, p.holds zone v = .ok true := by
  induction ps with
  | nil => simp [holdsAll]
  | cons p ps ih =>
      rw [holdsAll, List.forall_mem_cons]
      split
      · rename_i hp
        rw [ih, and_iff_right hp]
      · rename_i hp
        exact ⟨fun h => absurd h hp, fun h => absurd h.1 hp⟩

theorem exists_of_holdsAll {ps : List Predicate} {v : Value}
    (h : holdsAll zone ps v = .ok false) : ∃ p ∈ ps, p.holds zone v = .ok false := by
  induction ps with
  | nil => simp [holdsAll] at h
  | cons p ps ih =>
      rw [holdsAll] at h
      split at h
      · obtain ⟨q, hmem, hq⟩ := ih h
        exact ⟨q, List.mem_cons_of_mem p hmem, hq⟩
      · exact ⟨p, List.mem_cons_self, h⟩

theorem holdsSome_eq_false {ps : List Predicate} {v : Value} :
    holdsSome zone ps v = .ok false ↔ ∀ p ∈ ps, p.holds zone v = .ok false := by
  induction ps with
  | nil => simp [holdsSome]
  | cons p ps ih =>
      rw [holdsSome, List.forall_mem_cons]
      split
      · rename_i hp
        rw [ih, and_iff_right hp]
      · rename_i hp
        exact ⟨fun h => absurd h hp, fun h => absurd h.1 hp⟩

theorem exists_of_holdsSome {ps : List Predicate} {v : Value}
    (h : holdsSome zone ps v = .ok true) : ∃ p ∈ ps, p.holds zone v = .ok true := by
  induction ps with
  | nil => simp [holdsSome] at h
  | cons p ps ih =>
      rw [holdsSome] at h
      split at h
      · obtain ⟨q, hmem, hq⟩ := ih h
        exact ⟨q, List.mem_cons_of_mem p hmem, hq⟩
      · exact ⟨p, List.mem_cons_self, h⟩

theorem holdsAll_eq {verdict : Predicate → Bool} {ps : List Predicate} {v : Value}
    (h : ∀ p ∈ ps, p.holds zone v = .ok (verdict p)) : holdsAll zone ps v = .ok (ps.all verdict) := by
  induction ps with
  | nil => rfl
  | cons p ps ih =>
      obtain ⟨hp, hps⟩ := List.forall_mem_cons.mp h
      rw [holdsAll, hp, List.all_cons]
      cases verdict p with
      | true => exact ih hps
      | false => rfl

theorem holdsSome_eq {verdict : Predicate → Bool} {ps : List Predicate} {v : Value}
    (h : ∀ p ∈ ps, p.holds zone v = .ok (verdict p)) :
    holdsSome zone ps v = .ok (ps.any verdict) := by
  induction ps with
  | nil => rfl
  | cons p ps ih =>
      obtain ⟨hp, hps⟩ := List.forall_mem_cons.mp h
      rw [holdsSome, hp, List.any_cons]
      cases verdict p with
      | true => rfl
      | false => exact ih hps

theorem holdsSome_verdict {ps : List Predicate} {v : Value} {b : Bool}
    (h : holdsSome zone ps v = .ok b) : b = true ↔ ∃ p ∈ ps, p.holds zone v = .ok true := by
  cases b with
  | true => exact iff_of_true rfl (exists_of_holdsSome h)
  | false =>
      have hall := holdsSome_eq_false.mp h
      refine iff_of_false Bool.false_ne_true ?_
      rintro ⟨p, hmem, hp⟩
      rw [hall p hmem] at hp
      cases hp

theorem exists_of_holdsAll_error {ps : List Predicate} {v : Value} {e : Failure}
    (h : holdsAll zone ps v = .error e) : ∃ p ∈ ps, p.holds zone v = .error e := by
  induction ps with
  | nil => simp [holdsAll] at h
  | cons p ps ih =>
      rw [holdsAll] at h
      split at h
      · obtain ⟨q, hmem, hq⟩ := ih h
        exact ⟨q, List.mem_cons_of_mem p hmem, hq⟩
      · exact ⟨p, List.mem_cons_self, h⟩

theorem exists_of_holdsSome_error {ps : List Predicate} {v : Value} {e : Failure}
    (h : holdsSome zone ps v = .error e) : ∃ p ∈ ps, p.holds zone v = .error e := by
  induction ps with
  | nil => simp [holdsSome] at h
  | cons p ps ih =>
      rw [holdsSome] at h
      split at h
      · obtain ⟨q, hmem, hq⟩ := ih h
        exact ⟨q, List.mem_cons_of_mem p hmem, hq⟩
      · exact ⟨p, List.mem_cons_self, h⟩

/-- Joining by `and` tests all parts, also where a single part stays as it is. -/
theorem holds?_combine_and (ps : List Predicate) (v : Value) :
    holds? zone (combine .and ps) v = holdsAll zone ps v := by
  match ps with
  | [] => simp [combine, holds?, holdsAll]
  | [p] =>
      simp only [combine, holds?, holdsAll]
      split <;> simp_all
  | _ :: _ :: _ => simp [combine, holds?, holds]

/-- Joining by `or` tests for some part, also where a single part stays as it is. -/
theorem holds_of_combine_or {ps : List Predicate} {q : Predicate} (h : combine .or ps = some q)
    (v : Value) : q.holds zone v = holdsSome zone ps v := by
  match ps with
  | [] => cases h
  | [p] =>
      obtain rfl := Option.some.inj h
      simp only [holdsSome]
      split <;> simp_all
  | _ :: _ :: _ =>
      obtain rfl := Option.some.inj h
      rw [holds]

/-! ## Quiet predicates -/

mutual

/-- No comparison of a predicate fails on a value, whichever of them are made. -/
def Quiet (zone : ℤ) : Predicate → Value → Prop
  | .and items, v => QuietAll zone items v
  | .or items, v => QuietAll zone items v
  | .any collection inner, v =>
    ∃ elements, (v.follow collection).elements = .ok elements ∧
      ∀ e ∈ elements, Quiet zone inner e
  | .contains _ _, _ => True
  | .equals field value, v => ∃ b, (v.follow field).same value = .ok b
  | .range field lower upper, v => ∃ b, Value.inRange zone (v.follow field) lower upper = .ok b
  | .absent, _ => True
  | .unknown, _ => False

def QuietAll (zone : ℤ) : List Predicate → Value → Prop
  | [], _ => True
  | p :: ps, v => Quiet zone p v ∧ QuietAll zone ps v

end

theorem quietAll_iff {ps : List Predicate} {v : Value} :
    QuietAll zone ps v ↔ ∀ p ∈ ps, Quiet zone p v := by
  induction ps with
  | nil => simp [QuietAll]
  | cons p ps ih => rw [QuietAll, ih, List.forall_mem_cons]

mutual

/-- A quiet predicate has a verdict. -/
theorem holds_of_quiet {p : Predicate} {v : Value} (h : Quiet zone p v) :
    ∃ b, p.holds zone v = .ok b := by
  cases p with
  | and items =>
      rw [Quiet] at h
      simpa [holds] using holdsAll_of_quiet h
  | or items =>
      rw [Quiet] at h
      simpa [holds] using holdsSome_of_quiet h
  | any collection inner =>
      rw [Quiet] at h
      obtain ⟨elements, helements, hquiet⟩ := h
      have hends := anyHolds_ends fun e he => holds_of_quiet (hquiet e he)
      simpa [holds, helements] using hends
  | contains field text => exact ⟨_, by rw [holds]⟩
  | equals field value =>
      rw [Quiet] at h
      obtain ⟨b, hb⟩ := h
      exact ⟨b, by rw [holds, hb]; rfl⟩
  | range field lower upper =>
      rw [Quiet] at h
      obtain ⟨b, hb⟩ := h
      exact ⟨b, by rw [holds, hb]; rfl⟩
  | absent => exact ⟨true, by rw [holds]⟩
  | unknown => exact absurd h (by simp [Quiet])

theorem holdsAll_of_quiet {ps : List Predicate} {v : Value} (h : QuietAll zone ps v) :
    ∃ b, holdsAll zone ps v = .ok b := by
  cases ps with
  | nil => exact ⟨true, by rw [holdsAll]⟩
  | cons p ps =>
      rw [QuietAll] at h
      obtain ⟨b, hp⟩ := holds_of_quiet h.1
      cases b
      · exact ⟨false, by rw [holdsAll, hp]⟩
      · simpa [holdsAll, hp] using holdsAll_of_quiet h.2

theorem holdsSome_of_quiet {ps : List Predicate} {v : Value} (h : QuietAll zone ps v) :
    ∃ b, holdsSome zone ps v = .ok b := by
  cases ps with
  | nil => exact ⟨false, by rw [holdsSome]⟩
  | cons p ps =>
      rw [QuietAll] at h
      obtain ⟨b, hp⟩ := holds_of_quiet h.1
      cases b
      · simpa [holdsSome, hp] using holdsSome_of_quiet h.2
      · exact ⟨true, by rw [holdsSome, hp]⟩

end

/-- Joining by `and` is quiet exactly when all parts are. -/
theorem quiet_combine_and {ps : List Predicate} {q : Predicate} (h : combine .and ps = some q)
    (v : Value) : Quiet zone q v ↔ ∀ p ∈ ps, Quiet zone p v := by
  match ps with
  | [] => cases h
  | [p] =>
      obtain rfl := Option.some.inj h
      simp
  | _ :: _ :: _ =>
      obtain rfl := Option.some.inj h
      rw [Quiet, quietAll_iff]

/-- Joining by `or` is quiet exactly when all parts are. -/
theorem quiet_combine_or {ps : List Predicate} {q : Predicate} (h : combine .or ps = some q)
    (v : Value) : Quiet zone q v ↔ ∀ p ∈ ps, Quiet zone p v := by
  match ps with
  | [] => cases h
  | [p] =>
      obtain rfl := Option.some.inj h
      simp
  | _ :: _ :: _ =>
      obtain rfl := Option.some.inj h
      rw [Quiet, quietAll_iff]

end Predicate
end PageQuery
