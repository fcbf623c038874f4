import Mathlib
import PageQuery.Predicate.Holds
import PageQuery.Store.Formula

/-!
# Joined predicates

Two predicates are joined by putting what each of them contributes into one list: the items of a tree of the
same connective, and any other predicate as it is.  So it makes no difference how several of them are
bracketed, the tests are made in the order in which they stand, and a connective comes to stand directly
below itself only where it did so before.
-/

namespace PageQuery

namespace Connective

def tree : Connective → List Predicate → Predicate
  | .and => .and
  | .or => .or

def operands : Connective → Predicate → List Predicate
  | .and => Predicate.conjuncts
  | .or => Predicate.disjuncts

def join : Connective → Predicate → Predicate → Predicate
  | .and => Predicate.both
  | .or => Predicate.either

theorem join_eq (k : Connective) (p q : Predicate) :
    k.join p q = k.tree (k.operands p ++ k.operands q) := by
  cases k <;> rfl

theorem operands_tree (k : Connective) (items : List Predicate) : k.operands (k.tree items) = items := by
  cases k <;> rfl

/-- A predicate is a tree of the connective, or it contributes itself. -/
theorem operands_cases (k : Connective) (p : Predicate) :
    p = k.tree (k.operands p) ∨ k.operands p = [p] ∧ ∀ items, p ≠ k.tree items := by
  cases k <;> cases p <;> simp [tree, operands, Predicate.conjuncts, Predicate.disjuncts]

theorem tree_injective {k k' : Connective} {items items' : List Predicate}
    (h : k.tree items = k'.tree items') : k = k' ∧ items = items' := by
  cases k <;> cases k' <;> simp_all [tree]

/-- Brackets make no difference. -/
theorem join_assoc (k : Connective) (p q r : Predicate) :
    k.join (k.join p q) r = k.join p (k.join q r) := by
  rw [join_eq k p q, join_eq k q r, join_eq, join_eq, operands_tree, operands_tree, List.append_assoc]

end Connective

namespace Predicate

variable {zone : LocalZone} {p q r s : Predicate} {items : List Predicate} {v : Value}

/-! ## Testing -/

theorem holdsAll_append (zone : LocalZone) (ps qs : List Predicate) (v : Value) :
    holdsAll zone (ps ++ qs) v = match holdsAll zone ps v with
      | .ok true => holdsAll zone qs v
      | r => r := by
  induction ps with
  | nil => rfl
  | cons p ps ih =>
      rw [List.cons_append, holdsAll, holdsAll]
      rcases p.holds zone v with e | _ | _
      · rfl
      · rfl
      · exact ih

theorem holdsSome_append (zone : LocalZone) (ps qs : List Predicate) (v : Value) :
    holdsSome zone (ps ++ qs) v = match holdsSome zone ps v with
      | .ok false => holdsSome zone qs v
      | r => r := by
  induction ps with
  | nil => rfl
  | cons p ps ih =>
      rw [List.cons_append, holdsSome, holdsSome]
      rcases p.holds zone v with e | _ | _
      · rfl
      · exact ih
      · rfl

/-- To test what a predicate contributes is to test the predicate. -/
theorem holdsAll_conjuncts (zone : LocalZone) (p : Predicate) (v : Value) :
    holdsAll zone p.conjuncts v = p.holds zone v := by
  have hsingle (p : Predicate) : holdsAll zone [p] v = p.holds zone v := by
    rw [holdsAll, holdsAll]
    rcases p.holds zone v with e | _ | _ <;> rfl
  cases p with
  | and items => rw [conjuncts, holds]
  | _ => exact hsingle _

theorem holdsSome_disjuncts (zone : LocalZone) (p : Predicate) (v : Value) :
    holdsSome zone p.disjuncts v = p.holds zone v := by
  have hsingle (p : Predicate) : holdsSome zone [p] v = p.holds zone v := by
    rw [holdsSome, holdsSome]
    rcases p.holds zone v with e | _ | _ <;> rfl
  cases p with
  | or items => rw [disjuncts, holds]
  | _ => exact hsingle _

theorem holds_both (zone : LocalZone) (p q : Predicate) (v : Value) :
    (both p q).holds zone v = match p.holds zone v with
      | .ok true => q.holds zone v
      | r => r := by
  rw [both, holds, holdsAll_append, holdsAll_conjuncts, holdsAll_conjuncts]

theorem holds_either (zone : LocalZone) (p q : Predicate) (v : Value) :
    (either p q).holds zone v = match p.holds zone v with
      | .ok false => q.holds zone v
      | r => r := by
  rw [either, holds, holdsSome_append, holdsSome_disjuncts, holdsSome_disjuncts]

/-! ## Nesting -/

/-- A predicate is another one or stands somewhere below it. -/
inductive Within : Predicate → Predicate → Prop
  | self (p : Predicate) : Within p p
  | item {p q : Predicate} {k : Connective} {items : List Predicate} (hitem : q ∈ items)
      (h : Within p q) : Within p (k.tree items)
  | inner {p q : Predicate} {collection : List String} (h : Within p q) : Within p (.any collection q)

/-- Somewhere in a predicate a tree of a connective is an item of a tree of the same connective. -/
def Nests (k : Connective) (p : Predicate) : Prop :=
  ∃ outer inner, Within (k.tree outer) p ∧ k.tree inner ∈ outer

theorem within_tree {k : Connective} :
    Within s (k.tree items) ↔ s = k.tree items ∨ ∃ p ∈ items, Within s p := by
  constructor
  · intro h
    generalize htree : k.tree items = t at h
    cases h with
    | self => exact .inl rfl
    | item hitem h =>
        obtain ⟨-, rfl⟩ := Connective.tree_injective htree
        exact .inr ⟨_, hitem, h⟩
    | inner h => cases k <;> cases htree
  · rintro (rfl | ⟨p, hp, h⟩)
    · exact .self _
    · exact .item hp h

/-- A connective is below itself at the top of a tree, or in one of the items. -/
theorem nests_tree {k k' : Connective} :
    Nests k (k'.tree items) ↔ (k = k' ∧ ∃ inner, k.tree inner ∈ items) ∨ ∃ p ∈ items, Nests k p := by
  constructor
  · rintro ⟨outer, inner, hwithin, hinner⟩
    rcases within_tree.mp hwithin with htop | ⟨p, hp, hwithin⟩
    · obtain ⟨rfl, rfl⟩ := Connective.tree_injective htop
      exact .inl ⟨rfl, inner, hinner⟩
    · exact .inr ⟨p, hp, outer, inner, hwithin, hinner⟩
  · rintro (⟨rfl, inner, hinner⟩ | ⟨p, hp, outer, inner, hwithin, hinner⟩)
    · exact ⟨items, inner, .self _, hinner⟩
    · exact ⟨outer, inner, .item hp hwithin, hinner⟩

/-- What a predicate contributes is no tree of the connective and has none below one, unless the predicate
has. -/
theorem not_nests_of_mem_operands {k k' : Connective} (hp : ¬ Nests k p) (hq : q ∈ k'.operands p) :
    ¬ Nests k q ∧ ∀ inner, k = k' → q ≠ k.tree inner := by
  rcases k'.operands_cases p with htree | ⟨hself, hother⟩
  · rw [htree, nests_tree, not_or] at hp
    refine ⟨fun hnests => hp.2 ⟨q, hq, hnests⟩, ?_⟩
    rintro inner rfl rfl
    exact hp.1 ⟨rfl, inner, hq⟩
  · obtain rfl : q = p := by rwa [hself, List.mem_singleton] at hq
    exact ⟨hp, fun inner heq => heq ▸ hother inner⟩

/-- Joining puts neither connective below itself, whichever of the two joins. -/
theorem not_nests_join {k : Connective} (k' : Connective) (hp : ¬ Nests k p) (hq : ¬ Nests k q) :
    ¬ Nests k (k'.join p q) := by
  have hitems : ∀ t ∈ k'.operands p ++ k'.operands q, ¬ Nests k t ∧ ∀ inner, k = k' → t ≠ k.tree inner :=
    fun t ht => (List.mem_append.mp ht).elim (not_nests_of_mem_operands hp) (not_nests_of_mem_operands hq)
  rw [k'.join_eq, nests_tree]
  rintro (⟨heq, inner, hinner⟩ | ⟨t, ht, hnests⟩)
  · exact (hitems _ hinner).2 inner heq rfl
  · exact (hitems t ht).1 hnests

/-! ## Laws -/

/-- Joining by `and` and by `or` is associative.  A joined predicate is tested from left to right: the
outcome is that of the left one, failures included, unless it leaves the question open, which for `and` is to
hold and for `or` is not to hold; then it is the outcome of the right one.  And if a connective is nowhere
below itself in either predicate, it is not in the joined one. -/
theorem join_laws (p q r : Predicate) :
    both (both p q) r = both p (both q r) ∧ either (either p q) r = either p (either q r) ∧
      (∀ zone v, (both p q).holds zone v = match p.holds zone v with
        | .ok true => q.holds zone v
        | outcome => outcome) ∧
      (∀ zone v, (either p q).holds zone v = match p.holds zone v with
        | .ok false => q.holds zone v
        | outcome => outcome) ∧
      ∀ k, ¬ Nests k p → ¬ Nests k q → ¬ Nests k (both p q) ∧ ¬ Nests k (either p q) :=
  ⟨Connective.join_assoc .and p q r, Connective.join_assoc .or p q r, fun zone v => holds_both zone p q v,
    fun zone v => holds_either zone p q v,
    fun _ hp hq => ⟨not_nests_join .and hp hq, not_nests_join .or hp hq⟩⟩

/-- A short text, or one that is not about much. -/
def brief : Predicate :=
  .or [.equals ["words"] (.int 1), .and [.contains ["title"] "a", .contains ["title"] "note"]]

/-- A price that is compared with a text, which fails. -/
def misjudged : Predicate :=
  .range ["price"] (.text "cheap") .none

/-- Neither of these has an `and` below an `and`, so their conjunction has none.  On a record that is not
brief the comparison is not made. -/
theorem join_laws_brief :
    ¬ Nests .and brief ∧ ¬ Nests .and misjudged ∧ ¬ Nests .and (both brief misjudged) ∧
      misjudged.holds 0 (.record (.own 0) "Post" [("price", .int 3)]) = .error (.fault .badType) ∧
      (both brief misjudged).holds 0 (.record (.own 0) "Post" [("price", .int 3)]) = .ok false := by
  have hatom {p : Predicate} (htree : ∀ k items, p ≠ Connective.tree k items)
      (hany : ∀ names inner, p ≠ .any names inner) : ¬ Nests .and p := by
    rintro ⟨outer, inner, hwithin, -⟩
    cases hwithin with
    | self => exact htree .and outer rfl
    | item => exact htree _ _ rfl
    | inner => exact hany _ _ rfl
  have hequals (field : List String) (value : Value) : ¬ Nests .and (.equals field value) :=
    hatom (fun k _ => by cases k <;> simp [Connective.tree]) (by simp)
  have hcontains (field : List String) (text : String) : ¬ Nests .and (.contains field text) :=
    hatom (fun k _ => by cases k <;> simp [Connective.tree]) (by simp)
  have hbrief : ¬ Nests .and brief := by
    have hinner : ¬ Nests .and (.and [.contains ["title"] "a", .contains ["title"] "note"]) := by
      change ¬ Nests .and (Connective.and.tree _)
      simp only [nests_tree, List.mem_cons, List.not_mem_nil, or_false]
      simp [hcontains, Connective.tree]
    change ¬ Nests .and (Connective.or.tree _)
    simp only [nests_tree, List.mem_cons, List.not_mem_nil, or_false]
    simp [hequals, hinner]
  have hmisjudged : ¬ Nests .and misjudged :=
    hatom (fun k _ => by cases k <;> simp [Connective.tree, misjudged]) (by simp [misjudged])
  obtain ⟨-, -, hboth, -, hnests⟩ := join_laws brief misjudged .absent
  refine ⟨hbrief, hmisjudged, (hnests .and hbrief hmisjudged).1, by cbv, ?_⟩
  have hfalse : brief.holds 0 (.record (.own 0) "Post" [("price", .int 3)]) = .ok false := by cbv
  rw [hboth, hfalse]

end Predicate
end PageQuery
