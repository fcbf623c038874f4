import Mathlib
import PageQuery.Proofs.Outcome
import PageQuery.Proofs.Schema.Choices
import PageQuery.Schema.Table

/-!
# Texts denote no class-wide hints

Whether an annotation belongs to the type as a whole is written in the annotation itself.  Resolving the texts
of a hint keeps its outermost form, and a text denotes no class-wide hint, because no expression names the
form: what an expression denotes is a type, a generic form, or a choice whose alternatives are such.
-/

namespace PageQuery

namespace Hint

/-- Whether a hint belongs to the type as a whole. -/
def isClassWide : Hint → Bool
  | .classWide _ => true
  | _ => false

theorem alternatives_inside {g : Hint} (hg : g.alternatives = [g]) : g.inside.alternatives = [g.inside] := by
  cases g with
  | forward text => rfl
  | _ => exact hg

mutual

/-- An alternative is no choice itself. -/
theorem alternatives_of_mem : (h : Hint) → ∀ g ∈ h.alternatives, g.alternatives = [g]
  | .optional h, g, hg => by
    rcases List.mem_append.mp hg with hg | hg
    · obtain ⟨a, ha, rfl⟩ := List.mem_map.mp hg
      exact alternatives_inside (alternatives_of_mem h a ha)
    · rw [List.mem_singleton.mp hg]
      rfl
  | .union hs, g, hg => alternatives_of_mem_several hs g hg
  | .either h h', g, hg =>
    (List.mem_append.mp hg).elim (alternatives_of_mem h g) (alternatives_of_mem h' g)
  | .type t, g, hg => by rw [List.mem_singleton.mp hg]; rfl
  | .collection n b hs, g, hg => by rw [List.mem_singleton.mp hg]; rfl
  | .applied n hs, g, hg => by rw [List.mem_singleton.mp hg]; rfl
  | .deque h, g, hg => by rw [List.mem_singleton.mp hg]; rfl
  | .classWide h, g, hg => by rw [List.mem_singleton.mp hg]; rfl
  | .forward s, g, hg => by rw [List.mem_singleton.mp hg]; rfl
  | .reference s, g, hg => by rw [List.mem_singleton.mp hg]; rfl
  | .nothing, g, hg => by rw [List.mem_singleton.mp hg]; rfl
  | .thing s t b w, g, hg => by rw [List.mem_singleton.mp hg]; rfl

theorem alternatives_of_mem_several : (hs : List Hint) → ∀ g ∈ alternativesOf hs, g.alternatives = [g]
  | h :: hs, g, hg => by
    rcases List.mem_append.mp hg with hg | hg
    · obtain ⟨a, ha, rfl⟩ := List.mem_map.mp hg
      exact alternatives_inside (alternatives_of_mem h a ha)
    · exact alternatives_of_mem_several hs g hg

end

/-- Collapsing a choice adds no alternative. -/
theorem mem_alternatives_of_collapse {h g : Hint} (hg : g ∈ h.collapse.alternatives) :
    g ∈ h.alternatives := by
  rw [collapse] at hg
  split at hg
  · rename_i single hsingle
    have hmem : single ∈ h.alternatives := mem_distinct.mp (hsingle ▸ List.mem_singleton_self single)
    rw [alternatives_of_mem h single hmem] at hg
    exact List.mem_singleton.mp hg ▸ hmem
  · exact hg

end Hint

theorem isPublic_eq (a : String × Hint) : isPublic a = (!isPrivate a.1 && !a.2.isClassWide) := by
  rw [isPublic]
  cases a.2 <;> rfl

namespace Denoted

variable {c : Catalogue}

/-- No alternative of a hint that is denoted belongs to a type as a whole. -/
def IsNamed : Denoted → Prop
  | .hint h => ∀ g ∈ h.alternatives, g.isClassWide = false
  | _ => True

theorem isNamed_of_single {h : Hint} (halone : h.alternatives = [h]) (hwide : h.isClassWide = false) :
    (Denoted.hint h).IsNamed := by
  intro g hg
  rw [halone] at hg
  rw [List.mem_singleton.mp hg, hwide]

theorem isNamed_of_ok {ε : Type} {d d' : Denoted} (h : (.ok d : Except ε Denoted) = .ok d') (hd : d.IsNamed) :
    d'.IsNamed :=
  Except.ok.inj h ▸ hd

theorem isNamed_ofName {name : String} {d : Denoted} (h : ofName c name = .ok d) : d.IsNamed := by
  unfold ofName at h
  repeat' split at h
  all_goals
    first
      | exact isNamed_of_ok h trivial
      | exact isNamed_of_ok h (isNamed_of_single rfl rfl)
      | cases h

theorem isNamed_alternative {d : Denoted} (hd : d.IsNamed) :
    ∀ g ∈ d.alternative.alternatives, g.isClassWide = false := by
  cases d with
  | hint h => exact hd
  | _ => exact isNamed_of_single rfl rfl

theorem isNamed_join {l r d : Denoted} (hl : l.IsNamed) (hr : r.IsNamed) (h : l.join r = .ok d) :
    d.IsNamed := by
  unfold join at h
  split at h
  · cases h
  · obtain rfl := Except.ok.inj h
    trivial
  · split at h
    · obtain rfl := Except.ok.inj h
      intro g hg
      rcases List.mem_append.mp (Hint.mem_alternatives_of_collapse hg) with hg | hg
      · exact isNamed_alternative hl g hg
      · exact isNamed_alternative hr g hg
    · split at h
      · obtain rfl := Except.ok.inj h
        trivial
      · cases h

theorem isNamed_compute {operator : String} {l r d : Denoted} (h : l.compute operator r = .ok d) :
    d.IsNamed := by
  unfold compute at h
  repeat' split at h
  all_goals
    first
      | exact isNamed_of_ok h trivial
      | cases h

theorem isNamed_compare {operator : String} {l r d : Denoted} (h : l.compare operator r = .ok d) :
    d.IsNamed := by
  unfold compare at h
  dsimp only at h
  repeat' split at h
  all_goals
    first
      | exact isNamed_of_ok h trivial
      | exact (Outcome.bind_eq_ok.mp h).elim fun b hb => isNamed_of_ok hb.2 trivial
      | cases h

theorem isNamed_operate {operator : String} {l r d : Denoted} (hl : l.IsNamed) (hr : r.IsNamed)
    (h : l.operate operator r = .ok d) : d.IsNamed := by
  unfold operate at h
  split at h
  · exact isNamed_join hl hr h
  · split at h
    · exact isNamed_compare h
    · exact isNamed_compute h

theorem isNamed_sign {operator : String} {x d : Denoted} (h : x.sign operator = .ok d) : d.IsNamed := by
  unfold sign at h
  repeat' split at h
  all_goals
    first
      | exact isNamed_of_ok h trivial
      | cases h

theorem isNamed_part {x d : Denoted} {name : String} (h : x.part c name = .ok d) : d.IsNamed := by
  unfold part at h
  dsimp only at h
  repeat' split at h
  all_goals
    first
      | exact isNamed_of_ok h trivial
      | cases h

theorem isNamed_subscript {x i d : Denoted} (h : x.subscript c i = .ok d) : d.IsNamed := by
  unfold subscript at h
  repeat' split at h
  all_goals
    first
      | exact isNamed_of_ok h trivial
      | exact isNamed_of_ok h (isNamed_of_single rfl rfl)
      | cases h

theorem isNamed_typeOf (x : Denoted) : (Denoted.hint x.typeOf).IsNamed := by
  unfold typeOf
  split
  · exact isNamed_of_single rfl rfl
  · exact isNamed_of_single rfl rfl

theorem isNamed_call {x d : Denoted} {xs : List Denoted} (h : x.call xs = .ok d) : d.IsNamed := by
  unfold call at h
  repeat' split at h
  all_goals
    first
      | exact isNamed_of_ok h trivial
      | exact isNamed_of_ok h (isNamed_typeOf _)
      | cases h

/-- What an expression denotes is no class-wide hint, and no alternative of it is one. -/
theorem isNamed_of_ofExpression : (e : Expression) → ∀ {d}, ofExpression c e = .ok d → d.IsNamed
  | .name s, d, h => isNamed_ofName h
  | .constant v, d, h => by
    obtain rfl := Except.ok.inj h
    trivial
  | .function, d, h => by
    obtain rfl := Except.ok.inj h
    trivial
  | .dots, d, h => by
    obtain rfl := Except.ok.inj h
    trivial
  | .tuple es, d, h => by
    obtain ⟨xs, -, rfl⟩ := Outcome.map_eq_ok.mp h
    trivial
  | .list es, d, h => by
    obtain ⟨xs, -, rfl⟩ := Outcome.map_eq_ok.mp h
    trivial
  | .part e name, d, h => by
    rw [ofExpression] at h
    split at h
    · cases h
    · exact isNamed_part h
  | .subscript e index, d, h => by
    rw [ofExpression] at h
    split at h
    · cases h
    · split at h
      · cases h
      · exact isNamed_subscript h
  | .call e es, d, h => by
    rw [ofExpression] at h
    split at h
    · cases h
    · split at h
      · cases h
      · exact isNamed_call h
  | .unary operator e, d, h => by
    rw [ofExpression] at h
    split at h
    · cases h
    · exact isNamed_sign h
  | .binary operator e e', d, h => by
    rw [ofExpression] at h
    split at h
    · cases h
    · rename_i l hl
      split at h
      · cases h
      · rename_i r hr
        exact isNamed_operate (isNamed_of_ofExpression e hl) (isNamed_of_ofExpression e' hr) h
  | .both e e', d, h => by
    rw [ofExpression] at h
    split at h
    · cases h
    · rename_i l hl
      split at h
      · exact isNamed_of_ofExpression e' h
      · exact isNamed_of_ofExpression e (hl.trans h)
  | .either e e', d, h => by
    rw [ofExpression] at h
    split at h
    · cases h
    · rename_i l hl
      split at h
      · exact isNamed_of_ofExpression e (hl.trans h)
      · exact isNamed_of_ofExpression e' h
  | .choice condition e e', d, h => by
    rw [ofExpression] at h
    split at h
    · cases h
    · split at h
      · exact isNamed_of_ofExpression e h
      · exact isNamed_of_ofExpression e' h

theorem isClassWide_of_asHint {d : Denoted} (hd : d.IsNamed) {h : Hint} (hh : d.asHint = .ok h) :
    h.isClassWide = false := by
  unfold asHint at hh
  split at hh
  · obtain rfl := Except.ok.inj hh
    rename_i g
    cases g with
    | classWide k => exact absurd (hd _ (List.mem_singleton_self _)) nofun
    | _ => rfl
  · obtain rfl := Except.ok.inj hh
    rfl
  · split at hh
    all_goals
      obtain rfl := Except.ok.inj hh
      rfl
  · obtain rfl := Except.ok.inj hh
    rfl
  · cases hh
  · obtain rfl := Except.ok.inj hh
    rfl
  · obtain rfl := Except.ok.inj hh
    rfl

end Denoted

namespace Hint

variable {c : Catalogue}

/-- Resolving the texts of a hint keeps its outermost form. -/
theorem isClassWide_of_resolveWith {denote : String → Except Obstacle Hint}
    (hdenote : ∀ text g, denote text = .ok g → g.isClassWide = false) {h g : Hint}
    (hresolve : resolveWith denote h = .ok g) : g.isClassWide = h.isClassWide := by
  cases h with
  | type t =>
      obtain rfl := Except.ok.inj hresolve
      rfl
  | nothing =>
      obtain rfl := Except.ok.inj hresolve
      rfl
  | thing name literal hashable =>
      obtain rfl := Except.ok.inj hresolve
      rfl
  | forward text => exact hdenote text g hresolve
  | reference text => exact hdenote text g hresolve
  | either left right =>
      rw [resolveWith] at hresolve
      split at hresolve
      · cases hresolve
      · obtain ⟨k, -, rfl⟩ := Outcome.map_eq_ok.mp hresolve
        rfl
  | optional h | union hs | collection name generic hs | applied name hs | deque h | classWide h =>
      obtain ⟨k, -, rfl⟩ := Outcome.map_eq_ok.mp hresolve
      rfl

theorem isClassWide_of_denoted {fuel : ℕ} {text : String} {g : Hint} (h : denoted c fuel text = .ok g) :
    g.isClassWide = false := by
  induction fuel generalizing text g with
  | zero => cases h
  | succ fuel ih =>
      rw [denoted] at h
      split at h
      · cases h
      · rename_i e _
        split at h
        · cases h
        · rename_i k hk
          obtain ⟨d, hd, hhint⟩ := Outcome.bind_eq_ok.mp hk
          rw [isClassWide_of_resolveWith (fun text g => ih) h]
          exact Denoted.isClassWide_of_asHint (Denoted.isNamed_of_ofExpression e hd) hhint

/-- A hint belongs to the type as a whole with its texts resolved exactly if it does as it is written. -/
theorem isClassWide_of_resolve {h g : Hint} (hresolve : h.resolve c = .ok g) :
    g.isClassWide = h.isClassWide :=
  isClassWide_of_resolveWith (fun _ _ => isClassWide_of_denoted) hresolve

end Hint
end PageQuery
