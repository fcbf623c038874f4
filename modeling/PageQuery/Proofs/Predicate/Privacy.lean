import Mathlib
import PageQuery.Proofs.Predicate.Shape
import PageQuery.Proofs.Schema.Privacy

/-!
# Predicates that read nothing private

A predicate that names public attributes only, and compares with values that stand for themselves, has
the same outcome on values that agree.  Every predicate that is built from a filter is one.
-/

namespace PageQuery

namespace Predicate

variable {twin : Value → Value → Prop}

mutual

/-- Whatever a predicate reads has a public name, and whatever it compares with stands for itself. -/
def ReadsPublic (twin : Value → Value → Prop) : Predicate → Prop
  | .equals field value => (∀ name ∈ field, isPrivate name = false) ∧ value.Agrees twin value
  | .contains field _ => ∀ name ∈ field, isPrivate name = false
  | .range field lower upper => (∀ name ∈ field, isPrivate name = false) ∧
      lower.Agrees twin lower ∧ upper.Agrees twin upper
  | .any collection inner => (∀ name ∈ collection, isPrivate name = false) ∧ ReadsPublic twin inner
  | .and items | .or items => AllReadPublic twin items
  | .absent | .unknown => True

def AllReadPublic (twin : Value → Value → Prop) : List Predicate → Prop
  | [] => True
  | p :: ps => ReadsPublic twin p ∧ AllReadPublic twin ps

end

theorem allReadPublic_iff {ps : List Predicate} :
    AllReadPublic twin ps ↔ ∀ p ∈ ps, p.ReadsPublic twin := by
  induction ps with
  | nil => simp [AllReadPublic]
  | cons p ps ih => rw [AllReadPublic, ih, List.forall_mem_cons]

/-! ## Testing -/

mutual

/-- A predicate that reads nothing private has the same outcome on values that agree. -/
theorem holds_eq_of_agrees (htwin : Value.Respects twin) {p : Predicate} (hp : p.ReadsPublic twin) {u v : Value}
    (h : u.Agrees twin v) (zone : LocalZone) : p.holds zone u = p.holds zone v := by
  cases p with
  | equals field value =>
      rw [holds, holds, (h.follow hp.1).same_eq htwin hp.2]
  | contains field text =>
      rw [holds, holds, (h.follow hp).containsText_eq]
  | range field lower upper =>
      rw [holds, holds, (h.follow hp.1).inRange_eq htwin hp.2.1 hp.2.2]
  | any collection inner =>
      rw [holds, holds]
      rcases (h.follow hp.1).elements with ⟨xs, ys, hxs, hys, hall⟩ | ⟨f, hu, hv⟩
      · rw [hxs, hys]
        exact anyHolds_eq_of_forall₂ hall fun x _ y hxy => holds_eq_of_agrees htwin hp.2 hxy zone
      · rw [hu, hv]
  | and items =>
      rw [holds, holds]
      exact holdsAll_eq_of_agrees htwin hp h zone
  | or items =>
      rw [holds, holds]
      exact holdsSome_eq_of_agrees htwin hp h zone
  | absent => rfl
  | unknown => rfl

theorem holdsAll_eq_of_agrees (htwin : Value.Respects twin) {ps : List Predicate}
    (hps : AllReadPublic twin ps) {u v : Value} (h : u.Agrees twin v) (zone : LocalZone) : holdsAll zone ps u = holdsAll zone ps v := by
  cases ps with
  | nil => rfl
  | cons p ps =>
      rw [holdsAll, holdsAll, holds_eq_of_agrees htwin hps.1 h, holdsAll_eq_of_agrees htwin hps.2 h]

theorem holdsSome_eq_of_agrees (htwin : Value.Respects twin) {ps : List Predicate}
    (hps : AllReadPublic twin ps) {u v : Value} (h : u.Agrees twin v) (zone : LocalZone) : holdsSome zone ps u = holdsSome zone ps v := by
  cases ps with
  | nil => rfl
  | cons p ps =>
      rw [holdsSome, holdsSome, holds_eq_of_agrees htwin hps.1 h, holdsSome_eq_of_agrees htwin hps.2 h]

end

/-! ## What is built -/

section Leaf

variable {placeholder : Value} {f : Field} {field : List String} {item : FilterItem} {p : Predicate}

theorem IsTest.readsPublic (h : IsTest f field item p)
    (hfield : ∀ name ∈ field, isPrivate name = false)
    (hshared : ∀ parser ∈ f.parser, parser.Shared twin) : p.ReadsPublic twin := by
  cases h with
  | contains => exact hfield
  | equals _ _ hparser hvalue => exact ⟨hfield, Parser.agrees_of_run (hshared _ hparser) hvalue⟩

/-- A bound is absent or was read by the parser of the field. -/
theorem SlotBound.agrees {property slot : Option String} {bound : Value}
    (h : SlotBound placeholder f property slot bound)
    (hshared : ∀ parser ∈ f.parser, parser.Shared twin) : bound.Agrees twin bound := by
  cases h with
  | given _ _ hconvert =>
      obtain ⟨parser, hparser, hrun⟩ := Field.convert_eq_ok hconvert
      exact Parser.agrees_of_run (hshared _ hparser) hrun
  | _ => exact .none

theorem IsLeaf.readsPublic (h : IsLeaf placeholder f field item p)
    (hfield : ∀ name ∈ field, isPrivate name = false)
    (hshared : ∀ parser ∈ f.parser, parser.Shared twin) : p.ReadsPublic twin := by
  cases h with
  | range _ _ hlower hupper _ => exact ⟨hfield, hlower.agrees hshared, hupper.agrees hshared⟩
  | test hp => exact hp.readsPublic hfield hshared
  | or _ hps => exact allReadPublic_iff.mpr fun q hq => (hps q hq).readsPublic hfield hshared

end Leaf

variable {x : Context} {root : TypeRef} {item : FilterItem} {p : Predicate}

theorem IsClause.readsPublic (h : IsClause x root item p)
    (hregistry : x.registry.Faithful x.catalogue) (hc : x.catalogue.Shared twin) :
    p.ReadsPublic twin := by
  cases h with
  | leaf hpath _ hnames hp =>
      exact hp.readsPublic (Context.isPublic_of_resolve hregistry hc hpath)
        (Context.shared_of_resolve hregistry hc hpath)
  | any hpath _ _ helement _ hinner =>
      obtain ⟨hfield, hshared⟩ := Context.nameable_of_resolveElement hregistry hc helement
      exact ⟨Context.isPublic_of_resolve hregistry hc hpath, hinner.readsPublic hfield hshared⟩

/-- Whatever a filter asks for, the predicate that it is built to reads nothing private. -/
theorem readsPublic_of_build (hregistry : x.registry.Faithful x.catalogue)
    (hc : x.catalogue.Shared twin) {items : List FilterItem}
    (h : build x root items = .ok (some p)) : p.ReadsPublic twin := by
  obtain ⟨clauses, hclauses, hcombine⟩ := Outcome.map_eq_ok.mp h
  have hall : ∀ q ∈ clauses, q.ReadsPublic twin := by
    intro q hq
    obtain ⟨item, -, hitem⟩ := (Outcome.mem_mapM hclauses).mp hq
    exact (isClause_of_ofItem hitem).readsPublic hregistry hc
  rcases combine_cases .and clauses with ⟨-, hnone⟩ | ⟨q, rfl, hone⟩ | ⟨-, hand⟩
  · cases hnone.symm.trans hcombine
  · obtain rfl := Option.some.inj (hone.symm.trans hcombine)
    exact hall q List.mem_cons_self
  · obtain rfl := Option.some.inj (hand.symm.trans hcombine)
    exact allReadPublic_iff.mpr hall

end Predicate
end PageQuery
