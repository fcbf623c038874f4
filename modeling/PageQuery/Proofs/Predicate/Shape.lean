import Mathlib
import PageQuery.Predicate.Build
import PageQuery.Proofs.Outcome
import PageQuery.Proofs.Predicate.Detached
import PageQuery.Proofs.Predicate.Meaning
import PageQuery.Proofs.Schema.Tables
import PageQuery.Proofs.Text.Parts
import PageQuery.Store.Condition

/-!
# The shape of built predicates

A filter is built to a flat tree: at the top one clause for each item, in a clause one leaf, within a
collection or not, and in a leaf a range or tests of one field with the values that the item offers.
Connectives are put in only where there are two things to join, so evaluating or lowering a built
predicate never meets one that joins nothing, nor anything that is no predicate.
-/

namespace PageQuery

open PageQuery.Text

namespace Predicate

/-- A test of a field with a value that an item offers. -/
inductive IsTest (f : Field) (field : List String) (item : FilterItem) : Predicate → Prop
  | contains {text : String} (hkind : f.kind = .string) (hoffers : item.Offers text)
      (htrim : trim text = text) (hblank : isBlank text = false) :
      IsTest f field item (.contains field text)
  | equals {text : String} {parser : Parser} {value : Value}
      (hkind : f.kind = .scalar ∨ f.kind = .enum) (hoffers : item.Offers text)
      (hparser : f.parser = some parser) (hvalue : parser.run text = .ok value) :
      IsTest f field item (.equals field value)

/-- What an item asks of one field: that it lies in a range, of which one bound is there at least, or
that it passes one of some tests. -/
inductive IsLeaf (placeholder : Value) (f : Field) (field : List String) (item : FilterItem) :
    Predicate → Prop
  | range {low high : Option String} {lower upper : Value} (hkind : f.kind = .datetime)
      (hvalues : item.values = [low, high])
      (hlower : SlotBound placeholder f item.property low lower)
      (hupper : SlotBound placeholder f item.property high upper)
      (hbounds : lower.isNone = false ∨ upper.isNone = false) :
      IsLeaf placeholder f field item (.range field lower upper)
  | test {p : Predicate} (hp : IsTest f field item p) : IsLeaf placeholder f field item p
  | or {ps : List Predicate} (hlength : 2 ≤ ps.length) (hps : ∀ p ∈ ps, IsTest f field item p) :
      IsLeaf placeholder f field item (.or ps)

/-- What an item asks of a record: a leaf about the field that its path leads to, or some element of the
collection that it leads to for which a leaf holds. -/
inductive IsClause (x : Context) (root : TypeRef) (item : FilterItem) : Predicate → Prop
  | leaf {path : ResolvedPath} {p : Predicate} (hpath : x.resolve root item.property = .ok path)
      (hcollection : path.isCollection = false) (hfield : path.field ≠ [])
      (hp : IsLeaf x.settings.datePlaceholder path.leaf path.field item p) : IsClause x root item p
  | any {path : ResolvedPath} {f : Field} {field : List String} {inner : Predicate}
      (hpath : x.resolve root item.property = .ok path) (hcollection : path.isCollection = true)
      (hnames : path.field ≠ []) (helement : x.resolveElement path = .ok (f, field))
      (hfield : path.leaf.target = none ∧ field = [] ∨
        path.leaf.target.isSome = true ∧ field = [f.name])
      (hinner : IsLeaf x.settings.datePlaceholder f field item inner) :
      IsClause x root item (.any path.field inner)

mutual

/-- Whether a tree is made of known nodes, and its connectives join two predicates or more. -/
def isWellFormed : Predicate → Bool
  | .and items | .or items => 2 ≤ items.length && allWellFormed items
  | .any _ inner => isWellFormed inner
  | .contains .. | .equals .. | .range .. => true
  | .absent | .unknown => false

def allWellFormed : List Predicate → Bool
  | [] => true
  | p :: ps => isWellFormed p && allWellFormed ps

end

theorem allWellFormed_eq (ps : List Predicate) : allWellFormed ps = ps.all isWellFormed := by
  induction ps with
  | nil => rfl
  | cons p ps ih => rw [allWellFormed, ih, List.all_cons]

/-! ## What is built -/

/-- Several predicates are joined only if there are two or more. -/
theorem combine_cases (connective : List Predicate → Predicate) (ps : List Predicate) :
    ps = [] ∧ combine connective ps = none ∨
      (∃ p, ps = [p] ∧ combine connective ps = some p) ∨
      2 ≤ ps.length ∧ combine connective ps = some (connective ps) := by
  match ps with
  | [] => exact .inl ⟨rfl, rfl⟩
  | [p] => exact .inr (.inl ⟨p, rfl, rfl⟩)
  | _ :: _ :: _ => exact .inr (.inr ⟨by simp, rfl⟩)

section Leaf

variable {f : Field} {field : List String} {item : FilterItem} {p : Predicate}

theorem isTest_of_comparisons {tests : List Predicate} (hdate : f.kind ≠ .datetime)
    (hrelation : f.kind ≠ .relation) (hcollection : f.kind ≠ .collection)
    (h : comparisons f field item = .ok tests) : ∀ p ∈ tests, IsTest f field item p := by
  intro p hp
  rw [comparisons] at h
  split at h
  · rename_i hstring
    obtain rfl := Except.ok.inj h
    obtain ⟨text, htext, rfl⟩ := List.mem_map.mp hp
    have hoffers := mem_usableValues.mp htext
    obtain ⟨raw, -, hblank, rfl⟩ := id hoffers
    exact .contains hstring hoffers (trim_trim raw) (isBlank_trim hblank)
  · rename_i hstring
    obtain ⟨text, htext, hconvert⟩ := (Outcome.mem_mapM h).mp hp
    obtain ⟨value, hvalue, rfl⟩ := Outcome.map_eq_ok.mp hconvert
    obtain ⟨parser, hparser, hrun⟩ := Field.convert_eq_ok hvalue
    have hkind : f.kind = .scalar ∨ f.kind = .enum := by
      cases hf : f.kind <;> simp_all
    exact .equals hkind (mem_usableValues.mp htext) hparser hrun

theorem isLeaf_of_ofDates {settings : Settings} (hkind : f.kind = .datetime)
    (h : ofDates settings f field item = .ok p) :
    IsLeaf settings.datePlaceholder f field item p := by
  simp only [ofDates] at h
  split at h
  · rename_i low high hvalues
    obtain ⟨lower, hlower, h⟩ := Outcome.bind_eq_ok.mp h
    obtain ⟨upper, hupper, h⟩ := Outcome.bind_eq_ok.mp h
    split at h
    · cases h
    · rename_i hnone
      obtain rfl := Except.ok.inj h
      refine .range hkind hvalues (slotBound_of_bound hlower) (slotBound_of_bound hupper) ?_
      rwa [Bool.and_eq_true, not_and_or, Bool.not_eq_true, Bool.not_eq_true] at hnone
  · cases h
  · cases h

theorem isLeaf_of_ofLeaf {settings : Settings} (h : ofLeaf settings f field item = .ok p) :
    IsLeaf settings.datePlaceholder f field item p := by
  rw [ofLeaf] at h
  split at h
  · rename_i hkind
    exact isLeaf_of_ofDates hkind h
  · cases h
  · cases h
  · rename_i hdate hrelation hcollection
    obtain ⟨tests, htests, h⟩ := Outcome.bind_eq_ok.mp h
    have hall := isTest_of_comparisons hdate hrelation hcollection htests
    rcases combine_cases .or tests with ⟨-, hnone⟩ | ⟨q, rfl, hone⟩ | ⟨hlength, hmany⟩
    · rw [hnone] at h
      cases h
    · rw [hone] at h
      obtain rfl := Except.ok.inj h
      exact .test (hall q List.mem_cons_self)
    · rw [hmany] at h
      obtain rfl := Except.ok.inj h
      exact .or hlength hall

end Leaf

end Predicate

/-- A path that is resolved has names. -/
theorem Context.field_ne_nil {x : Context} {root : TypeRef} {path : Option String}
    {p : ResolvedPath} (h : x.resolve root path = .ok p) : p.field ≠ [] := by
  obtain ⟨segments, hsegments, hchain, hstop⟩ := chain_of_resolve h
  obtain ⟨segment, rest, rfl⟩ := List.exists_cons_of_ne_nil hsegments
  have hwalk : (walk x.table root (segment :: rest)).fields ≠ [] := by
    rw [walk] at hstop ⊢
    split at hstop
    · simp at hstop
    · simp at hstop
    · split
      · exact List.cons_ne_nil _ _
      · split <;> exact List.cons_ne_nil _ _
  simpa [ResolvedPath.field, hchain] using hwalk

/-- In the elements of a collection a path addresses one field if they are records, and otherwise the
elements themselves. -/
theorem Context.field_of_resolveElement {x : Context} {p : ResolvedPath} {f : Field}
    {field : List String} (h : x.resolveElement p = .ok (f, field)) :
    p.leaf.target = none ∧ field = [] ∨ p.leaf.target.isSome = true ∧ field = [f.name] := by
  rw [resolveElement] at h
  split at h
  · rename_i htarget
    split at h
    · cases h
    · obtain ⟨g, -, hg⟩ := Outcome.map_eq_ok.mp h
      exact .inl ⟨htarget, (Prod.mk.inj hg).2.symm⟩
  · rename_i t htarget
    split at h
    · cases h
    · obtain ⟨rfl, rfl⟩ := Prod.mk.inj (Except.ok.inj h)
      exact .inr ⟨by rw [htarget]; rfl, rfl⟩
    · cases h

namespace Predicate

variable {x : Context} {root : TypeRef} {item : FilterItem} {p : Predicate}

theorem isClause_of_ofItem (h : ofItem x root item = .ok p) : IsClause x root item p := by
  rw [ofItem] at h
  split at h
  · cases h
  · obtain ⟨path, hpath, h⟩ := Outcome.bind_eq_ok.mp h
    have hnames := Context.field_ne_nil hpath
    split at h
    · rename_i hcollection
      obtain ⟨⟨f, field⟩, helement, h⟩ := Outcome.bind_eq_ok.mp h
      obtain ⟨inner, hinner, h⟩ := Outcome.bind_eq_ok.mp h
      obtain rfl := Except.ok.inj h
      exact .any hpath hcollection hnames helement (Context.field_of_resolveElement helement)
        (isLeaf_of_ofLeaf (Outcome.mapError_eq_ok.mp hinner))
    · rename_i hcollection
      exact .leaf hpath (by simpa using hcollection) hnames
        (isLeaf_of_ofLeaf (Outcome.mapError_eq_ok.mp h))

/-! ## Evaluating and lowering what is built -/

section Leaf

variable {placeholder : Value} {f : Field} {field : List String}

theorem IsTest.isWellFormed (h : IsTest f field item p) : p.isWellFormed = true := by
  cases h <;> rfl

theorem IsTest.fault_of_holds (h : IsTest f field item p) {zone : LocalZone} {v : Value}
    {e : Failure} (hp : p.holds zone v = .error e) : ∃ fault, e = .fault fault := by
  cases h with
  | contains => 
      rw [holds] at hp
      cases hp
  | equals =>
      rw [holds] at hp
      obtain ⟨fault, -, rfl⟩ := Outcome.mapError_eq_error.mp hp
      exact ⟨fault, rfl⟩

theorem IsTest.exists_ofPredicate (h : IsTest f field item p) (s : Store) (model : String)
    (before : List String) : ∃ c, Condition.ofPredicate s model before p = .ok c := by
  cases h <;> exact ⟨_, by rw [Condition.ofPredicate]⟩

theorem IsLeaf.isWellFormed (h : IsLeaf placeholder f field item p) : p.isWellFormed = true := by
  cases h with
  | range => rfl
  | test hp => exact hp.isWellFormed
  | or hlength hps =>
      rw [Predicate.isWellFormed, allWellFormed_eq, Bool.and_eq_true, decide_eq_true_eq,
        List.all_eq_true]
      exact ⟨hlength, fun q hq => (hps q hq).isWellFormed⟩

theorem IsLeaf.fault_of_holds (h : IsLeaf placeholder f field item p) {zone : LocalZone} {v : Value}
    {e : Failure} (hp : p.holds zone v = .error e) : ∃ fault, e = .fault fault := by
  cases h with
  | range =>
      rw [holds] at hp
      obtain ⟨fault, -, rfl⟩ := Outcome.mapError_eq_error.mp hp
      exact ⟨fault, rfl⟩
  | test htest => exact htest.fault_of_holds hp
  | or hlength hps =>
      rw [holds] at hp
      obtain ⟨q, hq, he⟩ := exists_of_holdsSome_error hp
      exact (hps q hq).fault_of_holds he

end Leaf

end Predicate

namespace Condition

variable {s : Store} {model : String} {before : List String}

theorem exists_of_ofPredicates_error {ps : List Predicate} {e : Failure}
    (h : ofPredicates s model before ps = .error e) :
    ∃ p ∈ ps, ofPredicate s model before p = .error e := by
  induction ps with
  | nil => cases h
  | cons p ps ih =>
      rw [ofPredicates] at h
      split at h
      · rename_i he
        exact ⟨p, List.mem_cons_self, by rw [he, Except.error.inj h]⟩
      · split at h
        · rename_i he
          obtain ⟨q, hq, hfails⟩ := ih (by rw [he, Except.error.inj h])
          exact ⟨q, List.mem_cons_of_mem p hq, hfails⟩
        · cases h

theorem length_ofPredicates {ps : List Predicate} {cs : List Condition}
    (h : ofPredicates s model before ps = .ok cs) : cs.length = ps.length := by
  induction ps generalizing cs with
  | nil =>
      obtain rfl : [] = cs := Except.ok.inj h
      rfl
  | cons p ps ih =>
      rw [ofPredicates] at h
      split at h
      · cases h
      · split at h
        · cases h
        · rename_i cs' hcs
          rw [← Except.ok.inj h, List.length_cons, List.length_cons, ih hcs]

/-- Joining fails only if there is nothing to join. -/
theorem exists_joinAll (connective : Connective) {cs : List Condition} (h : cs ≠ []) :
    ∃ c, joinAll connective cs = .ok c := by
  obtain ⟨c, rest, rfl⟩ := List.exists_cons_of_ne_nil h
  exact ⟨_, rfl⟩

/-- A connective that joins something fails to be lowered only where one of its items does. -/
theorem exists_of_joined_error {connective : Connective} {ps : List Predicate} (hps : ps ≠ [])
    {e : Failure}
    (h : (match ofPredicates s model before ps with
      | .error e => .error e
      | .ok cs => joinAll connective cs : Except Failure Condition) = .error e) :
    ∃ p ∈ ps, ofPredicate s model before p = .error e := by
  split at h
  · rename_i he
    exact exists_of_ofPredicates_error (he.trans (congrArg _ (Except.error.inj h)))
  · rename_i cs hcs
    have hlength := length_ofPredicates hcs
    have hsome : cs ≠ [] := by
      rintro rfl
      exact hps (List.length_eq_zero_iff.mp hlength.symm)
    obtain ⟨c, hc⟩ := exists_joinAll connective hsome
    rw [hc] at h
    cases h

end Condition

namespace Predicate

variable {x : Context} {root : TypeRef} {item : FilterItem} {p : Predicate}

theorem IsLeaf.exists_ofPredicate {placeholder : Value} {f : Field} {field : List String}
    (h : IsLeaf placeholder f field item p) (s : Store) (model : String) (before : List String) :
    ∃ c, Condition.ofPredicate s model before p = .ok c := by
  cases h with
  | range => exact ⟨_, by rw [Condition.ofPredicate]⟩
  | test hp => exact hp.exists_ofPredicate s model before
  | @or ps hlength hps =>
      cases hlowered : Condition.ofPredicate s model before (.or ps) with
      | ok c => exact ⟨c, rfl⟩
      | error e =>
          rw [Condition.ofPredicate] at hlowered
          have hsome : ps ≠ [] := by
            rintro rfl
            simp at hlength
          obtain ⟨q, hq, he⟩ := Condition.exists_of_joined_error hsome hlowered
          obtain ⟨c, hc⟩ := (hps q hq).exists_ofPredicate s model before
          cases hc.symm.trans he

theorem IsClause.isWellFormed (h : IsClause x root item p) : p.isWellFormed = true := by
  cases h with
  | leaf _ _ _ hp => exact hp.isWellFormed
  | any _ _ _ _ _ hinner => exact hinner.isWellFormed

theorem IsClause.fault_of_holds (h : IsClause x root item p) {zone : LocalZone} {v : Value}
    {e : Failure} (hp : p.holds zone v = .error e) : ∃ fault, e = .fault fault := by
  cases h with
  | leaf _ _ _ hleaf => exact hleaf.fault_of_holds hp
  | any _ _ _ _ _ hinner =>
      rw [holds] at hp
      split at hp
      · obtain ⟨u, -, he⟩ := exists_of_anyHolds_error hp
        exact hinner.fault_of_holds he
      · exact ⟨_, (Except.error.inj hp).symm⟩

/-- A search is the only thing of a clause that a store may refuse, for a condition that it cannot
prepare. -/
def RefusesSearch (s : Store) (model : String) (p : Predicate) (e : Failure) : Prop :=
  ∃ collection inner c fault, p = .any collection inner ∧
    Condition.ofPredicate s model collection inner = .ok c ∧
    s.prepare model c = .error fault ∧ e = .fault fault

theorem IsClause.refusesSearch (h : IsClause x root item p) {s : Store} {model : String}
    {e : Failure} (hp : Condition.ofPredicate s model [] p = .error e) :
    RefusesSearch s model p e := by
  cases h with
  | leaf _ _ _ hleaf =>
      obtain ⟨c, hc⟩ := hleaf.exists_ofPredicate s model []
      cases hc.symm.trans hp
  | @any path f field inner _ _ _ _ _ hinner =>
      obtain ⟨c, hc⟩ := hinner.exists_ofPredicate s model path.field
      rw [Condition.ofPredicate, List.nil_append, hc] at hp
      dsimp only at hp
      split at hp
      · rename_i fault hfault
        exact ⟨_, _, c, fault, rfl, hc, hfault, (Except.error.inj hp).symm⟩
      · cases hp

/-! ## Detached searches of what is built -/

section Detachable

variable {placeholder : Value} {f : Field} {field : List String}
  (hthere : ∀ parser ∈ f.parser, ∀ text v, parser.run text = .ok v → v.bare.isNone = false)

include hthere

theorem IsTest.isDetachable (h : IsTest f field item p) (inside : Bool) :
    p.isDetachable inside = true := by
  cases h with
  | contains => rfl
  | equals _ _ hparser hvalue => simp [Predicate.isDetachable, hthere _ hparser _ _ hvalue]

theorem IsLeaf.isDetachable (h : IsLeaf placeholder f field item p) (inside : Bool) :
    p.isDetachable inside = true := by
  cases h with
  | range => rfl
  | test hp => exact hp.isDetachable hthere inside
  | or _ hps =>
      rw [Predicate.isDetachable, allDetachable_eq, List.all_eq_true]
      exact fun q hq => (hps q hq).isDetachable hthere inside

end Detachable

theorem IsClause.isDetachable (h : IsClause x root item p)
    (hthere : ∀ f, Concerns x root item f → ∀ parser ∈ f.parser, ∀ text v,
      parser.run text = .ok v → v.bare.isNone = false) : p.isDetachable false = true := by
  cases h with
  | leaf hpath hcollection _ hp =>
      exact hp.isDetachable (hthere _ ⟨_, hpath, by simp [hcollection]⟩) false
  | any hpath hcollection _ helement _ hinner =>
      exact hinner.isDetachable
        (hthere _ ⟨_, hpath, by rw [if_pos hcollection]; exact ⟨_, helement⟩⟩) true

/-- The searches of a built predicate may be detached: each of them stands by itself, and no element is
compared with a missing value unless a parser reads one. -/
theorem isDetachable_of_build {items : List FilterItem} (h : build x root items = .ok (some p))
    (hthere : ∀ item ∈ items, ∀ f, Concerns x root item f → ∀ parser ∈ f.parser, ∀ text v,
      parser.run text = .ok v → v.bare.isNone = false) : p.isDetachable false = true := by
  obtain ⟨clauses, hclauses, hcombine⟩ := Outcome.map_eq_ok.mp h
  have hall : ∀ q ∈ clauses, q.isDetachable false = true := by
    intro q hq
    obtain ⟨item, hitem, hofItem⟩ := (Outcome.mem_mapM hclauses).mp hq
    exact (isClause_of_ofItem hofItem).isDetachable (hthere item hitem)
  rcases combine_cases .and clauses with ⟨-, hnone⟩ | ⟨q, rfl, hone⟩ | ⟨-, hand⟩
  · cases hnone.symm.trans hcombine
  · obtain rfl := Option.some.inj (hone.symm.trans hcombine)
    exact hall q List.mem_cons_self
  · obtain rfl := Option.some.inj (hand.symm.trans hcombine)
    rw [Predicate.isDetachable, allDetachable_eq, Bool.and_eq_true, List.all_eq_true]
    exact ⟨rfl, hall⟩

/-! ## The shape -/

/-- The shape of a built predicate.  There is none exactly if there are no items; otherwise it is one
clause, or a conjunction of two clauses at least, one for each item in order.  Neither evaluating nor
lowering it meets a connective that joins nothing, or anything that is no predicate: comparing values is
all that can fail in memory, and preparing a search all that can fail in a store. -/
theorem shape_of_build {items : List FilterItem} {built : Option Predicate}
    (h : build x root items = .ok built) :
    (built = none ↔ items = []) ∧
    ∃ clauses, List.Forall₂ (IsClause x root) items clauses ∧
      (clauses = [] ∧ built = none ∨ (∃ clause, clauses = [clause] ∧ built = some clause) ∨
        2 ≤ clauses.length ∧ built = some (.and clauses)) ∧
      ∀ p ∈ built, p.isWellFormed = true ∧
        (∀ zone record e, p.holds zone record = .error e → ∃ fault, e = .fault fault) ∧
        ∀ s model e, Condition.ofPredicate s model [] p = .error e →
          ∃ clause ∈ clauses, RefusesSearch s model clause e := by
  obtain ⟨clauses, hclauses, rfl⟩ := Outcome.map_eq_ok.mp h
  have hshape : List.Forall₂ (IsClause x root) items clauses :=
    (Outcome.mapM_eq_ok.mp hclauses).imp fun _ _ => isClause_of_ofItem
  have hclause : ∀ p ∈ clauses, ∃ item, IsClause x root item p := by
    intro p hp
    obtain ⟨item, -, hitem⟩ := (Outcome.mem_mapM hclauses).mp hp
    exact ⟨item, isClause_of_ofItem hitem⟩
  have hcases := combine_cases .and clauses
  refine ⟨?_, clauses, hshape, hcases, ?_⟩
  · have hlength := hshape.length_eq
    rcases hcases with ⟨rfl, hnone⟩ | ⟨clause, rfl, hone⟩ | ⟨hmany, hand⟩
    · exact iff_of_true hnone (List.length_eq_zero_iff.mp hlength)
    · rw [hone]
      refine iff_of_false nofun ?_
      rintro rfl
      simp at hlength
    · rw [hand]
      refine iff_of_false nofun ?_
      rintro rfl
      simp [← hlength] at hmany
  · rcases hcases with ⟨rfl, hnone⟩ | ⟨clause, rfl, hone⟩ | ⟨hmany, hand⟩
    · rw [hnone]
      nofun
    · rw [hone]
      rintro p ⟨⟩
      obtain ⟨item, hclause⟩ := hclause clause List.mem_cons_self
      exact ⟨hclause.isWellFormed, fun _ _ _ => hclause.fault_of_holds, fun _ _ _ he =>
        ⟨clause, List.mem_cons_self, hclause.refusesSearch he⟩⟩
    · rw [hand]
      rintro p ⟨⟩
      refine ⟨?_, fun zone record e he => ?_, fun s model e he => ?_⟩
      · rw [isWellFormed, allWellFormed_eq, Bool.and_eq_true, decide_eq_true_eq, List.all_eq_true]
        refine ⟨hmany, fun q hq => ?_⟩
        obtain ⟨item, hq⟩ := hclause q hq
        exact hq.isWellFormed
      · rw [holds] at he
        obtain ⟨q, hq, he⟩ := exists_of_holdsAll_error he
        obtain ⟨item, hq⟩ := hclause q hq
        exact hq.fault_of_holds he
      · rw [Condition.ofPredicate] at he
        have hsome : clauses ≠ [] := by
          rintro rfl
          simp at hmany
        obtain ⟨q, hq, he⟩ := Condition.exists_of_joined_error hsome he
        obtain ⟨item, hclause⟩ := hclause q hq
        exact ⟨q, hq, hclause.refusesSearch he⟩

/-- One item about the title of a book and one about its tags are built to two clauses, of which the
second takes the tags by themselves. -/
theorem shape_of_build_shelf :
    build shelf (.record "Book") [⟨some "title", [some " du"]⟩,
        ⟨some "tags", [some "SF", some " ", some "epic"]⟩] = .ok (some (.and
      [.contains ["title"] "du", .any ["tags"] (.or [.contains [] "SF", .contains [] "epic"])])) ∧
    ∃ title tags, IsClause shelf (.record "Book") ⟨some "title", [some " du"]⟩ title ∧
      IsClause shelf (.record "Book") ⟨some "tags", [some "SF", some " ", some "epic"]⟩ tags ∧
      Predicate.isWellFormed (.and [title, tags]) = true ∧
      [title, tags] =
        [.contains ["title"] "du", .any ["tags"] (.or [.contains [] "SF", .contains [] "epic"])] := by
  have hbuild : build shelf (.record "Book") [⟨some "title", [some " du"]⟩,
      ⟨some "tags", [some "SF", some " ", some "epic"]⟩] = .ok (some (.and
    [.contains ["title"] "du", .any ["tags"] (.or [.contains [] "SF", .contains [] "epic"])])) := by
    rfl
  obtain ⟨-, clauses, hclauses, hcases, hmeets⟩ := shape_of_build hbuild
  obtain ⟨title, others, htitle, hothers, rfl⟩ := List.forall₂_cons_left_iff.mp hclauses
  obtain ⟨tags, rest, htags, hrest, rfl⟩ := List.forall₂_cons_left_iff.mp hothers
  obtain rfl := List.forall₂_nil_left_iff.mp hrest
  obtain ⟨hnil, -⟩ | ⟨clause, hone, -⟩ | ⟨-, hand⟩ := hcases
  · cases hnil
  · cases hone
  · refine ⟨hbuild, title, tags, htitle, htags, ?_, ?_⟩
    · obtain hand := Option.some.inj hand
      exact hand ▸ (hmeets _ rfl).1
    · injection hand with hand
      injection hand with hand
      exact hand.symm

end Predicate
end PageQuery
