import Mathlib
import PageQuery.Proofs.Schema.Conformance

/-!
# Filters that are accepted

A predicate that is built from a filter suits every record that conforms to its type: each of its
tests is made on a value that the field of the test describes.  So it has a verdict on the record,
unless a comparison that it comes to meets a signalling number, or an aware bound that is stuck.
-/

namespace PageQuery

namespace Predicate

variable {x : Context} {root : TypeRef} {record v : Value} {f : Field}

/-- The bounds that the slots of a date filter set are of the kind of what they are set for. -/
theorem bounds_of_bound {placeholder b : Value} {property slot : Option String} (hf : f.Dates v)
    (h : bound placeholder f property slot = .ok b) : b.Bounds v := by
  rw [bound] at h
  split at h
  · rw [← Except.ok.inj h]
    exact .open v
  · obtain ⟨parser, hparser, hrun⟩ := Field.convert_eq_ok h
    rcases hf with rfl | ⟨hdate, d, rfl⟩ | ⟨hmoment, t, rfl⟩ | ⟨e, key, u, hmember, hmixin, rfl, hu⟩
    · exact .beside b
    · obtain rfl := Option.some.inj (hdate.symm.trans hparser)
      rw [Parser.run] at hrun
      obtain ⟨e, rfl⟩ := Parser.exists_of_ofReading hrun
      exact .date rfl rfl
    · obtain rfl := Option.some.inj (hmoment.symm.trans hparser)
      rw [Parser.run] at hrun
      obtain ⟨u, rfl⟩ := Parser.exists_of_ofReading hrun
      exact .moment rfl rfl
    · obtain rfl := Option.some.inj (hmember.symm.trans hparser)
      rw [Parser.run] at hrun
      obtain ⟨m, hm, rfl⟩ := Parser.exists_of_readMember hrun
      exact .members hmixin (e.fits m (Enumeration.mem_of_mem_distinctMembers hm)) hu e.name m.1 key

theorem suits_ofDates {settings : Settings} {field : List String} {item : FilterItem}
    {p : Predicate} (hf : f.Dates (v.follow field)) (h : ofDates settings f field item = .ok p) :
    Suits p v := by
  rw [ofDates] at h
  split at h
  · obtain ⟨lower, hlower, h⟩ := Outcome.bind_eq_ok.mp h
    obtain ⟨upper, hupper, h⟩ := Outcome.bind_eq_ok.mp h
    split at h
    · cases h
    · rw [← Except.ok.inj h, Suits]
      exact ⟨bounds_of_bound hf hlower, bounds_of_bound hf hupper⟩
  · cases h
  · cases h

theorem suits_comparisons {field : List String} {item : FilterItem} {ps : List Predicate}
    (h : comparisons f field item = .ok ps) : ∀ p ∈ ps, Suits p v := by
  intro p hp
  rw [comparisons] at h
  split at h
  · rw [← Except.ok.inj h] at hp
    obtain ⟨text, -, rfl⟩ := List.mem_map.mp hp
    trivial
  · obtain ⟨text, -, htext⟩ := (Outcome.mem_mapM h).mp hp
    obtain ⟨value, -, rfl⟩ := Outcome.map_eq_ok.mp htext
    trivial

/-- The predicate of an item suits what its field describes. -/
theorem suits_ofLeaf {settings : Settings} {field : List String} {item : FilterItem} {p : Predicate}
    (hf : f.kind = .datetime → f.Dates (v.follow field))
    (h : ofLeaf settings f field item = .ok p) : Suits p v := by
  rw [ofLeaf] at h
  split at h
  · exact suits_ofDates (hf ‹_›) h
  · cases h
  · cases h
  · obtain ⟨tests, htests, h⟩ := Outcome.bind_eq_ok.mp h
    cases hcombined : combine .or tests with
    | none => simp [hcombined] at h
    | some q =>
        simp only [hcombined, Except.ok.injEq] at h
        rw [← h, suits_combine (.inr rfl) hcombined]
        exact suits_comparisons htests

theorem suits_ofItem (hregistry : x.registry.Faithful x.catalogue)
    (hrecord : record.Conforms x.catalogue (.type root)) {item : FilterItem} {p : Predicate}
    (h : ofItem x root item = .ok p) : Suits p record := by
  rw [ofItem] at h
  split at h
  · cases h
  · obtain ⟨path, hpath, h⟩ := Outcome.bind_eq_ok.mp h
    have hleaf := describes_of_resolve hregistry hrecord hpath
    split at h
    · rename_i hcollection
      obtain ⟨⟨f, field⟩, helement, h⟩ := Outcome.bind_eq_ok.mp h
      obtain ⟨inner, hinner, h⟩ := Outcome.bind_eq_ok.mp h
      rw [Outcome.mapError_eq_ok] at hinner
      rw [← Except.ok.inj h, Suits]
      obtain ⟨elements, helements, hconform⟩ := hleaf.elements hcollection
      refine ⟨elements, helements, fun e he => suits_ofLeaf ?_ hinner⟩
      exact dates_of_resolveElement hregistry (hconform e he).1 (hconform e he).2 helement
    · rw [Outcome.mapError_eq_ok] at h
      exact suits_ofLeaf hleaf.dates h

/-- A filter that is accepted has a verdict on every record that conforms to its type, or fails there
over one of the comparisons that it comes to: over a signalling number, or over an aware bound that
cannot be brought to a naive moment. -/
theorem holds_of_conforms (hregistry : x.registry.Faithful x.catalogue)
    (hrecord : record.Conforms x.catalogue (.type root)) {items : List FilterItem}
    {p : Option Predicate} (hp : build x root items = .ok p) :
    (∃ b, holds? x.zone p record = .ok b) ∨
      ∃ q test u fault, p = some q ∧ q.Reaches record test u ∧ Trouble x.zone test u fault ∧
        holds? x.zone p record = .error (.fault fault) := by
  obtain ⟨ps, hps, rfl⟩ := Outcome.map_eq_ok.mp hp
  cases hq : combine .and ps with
  | none => exact .inl ⟨true, rfl⟩
  | some q =>
      have hsuits : Suits q record := by
        rw [suits_combine (.inl rfl) hq]
        intro q hmem
        obtain ⟨item, -, hitem⟩ := (Outcome.mem_mapM hps).mp hmem
        exact suits_ofItem hregistry hrecord hitem
      cases hholds : q.holds x.zone record with
      | ok b => exact .inl ⟨b, hholds⟩
      | error e =>
          obtain ⟨test, u, fault, hreach, htrouble, rfl⟩ := trouble_of_error hsuits hholds
          exact .inr ⟨q, test, u, fault, rfl, hreach, htrouble, hholds⟩

/-- A declared record type whose instances have a price. -/
def priced : Context where
  catalogue :=
    { records := [{ name := "Item", annotations := [("price", .type (.builtin "Decimal"))] }] }

def cheap : Value := .record (.own 1) "Item" [("price", .decimal (.finite false 1 0))]

theorem conforms_cheap : cheap.Conforms priced.catalogue (.type (.record "Item")) := by
  refine .record fun hints hhints a ha _ => ?_
  have hprice : priced.catalogue.hints "Item" = .ok [("price", .type (.builtin "Decimal"))] := rfl
  rw [hprice, Except.ok.injEq] at hhints
  rw [← hhints, List.mem_singleton] at ha
  rw [ha]
  exact .builtin rfl

/-- A price may be compared with a signalling number, as far as the filter is concerned. -/
theorem holds_of_conforms_cheap :
    ∃ q test u, build priced (.record "Item") [⟨some "price", [some "sNaN"]⟩] = .ok (some q) ∧
      holds? priced.zone (some q) cheap = .error (.fault .invalidOperation) ∧
      q.Reaches cheap test u ∧ Trouble priced.zone test u .invalidOperation := by
  have hfails : ((build priced (.record "Item") [⟨some "price", [some "sNaN"]⟩]).toOption.join.bind
      fun q => Outcome.fault? (holds? priced.zone (some q) cheap)) =
        some .invalidOperation := by decide +kernel
  obtain ⟨q, hq, hholds⟩ := Option.bind_eq_some_iff.mp hfails
  replace hq := Outcome.toOption_eq_some.mp (Option.join_eq_some_iff.mp hq)
  replace hholds := Outcome.fault?_eq_some.mp hholds
  rcases holds_of_conforms Registry.Filled.empty.faithful conforms_cheap hq with
    ⟨b, hb⟩ | ⟨q', test, u, fault, heq, hreach, htrouble, herror⟩
  · rw [hholds] at hb
    cases hb
  · obtain rfl := Option.some.inj heq
    rw [hholds] at herror
    obtain rfl := Failure.fault.inj (Except.error.inj herror)
    exact ⟨q, test, u, hq, hholds, hreach, htrouble⟩

end Predicate
end PageQuery
