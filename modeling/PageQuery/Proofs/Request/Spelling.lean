import Mathlib
import PageQuery.Proofs.Request.Navigation
import PageQuery.Proofs.Schema.Tables

/-!
# How paths spell names

A segment of a path finds a field in any letter case.  The fields along a path keep the names that their
types give them, so these are the segments of the path, letter case aside, up to its end or to the first
collection.
-/

namespace PageQuery

open PageQuery.Text

/-! ## Registries -/

/-- A registry that started empty and in which tables were put by registering fields for a type or by
introspecting it, in any order and any number of times. -/
inductive Registry.Made (c : Catalogue) : Registry → Prop
  | empty : Made c {}
  | register {r : Registry} (hmade : Made c r) (t : TypeRef) (fields : List Field) :
      Made c (r.register t fields).1
  | introspect {r : Registry} (hmade : Made c r) (t : TypeRef) : Made c (r.introspect c t).1

def Registry.OfFields (r : Registry) : Prop :=
  ∀ t table, r.tables.lookup t = some table → ∃ fields, table = Table.ofFields fields

theorem Registry.OfFields.register {r : Registry} (h : r.OfFields) (t : TypeRef) (fields : List Field) :
    (r.register t fields).1.OfFields := by
  intro u table hu
  rw [Registry.register, Registry.put, List.lookup_cons] at hu
  cases hsame : u == t with
  | true =>
      rw [hsame] at hu
      exact ⟨fields, (Option.some.inj hu).symm⟩
  | false =>
      rw [hsame] at hu
      exact h u table (lookup_filter_ne hsame r.tables ▸ hu)

theorem Registry.Made.ofFields {c : Catalogue} {r : Registry} (h : r.Made c) : r.OfFields := by
  induction h with
  | empty => rintro t table ⟨⟩
  | register _ t fields ih => exact ih.register t fields
  | introspect _ t ih =>
      rw [Registry.introspect]
      dsimp only
      split
      · exact ih
      · exact ih.register t _

namespace Context

variable {x : Context} {root t u : TypeRef} {segments segments' before rest : List String}
  {segment segment' : String} {f : Field} {chain passed : List Field}

theorem exists_fields_of_table (hmade : x.registry.Made x.catalogue) {table : Table}
    (h : x.table t = .ok table) : ∃ fields, table = Table.ofFields fields := by
  rw [Context.table, Registry.table] at h
  split at h
  · rename_i registered hregistered
    obtain rfl := Except.ok.inj h
    exact hmade.ofFields t registered hregistered
  · obtain ⟨fields, -, rfl⟩ := Outcome.map_eq_ok.mp h
    exact ⟨fields, rfl⟩

/-! ## Letter case -/

/-- What is found has the name of the segment, letter case aside. -/
theorem Finds.lower_name (hmade : x.registry.Made x.catalogue) (h : x.Finds t segment f) :
    lower f.name = lower segment := by
  obtain ⟨table, htable, hfound⟩ := h
  obtain ⟨fields, rfl⟩ := exists_fields_of_table hmade htable
  exact Table.lower_name_of_find? hfound

theorem Finds.of_lower (h : x.Finds t segment f) (hlower : lower segment = lower segment') :
    x.Finds t segment' f := by
  obtain ⟨table, htable, hfound⟩ := h
  exact ⟨table, htable, hlower ▸ hfound⟩

theorem Passes.of_lower {before' : List String} (h : x.Passes t before passed u)
    (hlower : before.map lower = before'.map lower) : x.Passes t before' passed u := by
  induction h generalizing before' with
  | start =>
      obtain rfl : before' = [] := by simpa using hlower
      exact .start _
  | step hfinds hsingle htarget _ ih =>
      obtain ⟨segment', rest', rfl, hsegment, hrest⟩ := List.map_eq_cons_iff.mp hlower.symm
      exact .step (hfinds.of_lower hsegment.symm) hsingle htarget (ih hrest.symm)

/-- Letter case makes no difference to what is found along segments. -/
theorem Completes.of_lower (h : x.Completes root segments chain)
    (hlower : segments.map lower = segments'.map lower) : x.Completes root segments' chain := by
  obtain ⟨hpasses, hfinds, hsingle⟩ := h
  rw [List.map_append, List.map_singleton] at hlower
  obtain ⟨before', last, rfl, hbefore, hlast⟩ := List.map_eq_append_iff.mp hlower.symm
  obtain ⟨segment', rfl, hsegment⟩ := List.map_eq_singleton_iff.mp hlast
  exact .intro (hpasses.of_lower hbefore.symm) (hfinds.of_lower hsegment.symm) hsingle

theorem Passes.lower_names (hmade : x.registry.Made x.catalogue) (h : x.Passes t before passed u) :
    (passed.map (·.name)).map lower = before.map lower := by
  induction h with
  | start => rfl
  | step hfinds _ _ _ ih => rw [List.map_cons, List.map_cons, List.map_cons, ih, hfinds.lower_name hmade]

theorem Completes.lower_names (hmade : x.registry.Made x.catalogue)
    (h : x.Completes root segments chain) :
    (chain.map (·.name)).map lower = segments.map lower := by
  obtain ⟨hpasses, hfinds, -⟩ := h
  simp only [List.map_append, hpasses.lower_names hmade, List.map_singleton, hfinds.lower_name hmade]

theorem Completes.exists_last (h : x.Completes root segments chain) :
    ∃ f, chain.getLast? = some f ∧ f.isCollection = false := by
  obtain ⟨-, -, hsingle⟩ := h
  exact ⟨_, List.getLast?_concat, hsingle⟩

theorem Completes.chain_ne_nil (h : x.Completes root segments chain) : chain ≠ [] := by
  obtain ⟨f, hlast, -⟩ := h.exists_last
  rintro rfl
  cases hlast

theorem Meets.exists_last (h : x.Meets root segments chain rest) :
    ∃ f, chain.getLast? = some f ∧ f.isCollection = true := by
  obtain ⟨-, -, hcollection⟩ := h
  exact ⟨_, List.getLast?_concat, hcollection⟩

end Context
end PageQuery
