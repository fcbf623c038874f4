import Mathlib
import PageQuery.Path
import PageQuery.Proofs.Schema.Introspection

/-!
# What goes wrong with a path

A path is resolved, is wrong in a way that is reported, or meets a type whose table cannot be made.
The last happens exactly if there is no table for one of the types that are looked at, which are the
types of one walk: a longer walk behind a collection looks at nothing new.
-/

namespace PageQuery

/-- A failure that is reported to the client as an error of one of some kinds. -/
def Failure.Reported (kinds : List ErrorKind) (e : Failure) : Prop :=
  ∃ r, e = .request r ∧ r.kind ∈ kinds

theorem Failure.Reported.mono {kinds kinds' : List ErrorKind} {e : Failure}
    (h : e.Reported kinds) (hsub : kinds ⊆ kinds') : e.Reported kinds' := by
  obtain ⟨r, he, hr⟩ := h
  exact ⟨r, he, hsub hr⟩

/-! ## Walks -/

section Walk

variable {tables : TypeRef → Except Fault Table}

/-- A walk breaks off exactly if there is no table for a type that it looks at. -/
theorem walk_broken_iff {t : TypeRef} {segments : List String} {f : Fault} :
    (walk tables t segments).stop = .broken f ↔
      ∃ u ∈ (walk tables t segments).types, tables u = .error f := by
  induction segments generalizing t with
  | nil => simp [walk]
  | cons segment rest ih =>
      unfold walk
      cases htable : tables t with
      | error g => simp [Except.map, htable]
      | ok table =>
          cases hfound : table.find? segment with
          | none => simp [Except.map, hfound, htable]
          | some field =>
              simp only [Except.map, hfound]
              split
              · simp [htable]
              · split
                · simp [htable]
                · simp [htable]
                · simp [htable, ih]

/-- What stands behind the first collection of a path makes no difference to the walk up to it. -/
theorem walk_append {t : TypeRef} {segments rest : List String}
    (h : (walk tables t segments).stop = .collection rest) (more : List String) :
    (walk tables t (segments ++ more)).types = (walk tables t segments).types ∧
      (walk tables t (segments ++ more)).stop = .collection (rest ++ more) := by
  induction segments generalizing t with
  | nil => simp [walk] at h
  | cons segment segments ih =>
      rw [List.cons_append]
      unfold walk at h ⊢
      cases hfound : (tables t).map (·.find? segment) with
      | error f => simp [hfound] at h
      | ok found =>
          cases found with
          | none => simp [hfound] at h
          | some field =>
              simp only [hfound] at h ⊢
              by_cases hcollection : field.isCollection = true
              · simp only [if_pos hcollection, WalkEnd.collection.injEq] at h ⊢
                simp [h]
              · simp only [if_neg hcollection] at h ⊢
                cases segments with
                | nil => cases h
                | cons next segments =>
                    cases htarget : field.target with
                    | none => simp [htarget] at h
                    | some target =>
                        simp only [htarget] at h
                        obtain ⟨htypes, hstop⟩ := ih h
                        simp only [List.cons_append] at htypes hstop ⊢
                        exact ⟨by rw [htypes], hstop⟩

end Walk

namespace Context

variable {x : Context} {root : TypeRef}

def pathKinds : List ErrorKind := [.filterFormat, .propertyNotFound, .pathTooDeep]

theorem checkDepth_error {path : Option String} {limit : Whole} {segments : List String}
    {e : Failure} (h : x.checkDepth root path limit segments = .error e) :
    e.Reported pathKinds ∨
      ∃ f, e = .fault f ∧ limit.number < segments.length ∧
        (walk x.table root segments.dropLast).stop = .broken f := by
  unfold checkDepth at h
  split at h
  · cases h
  · rename_i hlong
    split at h
    · cases h
    · rw [← Except.error.inj h]
      exact .inl ⟨_, rfl, by simp [unknownField, RequestError.kind, pathKinds]⟩
    · rename_i f hbroken
      exact .inr ⟨f, (Except.error.inj h).symm, by omega, hbroken⟩
    · rw [← Except.error.inj h]
      exact .inl ⟨_, rfl, by simp [RequestError.kind, pathKinds]⟩

theorem resolveSegments_error {path : Option String} {segments : List String} {e : Failure}
    (h : x.resolveSegments root path segments = .error e) :
    e.Reported pathKinds ∨
      ∃ f, e = .fault f ∧ (walk x.table root segments).stop = .broken f := by
  unfold resolveSegments at h
  dsimp only at h
  split at h
  · cases h
  · rw [← Except.error.inj h]
    exact .inl ⟨_, rfl, by simp [unknownField, RequestError.kind, pathKinds]⟩
  · rw [← Except.error.inj h]
    exact .inl ⟨_, rfl, by simp [RequestError.kind, pathKinds]⟩
  · cases h
  · cases h
  · rw [← Except.error.inj h]
    exact .inl ⟨_, rfl, by simp [RequestError.kind, pathKinds]⟩
  · rename_i f hbroken
    exact .inr ⟨f, (Except.error.inj h).symm, hbroken⟩

/-- A walk along a path whose depth is allowed looks at the types that the check of the depth looks
at. -/
theorem types_of_checkDepth {path : Option String} {limit : Whole} {segments : List String}
    (h : x.checkDepth root path limit segments = .ok ()) :
    (walk x.table root segments).types =
        (walk x.table root (depthSegments limit segments)).types ∧
      ∀ f, (walk x.table root segments).stop = .broken f →
        (walk x.table root (depthSegments limit segments)).stop = .broken f := by
  unfold checkDepth at h
  unfold depthSegments
  by_cases hshort : (segments.length : ℤ) ≤ limit.number
  · simp [hshort]
  · rw [if_neg hshort] at h ⊢
    split at h
    · rename_i rest hcollection
      have hsegments : segments = segments.dropLast ++ segments.getLast?.toList := by
        cases segments using List.reverseRecOn <;> simp
      obtain ⟨htypes, hstop⟩ := walk_append hcollection segments.getLast?.toList
      rw [← hsegments] at htypes hstop
      refine ⟨htypes, fun f hf => ?_⟩
      rw [hstop] at hf
      cases hf
    · cases h
    · cases h
    · cases h

theorem consulted_eq {path : Option String} {limit : Whole} {segments : List String}
    (hlimit : x.settings.maxPathDepth = .ok limit) (hsegments : splitPath path = .ok segments) :
    x.consulted root path = (walk x.table root (depthSegments limit segments)).types := by
  simp [consulted, hlimit, hsegments]

/-- A path that cannot be resolved is reported, unless there is no table for a type that it leads
to. -/
theorem resolve_error {path : Option String} {limit : Whole}
    (hlimit : x.settings.maxPathDepth = .ok limit) {e : Failure}
    (h : x.resolve root path = .error e) :
    e.Reported pathKinds ∨
      ∃ f, e = .fault f ∧ ∃ t ∈ x.consulted root path, x.table t = .error f := by
  unfold resolve at h
  rcases Outcome.bind_eq_error.mp h with h | ⟨segments, hsegments, h⟩
  · obtain ⟨r, hsplit, rfl⟩ := Outcome.mapError_eq_error.mp h
    unfold splitPath at hsplit
    split at hsplit
    · rw [← Except.error.inj hsplit]
      exact .inl ⟨_, rfl, by simp [RequestError.kind, pathKinds]⟩
    · cases hsplit
  · rw [hlimit, Outcome.ok_bind] at h
    rw [consulted_eq hlimit (Outcome.mapError_eq_ok.mp hsegments)]
    rcases Outcome.bind_eq_error.mp h with h | ⟨_, hdepth, h⟩
    · rcases checkDepth_error h with hreported | ⟨f, rfl, hlong, hbroken⟩
      · exact .inl hreported
      · refine .inr ⟨f, rfl, ?_⟩
        rw [depthSegments, if_neg (by omega)]
        exact walk_broken_iff.mp hbroken
    · rcases resolveSegments_error h with hreported | ⟨f, rfl, hbroken⟩
      · exact .inl hreported
      · exact .inr ⟨f, rfl, walk_broken_iff.mp ((types_of_checkDepth hdepth).2 f hbroken)⟩

/-- A path cannot be resolved if there is no table for a type that it leads to. -/
theorem resolve_of_broken {path : Option String} {f : Fault} {t : TypeRef}
    (ht : t ∈ x.consulted root path) (hf : x.table t = .error f) :
    x.resolve root path = .error (.fault f) := by
  unfold consulted at ht
  split at ht
  · rename_i segments limit hsegments hlimit
    have hbroken := walk_broken_iff.mpr ⟨t, ht, hf⟩
    unfold resolve
    rw [hsegments, hlimit]
    simp only [Except.mapError, Outcome.ok_bind]
    unfold depthSegments at hbroken
    by_cases hshort : (segments.length : ℤ) ≤ limit.number
    · rw [if_pos hshort] at hbroken
      rw [checkDepth, if_pos hshort, Outcome.ok_bind, resolveSegments]
      simp only [hbroken]
    · rw [if_neg hshort] at hbroken
      rw [checkDepth, if_neg hshort, hbroken]
      rfl
  · cases ht

end Context
end PageQuery
