import Mathlib
import PageQuery.Proofs.Ordering.Merging
import PageQuery.Proofs.Ordering.Renaming

/-!
# Sorting is stable

Where comparisons answer by a strict weak order, a sort ends and arranges its list: the runs that
wait are sorted and together keep the items taken so far, whichever of them are merged when.  Sorting
by several keys then orders records by the first key that tells them apart.
-/

namespace PageQuery.Ordering

variable {α ε : Type} {less : α → α → Except ε Bool} {lt : α → α → Bool} {P : α → Prop}

/-- The runs that wait are sorted. -/
def Waiting.Ready (lt : α → α → Bool) (P : α → Prop) (w : Waiting α) : Prop :=
  ∀ r ∈ w.runs, Sorted lt r.items ∧ ∀ x ∈ r.items, P x

theorem arranges_runMerge (h : StrictOn lt P) (hless : Answers less lt P) (patience : ℕ)
    {r s : Run α} (hr : Sorted lt r.items ∧ ∀ x ∈ r.items, P x)
    (hs : Sorted lt s.items ∧ ∀ x ∈ s.items, P x) :
    ∃ merged last, r.merge less patience s = .ok (merged, last) ∧
      Arranges lt P (r.items ++ s.items) merged.items ∧
      Sorted lt merged.items ∧ ∀ x ∈ merged.items, P x := by
  obtain ⟨items, last, hmerge, hitems⟩ :=
    arranges_mergeRuns h hless patience hr.2 hs.2 hr.1 hs.1
  have hp : ∀ x ∈ r.items ++ s.items, P x := by
    simpa [or_imp, forall_and] using ⟨hr.2, hs.2⟩
  refine ⟨_, last, by rw [Run.merge, hmerge]; rfl, hitems, hitems.sorted, hitems.mem hp⟩

theorem keeps_mergeDeeper (h : StrictOn lt P) (hless : Answers less lt P) (power : ℕ) {patience : ℕ}
    {last : Run α} {rs : List (Run α)} (hw : Waiting.Ready lt P ⟨last :: rs, patience⟩) :
    ∃ w, mergeDeeper less power patience last rs = .ok w ∧ w.Ready lt P ∧
      Keeps lt P (Waiting.mk (last :: rs) patience).items w.items := by
  induction rs generalizing last patience with
  | nil => exact ⟨_, rfl, hw, .refl _⟩
  | cons r rs ih =>
      obtain ⟨hlast, hrest⟩ := List.forall_mem_cons.mp hw
      obtain ⟨hr, hrs⟩ := List.forall_mem_cons.mp hrest
      rw [mergeDeeper]
      split
      · obtain ⟨merged, patience', hmerge, hitems, hmerged⟩ :=
          arranges_runMerge h hless patience hr hlast
        obtain ⟨w, hdeeper, hready, hkeeps⟩ :=
          ih (List.forall_mem_cons.mpr ⟨hmerged, hrs⟩ : Waiting.Ready lt P ⟨merged :: rs, patience'⟩)
        refine ⟨w, by rw [hmerge]; exact hdeeper, hready, .trans ?_ hkeeps⟩
        simp only [Waiting.items_cons, List.append_assoc]
        exact (Keeps.refl _).append hitems.keeps
      · exact ⟨_, rfl, hw, .refl _⟩

theorem keeps_push (h : StrictOn lt P) (hless : Answers less lt P) (n : ℕ) {w : Waiting α}
    {run : Run α} (hw : w.Ready lt P) (hrun : Sorted lt run.items ∧ ∀ x ∈ run.items, P x) :
    ∃ w', w.push less n run = .ok w' ∧ w'.Ready lt P ∧
      Keeps lt P (w.items ++ run.items) w'.items := by
  obtain ⟨runs, patience⟩ := w
  rw [Waiting.push]
  split
  · rename_i hnone
    obtain rfl : runs = [] := hnone
    refine ⟨_, rfl, List.forall_mem_singleton.mpr hrun, ?_⟩
    simpa [Waiting.items] using Keeps.refl run.items
  · rename_i last before hruns
    obtain rfl : runs = last :: before := hruns
    obtain ⟨⟨runs', patience'⟩, hdeeper, hready, hkeeps⟩ :=
      keeps_mergeDeeper h hless (last.powerBefore run.items.length n) hw
    simp only [hdeeper]
    cases runs' with
    | nil =>
        refine ⟨_, rfl, List.forall_mem_singleton.mpr hrun, ?_⟩
        simpa [Waiting.items] using hkeeps.append (Keeps.refl run.items)
    | cons last' before' =>
        obtain ⟨hlast', hbefore'⟩ := List.forall_mem_cons.mp hready
        refine ⟨_, rfl, ?_, ?_⟩
        · exact List.forall_mem_cons.mpr ⟨hrun, List.forall_mem_cons.mpr ⟨hlast', hbefore'⟩⟩
        · simpa [Waiting.items] using hkeeps.append (Keeps.refl run.items)

theorem keeps_collect (h : StrictOn lt P) (hless : Answers less lt P) (n least : ℕ) {fuel : ℕ}
    {w : Waiting α} {xs : List α} (hw : w.Ready lt P) (hxs : ∀ x ∈ xs, P x)
    (hfuel : xs.length ≤ fuel) :
    ∃ w', collect less n least fuel w xs = .ok w' ∧ w'.Ready lt P ∧
      Keeps lt P (w.items ++ xs) w'.items := by
  induction fuel generalizing w xs with
  | zero =>
      obtain rfl : xs = [] := List.length_eq_zero_iff.mp (by omega)
      exact ⟨w, rfl, hw, by simpa using Keeps.refl w.items⟩
  | succ fuel ih =>
      cases xs with
      | nil => exact ⟨w, rfl, hw, by simpa using Keeps.refl w.items⟩
      | cons x xs =>
          obtain ⟨taken, items, rest, hrun, hparts, hitems⟩ := arranges_runOf h hless least hxs
          have hptaken : ∀ y ∈ taken, P y :=
            fun y hy => hxs y (hparts ▸ List.mem_append_left rest hy)
          have hprest : ∀ y ∈ rest, P y :=
            fun y hy => hxs y (hparts ▸ List.mem_append_right taken hy)
          have hsorted : Sorted lt (Run.mk items (n - (xs.length + 1)) 0).items ∧
              ∀ x ∈ items, P x := ⟨hitems.sorted, hitems.mem hptaken⟩
          obtain ⟨w', hpush, hready, hkeeps⟩ := keeps_push h hless n hw hsorted
          have hrest : rest.length ≤ fuel := by
            have hlength := (perm_of_runOf hrun).length_eq
            have hpos := List.length_pos_iff.mpr (ne_nil_of_runOf (List.cons_ne_nil _ _) hrun)
            rw [List.length_append] at hlength
            omega
          obtain ⟨w'', hcollect, hready', hkeeps'⟩ := ih hready hprest hrest
          refine ⟨w'', ?_, hready', .trans ?_ hkeeps'⟩
          · simp only [collect, hrun, hpush, hcollect]
          · rw [hparts, ← List.append_assoc]
            exact (((Keeps.refl _).append hitems.keeps).trans hkeeps).append (.refl _)

theorem arranges_mergeAll (h : StrictOn lt P) (hless : Answers less lt P) {fuel : ℕ}
    {w : Waiting α} (hw : w.Ready lt P) (hfuel : w.runs.length ≤ fuel) :
    ∃ xs, mergeAll less fuel w = .ok xs ∧ Arranges lt P w.items xs := by
  induction fuel generalizing w with
  | zero =>
      obtain ⟨runs, patience⟩ := w
      obtain rfl : runs = [] := List.length_eq_zero_iff.mp (Nat.le_zero.mp hfuel)
      exact ⟨[], rfl, .refl_of_sorted .nil⟩
  | succ fuel ih =>
      match w with
      | ⟨[], patience⟩ => exact ⟨[], rfl, .refl_of_sorted .nil⟩
      | ⟨[t], patience⟩ =>
          have ht : Sorted lt t.items := (hw t List.mem_cons_self).1
          exact ⟨t.items, by simp [mergeAll], by simpa [Waiting.items] using .refl_of_sorted ht⟩
      | ⟨[t, s], patience⟩ =>
          obtain ⟨ht, hrest⟩ := List.forall_mem_cons.mp hw
          obtain ⟨hs, -⟩ := List.forall_mem_cons.mp hrest
          obtain ⟨merged, last, hmerge, hitems, -⟩ := arranges_runMerge h hless patience hs ht
          refine ⟨merged.items, by rw [mergeAll, hmerge]; rfl, ?_⟩
          simpa [Waiting.items] using hitems
      | ⟨t :: s :: r :: rs, patience⟩ =>
          obtain ⟨ht, hrest⟩ := List.forall_mem_cons.mp hw
          obtain ⟨hs, hrest⟩ := List.forall_mem_cons.mp hrest
          obtain ⟨hr, hrs⟩ := List.forall_mem_cons.mp hrest
          rw [mergeAll]
          split
          · obtain ⟨merged, last, hmerge, hitems, hmerged⟩ := arranges_runMerge h hless patience hr hs
            obtain ⟨xs, hall, hxs⟩ := ih (w := ⟨t :: merged :: rs, last⟩)
              (List.forall_mem_cons.mpr ⟨ht, List.forall_mem_cons.mpr ⟨hmerged, hrs⟩⟩)
              (by simpa using hfuel)
            refine ⟨xs, by rw [hmerge]; exact hall, hxs.of_keeps ?_⟩
            simp only [Waiting.items_cons]
            refine Keeps.append ?_ (.refl _)
            rw [List.append_assoc]
            exact (Keeps.refl _).append hitems.keeps
          · obtain ⟨merged, last, hmerge, hitems, hmerged⟩ := arranges_runMerge h hless patience hs ht
            obtain ⟨xs, hall, hxs⟩ := ih (w := ⟨merged :: r :: rs, last⟩)
              (List.forall_mem_cons.mpr ⟨hmerged, List.forall_mem_cons.mpr ⟨hr, hrs⟩⟩)
              (by simpa using hfuel)
            refine ⟨xs, by rw [hmerge]; exact hall, hxs.of_keeps ?_⟩
            simp only [Waiting.items_cons, List.append_assoc]
            exact (Keeps.refl _).append ((Keeps.refl _).append hitems.keeps)

/-- A sort arranges its list. -/
theorem arranges_sort (h : StrictOn lt P) (hless : Answers less lt P) {xs : List α}
    (hxs : ∀ x ∈ xs, P x) : ∃ ys, sort less xs = .ok ys ∧ Arranges lt P xs ys := by
  have hnone : Waiting.Ready lt P {} := by
    intro r hr
    cases hr
  obtain ⟨w, hcollect, hready, hkeeps⟩ :=
    keeps_collect h hless xs.length (leastRun xs.length) hnone hxs le_rfl
  obtain ⟨ys, hall, hys⟩ := arranges_mergeAll h hless hready le_rfl
  refine ⟨ys, by rw [sort, hcollect]; exact hall, hys.of_keeps ?_⟩
  simpa [Waiting.items] using hkeeps

/-- A descending sort arranges its list in the opposite order. -/
theorem arranges_sortDescending (h : StrictOn lt P) (hless : Answers less lt P) {xs : List α}
    (hxs : ∀ x ∈ xs, P x) :
    ∃ ys, sortDescending less xs = .ok ys ∧ Arranges (fun a b => lt b a) P xs ys := by
  have hxs' : ∀ x ∈ xs.reverse, P x := by simpa using hxs
  obtain ⟨ys, hsort, hys⟩ := arranges_sort h hless hxs'
  refine ⟨ys.reverse, by rw [sortDescending, hsort], ?_⟩
  have hreverse : Arranges (fun a b => lt b a) P xs.reverse.reverse ys.reverse := hys.reverse
  rwa [List.reverse_reverse] at hreverse

end PageQuery.Ordering

namespace PageQuery.SortKey

open PageQuery.Ordering

def directed (lt : SortKey → Value → Value → Bool) (k : SortKey) (a b : Value) : Bool :=
  if k.descending then lt k b a else lt k a b

/-- Whether a record may stand before another one under several keys: the first key that tells them
apart decides. -/
def mayPrecede (lt : SortKey → Value → Value → Bool) : List SortKey → Value → Value → Prop
  | [], _, _ => True
  | k :: ks, a, b =>
    directed lt k a b = true ∨ tied (lt k) a b = true ∧ mayPrecede lt ks a b

variable {ι : Type} {lt : SortKey → Value → Value → Bool} {P : Value → Prop} {g : ι → Value}

/-- Whether an item may stand before another one under several keys, if items stand for records: the
first key that tells their records apart decides, and the items themselves if none does. -/
def mayPrecedeBy (lt : SortKey → Value → Value → Bool) (g : ι → Value) (R : ι → ι → Prop) :
    List SortKey → ι → ι → Prop
  | [], i, j => R i j
  | k :: ks, i, j =>
    directed lt k (g i) (g j) = true ∨ tied (lt k) (g i) (g j) = true ∧ mayPrecedeBy lt g R ks i j

theorem tied_directed (k : SortKey) : tied (directed lt k) = tied (lt k) := by
  funext v a
  cases hk : k.descending with
  | true => simp [tied, directed, hk, Bool.and_comm]
  | false => simp [tied, directed, hk]

theorem arranges_arrange {k : SortKey} (h : StrictOn (lt k) P) (hless : Answers k.before (lt k) P)
    {places : List ι} (hplaces : ∀ i ∈ places, P (g i)) :
    ∃ sorted : List ι, k.arrange (places.map g) = .ok (sorted.map g) ∧
      Arranges (fun i j => directed lt k (g i) (g j)) (fun i => P (g i)) places sorted := by
  rw [arrange]
  cases hk : k.descending with
  | true =>
      obtain ⟨sorted, hsort, hsorted⟩ := arranges_sortDescending (h.comap g) (hless.comap g) hplaces
      refine ⟨sorted, by simp [sortDescending_map, hsort, Except.map], ?_⟩
      simpa [directed, hk] using hsorted
  | false =>
      obtain ⟨sorted, hsort, hsorted⟩ := arranges_sort (h.comap g) (hless.comap g) hplaces
      refine ⟨sorted, by simp [sort_map, hsort, Except.map], ?_⟩
      simpa [directed, hk] using hsorted

/-- Sorting by several keys rearranges what stands for the records so that the first key that tells two
of them apart decides, and otherwise they stand as they stood before. -/
theorem exists_arrangeAll_map {keys : List SortKey} (h : ∀ k ∈ keys, StrictOn (lt k) P)
    (hless : ∀ k ∈ keys, Answers k.before (lt k) P) {R : ι → ι → Prop} {places : List ι}
    (hplaces : ∀ i ∈ places, P (g i)) (hR : places.Pairwise R) :
    ∃ sorted : List ι, arrangeAll keys (places.map g) = .ok (sorted.map g) ∧ sorted.Perm places ∧
      sorted.Pairwise (mayPrecedeBy lt g R keys) := by
  induction keys with
  | nil => exact ⟨places, rfl, .refl _, hR⟩
  | cons k ks ih =>
      obtain ⟨hk, hks⟩ := List.forall_mem_cons.mp h
      obtain ⟨hkless, hksless⟩ := List.forall_mem_cons.mp hless
      obtain ⟨inner, hinner, hperm, hpair⟩ := ih hks hksless
      have hpinner : ∀ i ∈ inner, P (g i) := fun i hi => hplaces i (hperm.mem_iff.mp hi)
      obtain ⟨sorted, hsort, hsorted⟩ := arranges_arrange hk hkless hpinner
      refine ⟨sorted, by rw [arrangeAll, hinner]; exact hsort, hsorted.perm.trans hperm, ?_⟩
      refine List.pairwise_iff_forall_sublist.mpr fun {i j} hij => ?_
      have hirrefl : ∀ i ∈ inner, directed lt k (g i) (g i) = false := by
        intro i hi
        simpa [directed] using hk.irrefl (hpinner i hi)
      -- Of tied items, the first one stood first when the later keys had been sorted by.
      rcases hsorted.rel_of_sublist hirrefl hpinner hij with hlt | ⟨htied, hbefore⟩
      · exact .inl hlt
      · have htied' : tied (directed lt k) (g i) (g j) = true := htied
        rw [tied_directed] at htied'
        exact .inr ⟨htied', List.pairwise_iff_forall_sublist.mp hpair hbefore⟩

/-- Sorting by several keys rearranges the records so that the first key that tells two of them apart
decides. -/
theorem exists_arrangeAll {keys : List SortKey} (h : ∀ k ∈ keys, StrictOn (lt k) P)
    (hless : ∀ k ∈ keys, Answers k.before (lt k) P) {records : List Value}
    (hrecords : ∀ v ∈ records, P v) :
    ∃ sorted, arrangeAll keys records = .ok sorted ∧ sorted.Perm records ∧
      sorted.Pairwise (mayPrecede lt keys) := by
  obtain ⟨sorted, harrange, hperm, hpairwise⟩ := exists_arrangeAll_map h hless (g := id) hrecords
    (List.pairwise_of_forall fun _ _ => trivial)
  rw [List.map_id, List.map_id] at harrange
  refine ⟨sorted, harrange, hperm, hpairwise.imp fun {a b} hab => ?_⟩
  clear h hless hpairwise harrange
  induction keys with
  | nil => trivial
  | cons k keys ih => exact hab.imp_right fun ⟨htied, hrest⟩ => ⟨htied, ih hrest⟩

end PageQuery.SortKey
