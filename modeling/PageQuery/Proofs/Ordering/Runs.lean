import Mathlib
import PageQuery.Proofs.Ordering.StrictOrder

/-!
# Runs are arranged

A run that is found at the head of a list arranges the items that it takes up.  A descending one has
no ties, so turning it round moves none; inserting an item puts it behind all items that it is not
below, and so behind its ties.
-/

namespace PageQuery.Ordering

variable {α ε : Type} {less : α → α → Except ε Bool} {lt : α → α → Bool} {P : α → Prop}

/-- What a run has grown to is in order throughout, seen from its last item: each item is below all
items before it, or none is. -/
theorem pairwise_growRun (h : StrictOn lt P) (hless : Answers less lt P) {descending : Bool}
    {last : α} {before ys : List α} (hlast : P last) (hbefore : ∀ x ∈ before, P x)
    (hys : ∀ y ∈ ys, P y)
    (hpair : (last :: before).Pairwise fun a b => lt a b = descending) :
    ∃ run rest, growRun less descending last before ys = .ok (run, rest) ∧
      run.Pairwise fun a b => lt a b = descending := by
  induction ys generalizing last before with
  | nil => exact ⟨_, _, rfl, hpair⟩
  | cons y ys ih =>
      have hy : P y := hys y List.mem_cons_self
      rw [growRun, hless hy hlast]
      by_cases hbelow : lt y last = descending
      · simp only [hbelow, if_true]
        apply ih hy (List.forall_mem_cons.mpr ⟨hlast, hbefore⟩)
          fun z hz => hys z (List.mem_cons_of_mem _ hz)
        refine List.pairwise_cons.mpr ⟨fun z hz => ?_, hpair⟩
        rcases List.mem_cons.mp hz with rfl | hmem
        · exact hbelow
        · have hnext := List.rel_of_pairwise_cons hpair hmem
          cases descending with
          | true => exact h.trans hy hlast (hbefore z hmem) hbelow hnext
          | false => exact h.not_trans hy hlast (hbefore z hmem) hbelow hnext
      · simp only [hbelow, if_false]
        exact ⟨_, _, rfl, hpair⟩

theorem arranges_firstRun (h : StrictOn lt P) (hless : Answers less lt P) {xs : List α}
    (hxs : ∀ x ∈ xs, P x) :
    ∃ taken run rest, firstRun less xs = .ok (run, rest) ∧ xs = taken ++ rest ∧
      Arranges lt P taken run := by
  match xs with
  | [] => exact ⟨[], [], [], rfl, rfl, .refl_of_sorted List.Pairwise.nil⟩
  | [x] => exact ⟨[x], [x], [], rfl, rfl, .refl_of_sorted (List.pairwise_singleton _ _)⟩
  | x :: y :: ys =>
      have hx : P x := hxs x List.mem_cons_self
      have hy : P y := hxs y (List.mem_cons_of_mem _ List.mem_cons_self)
      have hpys : ∀ z ∈ ys, P z :=
        fun z hz => hxs z (List.mem_cons_of_mem _ (List.mem_cons_of_mem _ hz))
      have hpair : [y, x].Pairwise fun a b => lt a b = lt y x := List.pairwise_pair.mpr rfl
      obtain ⟨run, rest, hgrow, hpair⟩ :=
        pairwise_growRun h hless hy (List.forall_mem_singleton.mpr hx) hpys hpair
      have happend : x :: y :: ys = run.reverse ++ rest := (append_of_growRun hgrow).symm
      have hrun : ∀ z ∈ run, P z := by
        intro z hz
        apply hxs
        rw [happend]
        exact List.mem_append_left _ (List.mem_reverse.mpr hz)
      refine ⟨run.reverse, if lt y x then run else run.reverse, rest, ?_, happend, ?_⟩
      · simp only [firstRun, hless hy hx, hgrow]
      · cases hdescending : lt y x with
        | true =>
            rw [hdescending] at hpair
            refine ⟨(List.reverse_perm run).symm, hpair.imp_of_mem ?_, fun v hv => ?_⟩
            · intro a b ha hb hab
              exact h.asymm (hrun a ha) (hrun b hb) hab
            · exact (filter_tied_reverse h hv hrun hpair).symm
        | false =>
            rw [hdescending] at hpair
            exact .refl_of_sorted (sorted_reverse.mpr hpair)

/-! ## Inserting -/

/-- An item is inserted behind all items that it is not below. -/
theorem exists_insert (h : StrictOn lt P) (hless : Answers less lt P) {x : α} {xs : List α}
    (hx : P x) (hxs : ∀ y ∈ xs, P y) (hsorted : Sorted lt xs) :
    ∃ front back, insert less x xs = .ok (front ++ x :: back) ∧ xs = front ++ back ∧
      (∀ y ∈ front, lt x y = false) ∧ ∀ y ∈ back, lt x y = true := by
  induction hn : xs.length using Nat.strong_induction_on generalizing xs with
  | _ n ih =>
      have hparts := List.take_append_drop (xs.length / 2) xs
      rw [insert]
      split
      · rename_i hnone
        obtain rfl : xs = [] := by
          have hlength := congrArg List.length hnone
          rw [List.length_drop, List.length_nil] at hlength
          exact List.length_eq_zero_iff.mp (by omega)
        exact ⟨[], [], rfl, rfl, by simp, by simp⟩
      · rename_i middle right hdrop
        obtain ⟨left, hleft⟩ : ∃ left, xs.take (xs.length / 2) = left := ⟨_, rfl⟩
        rw [hdrop, hleft] at hparts
        have hmiddle : P middle := hxs middle (by simp [← hparts])
        have hpleft : ∀ y ∈ left, P y := fun y hy => hxs y (by simp [← hparts, hy])
        have hpright : ∀ y ∈ right, P y := fun y hy => hxs y (by simp [← hparts, hy])
        have hsplit := List.pairwise_append.mp (hparts ▸ hsorted)
        have hlength : xs.length = left.length + (right.length + 1) := by
          rw [← hparts, List.length_append, List.length_cons]
        cases hlt : lt x middle with
        | true =>
            obtain ⟨front, back, hinsert, hback, hnot, hbelow⟩ :=
              ih left.length (by omega) hpleft hsplit.1 rfl
            refine ⟨front, back ++ middle :: right, ?_, ?_, hnot, ?_⟩
            · simp [hless hx hmiddle, hlt, hleft, hinsert]
            · rw [← hparts, ← List.append_assoc, ← hback]
            · intro y hy
              rcases List.mem_append.mp hy with hy | hy
              · exact hbelow y hy
              · rcases List.mem_cons.mp hy with rfl | hmem
                · exact hlt
                · exact h.trans_not hx hmiddle (hpright y hmem) hlt
                    (List.rel_of_pairwise_cons hsplit.2.1 hmem)
        | false =>
            obtain ⟨front, back, hinsert, hback, hnot, hbelow⟩ :=
              ih right.length (by omega) hpright hsplit.2.1.tail rfl
            refine ⟨left ++ middle :: front, back, ?_, ?_, ?_, hbelow⟩
            · simp [hless hx hmiddle, hlt, hleft, hinsert]
            · rw [← hparts, List.append_assoc, List.cons_append, ← hback]
            · intro y hy
              rcases List.mem_append.mp hy with hy | hy
              · exact h.not_trans hx hmiddle (hpleft y hy) hlt
                  (hsplit.2.2 y hy middle List.mem_cons_self)
              · rcases List.mem_cons.mp hy with rfl | hmem
                · exact hlt
                · exact hnot y hmem

theorem arranges_insert (h : StrictOn lt P) (hless : Answers less lt P) {x : α} {xs : List α}
    (hx : P x) (hxs : ∀ y ∈ xs, P y) (hsorted : Sorted lt xs) :
    ∃ ys, insert less x xs = .ok ys ∧ Arranges lt P (xs ++ [x]) ys := by
  obtain ⟨front, back, hinsert, rfl, hnot, hbelow⟩ := exists_insert h hless hx hxs hsorted
  have hparts := List.pairwise_append.mp hsorted
  have hback : ∀ y ∈ back, P y := fun y hy => hxs y (List.mem_append_right _ hy)
  refine ⟨_, hinsert, ?_, ?_, fun v hv => ?_⟩
  · exact List.perm_middle.trans (List.perm_append_singleton x _).symm
  · refine List.pairwise_append.mpr ⟨hparts.1, List.pairwise_cons.mpr ⟨?_, hparts.2.1⟩, ?_⟩
    · exact fun y hy => h.asymm hx (hback y hy) (hbelow y hy)
    · intro y hy z hz
      rcases List.mem_cons.mp hz with rfl | hmem
      · exact hnot y hy
      · exact hparts.2.2 y hy z hmem
  · rw [List.filter_append, filter_tied_cons h hv hx hback hbelow, ← List.filter_append,
      List.append_assoc]

theorem arranges_insertAll (h : StrictOn lt P) (hless : Answers less lt P) {sorted xs : List α}
    (hps : ∀ y ∈ sorted, P y) (hxs : ∀ x ∈ xs, P x) (hsorted : Sorted lt sorted) :
    ∃ ys, insertAll less sorted xs = .ok ys ∧ Arranges lt P (sorted ++ xs) ys := by
  induction xs generalizing sorted with
  | nil => exact ⟨sorted, rfl, by simpa using Arranges.refl_of_sorted hsorted⟩
  | cons x xs ih =>
      obtain ⟨hx, hrest⟩ := List.forall_mem_cons.mp hxs
      obtain ⟨inserted, hinsert, hone⟩ := arranges_insert h hless hx hps hsorted
      have hpi : ∀ y ∈ inserted, P y := hone.mem (by simpa [or_imp, forall_and] using ⟨hps, hx⟩)
      obtain ⟨ys, hall, hys⟩ := ih hpi hrest hone.sorted
      refine ⟨ys, ?_, ?_⟩
      · simp only [insertAll, hinsert, hall]
      · have hkeeps := hone.keeps.append (Keeps.refl xs)
        rw [List.append_assoc] at hkeeps
        exact hys.of_keeps hkeeps

/-- A run arranges the items that it takes from the head of a list. -/
theorem arranges_runOf (h : StrictOn lt P) (hless : Answers less lt P) (least : ℕ) {xs : List α}
    (hxs : ∀ x ∈ xs, P x) :
    ∃ taken run rest, runOf less least xs = .ok (run, rest) ∧ xs = taken ++ rest ∧
      Arranges lt P taken run := by
  obtain ⟨taken, run, rest, hfirst, rfl, hrun⟩ := arranges_firstRun h hless hxs
  have hprest : ∀ x ∈ rest, P x := fun x hx => hxs x (List.mem_append_right _ hx)
  have hprun := hrun.mem fun x hx => hxs x (List.mem_append_left _ hx)
  have hpwanted : ∀ x ∈ rest.take (least - run.length), P x :=
    fun x hx => hprest x (List.mem_of_mem_take hx)
  obtain ⟨longer, hinsert, hlonger⟩ :=
    arranges_insertAll h hless hprun hpwanted hrun.sorted
  refine ⟨taken ++ rest.take (least - run.length), longer, rest.drop (least - run.length),
    ?_, ?_, ?_⟩
  · simp only [runOf, hfirst, hinsert]
  · rw [List.append_assoc, List.take_append_drop]
  · exact hlonger.of_keeps (hrun.keeps.append (.refl _))

end PageQuery.Ordering
