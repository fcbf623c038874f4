import Mathlib
import PageQuery.Proofs.Outcome

/-!
# Sorting keeps every item

Whatever the comparisons say, and even if they contradict each other, a sort that ends gives back the
items that it was given.  No step of it does more than move items, so every function has one lemma,
which says where its items are afterwards; the lemmas follow the calls.
-/

namespace PageQuery.Ordering

variable {α ε : Type} {less : α → α → Except ε Bool}

/-! ## Runs -/

theorem append_of_growRun {descending : Bool} {last : α} {before ys run rest : List α}
    (h : growRun less descending last before ys = .ok (run, rest)) :
    run.reverse ++ rest = before.reverse ++ last :: ys := by
  induction ys generalizing last before with
  | nil =>
      simp only [growRun, Except.ok.injEq, Prod.mk.injEq] at h
      obtain ⟨rfl, rfl⟩ := h
      simp
  | cons y ys ih =>
      rw [growRun] at h
      split at h
      · cases h
      · split at h
        · simpa using ih h
        · simp only [Except.ok.injEq, Prod.mk.injEq] at h
          obtain ⟨rfl, rfl⟩ := h
          simp

theorem ne_nil_of_growRun {descending : Bool} {last : α} {before ys run rest : List α}
    (h : growRun less descending last before ys = .ok (run, rest)) : run ≠ [] := by
  induction ys generalizing last before with
  | nil =>
      obtain ⟨rfl, -⟩ := Prod.mk.inj (Except.ok.inj h)
      exact List.cons_ne_nil _ _
  | cons y ys ih =>
      rw [growRun] at h
      split at h
      · cases h
      · split at h
        · exact ih h
        · obtain ⟨rfl, -⟩ := Prod.mk.inj (Except.ok.inj h)
          exact List.cons_ne_nil _ _

theorem perm_of_firstRun {xs run rest : List α} (h : firstRun less xs = .ok (run, rest)) :
    (run ++ rest).Perm xs := by
  unfold firstRun at h
  split at h
  · split at h
    · cases h
    · split at h
      · cases h
      · rename_i grown _ hgrow
        have happend := append_of_growRun hgrow
        simp only [Except.ok.injEq, Prod.mk.injEq] at h
        obtain ⟨rfl, rfl⟩ := h
        have hgrown : (grown.reverse ++ _).Perm _ := .of_eq happend
        split
        · exact ((List.reverse_perm grown).symm.append_right _).trans hgrown
        · exact hgrown
  · simp only [Except.ok.injEq, Prod.mk.injEq] at h
    obtain ⟨rfl, rfl⟩ := h
    simp

theorem ne_nil_of_firstRun {xs run rest : List α} (hxs : xs ≠ [])
    (h : firstRun less xs = .ok (run, rest)) : run ≠ [] := by
  unfold firstRun at h
  split at h
  · split at h
    · cases h
    · split at h
      · cases h
      · rename_i hgrow
        have hgrown := ne_nil_of_growRun hgrow
        obtain ⟨rfl, -⟩ := Prod.mk.inj (Except.ok.inj h)
        split
        · exact hgrown
        · simpa using hgrown
  · obtain ⟨rfl, -⟩ := Prod.mk.inj (Except.ok.inj h)
    exact hxs

/-- An item is inserted at one place, and nothing else moves. -/
theorem exists_of_insert {x : α} {xs ys : List α} (h : insert less x xs = .ok ys) :
    ∃ front back, xs = front ++ back ∧ ys = front ++ x :: back := by
  fun_induction insert less x xs generalizing ys with
  | case1 xs hdrop =>
      obtain rfl : xs = [] := by
        have hlength := congrArg List.length hdrop
        rw [List.length_drop, List.length_nil] at hlength
        exact List.length_eq_zero_iff.mp (by omega)
      exact ⟨[], [], rfl, (Except.ok.inj h).symm⟩
  | case2 | case3 | case5 => cases h
  | case4 xs middle right hdrop left _ _ inserted hinsert =>
      rename_i ih
      obtain ⟨front, back, hleft, rfl⟩ := ih hinsert
      refine ⟨front, back ++ middle :: right, ?_, ?_⟩
      · rw [← List.append_assoc, ← hleft, ← hdrop, List.take_append_drop]
      · rw [← Except.ok.inj h, List.append_assoc, List.cons_append]
  | case6 xs middle right hdrop left _ _ inserted hinsert =>
      rename_i ih
      obtain ⟨front, back, hright, rfl⟩ := ih hinsert
      refine ⟨xs.take (xs.length / 2) ++ middle :: front, back, ?_, ?_⟩
      · rw [List.append_assoc, List.cons_append, ← hright, ← hdrop, List.take_append_drop]
      · rw [← Except.ok.inj h, List.append_assoc, List.cons_append]

theorem perm_of_insert {x : α} {xs ys : List α} (h : insert less x xs = .ok ys) :
    ys.Perm (x :: xs) := by
  obtain ⟨front, back, rfl, rfl⟩ := exists_of_insert h
  exact List.perm_middle

theorem perm_of_insertAll {sorted xs ys : List α} (h : insertAll less sorted xs = .ok ys) :
    ys.Perm (sorted ++ xs) := by
  induction xs generalizing sorted with
  | nil => simpa [insertAll] using List.Perm.of_eq (Except.ok.inj h).symm
  | cons x xs ih =>
      rw [insertAll] at h
      split at h
      · cases h
      · rename_i inserted hinsert
        calc ys.Perm (inserted ++ xs) := ih h
          _ |>.Perm (x :: sorted ++ xs) := (perm_of_insert hinsert).append_right xs
          _ |>.Perm (sorted ++ x :: xs) := List.perm_middle.symm

/-- A run holds at least one item. -/
theorem ne_nil_of_runOf {least : ℕ} {xs run rest : List α} (hxs : xs ≠ [])
    (h : runOf less least xs = .ok (run, rest)) : run ≠ [] := by
  unfold runOf at h
  split at h
  · cases h
  · rename_i first left hfirst
    dsimp only at h
    split at h
    · cases h
    · rename_i longer hlonger
      obtain ⟨rfl, -⟩ := Prod.mk.inj (Except.ok.inj h)
      have hlength := (perm_of_insertAll hlonger).length_eq
      have hpos := List.length_pos_iff.mpr (ne_nil_of_firstRun hxs hfirst)
      rw [List.length_append] at hlength
      exact List.length_pos_iff.mp (by omega)

theorem perm_of_runOf {least : ℕ} {xs run rest : List α}
    (h : runOf less least xs = .ok (run, rest)) : (run ++ rest).Perm xs := by
  unfold runOf at h
  split at h
  · cases h
  · rename_i first left hfirst
    dsimp only at h
    split at h
    · cases h
    · rename_i longer hlonger
      simp only [Except.ok.injEq, Prod.mk.injEq] at h
      obtain ⟨rfl, rfl⟩ := h
      refine ((perm_of_insertAll hlonger).append_right _).trans ?_
      rw [List.append_assoc, List.take_append_drop]
      exact perm_of_firstRun hfirst

/-! ## Merges -/

def Merging.items (m : Merging α) : List α :=
  m.out.reverse ++ m.kept ++ m.other

def Progress.items : Progress α → List α
  | .finished items _ => items
  | .going m => m.items

theorem Merging.perm_putKept (m : Merging α) (n : ℕ) : (m.putKept n).items.Perm m.items := by
  have hitems : m.items = m.out.reverse ++ m.kept.take n ++ (m.kept.drop n ++ m.other) := by
    rw [← List.append_assoc, List.append_assoc m.out.reverse, List.take_append_drop]
    rfl
  unfold putKept
  dsimp only
  split
  · rename_i hdrop
    simp [Progress.items, hitems, hdrop]
  · rename_i k hdrop
    rw [hitems, hdrop]
    simp only [Progress.items, List.reverse_append, List.reverse_reverse, List.append_assoc]
    exact (List.perm_append_comm.append_left _).append_left _
  · rw [hitems]
    simp only [Progress.items, Merging.items, List.reverse_append, List.reverse_reverse,
      List.append_assoc]
    exact .refl _

theorem Merging.perm_putOther (m : Merging α) (n : ℕ) : (m.putOther n).items.Perm m.items := by
  have hitems : m.items.Perm (m.out.reverse ++ m.other.take n ++ (m.kept ++ m.other.drop n)) := by
    calc m.items = m.out.reverse ++ (m.kept ++ m.other.take n ++ m.other.drop n) := by
          simp [Merging.items]
      _ |>.Perm (m.out.reverse ++ (m.other.take n ++ m.kept ++ m.other.drop n)) :=
          (List.perm_append_comm.append_right _).append_left _
      _ = m.out.reverse ++ m.other.take n ++ (m.kept ++ m.other.drop n) := by simp
  refine List.Perm.trans (.of_eq ?_) hitems.symm
  unfold putOther
  dsimp only
  split
  · rename_i hdrop
    simp [Progress.items, hdrop]
  · simp [Progress.items, Merging.items]

theorem Progress.perm_of_andThen {p q : Progress α} {f : Merging α → Except ε (Progress α)}
    (hf : ∀ m q, f m = .ok q → q.items.Perm m.items) (h : p.andThen f = .ok q) :
    q.items.Perm p.items := by
  cases p with
  | finished items patience => rw [← Except.ok.inj h]
  | going m => exact hf m q h

namespace Rule

variable {r : Rule α ε}

theorem perm_of_gallopKept {m : Merging α} {n : ℕ} {p : Progress α}
    (h : r.gallopKept m = .ok (n, p)) : p.items.Perm m.items := by
  unfold gallopKept at h
  split at h
  · rename_i hother
    obtain ⟨-, rfl⟩ := Prod.mk.inj (Except.ok.inj h)
    simp [Progress.items, Merging.items, hother]
  · split at h
    · cases h
    · rename_i count _
      dsimp only at h
      obtain ⟨q, hq, hp⟩ := Outcome.map_eq_ok.mp h
      obtain ⟨-, rfl⟩ := Prod.mk.inj hp
      have hlast := Progress.perm_of_andThen
        (fun m q hput => Except.ok.inj hput ▸ m.perm_putOther 1) hq
      refine hlast.trans ?_
      split
      · exact .refl _
      · exact m.perm_putKept count

theorem perm_of_gallopOther {m : Merging α} {n : ℕ} {p : Progress α}
    (h : r.gallopOther m = .ok (n, p)) : p.items.Perm m.items := by
  unfold gallopOther at h
  split at h
  · rename_i hkept
    obtain ⟨-, rfl⟩ := Prod.mk.inj (Except.ok.inj h)
    simp [Progress.items, Merging.items, hkept]
  · split at h
    · cases h
    · rename_i count _
      dsimp only at h
      obtain ⟨q, hq, hp⟩ := Outcome.map_eq_ok.mp h
      obtain ⟨-, rfl⟩ := Prod.mk.inj hp
      have hlast := Progress.perm_of_andThen
        (fun m q hput => Except.ok.inj hput ▸ m.perm_putKept 1) hq
      refine hlast.trans ?_
      split
      · exact .refl _
      · exact m.perm_putOther count

theorem perm_of_gallopBoth {m : Merging α} {n : ℕ} {p : Progress α}
    (h : r.gallopBoth m = .ok (n, p)) : p.items.Perm m.items := by
  have hfirst {m n} {p : Progress α}
      (h : (if r.fromEnd then r.gallopOther else r.gallopKept) m = .ok (n, p)) :
      p.items.Perm m.items := by
    split at h
    · exact perm_of_gallopOther h
    · exact perm_of_gallopKept h
  have hsecond {m n} {p : Progress α}
      (h : (if r.fromEnd then r.gallopKept else r.gallopOther) m = .ok (n, p)) :
      p.items.Perm m.items := by
    split at h
    · exact perm_of_gallopKept h
    · exact perm_of_gallopOther h
  unfold gallopBoth at h
  dsimp only at h
  split at h
  · cases h
  · rename_i hone
    obtain ⟨-, rfl⟩ := Prod.mk.inj (Except.ok.inj h)
    exact hfirst hone
  · rename_i hone
    split at h
    · cases h
    · rename_i htwo
      obtain ⟨-, rfl⟩ := Prod.mk.inj (Except.ok.inj h)
      exact (hsecond htwo).trans (hfirst hone)

theorem perm_of_compareHeads {keptWins otherWins : ℕ} {m : Merging α} {wins : ℕ × ℕ}
    {p : Progress α} (h : r.compareHeads keptWins otherWins m = .ok (wins, p)) :
    p.items.Perm m.items := by
  unfold compareHeads at h
  split at h
  · split at h
    · cases h
    · obtain ⟨-, rfl⟩ := Prod.mk.inj (Except.ok.inj h)
      exact m.perm_putOther 1
    · obtain ⟨-, rfl⟩ := Prod.mk.inj (Except.ok.inj h)
      exact m.perm_putKept 1
  · obtain ⟨-, rfl⟩ := Prod.mk.inj (Except.ok.inj h)
    exact .refl _

theorem perm_of_mergeFrom {fuel : ℕ} {pace : Pace} {m : Merging α} {items : List α}
    {patience : ℕ} (h : r.mergeFrom fuel pace m = .ok (items, patience)) :
    items.Perm m.items := by
  induction fuel generalizing pace m with
  | zero =>
      obtain ⟨rfl, -⟩ := Prod.mk.inj (Except.ok.inj h)
      exact .refl _
  | succ fuel ih =>
      cases pace with
      | comparing keptWins otherWins =>
          rw [mergeFrom] at h
          split at h
          · cases h
          · rename_i hheads
            obtain ⟨rfl, -⟩ := Prod.mk.inj (Except.ok.inj h)
            exact perm_of_compareHeads hheads
          · rename_i hheads
            split at h
            · exact (ih h).trans (perm_of_compareHeads hheads)
            · exact (ih h).trans (perm_of_compareHeads hheads)
      | galloping =>
          rw [mergeFrom] at h
          split at h
          · cases h
          · rename_i hboth
            obtain ⟨rfl, -⟩ := Prod.mk.inj (Except.ok.inj h)
            exact perm_of_gallopBoth hboth
          · rename_i hboth
            split at h
            · exact (ih h).trans (perm_of_gallopBoth hboth)
            · exact (ih h).trans (perm_of_gallopBoth hboth)

theorem perm_of_merge {kept other : List α} {patience patience' : ℕ} {items : List α}
    (h : r.merge kept other patience = .ok (items, patience')) :
    items.Perm (kept ++ other) := by
  have hput := Merging.perm_putOther ⟨kept, other, [], patience⟩ 1
  unfold merge at h
  split at h
  · rename_i hdone
    obtain ⟨rfl, -⟩ := Prod.mk.inj (Except.ok.inj h)
    rw [hdone] at hput
    exact hput
  · rename_i m hgoing
    rw [hgoing] at hput
    split at h
    · rename_i k hone
      obtain ⟨rfl, -⟩ := Prod.mk.inj (Except.ok.inj h)
      refine List.Perm.trans ?_ hput
      simp only [Progress.items, Merging.items, hone, List.append_assoc]
      exact List.perm_append_comm.append_left _
    · exact (perm_of_mergeFrom h).trans hput

end Rule

/-- Items that stand in their place already may be left out of a merge. -/
theorem perm_placed {xs ys items : List α} {before upto : ℕ}
    (h : items.Perm (xs.drop before ++ ys.take upto)) :
    (xs.take before ++ items ++ ys.drop upto).Perm (xs ++ ys) := by
  calc (xs.take before ++ items ++ ys.drop upto).Perm
        (xs.take before ++ (xs.drop before ++ ys.take upto) ++ ys.drop upto) :=
        (h.append_left _).append_right _
    _ = xs ++ ys := by
        rw [← List.append_assoc, List.take_append_drop, List.append_assoc, List.take_append_drop]

theorem perm_of_mergeRuns {patience patience' : ℕ} {xs ys items : List α}
    (h : mergeRuns less patience xs ys = .ok (items, patience')) : items.Perm (xs ++ ys) := by
  unfold mergeRuns at h
  split at h
  · obtain ⟨rfl, -⟩ := Prod.mk.inj (Except.ok.inj h)
    simp
  · split at h
    · cases h
    · split at h
      · obtain ⟨rfl, -⟩ := Prod.mk.inj (Except.ok.inj h)
        exact .refl _
      · split at h
        · cases h
        · dsimp only at h
          split at h
          · obtain ⟨rfl, -⟩ := Prod.mk.inj (Except.ok.inj h)
            exact .refl _
          · split at h
            · obtain ⟨merged, hmerge, hplaced⟩ := Outcome.map_eq_ok.mp h
              obtain ⟨rfl, -⟩ := Prod.mk.inj hplaced
              exact perm_placed (Rule.perm_of_merge hmerge)
            · obtain ⟨merged, hmerge, hplaced⟩ := Outcome.map_eq_ok.mp h
              obtain ⟨rfl, -⟩ := Prod.mk.inj hplaced
              apply perm_placed
              refine (List.reverse_perm _).trans ((Rule.perm_of_merge hmerge).trans ?_)
              rw [← List.reverse_append]
              exact List.reverse_perm _

/-! ## Runs that wait -/

/-- All items of the runs that wait, in the order in which they stand in the list. -/
def Waiting.items (w : Waiting α) : List α :=
  w.runs.reverse.flatMap (·.items)

theorem Waiting.items_cons (r : Run α) (rs : List (Run α)) (patience : ℕ) :
    (Waiting.mk (r :: rs) patience).items = (Waiting.mk rs patience).items ++ r.items := by
  simp [Waiting.items]

theorem perm_of_runMerge {patience patience' : ℕ} {r s merged : Run α}
    (h : r.merge less patience s = .ok (merged, patience')) :
    merged.items.Perm (r.items ++ s.items) := by
  obtain ⟨result, hmerge, hmerged⟩ := Outcome.map_eq_ok.mp h
  obtain ⟨rfl, -⟩ := Prod.mk.inj hmerged
  exact perm_of_mergeRuns hmerge

theorem perm_of_mergeDeeper {power patience : ℕ} {last : Run α} {rs : List (Run α)}
    {w : Waiting α} (h : mergeDeeper less power patience last rs = .ok w) :
    w.items.Perm (Waiting.mk (last :: rs) patience).items := by
  induction rs generalizing last patience with
  | nil => rw [← Except.ok.inj h]
  | cons r rs ih =>
      rw [mergeDeeper] at h
      split at h
      · split at h
        · cases h
        · rename_i merged patience' hmerge
          refine (ih h).trans ?_
          rw [Waiting.items_cons, Waiting.items_cons, Waiting.items_cons, List.append_assoc]
          exact (perm_of_runMerge hmerge).append_left _
      · rw [← Except.ok.inj h]

theorem perm_of_push {n : ℕ} {w w' : Waiting α} {run : Run α}
    (h : w.push less n run = .ok w') : w'.items.Perm (w.items ++ run.items) := by
  obtain ⟨runs, patience⟩ := w
  unfold Waiting.push at h
  split at h
  · rename_i hnone
    obtain rfl : runs = [] := hnone
    rw [← Except.ok.inj h]
    simp [Waiting.items]
  · rename_i last before hruns
    obtain rfl : runs = last :: before := hruns
    dsimp only at h
    split at h
    · cases h
    · rename_i hdeeper
      rw [← Except.ok.inj h, Waiting.items_cons]
      exact (perm_of_mergeDeeper hdeeper).append_right _
    · rename_i hdeeper
      have hitems := perm_of_mergeDeeper hdeeper
      rw [Waiting.items_cons] at hitems
      rw [← Except.ok.inj h, Waiting.items_cons, Waiting.items_cons]
      exact hitems.append_right _

theorem perm_of_collect {n least fuel : ℕ} {w w' : Waiting α} {xs : List α}
    (hfuel : xs.length ≤ fuel) (h : collect less n least fuel w xs = .ok w') :
    w'.items.Perm (w.items ++ xs) := by
  induction fuel generalizing w xs with
  | zero =>
      obtain rfl : xs = [] := List.length_eq_zero_iff.mp (by omega)
      rw [← Except.ok.inj h, List.append_nil]
  | succ fuel ih =>
      cases xs with
      | nil => rw [← Except.ok.inj h, List.append_nil]
      | cons x xs =>
          rw [collect] at h
          split at h
          · cases h
          · rename_i items rest hrun
            have hitems := perm_of_runOf hrun
            split at h
            · cases h
            · rename_i pushed hpush
              have hrest : rest.length ≤ fuel := by
                have hlength := hitems.length_eq
                have hpos := List.length_pos_iff.mpr (ne_nil_of_runOf (List.cons_ne_nil _ _) hrun)
                rw [List.length_append] at hlength
                omega
              calc w'.items.Perm (pushed.items ++ rest) := ih hrest h
                _ |>.Perm (w.items ++ items ++ rest) := (perm_of_push hpush).append_right _
                _ = w.items ++ (items ++ rest) := List.append_assoc ..
                _ |>.Perm (w.items ++ x :: xs) := hitems.append_left _

theorem perm_of_mergeAll {fuel : ℕ} {w : Waiting α} {xs : List α}
    (h : mergeAll less fuel w = .ok xs) : xs.Perm w.items := by
  fun_induction mergeAll less fuel w with
  | case1 fuel t s r rs patience hshort e hmerge => cases h
  | case2 fuel t s r rs patience hshort merged patience' hmerge ih =>
      refine (ih h).trans ?_
      simp only [Waiting.items_cons, List.append_assoc]
      rw [← List.append_assoc r.items]
      exact ((perm_of_runMerge hmerge).append_right _).append_left _
  | case3 fuel t s r rs patience hshort e hmerge => cases h
  | case4 fuel t s r rs patience hshort merged patience' hmerge ih =>
      refine (ih h).trans ?_
      simp only [Waiting.items_cons, List.append_assoc]
      exact ((perm_of_runMerge hmerge).append_left _).append_left _
  | case5 fuel t s patience =>
      obtain ⟨⟨merged, patience'⟩, hmerge, rfl⟩ := Outcome.map_eq_ok.mp h
      simpa [Waiting.items] using perm_of_runMerge hmerge
  | case6 => rw [← Except.ok.inj h]; rfl

/-- A sort that ends gives back the items that it was given. -/
theorem perm_of_sort {xs ys : List α} (h : sort less xs = .ok ys) : ys.Perm xs := by
  unfold sort at h
  split at h
  · cases h
  · rename_i w hcollect
    exact (perm_of_mergeAll h).trans (perm_of_collect le_rfl hcollect)

theorem perm_of_sortDescending {xs ys : List α} (h : sortDescending less xs = .ok ys) :
    ys.Perm xs := by
  unfold sortDescending at h
  split at h
  · cases h
  · rename_i sorted hsort
    rw [← Except.ok.inj h]
    exact (List.reverse_perm _).trans ((perm_of_sort hsort).trans (List.reverse_perm _))

end PageQuery.Ordering

namespace PageQuery.SortKey

theorem perm_of_arrange {key : SortKey} {records sorted : List Value}
    (h : key.arrange records = .ok sorted) : sorted.Perm records := by
  unfold arrange at h
  split at h
  · exact Ordering.perm_of_sortDescending h
  · exact Ordering.perm_of_sort h

/-- Sorting by several keys keeps every record. -/
theorem perm_of_arrangeAll {keys : List SortKey} {records sorted : List Value}
    (h : arrangeAll keys records = .ok sorted) : sorted.Perm records := by
  induction keys generalizing sorted with
  | nil => rw [← Except.ok.inj h]
  | cons key keys ih =>
      rw [arrangeAll] at h
      split at h
      · cases h
      · rename_i arranged harranged
        exact (perm_of_arrange h).trans (ih harranged)

end PageQuery.SortKey
