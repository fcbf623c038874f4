import Mathlib
import PageQuery.Ordering.Stable
import PageQuery.Proofs.Outcome

/-!
# Sorting sees no more than the comparisons

Sorting moves items about and looks at them through comparisons only.  So it does the same to two lists
whose items compare alike: the items of both come out from the same places, or the same comparison fails.
Here the items of a list stand for others, such as places for the items that are there, and every step of
the sort is seen to do to what stands for an item what it does to the item.
-/

namespace PageQuery.Ordering

variable {α β ε : Type} (g : α → β)

/-! ## Galloping -/

section Gallop

variable (test : β → Except ε Bool) (fromEnd : Bool)

theorem halve_map (xs : List α) (start count : ℕ) :
    halve test fromEnd (xs.map g) start count =
      halve (fun a => test (g a)) fromEnd xs start count := by
  fun_induction halve (fun a => test (g a)) fromEnd xs start count with
  | case1 start count h hlt hnone =>
      rw [halve, dif_pos h]
      simp [hnone]
  | case2 start count h hlt x hx e he =>
      rw [halve, dif_pos h]
      simp [hx, he]
  | case3 start count h hlt x hx htrue ih =>
      rw [halve, dif_pos h]
      simp [hx, htrue, ih]
  | case4 start count h hlt x hx hfalse ih =>
      rw [halve, dif_pos h]
      simp [hx, hfalse, ih]
  | case5 start count h => rw [halve, dif_neg h]

theorem leap_map (xs : List α) (last place : ℕ) :
    leap test fromEnd (xs.map g) last place = leap (fun a => test (g a)) fromEnd xs last place := by
  fun_induction leap (fun a => test (g a)) fromEnd xs last place with
  | case1 last place h e he =>
      rw [leap, dif_pos (by simpa using h)]
      simp [he]
  | case2 last place h htrue ih =>
      rw [leap, dif_pos (by simpa using h)]
      simp [htrue, ih]
  | case3 last place h hfalse =>
      rw [leap, dif_pos (by simpa using h)]
      simp [hfalse, halve_map]
  | case4 last place h => rw [leap, dif_neg (by simpa using h), halve_map, List.length_map]

theorem gallop_map (xs : List α) :
    gallop test fromEnd (xs.map g) = gallop (fun a => test (g a)) fromEnd xs := by
  cases xs with
  | nil => rfl
  | cons x xs => rw [List.map_cons, gallop, gallop, ← List.map_cons, leap_map]

end Gallop

/-! ## Runs -/

section Runs

variable (less : β → β → Except ε Bool)

theorem growRun_map (descending : Bool) (last : α) (before ys : List α) :
    growRun less descending (g last) (before.map g) (ys.map g) =
      (growRun (fun a b => less (g a) (g b)) descending last before ys).map
        (Prod.map (List.map g) (List.map g)) := by
  induction ys generalizing last before with
  | nil => rfl
  | cons y ys ih =>
      rw [List.map_cons, growRun, growRun]
      cases less (g y) (g last) with
      | error e => rfl
      | ok below =>
          dsimp only
          split
          · rw [← List.map_cons, ih]
          · rfl

theorem firstRun_map (xs : List α) :
    firstRun less (xs.map g) =
      (firstRun (fun a b => less (g a) (g b)) xs).map (Prod.map (List.map g) (List.map g)) := by
  match xs with
  | [] => rfl
  | [x] => rfl
  | x :: y :: rest =>
      rw [List.map_cons, List.map_cons, firstRun, firstRun]
      cases less (g y) (g x) with
      | error e => rfl
      | ok descending =>
          have hgrow := growRun_map g less descending y [x] rest
          rw [List.map_cons, List.map_nil] at hgrow
          dsimp only
          rw [hgrow]
          cases growRun (fun a b => less (g a) (g b)) descending y [x] rest with
          | error e => rfl
          | ok found =>
              obtain ⟨run, rest⟩ := found
              cases descending <;> simp [Except.map]

omit g in
/-- An item that finds nothing behind the middle stands alone. -/
theorem insert_of_drop_eq_nil (less : α → α → Except ε Bool) (x : α) {xs : List α}
    (h : xs.drop (xs.length / 2) = []) : insert less x xs = .ok [x] := by
  rw [insert]
  split
  · rfl
  · simp_all

omit g in
/-- An item goes before the middle or behind it. -/
theorem insert_of_drop_eq_cons (less : α → α → Except ε Bool) (x : α) {xs : List α} {m : α}
    {right : List α} (h : xs.drop (xs.length / 2) = m :: right) :
    insert less x xs =
      match less x m with
      | .error e => .error e
      | .ok true => (insert less x (xs.take (xs.length / 2))).map (· ++ m :: right)
      | .ok false => (insert less x right).map (xs.take (xs.length / 2) ++ m :: ·) := by
  rw [insert]
  split
  · simp_all
  · next m' right' hxs =>
      obtain ⟨rfl, rfl⟩ := List.cons_eq_cons.1 (hxs.symm.trans h)
      rcases less x m' with e | _ | _
      · rfl
      · cases insert less x right' <;> simp [Except.map]
      · cases hleft : insert less x (xs.take (xs.length / 2)) <;> simp [hleft, Except.map]

theorem insert_map (x : α) (xs : List α) :
    insert less (g x) (xs.map g) = (insert (fun a b => less (g a) (g b)) x xs).map (List.map g) := by
  induction hn : xs.length using Nat.strong_induction_on generalizing xs with
  | h n ih =>
      subst hn
      have hdrop : (xs.map g).drop ((xs.map g).length / 2) = (xs.drop (xs.length / 2)).map g := by
        rw [List.length_map, List.map_drop]
      have htake : (xs.map g).take ((xs.map g).length / 2) = (xs.take (xs.length / 2)).map g := by
        rw [List.length_map, List.map_take]
      cases hxs : xs.drop (xs.length / 2) with
      | nil =>
          rw [hxs, List.map_nil] at hdrop
          rw [insert_of_drop_eq_nil _ _ hxs, insert_of_drop_eq_nil _ _ hdrop]
          rfl
      | cons m right =>
          rw [hxs, List.map_cons] at hdrop
          rw [insert_of_drop_eq_cons _ _ hxs, insert_of_drop_eq_cons _ _ hdrop, htake,
            ih _ (length_behind_middle hxs) right rfl, ih _ (length_before_middle hxs) _ rfl]
          split
          · rfl
          · cases insert (fun a b => less (g a) (g b)) x (xs.take (xs.length / 2)) <;>
              simp [Except.map]
          · cases insert (fun a b => less (g a) (g b)) x right <;> simp [Except.map]

theorem insertAll_map (sorted xs : List α) :
    insertAll less (sorted.map g) (xs.map g) =
      (insertAll (fun a b => less (g a) (g b)) sorted xs).map (List.map g) := by
  induction xs generalizing sorted with
  | nil => rfl
  | cons x xs ih =>
      rw [List.map_cons, insertAll, insertAll, insert_map]
      cases insert (fun a b => less (g a) (g b)) x sorted with
      | error e => rfl
      | ok sorted => exact ih sorted

theorem runOf_map (least : ℕ) (xs : List α) :
    runOf less least (xs.map g) =
      (runOf (fun a b => less (g a) (g b)) least xs).map (Prod.map (List.map g) (List.map g)) := by
  rw [runOf, runOf, firstRun_map]
  cases firstRun (fun a b => less (g a) (g b)) xs with
  | error e => rfl
  | ok found =>
      obtain ⟨run, rest⟩ := found
      simp only [Except.map, Prod.map, List.length_map]
      rw [← List.map_take, insertAll_map]
      cases insertAll (fun a b => less (g a) (g b)) run (rest.take (least - run.length)) with
      | error e => rfl
      | ok run => simp [Except.map]

end Runs

/-! ## Merging -/

/-- The merge of what the items of a merge stand for. -/
def Merging.map (m : Merging α) : Merging β :=
  ⟨m.kept.map g, m.other.map g, m.out.map g, m.patience⟩

/-- The progress of the merge of what the items of a merge stand for. -/
def Progress.map : Progress α → Progress β
  | .finished items patience => .finished (items.map g) patience
  | .going m => .going (m.map g)

/-- The rule that compares items by what they stand for. -/
def Rule.comap (r : Rule β ε) : Rule α ε :=
  ⟨fun a b => r.otherFirst (g a) (g b), r.fromEnd⟩

namespace Merging

theorem putKept_map (m : Merging α) (n : ℕ) : (m.map g).putKept n = (m.putKept n).map g := by
  unfold putKept
  simp only [Merging.map, ← List.map_drop, ← List.map_take]
  rcases m.kept.drop n with _ | ⟨k, _ | ⟨k', rest⟩⟩ <;> simp [Progress.map, Merging.map]

theorem putOther_map (m : Merging α) (n : ℕ) : (m.map g).putOther n = (m.putOther n).map g := by
  unfold putOther
  simp only [Merging.map, ← List.map_drop, ← List.map_take]
  rcases m.other.drop n with _ | ⟨o, rest⟩ <;> simp [Progress.map, Merging.map]

end Merging

theorem Progress.andThen_map {f : Merging β → Except ε (Progress β)}
    {f' : Merging α → Except ε (Progress α)}
    (hf : ∀ m, f (m.map g) = (f' m).map (Progress.map g)) (p : Progress α) :
    (p.map g).andThen f = (p.andThen f').map (Progress.map g) := by
  cases p with
  | finished items patience => rfl
  | going m => exact hf m

/-- A step that tells a number besides is done to what the items stand for. -/
theorem Progress.tell_map {f : Merging β → Except ε (Progress β)}
    {f' : Merging α → Except ε (Progress α)}
    (hf : ∀ m, f (m.map g) = (f' m).map (Progress.map g)) (p : Progress α) (n : ℕ) :
    ((p.map g).andThen f).map (fun p => (n, p)) =
      ((p.andThen f').map fun p => (n, p)).map (Prod.map id (Progress.map g)) := by
  rw [Progress.andThen_map g hf]
  cases p.andThen f' <;> rfl

namespace Rule

variable (r : Rule β ε)

theorem gallopKept_map (m : Merging α) :
    r.gallopKept (m.map g) = ((r.comap g).gallopKept m).map (Prod.map id (Progress.map g)) := by
  cases hother : m.other with
  | nil => simp [gallopKept, Merging.map, hother, Except.map, Progress.map]
  | cons o other =>
      have hmapped : (m.map g).other = g o :: other.map g := by simp [Merging.map, hother]
      simp only [gallopKept, hother, hmapped]
      have hkept : (m.map g).kept = m.kept.map g := rfl
      rw [hkept, gallop_map]
      dsimp only [comap]
      cases gallop (fun k => (r.otherFirst (g k) (g o)).map (!·)) r.fromEnd m.kept with
      | error e => rfl
      | ok n =>
          have hbefore : (if n = 0 then Progress.going (m.map g) else (m.map g).putKept n) =
              (if n = 0 then Progress.going m else m.putKept n).map g := by
            split
            · rfl
            · exact m.putKept_map g n
          dsimp only
          rw [hbefore]
          exact Progress.tell_map g (fun m => by rw [m.putOther_map g]; rfl) _ n

theorem gallopOther_map (m : Merging α) :
    r.gallopOther (m.map g) = ((r.comap g).gallopOther m).map (Prod.map id (Progress.map g)) := by
  cases hkept : m.kept with
  | nil => simp [gallopOther, Merging.map, hkept, Except.map, Progress.map]
  | cons k kept =>
      have hmapped : (m.map g).kept = g k :: kept.map g := by simp [Merging.map, hkept]
      simp only [gallopOther, hkept, hmapped]
      have hother : (m.map g).other = m.other.map g := rfl
      rw [hother, gallop_map]
      dsimp only [comap]
      cases gallop (fun o => r.otherFirst (g k) (g o)) r.fromEnd m.other with
      | error e => rfl
      | ok n =>
          have hbefore : (if n = 0 then Progress.going (m.map g) else (m.map g).putOther n) =
              (if n = 0 then Progress.going m else m.putOther n).map g := by
            split
            · rfl
            · exact m.putOther_map g n
          dsimp only
          rw [hbefore]
          exact Progress.tell_map g (fun m => by rw [m.putKept_map g]; rfl) _ n

theorem gallopBoth_map (m : Merging α) :
    r.gallopBoth (m.map g) = ((r.comap g).gallopBoth m).map (Prod.map id (Progress.map g)) := by
  obtain ⟨first, hfirst⟩ : ∃ b, r.fromEnd = b := ⟨_, rfl⟩
  have hcomap : (r.comap g).fromEnd = r.fromEnd := rfl
  unfold gallopBoth
  rw [hcomap, hfirst]
  cases first
  · simp only [Bool.false_eq_true, if_false, gallopKept_map]
    rcases (r.comap g).gallopKept m with e | ⟨n, items | m⟩
    · rfl
    · rfl
    · simp only [Except.map, Prod.map, Progress.map, gallopOther_map]
      rcases (r.comap g).gallopOther m with e | ⟨k, p⟩ <;> rfl
  · simp only [if_true, gallopOther_map]
    rcases (r.comap g).gallopOther m with e | ⟨n, items | m⟩
    · rfl
    · rfl
    · simp only [Except.map, Prod.map, Progress.map, gallopKept_map]
      rcases (r.comap g).gallopKept m with e | ⟨k, p⟩ <;> rfl

theorem compareHeads_map (keptWins otherWins : ℕ) (m : Merging α) :
    r.compareHeads keptWins otherWins (m.map g) =
      ((r.comap g).compareHeads keptWins otherWins m).map (Prod.map id (Progress.map g)) := by
  cases hkept : m.kept with
  | nil => simp [compareHeads, Merging.map, hkept, Except.map, Progress.map]
  | cons k kept =>
      cases hother : m.other with
      | nil => simp [compareHeads, Merging.map, hkept, hother, Except.map, Progress.map]
      | cons o other =>
          have hk : (m.map g).kept = g k :: kept.map g := by simp [Merging.map, hkept]
          have ho : (m.map g).other = g o :: other.map g := by simp [Merging.map, hother]
          simp only [compareHeads, hkept, hother, hk, ho, comap]
          rcases r.otherFirst (g k) (g o) with e | _ | _
          · rfl
          · simp [Except.map, m.putKept_map g]
          · simp [Except.map, m.putOther_map g]

theorem mergeFrom_map (fuel : ℕ) (pace : Pace) (m : Merging α) :
    r.mergeFrom fuel pace (m.map g) =
      ((r.comap g).mergeFrom fuel pace m).map (Prod.map (List.map g) id) := by
  induction fuel generalizing pace m with
  | zero => simp [mergeFrom, Merging.map, Except.map]
  | succ fuel ih =>
      cases pace with
      | comparing keptWins otherWins =>
          rw [mergeFrom, mergeFrom, compareHeads_map]
          rcases (r.comap g).compareHeads keptWins otherWins m with e | ⟨⟨k, o⟩, items | m⟩
          · rfl
          · rfl
          · change (if m.patience ≤ max k o then
                r.mergeFrom fuel .galloping (Merging.map g { m with patience := m.patience + 1 })
              else r.mergeFrom fuel (.comparing k o) (m.map g)) =
                Except.map (Prod.map (List.map g) id) (if m.patience ≤ max k o then _ else _)
            split
            · exact ih _ _
            · exact ih _ _
      | galloping =>
          have hless : ({ m.map g with patience := max 1 ((m.map g).patience - 1) } : Merging β) =
              Merging.map g { m with patience := max 1 (m.patience - 1) } := rfl
          rw [mergeFrom, mergeFrom, hless, gallopBoth_map]
          rcases (r.comap g).gallopBoth { m with patience := max 1 (m.patience - 1) } with
            e | ⟨n, items | m⟩
          · rfl
          · rfl
          · change (if worthwhile ≤ n then r.mergeFrom fuel .galloping (m.map g)
              else r.mergeFrom fuel (.comparing 0 0)
                (Merging.map g { m with patience := m.patience + 1 })) =
                Except.map (Prod.map (List.map g) id) (if worthwhile ≤ n then _ else _)
            split
            · exact ih _ _
            · exact ih _ _

theorem merge_map (kept other : List α) (patience : ℕ) :
    r.merge (kept.map g) (other.map g) patience =
      ((r.comap g).merge kept other patience).map (Prod.map (List.map g) id) := by
  unfold merge
  have hput := Merging.putOther_map g ⟨kept, other, [], patience⟩ 1
  rw [Merging.map, List.map_nil] at hput
  rw [hput]
  rcases Merging.putOther ⟨kept, other, [], patience⟩ 1 with items | m
  · rfl
  · simp only [Progress.map, List.length_map]
    have hkept : (m.map g).kept = m.kept.map g := rfl
    rw [hkept]
    rcases m.kept with _ | ⟨k, _ | ⟨k', rest⟩⟩
    · exact mergeFrom_map g r _ _ m
    · simp [Merging.map, Except.map]
    · exact mergeFrom_map g r _ _ m

end Rule

section Sorting

variable (less : β → β → Except ε Bool)

theorem mergeRuns_map (patience : ℕ) (xs ys : List α) :
    mergeRuns less patience (xs.map g) (ys.map g) =
      (mergeRuns (fun a b => less (g a) (g b)) patience xs ys).map (Prod.map (List.map g) id) := by
  cases ys with
  | nil => rfl
  | cons y ys =>
      rw [List.map_cons, mergeRuns, mergeRuns, gallop_map]
      cases gallop (fun x => (less (g y) (g x)).map (!·)) false xs with
      | error e => rfl
      | ok before =>
          dsimp only
          rw [← List.map_drop, List.getLast?_map]
          cases (xs.drop before).getLast? with
          | none => simp [Except.map]
          | some last =>
              dsimp only [Option.map]
              rw [← List.map_cons, ← List.map_reverse, gallop_map]
              cases gallop (fun y => (less (g y) (g last)).map (!·)) true (y :: ys).reverse with
              | error e => rfl
              | ok behind =>
                  dsimp only
                  simp only [← List.map_drop, ← List.map_take, List.isEmpty_map, List.length_map]
                  split
                  · simp [Except.map]
                  · split
                    · rw [Rule.merge_map]
                      dsimp only [Rule.comap]
                      rcases Rule.merge _ _ _ patience with e | ⟨items, patience⟩
                      · rfl
                      · simp [Except.map]
                    · rw [← List.map_reverse, ← List.map_reverse, Rule.merge_map]
                      dsimp only [Rule.comap]
                      rcases Rule.merge _ _ _ patience with e | ⟨items, patience⟩
                      · rfl
                      · simp [Except.map]

def Run.map (r : Run α) : Run β :=
  ⟨r.items.map g, r.start, r.power⟩

/-- What waits to be merged, of what the items stand for. -/
def Waiting.map (w : Waiting α) : Waiting β :=
  ⟨w.runs.map (Run.map g), w.patience⟩

theorem Run.merge_map (patience : ℕ) (r s : Run α) :
    (r.map g).merge less patience (s.map g) =
      (r.merge (fun a b => less (g a) (g b)) patience s).map (Prod.map (Run.map g) id) := by
  unfold Run.merge
  dsimp only [Run.map]
  rw [mergeRuns_map]
  rcases mergeRuns (fun a b => less (g a) (g b)) patience r.items s.items with e | ⟨items, patience⟩
  · rfl
  · rfl

theorem mergeDeeper_map (power patience : ℕ) (last : Run α) (runs : List (Run α)) :
    mergeDeeper less power patience (last.map g) (runs.map (Run.map g)) =
      (mergeDeeper (fun a b => less (g a) (g b)) power patience last runs).map (Waiting.map g) := by
  induction runs generalizing patience last with
  | nil => rfl
  | cons r runs ih =>
      rw [List.map_cons, mergeDeeper, mergeDeeper, Run.merge_map]
      have hpower : (r.map g).power = r.power := rfl
      rw [hpower]
      split
      · rcases r.merge (fun a b => less (g a) (g b)) patience last with e | ⟨merged, patience⟩
        · rfl
        · exact ih patience merged
      · rfl

theorem Waiting.push_map (n : ℕ) (w : Waiting α) (run : Run α) :
    (w.map g).push less n (run.map g) =
      (w.push (fun a b => less (g a) (g b)) n run).map (Waiting.map g) := by
  obtain ⟨_ | ⟨last, before⟩, patience⟩ := w
  · rfl
  · have hpower : (last.map g).powerBefore (run.map g).items.length n =
        last.powerBefore run.items.length n := by
      simp [Run.powerBefore, Run.map]
    simp only [Waiting.map, List.map_cons, Waiting.push, hpower, mergeDeeper_map]
    rcases mergeDeeper (fun a b => less (g a) (g b)) (last.powerBefore run.items.length n) patience
      last before with e | ⟨_ | ⟨last, before⟩, patience⟩ <;> rfl

theorem collect_map (n least fuel : ℕ) (w : Waiting α) (xs : List α) :
    collect less n least fuel (w.map g) (xs.map g) =
      (collect (fun a b => less (g a) (g b)) n least fuel w xs).map (Waiting.map g) := by
  induction fuel generalizing w xs with
  | zero => rfl
  | succ fuel ih =>
      cases xs with
      | nil => rfl
      | cons x xs =>
          rw [List.map_cons, collect, collect, ← List.map_cons, runOf_map]
          rcases runOf (fun a b => less (g a) (g b)) least (x :: xs) with e | ⟨items, rest⟩
          · rfl
          · have hpush := Waiting.push_map g less n w ⟨items, n - (xs.length + 1), 0⟩
            simp only [Run.map] at hpush
            simp only [Except.map, Prod.map, List.length_map, hpush]
            rcases w.push (fun a b => less (g a) (g b)) n ⟨items, n - (xs.length + 1), 0⟩ with e | w
            · rfl
            · exact ih w rest

/-- The runs that wait, taken as they stand. -/
theorem flatMap_items_map (runs : List (Run α)) :
    (runs.map (Run.map g)).reverse.flatMap (·.items) =
      (runs.reverse.flatMap (·.items)).map g := by
  rw [← List.map_reverse, List.flatMap_map, List.map_flatMap]
  rfl

theorem mergeAll_map (fuel : ℕ) (w : Waiting α) :
    mergeAll less fuel (w.map g) =
      (mergeAll (fun a b => less (g a) (g b)) fuel w).map (List.map g) := by
  induction fuel generalizing w with
  | zero =>
      obtain ⟨_ | ⟨t, _ | ⟨s, _ | ⟨r, rs⟩⟩⟩, patience⟩ := w
      · rfl
      · exact congrArg Except.ok (flatMap_items_map g [t])
      · simp only [Waiting.map, List.map_cons, List.map_nil, mergeAll, Run.merge_map]
        cases s.merge (fun a b => less (g a) (g b)) patience t <;> rfl
      · exact congrArg Except.ok (flatMap_items_map g (t :: s :: r :: rs))
  | succ fuel ih =>
      obtain ⟨_ | ⟨t, _ | ⟨s, _ | ⟨r, rs⟩⟩⟩, patience⟩ := w
      · rfl
      · exact congrArg Except.ok (flatMap_items_map g [t])
      · simp only [Waiting.map, List.map_cons, List.map_nil, mergeAll, Run.merge_map]
        cases s.merge (fun a b => less (g a) (g b)) patience t <;> rfl
      · have hlength (r : Run α) : (r.map g).items.length = r.items.length := List.length_map _
        simp only [Waiting.map, List.map_cons, mergeAll, Run.merge_map, hlength]
        split
        · rcases r.merge (fun a b => less (g a) (g b)) patience s with e | ⟨merged, patience⟩
          · rfl
          · exact ih ⟨t :: merged :: rs, patience⟩
        · rcases s.merge (fun a b => less (g a) (g b)) patience t with e | ⟨merged, patience⟩
          · rfl
          · exact ih ⟨merged :: r :: rs, patience⟩

/-- A sorted list is what the sorted places stand for. -/
theorem sort_map (xs : List α) :
    sort less (xs.map g) = (sort (fun a b => less (g a) (g b)) xs).map (List.map g) := by
  have hcollect := collect_map g less xs.length (leastRun xs.length) xs.length {} xs
  rw [sort, sort, List.length_map]
  rw [show (Waiting.map g {} : Waiting β) = {} from rfl] at hcollect
  rw [hcollect]
  rcases collect (fun a b => less (g a) (g b)) xs.length (leastRun xs.length) xs.length {} xs with e | w
  · rfl
  · simp only [Except.map]
    rw [show (w.map g).runs.length = w.runs.length from List.length_map _]
    exact mergeAll_map g less _ w

theorem sortDescending_map (xs : List α) :
    sortDescending less (xs.map g) =
      (sortDescending (fun a b => less (g a) (g b)) xs).map (List.map g) := by
  rw [sortDescending, sortDescending, ← List.map_reverse, sort_map]
  rcases sort (fun a b => less (g a) (g b)) xs.reverse with e | xs
  · rfl
  · simp [Except.map]

end Sorting

end PageQuery.Ordering
