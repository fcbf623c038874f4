import Mathlib
import PageQuery.Proofs.Outcome

/-!
# Formulas and what they are made of

A formula joins tests and searches for keys, its leaves.  Joining two formulas keeps their leaves, and
the result is met as the connective says, however it is flattened.  Preparing a condition and settling
a formula take it leaf by leaf: what is settled answers as the formula does whose leaves answer each on
its own.
-/

namespace PageQuery

namespace Formula

variable {α : Type}

mutual

/-- The tests and searches that a formula is made of. -/
def leaves : Formula α → List (Formula α)
  | .test t => [.test t]
  | .keyAmong model inner => [.keyAmong model inner]
  | .group _ items => leavesOf items

/-- The tests and searches that several formulas are made of. -/
def leavesOf : List (Formula α) → List (Formula α)
  | [] => []
  | f :: fs => leaves f ++ leavesOf fs

end

mutual

/-- Whether a formula is met where its leaves are met as `leaf` tells. -/
def meets (leaf : Formula α → Bool) : Formula α → Bool
  | .test t => leaf (.test t)
  | .keyAmong model inner => leaf (.keyAmong model inner)
  | .group .and items => meetsAll leaf items
  | .group .or items => items.isEmpty || meetsSome leaf items

def meetsAll (leaf : Formula α → Bool) : List (Formula α) → Bool
  | [] => true
  | f :: fs => meets leaf f && meetsAll leaf fs

def meetsSome (leaf : Formula α → Bool) : List (Formula α) → Bool
  | [] => false
  | f :: fs => meets leaf f || meetsSome leaf fs

end

/-- What holds of tests and searches, and of a group if it holds of its items, holds of all formulas. -/
theorem induct {motive : Formula α → Prop} (test : ∀ t, motive (.test t))
    (keyAmong : ∀ model inner, motive (.keyAmong model inner))
    (group : ∀ c items, (∀ f ∈ items, motive f) → motive (.group c items)) (f : Formula α) :
    motive f := by
  refine @Formula.rec α motive (fun fs => ∀ f ∈ fs, motive f) test (fun m i _ => keyAmong m i)
    (fun c items h => group c items h) nofun ?_ f
  intro f fs hf hfs
  exact List.forall_mem_cons.mpr ⟨hf, hfs⟩

theorem leavesOf_eq (fs : List (Formula α)) : leavesOf fs = fs.flatMap leaves := by
  induction fs with
  | nil => rfl
  | cons f fs ih => rw [leavesOf, ih, List.flatMap_cons]

theorem meetsAll_eq (leaf : Formula α → Bool) (fs : List (Formula α)) :
    meetsAll leaf fs = fs.all (meets leaf) := by
  induction fs with
  | nil => rfl
  | cons f fs ih => rw [meetsAll, ih, List.all_cons]

theorem meetsSome_eq (leaf : Formula α → Bool) (fs : List (Formula α)) :
    meetsSome leaf fs = fs.any (meets leaf) := by
  induction fs with
  | nil => rfl
  | cons f fs ih => rw [meetsSome, ih, List.any_cons]

/-- Whether a formula is met depends on its leaves only. -/
theorem meets_congr {leaf leaf' : Formula α → Bool} {f : Formula α}
    (h : ∀ y ∈ f.leaves, leaf y = leaf' y) : f.meets leaf = f.meets leaf' := by
  induction f using induct with
  | test t => simpa [leaves, meets] using h
  | keyAmong model inner => simpa [leaves, meets] using h
  | group c items ih =>
      rw [leaves, leavesOf_eq] at h
      have hitems : ∀ f ∈ items, f.meets leaf = f.meets leaf' := fun f hf =>
        ih f hf fun y hy => h y (List.mem_flatMap.mpr ⟨f, hf, hy⟩)
      cases c with
      | and =>
          rw [meets, meets, meetsAll_eq, meetsAll_eq, Bool.eq_iff_iff, List.all_eq_true,
            List.all_eq_true]
          exact forall₂_congr fun f hf => by rw [hitems f hf]
      | or =>
          rw [meets, meets, meetsSome_eq, meetsSome_eq]
          congr 1
          rw [Bool.eq_iff_iff, List.any_eq_true, List.any_eq_true]
          exact exists_congr fun f => and_congr_right fun hf => by rw [hitems f hf]

/-! ## Joined formulas -/

theorem isEmpty_iff {f : Formula α} : f.isEmpty = true ↔ ∃ c, f = .group c [] := by
  cases f with
  | group c items => cases items <;> simp [isEmpty]
  | test t => simp [isEmpty]
  | keyAmong model inner => simp [isEmpty]

theorem leaves_of_isEmpty {f : Formula α} (h : f.isEmpty = true) : f.leaves = [] := by
  obtain ⟨c, rfl⟩ := isEmpty_iff.mp h
  rfl

theorem meets_of_isEmpty {f : Formula α} (h : f.isEmpty = true) (leaf : Formula α → Bool) :
    f.meets leaf = true := by
  obtain ⟨c, rfl⟩ := isEmpty_iff.mp h
  cases c <;> rfl

theorem leavesOf_itemsFor (c : Connective) (f : Formula α) : leavesOf (f.itemsFor c) = f.leaves := by
  cases f with
  | group c' items =>
      rw [itemsFor]
      split
      · rfl
      · simp [leavesOf, leaves]
  | test t => rfl
  | keyAmong model inner => rfl

theorem meetsAll_itemsFor (leaf : Formula α → Bool) (f : Formula α) :
    meetsAll leaf (f.itemsFor .and) = f.meets leaf := by
  cases f with
  | group c items =>
      rw [itemsFor]
      split
      · rename_i hdissolved
        cases c with
        | and => rfl
        | or =>
            obtain ⟨item, rfl⟩ : ∃ item, items = [item] := by
              simpa [List.length_eq_one_iff] using hdissolved
            simp [meetsAll, meets, meetsSome]
      · simp [meetsAll]
  | test t => simp [itemsFor, meetsAll]
  | keyAmong model inner => simp [itemsFor, meetsAll]

theorem meetsSome_itemsFor (leaf : Formula α → Bool) {f : Formula α} (h : f.isEmpty = false) :
    meetsSome leaf (f.itemsFor .or) = f.meets leaf := by
  cases f with
  | group c items =>
      rw [itemsFor]
      cases items with
      | nil => simp [isEmpty] at h
      | cons item items =>
          split
          · rename_i hdissolved
            cases c with
            | or => simp [meets]
            | and =>
                obtain rfl : items = [] := by simpa using hdissolved
                simp [meetsSome, meets, meetsAll]
          · simp [meetsSome]
  | test t => simp [itemsFor, meetsSome]
  | keyAmong model inner => simp [itemsFor, meetsSome]

theorem itemsFor_ne_nil (c : Connective) {f : Formula α} (h : f.isEmpty = false) :
    f.itemsFor c ≠ [] := by
  cases f with
  | group c' items =>
      rw [itemsFor]
      cases items with
      | nil => simp [isEmpty] at h
      | cons item items => split <;> simp
  | test t => simp [itemsFor]
  | keyAmong model inner => simp [itemsFor]

/-- Joining keeps what both formulas are made of. -/
theorem leaves_join (c : Connective) (f g : Formula α) :
    (f.join c g).leaves = f.leaves ++ g.leaves := by
  rw [join]
  split_ifs with hf hg
  · rw [leaves_of_isEmpty hf, List.nil_append]
  · rw [leaves_of_isEmpty hg, List.append_nil]
  · rw [leaves, leavesOf_eq, List.flatMap_append, ← leavesOf_eq, ← leavesOf_eq, leavesOf_itemsFor,
      leavesOf_itemsFor]

theorem meets_join_and (leaf : Formula α → Bool) (f g : Formula α) :
    (f.join .and g).meets leaf = (f.meets leaf && g.meets leaf) := by
  rw [join]
  split_ifs with hf hg
  · rw [meets_of_isEmpty hf, Bool.true_and]
  · rw [meets_of_isEmpty hg, Bool.and_true]
  · rw [meets, meetsAll_eq, List.all_append, ← meetsAll_eq, ← meetsAll_eq, meetsAll_itemsFor,
      meetsAll_itemsFor]

/-- An empty formula is met by everything, but joined by `or` it disappears, so neither part may be
empty. -/
theorem meets_join_or (leaf : Formula α → Bool) {f g : Formula α} (hf : f.isEmpty = false)
    (hg : g.isEmpty = false) : (f.join .or g).meets leaf = (f.meets leaf || g.meets leaf) := by
  rw [join, hf, hg, if_neg Bool.false_ne_true, if_neg Bool.false_ne_true, meets, meetsSome_eq,
    List.any_append, ← meetsSome_eq, ← meetsSome_eq, meetsSome_itemsFor leaf hf, meetsSome_itemsFor leaf hg]
  cases hitems : f.itemsFor .or with
  | nil => exact absurd hitems (itemsFor_ne_nil .or hf)
  | cons item items => rfl

end Formula

/-! ## Prepared conditions -/

namespace Store

open Formula

variable {α : Type} {s : Store} {model : String}

theorem prepareAll_append {cs ds : List Condition} {fs gs : List (Formula Test)}
    (hcs : s.prepareAll model cs = .ok fs) (hds : s.prepareAll model ds = .ok gs) :
    s.prepareAll model (cs ++ ds) = .ok (fs ++ gs) := by
  induction cs generalizing fs with
  | nil =>
      obtain rfl : [] = fs := by simpa [prepareAll] using hcs
      exact hds
  | cons c cs ih =>
      rw [prepareAll] at hcs
      split at hcs
      · cases hcs
      · rename_i f hc
        obtain ⟨rest, hrest, rfl⟩ := Outcome.map_eq_ok.mp hcs
        rw [List.cons_append, prepareAll, hc]
        dsimp only
        rw [ih hrest]
        rfl

theorem length_of_prepareAll {cs : List Condition} {fs : List (Formula Test)}
    (h : s.prepareAll model cs = .ok fs) : fs.length = cs.length := by
  induction cs generalizing fs with
  | nil =>
      obtain rfl : [] = fs := by simpa [prepareAll] using h
      rfl
  | cons c cs ih =>
      rw [prepareAll] at h
      split at h
      · cases h
      · obtain ⟨rest, hrest, rfl⟩ := Outcome.map_eq_ok.mp h
        rw [List.length_cons, List.length_cons, ih hrest]

theorem isEmpty_of_prepare {c : Condition} {f : Formula Test} (h : s.prepare model c = .ok f) :
    f.isEmpty = c.isEmpty := by
  cases c with
  | test l =>
      rw [prepare] at h
      split at h
      · cases h
      · obtain ⟨t, -, rfl⟩ := Outcome.map_eq_ok.mp h
        rfl
  | keyAmong model' inner =>
      rw [prepare] at h
      obtain ⟨g, -, rfl⟩ := Outcome.map_eq_ok.mp h
      rfl
  | group connective items =>
      rw [prepare] at h
      obtain ⟨fs, hfs, rfl⟩ := Outcome.map_eq_ok.mp h
      have hlength := length_of_prepareAll hfs
      cases items <;> cases fs <;> simp_all [isEmpty]

theorem prepareAll_singleton {c : Condition} {f : Formula Test} (h : s.prepare model c = .ok f) :
    s.prepareAll model [c] = .ok [f] := by
  rw [prepareAll, h]
  rfl

theorem prepareAll_itemsFor (connective : Connective) {c : Condition} {f : Formula Test}
    (h : s.prepare model c = .ok f) :
    s.prepareAll model (c.itemsFor connective) = .ok (f.itemsFor connective) := by
  have hsingle := prepareAll_singleton h
  cases c with
  | test l =>
      rw [prepare] at h
      split at h
      · cases h
      · obtain ⟨t, -, rfl⟩ := Outcome.map_eq_ok.mp h
        exact hsingle
  | keyAmong model' inner =>
      rw [prepare] at h
      obtain ⟨g, -, rfl⟩ := Outcome.map_eq_ok.mp h
      exact hsingle
  | group connective' items =>
      rw [prepare] at h
      obtain ⟨fs, hfs, rfl⟩ := Outcome.map_eq_ok.mp h
      rw [itemsFor, itemsFor, length_of_prepareAll hfs]
      split
      · exact hfs
      · exact hsingle

/-- Joined conditions are prepared as the join of what each is prepared to. -/
theorem prepare_join (connective : Connective) {c d : Condition} {f g : Formula Test}
    (hc : s.prepare model c = .ok f) (hd : s.prepare model d = .ok g) :
    s.prepare model (c.join connective d) = .ok (f.join connective g) := by
  rw [join, join, isEmpty_of_prepare hc, isEmpty_of_prepare hd]
  split_ifs
  · exact hd
  · exact hc
  · rw [prepare, prepareAll_append (prepareAll_itemsFor connective hc)
      (prepareAll_itemsFor connective hd)]
    rfl

/-! ## What a formula is made of -/

theorem satisfiesAll_eq (s : Store) (fs : List (Formula Check)) (b : Binding) :
    s.satisfiesAll fs b = fs.all (s.satisfies · b) := by
  induction fs with
  | nil => simp [satisfiesAll]
  | cons f fs ih => rw [satisfiesAll, ih, List.all_cons]

theorem satisfiesSome_eq (s : Store) (fs : List (Formula Check)) (b : Binding) :
    s.satisfiesSome fs b = fs.any (s.satisfies · b) := by
  induction fs with
  | nil => simp [satisfiesSome]
  | cons f fs ih => rw [satisfiesSome, ih, List.any_cons]

/-- A binding satisfies a condition if it satisfies enough of its leaves. -/
theorem satisfies_eq_meets (s : Store) (f : Formula Check) (b : Binding) :
    s.satisfies f b = f.meets (s.satisfies · b) := by
  induction f using Formula.induct with
  | test c => rw [meets]
  | keyAmong model inner => rw [meets]
  | group c items ih =>
      cases c with
      | and =>
          rw [satisfies, satisfiesAll_eq, meets, meetsAll_eq, Bool.eq_iff_iff, List.all_eq_true,
            List.all_eq_true]
          exact forall₂_congr fun f hf => by rw [ih f hf]
      | or =>
          rw [satisfies, satisfiesSome_eq, meets, meetsSome_eq]
          congr 1
          rw [Bool.eq_iff_iff, List.any_eq_true, List.any_eq_true]
          exact exists_congr fun f => and_congr_right fun hf => by rw [ih f hf]

theorem checkPathsOf_eq (fs : List (Formula Check)) : checkPathsOf fs = fs.flatMap checkPaths := by
  induction fs with
  | nil => rfl
  | cons f fs ih => rw [checkPathsOf, ih, List.flatMap_cons]

theorem relationPathsOf_eq (fs : List (Formula Test)) :
    relationPathsOf fs = fs.flatMap relationPaths := by
  induction fs with
  | nil => rfl
  | cons f fs ih => rw [relationPathsOf, ih, List.flatMap_cons]

/-- A list that is gathered from the leaves of a formula one after the other. -/
theorem flatMap_leaves {β : Type} {gather : Formula α → List β}
    (h : ∀ c items, gather (.group c items) = items.flatMap gather) (f : Formula α) :
    gather f = f.leaves.flatMap gather := by
  induction f using Formula.induct with
  | test t => simp [leaves]
  | keyAmong model inner => simp [leaves]
  | group c items ih =>
      rw [h, leaves, leavesOf_eq, List.flatMap_assoc]
      exact List.flatMap_congr ih

theorem checkPaths_eq (f : Formula Check) : checkPaths f = f.leaves.flatMap checkPaths :=
  flatMap_leaves (fun c items => by rw [checkPaths, checkPathsOf_eq]) f

theorem relationPaths_eq (f : Formula Test) : relationPaths f = f.leaves.flatMap relationPaths :=
  flatMap_leaves (fun c items => by rw [relationPaths, relationPathsOf_eq]) f

theorem fits_eq (f : Formula Check) : f.fits = f.leaves.all fits := by
  have hall (fs : List (Formula Check)) : allFit fs = fs.all fits := by
    induction fs with
    | nil => rfl
    | cons f fs ih => rw [allFit, ih, List.all_cons]
  induction f using Formula.induct with
  | test c => simp [leaves]
  | keyAmong model inner => simp [leaves]
  | group c items ih =>
      rw [fits, hall, leaves, leavesOf_eq, List.all_flatMap, Bool.eq_iff_iff, List.all_eq_true,
        List.all_eq_true]
      exact forall₂_congr fun f hf => by rw [ih f hf]

end Store

/-! ## Settled formulas -/

namespace Formula

/-- Whether a formula is met, once it is settled, where what is left of it is met as `leaf` tells. -/
def answers (leaf : Formula Check → Bool) (paths : List (List String)) (f : Formula Test) : Bool :=
  match f.settle true paths with
  | .ok .never => false
  | .ok .always => true
  | .ok (.depends g) => g.meets leaf
  | .error _ => false

/-- A leaf of what is settled stems from one of several leaves that was settled. -/
def Stems (paths : List (List String)) (leaves : List (Formula Test)) (z : Formula Check) : Prop :=
  ∃ y ∈ leaves, ∃ g, y.settle true paths = .ok (.depends g) ∧ z ∈ g.leaves

theorem Stems.mono {paths : List (List String)} {leaves leaves' : List (Formula Test)}
    {z : Formula Check} (h : Stems paths leaves z) (hsub : leaves ⊆ leaves') :
    Stems paths leaves' z := by
  obtain ⟨y, hy, g, hg, hz⟩ := h
  exact ⟨y, hsub hy, g, hg, hz⟩

variable {paths : List (List String)}

mutual

/-- A formula whose leaves can be settled can be settled itself.  It then answers as its leaves do. -/
theorem exists_settle (f : Formula Test)
    (h : ∀ y ∈ f.leaves, ∃ v, y.settle true paths = .ok v) :
    ∃ v, f.settle true paths = .ok v ∧
      (∀ leaf, answers leaf paths f = f.meets (answers leaf paths)) ∧
      ∀ g, v = .depends g → ∀ z ∈ g.leaves, Stems paths f.leaves z := by
  cases f with
  | test t =>
      obtain ⟨v, hv⟩ := h (.test t) (by simp [leaves])
      refine ⟨v, hv, fun leaf => by rw [meets], ?_⟩
      rintro g rfl z hz
      exact ⟨.test t, by simp [leaves], g, hv, hz⟩
  | keyAmong model inner =>
      obtain ⟨v, hv⟩ := h (.keyAmong model inner) (by simp [leaves])
      refine ⟨v, hv, fun leaf => by rw [meets], ?_⟩
      rintro g rfl z hz
      exact ⟨.keyAmong model inner, by simp [leaves], g, hv, hz⟩
  | group c items =>
      cases c with
      | and =>
          obtain ⟨r, hr, hanswers, hstems⟩ := exists_settleAll items h
          simp only [answers, settle, hr, meets]
          simp only [← hanswers]
          match r with
          | none => exact ⟨.never, rfl, fun leaf => rfl, nofun⟩
          | some [] => exact ⟨.always, rfl, fun leaf => by simp [meetsAll], nofun⟩
          | some (g :: gs) =>
              refine ⟨.depends (.group .and (g :: gs)), rfl, fun leaf => by simp [meets], ?_⟩
              rintro _ ⟨⟩ z hz
              exact hstems _ rfl z hz
      | or =>
          obtain ⟨r, hr, hanswers, hstems⟩ := exists_settleSome items h
          simp only [answers, settle, hr, meets]
          simp only [← hanswers]
          match r with
          | none => exact ⟨.always, rfl, fun leaf => by simp, nofun⟩
          | some [] =>
              cases items with
              | nil => exact ⟨.always, rfl, fun leaf => rfl, nofun⟩
              | cons item items => exact ⟨.never, rfl, fun leaf => by simp [meetsSome], nofun⟩
          | some (g :: gs) =>
              have hitems : items.isEmpty = false := by
                cases items with
                | nil => simp [settleSome] at hr
                | cons item items => rfl
              refine ⟨.depends (.group .or (g :: gs)), rfl,
                fun leaf => by simp [meets, hitems], ?_⟩
              rintro _ ⟨⟩ z hz
              exact hstems _ rfl z hz

theorem exists_settleAll (fs : List (Formula Test))
    (h : ∀ y ∈ leavesOf fs, ∃ v, y.settle true paths = .ok v) :
    ∃ r, settleAll true paths fs = .ok r ∧
      (∀ leaf, (r.elim false (meetsAll leaf)) = meetsAll (answers leaf paths) fs) ∧
      ∀ gs, r = some gs → ∀ z ∈ leavesOf gs, Stems paths (leavesOf fs) z := by
  cases fs with
  | nil => exact ⟨some [], by rw [settleAll], fun leaf => by simp [meetsAll], by simp [leavesOf]⟩
  | cons f fs =>
      simp only [leavesOf, List.mem_append] at h ⊢
      obtain ⟨v, hv, hanswers, hstems⟩ := exists_settle f fun y hy => h y (.inl hy)
      obtain ⟨r, hr, hrest, hstems'⟩ := exists_settleAll fs fun y hy => h y (.inr hy)
      simp only [settleAll, hv, hr, meetsAll, ← hanswers, ← hrest]
      cases v with
      | never => exact ⟨none, rfl, fun leaf => by simp [answers, hv], nofun⟩
      | always =>
          refine ⟨r, rfl, fun leaf => by simp [answers, hv], fun gs hgs z hz => ?_⟩
          exact (hstems' gs hgs z hz).mono (List.subset_append_right _ _)
      | depends g =>
          refine ⟨r.map (g :: ·), rfl, fun leaf => ?_, ?_⟩
          · cases r <;> simp [answers, hv, meetsAll]
          · intro gs hgs z hz
            obtain ⟨gs, rfl, rfl⟩ := Option.map_eq_some_iff.mp hgs
            rcases List.mem_append.mp hz with hz | hz
            · exact (hstems g rfl z hz).mono (List.subset_append_left _ _)
            · exact (hstems' gs rfl z hz).mono (List.subset_append_right _ _)

theorem exists_settleSome (fs : List (Formula Test))
    (h : ∀ y ∈ leavesOf fs, ∃ v, y.settle true paths = .ok v) :
    ∃ r, settleSome true paths fs = .ok r ∧
      (∀ leaf, (r.elim true (meetsSome leaf)) = meetsSome (answers leaf paths) fs) ∧
      ∀ gs, r = some gs → ∀ z ∈ leavesOf gs, Stems paths (leavesOf fs) z := by
  cases fs with
  | nil => exact ⟨some [], by rw [settleSome], fun leaf => by simp [meetsSome], by simp [leavesOf]⟩
  | cons f fs =>
      simp only [leavesOf, List.mem_append] at h ⊢
      obtain ⟨v, hv, hanswers, hstems⟩ := exists_settle f fun y hy => h y (.inl hy)
      obtain ⟨r, hr, hrest, hstems'⟩ := exists_settleSome fs fun y hy => h y (.inr hy)
      simp only [settleSome, hv, hr, meetsSome, ← hanswers, ← hrest]
      cases v with
      | always => exact ⟨none, rfl, fun leaf => by simp [answers, hv], nofun⟩
      | never =>
          refine ⟨r, rfl, fun leaf => by simp [answers, hv], fun gs hgs z hz => ?_⟩
          exact (hstems' gs hgs z hz).mono (List.subset_append_right _ _)
      | depends g =>
          refine ⟨r.map (g :: ·), rfl, fun leaf => ?_, ?_⟩
          · cases r <;> simp [answers, hv, meetsSome]
          · intro gs hgs z hz
            obtain ⟨gs, rfl, rfl⟩ := Option.map_eq_some_iff.mp hgs
            rcases List.mem_append.mp hz with hz | hz
            · exact (hstems g rfl z hz).mono (List.subset_append_left _ _)
            · exact (hstems' gs rfl z hz).mono (List.subset_append_right _ _)

end

end Formula
end PageQuery
