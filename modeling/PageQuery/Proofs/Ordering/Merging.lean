import Mathlib
import PageQuery.Proofs.Ordering.Runs

/-!
# Merges are arranged

However a merge goes on, by comparing heads or by galloping, and from whichever end, it comes to what
merging from the heads would give.  What it puts out together with what merging from the heads makes
of the rest is the invariant; every step keeps it and leaves fewer items.
-/

namespace PageQuery.Ordering

variable {α ε : Type} {less : α → α → Except ε Bool} {lt : α → α → Bool} {P : α → Prop}

/-! ## Galloping -/

/-- Halving finds the border between the items that pass and those that do not. -/
theorem halve_eq {test : α → Except ε Bool} {fromEnd : Bool} {xs : List α} {n start count : ℕ}
    (htest : ∀ i (hi : i < xs.length), test xs[i] = .ok (decide (i < n)))
    (hstart : start ≤ n) (hn : n ≤ start + count) (hcount : start + count ≤ xs.length) :
    halve test fromEnd xs start count = .ok n := by
  induction hc : count using Nat.strong_induction_on generalizing start count with
  | _ c ih =>
      subst hc
      rw [halve]
      split
      · rename_i hpos
        have hmiddle := middle_lt fromEnd hpos
        have hinside : start + middle fromEnd count < xs.length := by omega
        simp only [List.getElem?_eq_getElem hinside, htest _ hinside]
        by_cases hpass : start + middle fromEnd count < n
        · simp only [hpass, decide_true]
          exact ih _ (by omega) (by omega) (by omega) (by omega) rfl
        · simp only [hpass, decide_false]
          exact ih _ hmiddle hstart (by omega) (by omega) rfl
      · exact congrArg _ (by omega)

theorem leap_eq {test : α → Except ε Bool} {fromEnd : Bool} {xs : List α} {n last place : ℕ}
    (htest : ∀ i (hi : i < xs.length), test xs[i] = .ok (decide (i < n)))
    (hn : n ≤ xs.length) (hlast : last < n) (hplace : last < place) :
    leap test fromEnd xs last place = .ok n := by
  induction hd : xs.length - place using Nat.strong_induction_on generalizing last place with
  | _ d ih =>
      subst hd
      rw [leap]
      split
      · rename_i hinside
        rw [htest place hinside]
        by_cases hpass : place < n
        · simp only [hpass, decide_true]
          exact ih _ (by omega) hpass (by omega) rfl
        · simp only [hpass, decide_false]
          exact halve_eq htest hlast (by omega) (by omega)
      · exact halve_eq htest hlast (by omega) (by omega)

/-- If no item passes behind one that does not, there is a border before which all items pass. -/
theorem exists_border {passes : α → Bool} {xs : List α}
    (hfirst : xs.Pairwise fun a b => passes b = true → passes a = true) :
    ∃ n, n ≤ xs.length ∧ ∀ i (hi : i < xs.length), passes xs[i] = decide (i < n) := by
  induction xs with
  | nil => exact ⟨0, le_rfl, fun i hi => nomatch hi⟩
  | cons x xs ih =>
      cases hx : passes x with
      | true =>
          obtain ⟨n, hn, hborder⟩ := ih hfirst.tail
          refine ⟨n + 1, Nat.succ_le_succ hn, fun i hi => ?_⟩
          cases i with
          | zero => simpa using hx
          | succ i => simpa using hborder i (by simpa using hi)
      | false =>
          refine ⟨0, Nat.zero_le _, fun i hi => ?_⟩
          cases i with
          | zero => simpa using hx
          | succ i =>
              have hrel := List.rel_of_pairwise_cons hfirst
                (List.getElem_mem (by simpa using hi : i < xs.length))
              simpa [hx] using hrel

/-- Galloping counts the items at the head of a list that pass, if none passes behind one that does
not. -/
theorem exists_gallop {test : α → Except ε Bool} {passes : α → Bool} (fromEnd : Bool)
    {xs : List α} (htest : ∀ x ∈ xs, test x = .ok (passes x))
    (hfirst : xs.Pairwise fun a b => passes b = true → passes a = true) :
    ∃ n, gallop test fromEnd xs = .ok n ∧ (∀ x ∈ xs.take n, passes x = true) ∧
      ∀ x ∈ xs.drop n, passes x = false := by
  obtain ⟨n, hn, hborder⟩ := exists_border hfirst
  refine ⟨n, ?_, ?_, ?_⟩
  · have hplaces : ∀ i (hi : i < xs.length), test xs[i] = .ok (decide (i < n)) := by
      intro i hi
      rw [htest _ (List.getElem_mem hi), hborder i hi]
    cases xs with
    | nil =>
        obtain rfl : n = 0 := Nat.le_zero.mp hn
        rfl
    | cons x xs =>
        have hhead : test x = .ok (decide (0 < n)) := hplaces 0 (Nat.zero_lt_succ _)
        rw [gallop, hhead]
        by_cases hpos : 0 < n
        · simp only [hpos, decide_true]
          exact leap_eq hplaces hn hpos Nat.zero_lt_one
        · simp only [hpos, decide_false]
          exact congrArg _ (by omega)
  · intro x hx
    obtain ⟨i, hi, rfl⟩ := List.mem_take_iff_getElem.mp hx
    rw [hborder, decide_eq_true_eq]
    omega
  · intro x hx
    obtain ⟨i, hi, rfl⟩ := List.mem_drop_iff_getElem.mp hx
    rw [hborder, decide_eq_false_iff_not]
    omega

/-- Galloping counts the items at the head of a sorted list that an item is not below. -/
theorem exists_gallop_not_below (h : StrictOn lt P) {test : α → Except ε Bool} {v : α}
    (fromEnd : Bool) {xs : List α} (hv : P v) (hxs : ∀ x ∈ xs, P x) (hsorted : Sorted lt xs)
    (htest : ∀ x ∈ xs, test x = .ok (lt v x)) :
    ∃ n, gallop (fun x => (test x).map (!·)) fromEnd xs = .ok n ∧
      (∀ x ∈ xs.take n, lt v x = false) ∧ ∀ x ∈ xs.drop n, lt v x = true := by
  have hanswer : ∀ x ∈ xs, (test x).map (!·) = .ok (!lt v x) := by
    intro x hx
    rw [htest x hx]
    rfl
  have hborder : xs.Pairwise fun a b => (!lt v b) = true → (!lt v a) = true := by
    refine hsorted.imp_of_mem fun {a b} ha hb hab hbelow => ?_
    simp only [Bool.not_eq_true'] at hbelow ⊢
    exact h.not_trans hv (hxs b hb) (hxs a ha) hbelow hab
  obtain ⟨n, hcount, hpass, hfail⟩ := exists_gallop fromEnd hanswer hborder
  simp only [Bool.not_eq_true', Bool.not_eq_false'] at hpass hfail
  exact ⟨n, hcount, hpass, hfail⟩

/-- Galloping from the end counts the items at the end of a sorted list that are not below an
item. -/
theorem exists_gallop_reverse (h : StrictOn lt P) (hless : Answers less lt P) {v : α}
    {xs : List α} (hv : P v) (hxs : ∀ x ∈ xs, P x) (hsorted : Sorted lt xs) :
    ∃ n, gallop (fun x => (less x v).map (!·)) true xs.reverse = .ok n ∧
      (∀ x ∈ xs.take (xs.length - n), lt x v = true) ∧
      ∀ x ∈ xs.drop (xs.length - n), lt x v = false := by
  have hpreverse : ∀ x ∈ xs.reverse, P x := by simpa using hxs
  have hreverse : Sorted (fun a b => lt b a) xs.reverse := sorted_reverse.mpr hsorted
  obtain ⟨n, hcount, hback, hfront⟩ := exists_gallop_not_below h.flip true hv hpreverse hreverse
    fun x hx => hless (hpreverse x hx) hv
  rw [List.take_reverse] at hback
  rw [List.drop_reverse] at hfront
  simp only [List.mem_reverse] at hback hfront
  exact ⟨n, hcount, hfront, hback⟩

/-! ## The invariant of a merge -/

/-- What a merge comes to if it goes on from the heads. -/
def Merging.result (lt : α → α → Bool) (m : Merging α) : List α :=
  m.out.reverse ++ mergeHeads lt m.kept m.other

def Progress.result (lt : α → α → Bool) : Progress α → List α
  | .finished items _ => items
  | .going m => m.result lt

/-- The number of items that a merge still has to put out. -/
def Merging.remaining (m : Merging α) : ℕ := m.kept.length + m.other.length

/-- A merge of sorted sides of which the kept one has the last item. -/
structure Merging.Ready (lt : α → α → Bool) (P : α → Prop) (m : Merging α) : Prop where
  kept : ∀ k ∈ m.kept, P k
  other : ∀ o ∈ m.other, P o
  keptSorted : Sorted lt m.kept
  otherSorted : Sorted lt m.other
  last : ∀ k ∈ m.kept.getLast?, ∀ o ∈ m.other, lt o k = true

/-- A step of a merge comes to the same result and puts out at least `n` items. -/
structure Merging.Steps (lt : α → α → Bool) (P : α → Prop) (m : Merging α) (n : ℕ)
    (p : Progress α) : Prop where
  result : p.result lt = m.result lt
  ready : ∀ m', p = .going m' → m'.Ready lt P ∧ m'.remaining + n ≤ m.remaining

namespace Merging

theorem Ready.patience {m : Merging α} (h : m.Ready lt P) (patience : ℕ) :
    Ready lt P { m with patience := patience } :=
  ⟨h.kept, h.other, h.keptSorted, h.otherSorted, h.last⟩

theorem Ready.drop {m : Merging α} (h : m.Ready lt P) (k o : ℕ) (out : List α) :
    Ready lt P { m with kept := m.kept.drop k, other := m.other.drop o, out := out } where
  kept x hx := h.kept x (List.mem_of_mem_drop hx)
  other x hx := h.other x (List.mem_of_mem_drop hx)
  keptSorted := h.keptSorted.sublist (List.drop_sublist _ _)
  otherSorted := h.otherSorted.sublist (List.drop_sublist _ _)
  last x hx y hy := by
    rw [List.getLast?_drop] at hx
    split at hx
    · cases hx
    · exact h.last x hx y (List.mem_of_mem_drop hy)

theorem Steps.finished {m : Merging α} {items : List α} {patience : ℕ} (n : ℕ)
    (h : items = m.result lt) : Steps lt P m n (.finished items patience) :=
  ⟨h, fun _ hgoing => nomatch hgoing⟩

theorem Steps.trans {m m' : Merging α} {n k : ℕ} {p : Progress α}
    (h : Steps lt P m n (.going m')) (h' : Steps lt P m' k p) : Steps lt P m (n + k) p where
  result := h'.result.trans h.result
  ready m'' hgoing := by
    have hone := (h.ready m' rfl).2
    have htwo := (h'.ready m'' hgoing).2
    exact ⟨(h'.ready m'' hgoing).1, by omega⟩

theorem Steps.refl {m : Merging α} (h : m.Ready lt P) : Steps lt P m 0 (.going m) where
  result := rfl
  ready _ hgoing := by
    cases hgoing
    exact ⟨h, le_rfl⟩

/-- A step may go on in a second one, unless it finishes the merge. -/
theorem Steps.andThen {m : Merging α} {n k : ℕ} {p : Progress α} (h : Steps lt P m n p)
    {f : Merging α → Except ε (Progress α)}
    (hf : ∀ m', p = .going m' → ∃ q, f m' = .ok q ∧ Steps lt P m' k q) :
    ∃ q, p.andThen f = .ok q ∧ Steps lt P m (n + k) q := by
  cases p with
  | finished items patience => exact ⟨_, rfl, .finished _ h.result⟩
  | going m' =>
      obtain ⟨q, hq, hsteps⟩ := hf m' rfl
      exact ⟨q, hq, h.trans hsteps⟩

theorem steps_putKept {m : Merging α} (h : m.Ready lt P) {n : ℕ}
    (hbefore : ∀ k ∈ m.kept.take n, ∀ o ∈ m.other.head?, lt o k = false) :
    Steps lt P m n (m.putKept n) := by
  have hresult : m.result lt =
      ((m.kept.take n).reverse ++ m.out).reverse ++ mergeHeads lt (m.kept.drop n) m.other := by
    conv_lhs => rw [result, ← List.take_append_drop n m.kept, mergeHeads_append_left hbefore]
    simp
  rw [putKept]
  split
  · rename_i hdrop
    apply Steps.finished
    rw [hresult, hdrop, nil_mergeHeads]
  · rename_i k hdrop
    have hlast : ∀ o ∈ m.other, lt o k = true := by
      apply h.last
      rw [← List.take_append_drop n m.kept, hdrop, List.getLast?_append]
      rfl
    apply Steps.finished
    rw [hresult, hdrop, mergeHeads_singleton hlast, List.append_assoc]
  · rename_i hmany hone
    refine ⟨hresult.symm, fun m' hgoing => ?_⟩
    have hn : n < m.kept.length := by
      by_contra hge
      exact hmany (List.drop_eq_nil_of_le (by omega))
    cases hgoing
    have hready := h.drop n 0 ((m.kept.take n).reverse ++ m.out)
    refine ⟨hready, ?_⟩
    simp only [remaining, List.length_drop]
    omega

theorem steps_putOther {m : Merging α} (h : m.Ready lt P) {n : ℕ}
    (hbefore : ∀ o ∈ m.other.take n, ∀ k ∈ m.kept.head?, lt o k = true) :
    Steps lt P m n (m.putOther n) := by
  have hresult : m.result lt =
      ((m.other.take n).reverse ++ m.out).reverse ++ mergeHeads lt m.kept (m.other.drop n) := by
    conv_lhs => rw [result, ← List.take_append_drop n m.other, mergeHeads_append_right hbefore]
    simp
  rw [putOther]
  split
  · rename_i hdrop
    apply Steps.finished
    rw [hresult, hdrop, mergeHeads_nil]
  · rename_i hsome
    refine ⟨hresult.symm, fun m' hgoing => ?_⟩
    have hn : n < m.other.length := by
      by_contra hge
      exact hsome (List.drop_eq_nil_of_le (by omega))
    cases hgoing
    have hready := h.drop 0 n ((m.other.take n).reverse ++ m.out)
    refine ⟨hready, ?_⟩
    simp only [remaining, List.length_drop]
    omega

end Merging

/-! ## The steps of a rule -/

namespace Merging

theorem Steps.weaken {m : Merging α} {n k : ℕ} {p : Progress α} (h : Steps lt P m n p)
    (hk : k ≤ n) : Steps lt P m k p := by
  refine ⟨h.result, fun m' hgoing => ⟨(h.ready m' hgoing).1, ?_⟩⟩
  have hless := (h.ready m' hgoing).2
  omega

/-- A gallop that counts nothing puts out nothing. -/
theorem steps_unless_zero {m : Merging α} {n : ℕ} {p : Progress α} (hm : m.Ready lt P)
    (h : Steps lt P m n p) : Steps lt P m 0 (if n = 0 then .going m else p) := by
  split
  · exact .refl hm
  · exact h.weaken (Nat.zero_le n)

theorem sides_of_putKept {m m' : Merging α} {n : ℕ}
    (h : (if n = 0 then .going m else m.putKept n) = .going m') :
    m'.kept = m.kept.drop n ∧ m'.other = m.other := by
  split at h
  · rename_i hzero
    cases h
    exact ⟨by rw [hzero, List.drop_zero], rfl⟩
  · rw [putKept] at h
    split at h
    · cases h
    · cases h
    · cases h
      exact ⟨rfl, rfl⟩

theorem sides_of_putOther {m m' : Merging α} {n : ℕ}
    (h : (if n = 0 then .going m else m.putOther n) = .going m') :
    m'.kept = m.kept ∧ m'.other = m.other.drop n := by
  split at h
  · rename_i hzero
    cases h
    exact ⟨rfl, by rw [hzero, List.drop_zero]⟩
  · rw [putOther] at h
    split at h
    · cases h
    · cases h
      exact ⟨rfl, rfl⟩

end Merging

namespace Rule

variable {r : Rule α ε}

/-- Items at the head of the kept side that the head of the other one is not below go out first. -/
theorem steps_gallopKept (h : StrictOn lt P) (hr : Answers r.otherFirst (fun k o => lt o k) P)
    {m : Merging α} (hm : m.Ready lt P) :
    ∃ n p, r.gallopKept m = .ok (n, p) ∧ Merging.Steps lt P m 1 p := by
  rw [gallopKept]
  split
  · rename_i hother
    refine ⟨_, _, rfl, .finished _ ?_⟩
    rw [Merging.result, hother, mergeHeads_nil]
  · rename_i o others hother
    have ho : P o := hm.other o (by simp [hother])
    obtain ⟨n, hcount, hpass, hfail⟩ := exists_gallop_not_below h r.fromEnd ho hm.kept
      hm.keptSorted fun k hk => hr (hm.kept k hk) ho
    rw [hcount]
    have hput : Merging.Steps lt P m n (m.putKept n) := by
      refine Merging.steps_putKept hm fun k hk o' ho' => ?_
      obtain rfl : o = o' := by simpa [hother] using ho'
      exact hpass k hk
    have hlast : ∀ m', (if n = 0 then .going m else m.putKept n) = .going m' →
        ∃ q, (.ok (m'.putOther 1) : Except ε _) = .ok q ∧ Merging.Steps lt P m' 1 q := by
      intro m' hgoing
      obtain ⟨hkept', hother'⟩ := Merging.sides_of_putKept hgoing
      have hready := ((Merging.steps_unless_zero hm hput).ready m' hgoing).1
      refine ⟨_, rfl, Merging.steps_putOther hready fun o' ho' k hk => ?_⟩
      obtain rfl : o' = o := by simpa [hother', hother] using ho'
      rw [hkept'] at hk
      exact hfail k (List.mem_of_mem_head? hk)
    obtain ⟨p, hp, hsteps⟩ := (Merging.steps_unless_zero hm hput).andThen hlast
    exact ⟨n, p, by simp [hp, Except.map], hsteps⟩

/-- Items at the head of the other side that are below the head of the kept one go out first. -/
theorem steps_gallopOther (h : StrictOn lt P) (hr : Answers r.otherFirst (fun k o => lt o k) P)
    {m : Merging α} (hm : m.Ready lt P) :
    ∃ n p, r.gallopOther m = .ok (n, p) ∧ Merging.Steps lt P m 1 p := by
  rw [gallopOther]
  split
  · rename_i hkept
    refine ⟨_, _, rfl, .finished _ ?_⟩
    rw [Merging.result, hkept, nil_mergeHeads]
  · rename_i k others hkept
    have hk : P k := hm.kept k (by simp [hkept])
    have hanswer : ∀ o ∈ m.other, r.otherFirst k o = .ok (lt o k) :=
      fun o ho => hr hk (hm.other o ho)
    have hborder : m.other.Pairwise fun a b => lt b k = true → lt a k = true :=
      hm.otherSorted.imp_of_mem fun {a b} ha hb hab hbelow =>
        h.not_trans' (hm.other a ha) (hm.other b hb) hk hab hbelow
    obtain ⟨n, hcount, hpass, hfail⟩ := exists_gallop r.fromEnd hanswer hborder
    rw [hcount]
    have hput : Merging.Steps lt P m n (m.putOther n) := by
      refine Merging.steps_putOther hm fun o ho k' hk' => ?_
      obtain rfl : k = k' := by simpa [hkept] using hk'
      exact hpass o ho
    have hlast : ∀ m', (if n = 0 then .going m else m.putOther n) = .going m' →
        ∃ q, (.ok (m'.putKept 1) : Except ε _) = .ok q ∧ Merging.Steps lt P m' 1 q := by
      intro m' hgoing
      obtain ⟨hkept', hother'⟩ := Merging.sides_of_putOther hgoing
      have hready := ((Merging.steps_unless_zero hm hput).ready m' hgoing).1
      refine ⟨_, rfl, Merging.steps_putKept hready fun k' hk' o ho => ?_⟩
      obtain rfl : k' = k := by simpa [hkept', hkept] using hk'
      rw [hother'] at ho
      exact hfail o (List.mem_of_mem_head? ho)
    obtain ⟨p, hp, hsteps⟩ := (Merging.steps_unless_zero hm hput).andThen hlast
    exact ⟨n, p, by simp [hp, Except.map], hsteps⟩

theorem steps_gallopBoth (h : StrictOn lt P) (hr : Answers r.otherFirst (fun k o => lt o k) P)
    {m : Merging α} (hm : m.Ready lt P) :
    ∃ n p, r.gallopBoth m = .ok (n, p) ∧ Merging.Steps lt P m 1 p := by
  have hfirst {m : Merging α} (hm : m.Ready lt P) :
      ∃ n p, (if r.fromEnd then r.gallopOther else r.gallopKept) m = .ok (n, p) ∧
        Merging.Steps lt P m 1 p := by
    split
    · exact steps_gallopOther h hr hm
    · exact steps_gallopKept h hr hm
  have hsecond {m : Merging α} (hm : m.Ready lt P) :
      ∃ n p, (if r.fromEnd then r.gallopKept else r.gallopOther) m = .ok (n, p) ∧
        Merging.Steps lt P m 1 p := by
    split
    · exact steps_gallopKept h hr hm
    · exact steps_gallopOther h hr hm
  obtain ⟨n, p, hone, hsteps⟩ := hfirst hm
  rw [gallopBoth]
  simp only [hone]
  cases p with
  | finished items patience => exact ⟨n, _, rfl, hsteps⟩
  | going m' =>
      obtain ⟨k, q, htwo, hsteps'⟩ := hsecond (hsteps.ready m' rfl).1
      simp only [htwo]
      exact ⟨_, q, rfl, (hsteps.trans hsteps').weaken (Nat.le_add_right 1 1)⟩

theorem steps_compareHeads (hr : Answers r.otherFirst (fun k o => lt o k) P) {m : Merging α}
    (hm : m.Ready lt P) (keptWins otherWins : ℕ) :
    ∃ wins p, r.compareHeads keptWins otherWins m = .ok (wins, p) ∧ Merging.Steps lt P m 1 p := by
  rw [compareHeads]
  split
  · rename_i k kept o other hkept hother
    have hanswer : r.otherFirst k o = .ok (lt o k) :=
      hr (hm.kept k (by simp [hkept])) (hm.other o (by simp [hother]))
    cases hlt : lt o k with
    | true =>
        rw [hanswer, hlt]
        refine ⟨_, _, rfl, Merging.steps_putOther hm fun o' ho' k' hk' => ?_⟩
        obtain rfl : o' = o := by simpa [hother] using ho'
        obtain rfl : k = k' := by simpa [hkept] using hk'
        exact hlt
    | false =>
        rw [hanswer, hlt]
        refine ⟨_, _, rfl, Merging.steps_putKept hm fun k' hk' o' ho' => ?_⟩
        obtain rfl : o = o' := by simpa [hother] using ho'
        obtain rfl : k' = k := by simpa [hkept] using hk'
        exact hlt
  · rename_i hsome
    refine ⟨_, _, rfl, .finished _ ?_⟩
    rw [Merging.result, List.append_assoc]
    congr 1
    cases hkept : m.kept with
    | nil => simp
    | cons k kept =>
        cases hother : m.other with
        | nil => simp
        | cons o other => exact absurd hother (hsome k kept o other hkept)

/-- A merge that goes on, at whatever pace, comes to the result of its items. -/
theorem exists_mergeFrom (h : StrictOn lt P) (hr : Answers r.otherFirst (fun k o => lt o k) P)
    {fuel : ℕ} {pace : Pace} {m : Merging α} (hm : m.Ready lt P) (hfuel : m.remaining ≤ fuel) :
    ∃ items patience, r.mergeFrom fuel pace m = .ok (items, patience) ∧ items = m.result lt := by
  induction fuel generalizing pace m with
  | zero =>
      have hnone : m.kept.length + m.other.length = 0 := Nat.le_zero.mp hfuel
      have hkept : m.kept = [] := List.length_eq_zero_iff.mp (by omega)
      have hother : m.other = [] := List.length_eq_zero_iff.mp (by omega)
      exact ⟨_, _, rfl, by simp [Merging.result, hkept, hother]⟩
  | succ fuel ih =>
      have hnext {m' : Merging α} {items : List α} (pace : Pace) (patience : ℕ)
          (hsteps : Merging.Steps lt P m 1 (.going m')) (hitems : m.result lt = items) :
          ∃ items' last, r.mergeFrom fuel pace { m' with patience := patience } =
            .ok (items', last) ∧ items' = items := by
        obtain ⟨hready, hless⟩ := hsteps.ready m' rfl
        have hfuel' : Merging.remaining { m' with patience := patience } ≤ fuel := by
          simp only [Merging.remaining] at *
          omega
        obtain ⟨items', last, hlast, hresult⟩ := ih (hready.patience patience) hfuel'
        exact ⟨items', last, hlast, hresult.trans (hsteps.result.trans hitems)⟩
      cases pace with
      | comparing keptWins otherWins =>
          obtain ⟨wins, p, hheads, hsteps⟩ := steps_compareHeads hr hm keptWins otherWins
          rw [mergeFrom, hheads]
          cases p with
          | finished items patience => exact ⟨items, patience, rfl, hsteps.result⟩
          | going m' =>
              dsimp only
              split
              · exact hnext _ _ hsteps rfl
              · exact hnext _ m'.patience hsteps rfl
      | galloping =>
          obtain ⟨n, p, hboth, hsteps⟩ := steps_gallopBoth h hr
            (hm.patience (max 1 (m.patience - 1)))
          have hsteps' : Merging.Steps lt P m 1 p := ⟨hsteps.result, hsteps.ready⟩
          rw [mergeFrom, hboth]
          cases p with
          | finished items patience => exact ⟨items, patience, rfl, hsteps.result⟩
          | going m' =>
              dsimp only
              split
              · exact hnext _ m'.patience hsteps' rfl
              · exact hnext _ _ hsteps' rfl

/-- A merge of two sorted sides, of which the other one has the first item and the kept one the
last. -/
theorem exists_merge (h : StrictOn lt P) (hr : Answers r.otherFirst (fun k o => lt o k) P)
    {kept other : List α} {patience : ℕ} (hm : Merging.Ready lt P ⟨kept, other, [], patience⟩)
    (hfirst : ∀ o ∈ other.head?, ∀ k ∈ kept.head?, lt o k = true) :
    ∃ items last, r.merge kept other patience = .ok (items, last) ∧
      items = mergeHeads lt kept other := by
  have hput : Merging.Steps lt P ⟨kept, other, [], patience⟩ 1
      (Merging.putOther ⟨kept, other, [], patience⟩ 1) := by
    refine Merging.steps_putOther hm fun o ho k hk => hfirst o ?_ k hk
    cases other with
    | nil => simp at ho
    | cons o' other =>
        obtain rfl : o = o' := by simpa using ho
        rfl
  rw [merge]
  split
  · rename_i items patience' hdone
    rw [hdone] at hput
    exact ⟨items, patience', rfl, hput.result⟩
  · rename_i m hgoing
    rw [hgoing] at hput
    obtain ⟨hready, hless⟩ := hput.ready m rfl
    have hresult : m.result lt = mergeHeads lt kept other := hput.result
    split
    · rename_i k hone
      refine ⟨_, _, rfl, ?_⟩
      have hbelow : ∀ o ∈ m.other, lt o k = true :=
        hready.last k (by simp [hone])
      rw [← hresult, Merging.result, hone, mergeHeads_singleton hbelow, List.append_assoc]
    · rw [← hresult]
      refine exists_mergeFrom h hr hready ?_
      simp only [Merging.remaining] at hless ⊢
      omega

end Rule

/-! ## Neighbouring runs -/

/-- Items that stand in their place already may be left out of an arrangement. -/
theorem arranges_placed {front left right back items : List α}
    (h : Arranges lt P (left ++ right) items)
    (hleft : Sorted lt (front ++ left)) (hright : Sorted lt (right ++ back))
    (hfront : ∀ x ∈ front, ∀ y ∈ right ++ back, lt y x = false)
    (hback : ∀ y ∈ back, ∀ x ∈ left, lt y x = false) :
    Arranges lt P (front ++ left ++ (right ++ back)) (front ++ items ++ back) := by
  have hl := List.pairwise_append.mp hleft
  have hr := List.pairwise_append.mp hright
  refine ⟨?_, ?_, fun v hv => ?_⟩
  · have hitems := (h.perm.append_left front).append_right back
    simpa only [List.append_assoc] using hitems
  · rw [List.append_assoc]
    refine List.pairwise_append.mpr ⟨hl.1, List.pairwise_append.mpr ⟨h.sorted, hr.2.1, ?_⟩, ?_⟩
    · intro x hx y hy
      rcases List.mem_append.mp (h.perm.mem_iff.mp hx) with hx | hx
      · exact hback y hy x hx
      · exact hr.2.2 x hx y hy
    · intro x hx y hy
      rcases List.mem_append.mp hy with hy | hy
      · rcases List.mem_append.mp (h.perm.mem_iff.mp hy) with hy | hy
        · exact hl.2.2 x hx y hy
        · exact hfront x hx y (List.mem_append_left _ hy)
      · exact hfront x hx y (List.mem_append_right _ hy)
  · simp only [List.filter_append, h.ties v hv, List.append_assoc]

section Interleaved

variable {left right : List α} (hpl : ∀ x ∈ left, P x) (hpr : ∀ y ∈ right, P y)
  (hl : Sorted lt left) (hr : Sorted lt right)
  (hlast : ∀ x ∈ left.getLast?, ∀ y ∈ right, lt y x = true)
  (hfirst : ∀ y ∈ right.head?, ∀ x ∈ left, lt y x = true)

include hpl hpr hl hr hlast hfirst

theorem arranges_forward (h : StrictOn lt P) (hless : Answers less lt P) (patience : ℕ) :
    ∃ items last, Rule.merge ⟨fun x y => less y x, false⟩ left right patience = .ok (items, last) ∧
      Arranges lt P (left ++ right) items := by
  have hready : Merging.Ready lt P ⟨left, right, [], patience⟩ := ⟨hpl, hpr, hl, hr, hlast⟩
  have hheads : ∀ y ∈ right.head?, ∀ x ∈ left.head?, lt y x = true :=
    fun y hy x hx => hfirst y hy x (List.mem_of_mem_head? hx)
  obtain ⟨items, last, hmerge, rfl⟩ :=
    Rule.exists_merge (r := ⟨fun x y => less y x, false⟩) h hless.flip hready hheads
  exact ⟨_, last, hmerge, arranges_mergeHeads h hpl hpr hl hr⟩

/-- Seen from their ends, both sides are in the opposite order. -/
theorem arranges_backward (h : StrictOn lt P) (hless : Answers less lt P) (patience : ℕ) :
    ∃ items last, Rule.merge ⟨less, true⟩ right.reverse left.reverse patience =
        .ok (items, last) ∧
      Arranges lt P (left ++ right) items.reverse := by
  have hpr' : ∀ y ∈ right.reverse, P y := by simpa using hpr
  have hpl' : ∀ x ∈ left.reverse, P x := by simpa using hpl
  have hr' : Sorted (fun a b => lt b a) right.reverse := sorted_reverse.mpr hr
  have hl' : Sorted (fun a b => lt b a) left.reverse := sorted_reverse.mpr hl
  have hready : Merging.Ready (fun a b => lt b a) P
      ⟨right.reverse, left.reverse, [], patience⟩ := by
    refine ⟨hpr', hpl', hr', hl', fun y hy x hx => ?_⟩
    rw [List.getLast?_reverse] at hy
    exact hfirst y hy x (List.mem_reverse.mp hx)
  have hheads : ∀ x ∈ left.reverse.head?, ∀ y ∈ right.reverse.head?, lt y x = true := by
    intro x hx y hy
    rw [List.head?_reverse] at hx
    exact hlast x hx y (List.mem_reverse.mp (List.mem_of_mem_head? hy))
  obtain ⟨items, last, hmerge, rfl⟩ :=
    Rule.exists_merge (r := ⟨less, true⟩) h.flip hless hready hheads
  have hflipped := (arranges_mergeHeads h.flip hpr' hpl' hr' hl').reverse
  rw [← List.reverse_append, List.reverse_reverse] at hflipped
  exact ⟨_, last, hmerge, hflipped⟩

/-- Whichever side is kept, the items are arranged. -/
theorem arranges_shorter (h : StrictOn lt P) (hless : Answers less lt P) (patience : ℕ)
    (placed : List α → List α) :
    ∃ items last,
      (if left.length ≤ right.length then
        (Rule.merge ⟨fun x y => less y x, false⟩ left right patience).map
          fun (items, patience) => (placed items, patience)
      else
        (Rule.merge ⟨less, true⟩ right.reverse left.reverse patience).map
          fun (items, patience) => (placed items.reverse, patience)) = .ok (placed items, last) ∧
      Arranges lt P (left ++ right) items := by
  split
  · obtain ⟨items, last, hmerge, hitems⟩ :=
      arranges_forward hpl hpr hl hr hlast hfirst h hless patience
    exact ⟨items, last, by rw [hmerge]; rfl, hitems⟩
  · obtain ⟨items, last, hmerge, hitems⟩ :=
      arranges_backward hpl hpr hl hr hlast hfirst h hless patience
    exact ⟨items.reverse, last, by rw [hmerge]; rfl, hitems⟩

/-- Merging the parts of two runs that overlap, with the other parts left in their place, arranges
both runs. -/
theorem arranges_overlap (h : StrictOn lt P) (hless : Answers less lt P) (patience : ℕ)
    {front back : List α} (hfrontLeft : Sorted lt (front ++ left))
    (hrightBack : Sorted lt (right ++ back))
    (hfront : ∀ x ∈ front, ∀ y ∈ right ++ back, lt y x = false)
    (hback : ∀ y ∈ back, ∀ x ∈ left, lt y x = false) :
    ∃ items last,
      (if left.length ≤ right.length then
        (Rule.merge ⟨fun x y => less y x, false⟩ left right patience).map
          fun (items, patience) => (front ++ items ++ back, patience)
      else
        (Rule.merge ⟨less, true⟩ right.reverse left.reverse patience).map
          fun (items, patience) => (front ++ items.reverse ++ back, patience)) =
        .ok (items, last) ∧
      Arranges lt P (front ++ left ++ (right ++ back)) items := by
  obtain ⟨items, last, hmerge, hitems⟩ :=
    arranges_shorter hpl hpr hl hr hlast hfirst h hless patience fun items => front ++ items ++ back
  exact ⟨_, last, hmerge, arranges_placed hitems hfrontLeft hrightBack hfront hback⟩

end Interleaved

/-- Merging two neighbouring runs arranges their items. -/
theorem arranges_mergeRuns (h : StrictOn lt P) (hless : Answers less lt P) (patience : ℕ)
    {xs ys : List α} (hpxs : ∀ x ∈ xs, P x) (hpys : ∀ y ∈ ys, P y) (hxs : Sorted lt xs)
    (hys : Sorted lt ys) :
    ∃ items last, mergeRuns less patience xs ys = .ok (items, last) ∧
      Arranges lt P (xs ++ ys) items := by
  cases ys with
  | nil => exact ⟨xs, patience, rfl, by simpa using Arranges.refl_of_sorted hxs⟩
  | cons y rest =>
      have hy : P y := hpys y List.mem_cons_self
      obtain ⟨before, hbefore, hfront, hleft⟩ :=
        exists_gallop_not_below h false hy hpxs hxs fun x hx => hless hy (hpxs x hx)
      have hplaced : ∀ x ∈ xs.take before, ∀ z ∈ y :: rest, lt z x = false := fun x hx z hz =>
        h.not_trans (hpys z hz) hy (hpxs x (List.mem_of_mem_take hx))
          (Sorted.not_lt_head h hy hys z hz) (hfront x hx)
      rw [mergeRuns]
      simp only [hbefore]
      split
      · rename_i hnone
        have hall : xs.take before = xs := by
          rw [← List.append_nil (xs.take before), ← List.getLast?_eq_none_iff.mp hnone,
            List.take_append_drop]
        rw [hall] at hplaced
        exact ⟨_, _, rfl, .refl_of_sorted (List.pairwise_append.mpr ⟨hxs, hys, hplaced⟩)⟩
      · rename_i last hlast
        have hmem : last ∈ xs.drop before := List.mem_of_getLast? hlast
        have hpleft : ∀ x ∈ xs.drop before, P x := fun x hx => hpxs x (List.mem_of_mem_drop hx)
        have hpl : P last := hpleft last hmem
        obtain ⟨behind, hbehind, hright, hback⟩ := exists_gallop_reverse h hless hpl hpys hys
        simp only [hbehind]
        generalize (y :: rest).length - behind = upto at hright hback ⊢
        -- The first item of the second run is below the last one of the first, so the gallop from
        -- the end stops short of it.
        cases upto with
        | zero => simp [hleft last hmem] at hback
        | succ upto =>
            have hxsParts : xs.take before ++ xs.drop before = xs := List.take_append_drop _ _
            have hysParts : (y :: rest).take (upto + 1) ++ (y :: rest).drop (upto + 1) = y :: rest :=
              List.take_append_drop _ _
            have hsides := List.pairwise_append.mp (hxsParts.symm ▸ hxs)
            have hends := List.pairwise_append.mp (hysParts.symm ▸ hys)
            have hpright : ∀ z ∈ (y :: rest).take (upto + 1), P z :=
              fun z hz => hpys z (List.mem_of_mem_take hz)
            have hlastBelow : ∀ x ∈ (xs.drop before).getLast?, ∀ z ∈ (y :: rest).take (upto + 1),
                lt z x = true := by
              intro x hx z hz
              obtain rfl : last = x := Option.some.inj (hlast.symm.trans hx)
              exact hright z hz
            have hfirstBelow : ∀ z ∈ ((y :: rest).take (upto + 1)).head?, ∀ x ∈ xs.drop before,
                lt z x = true := by
              intro z hz x hx
              obtain rfl : y = z := by simpa using hz
              exact hleft x hx
            have hbehindAll : ∀ z ∈ (y :: rest).drop (upto + 1), ∀ x ∈ xs.drop before,
                lt z x = false := fun z hz x hx =>
              h.not_trans (hpys z (List.mem_of_mem_drop hz)) hpl (hpleft x hx) (hback z hz)
                (Sorted.not_last_lt h hpleft hsides.2.1 hlast hx)
            have hoverlap := arranges_overlap hpleft hpright hsides.2.1 hends.1 hlastBelow
              hfirstBelow h hless patience (hxsParts.symm ▸ hxs) (hysParts.symm ▸ hys)
              (hysParts.symm ▸ hplaced) hbehindAll
            rwa [hxsParts, hysParts] at hoverlap

end PageQuery.Ordering
