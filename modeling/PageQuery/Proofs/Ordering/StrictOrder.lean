import Mathlib
import PageQuery.Proofs.Ordering.Permutation

/-!
# Stable arrangements

A comparison answers for the items of interest by a strict weak order: items of which neither is
below the other are tied.  A list arranges another one stably if it holds the same items in order and
tied items stand in it as they stood before.  Merging two sorted lists from their heads arranges
their concatenation, which is the pattern that every other way of sorting is measured against.
-/

namespace PageQuery.Ordering

variable {α ε : Type}

/-- A strict weak order of the items with a property. -/
structure StrictOn (lt : α → α → Bool) (P : α → Prop) : Prop where
  asymm : ∀ {a b}, P a → P b → lt a b = true → lt b a = false
  split : ∀ {a b c}, P a → P b → P c → lt a c = true → lt a b = true ∨ lt b c = true

/-- A comparison answers for the items with a property. -/
def Answers (less : α → α → Except ε Bool) (lt : α → α → Bool) (P : α → Prop) : Prop :=
  ∀ {a b}, P a → P b → less a b = .ok (lt a b)

/-- No item is below one that stands before it. -/
def Sorted (lt : α → α → Bool) (xs : List α) : Prop :=
  xs.Pairwise fun a b => lt b a = false

/-- Neither of two items is below the other. -/
def tied (lt : α → α → Bool) (v a : α) : Bool :=
  !lt v a && !lt a v

/-- A list holds the items of another one, tied ones as they stood there. -/
structure Keeps (lt : α → α → Bool) (P : α → Prop) (xs ys : List α) : Prop where
  perm : ys.Perm xs
  ties : ∀ v, P v → ys.filter (tied lt v) = xs.filter (tied lt v)

/-- A list holds the items of another one in order, tied ones as they stood there. -/
structure Arranges (lt : α → α → Bool) (P : α → Prop) (xs ys : List α) : Prop where
  perm : ys.Perm xs
  sorted : Sorted lt ys
  ties : ∀ v, P v → ys.filter (tied lt v) = xs.filter (tied lt v)

variable {lt : α → α → Bool} {P : α → Prop}

namespace StrictOn

theorem flip (h : StrictOn lt P) : StrictOn (fun a b => lt b a) P where
  asymm ha hb hlt := h.asymm hb ha hlt
  split ha hb hc hlt := (h.split hc hb ha hlt).symm

/-- Items that stand for others are ordered as these are. -/
theorem comap {β : Type} (h : StrictOn lt P) (g : β → α) :
    StrictOn (fun a b => lt (g a) (g b)) fun a => P (g a) where
  asymm ha hb hlt := h.asymm ha hb hlt
  split ha hb hc hlt := h.split ha hb hc hlt

theorem irrefl (h : StrictOn lt P) {a : α} (ha : P a) : lt a a = false := by
  by_contra hlt
  have hself : lt a a = true := by simpa using hlt
  exact hlt (h.asymm ha ha hself)

theorem not_trans (h : StrictOn lt P) {a b c : α} (ha : P a) (hb : P b) (hc : P c)
    (hab : lt a b = false) (hbc : lt b c = false) : lt a c = false := by
  by_contra hac
  have hlt : lt a c = true := by simpa using hac
  rcases h.split ha hb hc hlt with hone | hone
  · simp [hab] at hone
  · simp [hbc] at hone

theorem trans_not (h : StrictOn lt P) {a b c : α} (ha : P a) (hb : P b) (hc : P c)
    (hab : lt a b = true) (hcb : lt c b = false) : lt a c = true := by
  rcases h.split ha hc hb hab with hlt | hlt
  · exact hlt
  · simp [hcb] at hlt

theorem not_trans' (h : StrictOn lt P) {a b c : α} (ha : P a) (hb : P b) (hc : P c)
    (hba : lt b a = false) (hbc : lt b c = true) : lt a c = true := by
  rcases h.split hb ha hc hbc with hlt | hlt
  · simp [hba] at hlt
  · exact hlt

theorem trans (h : StrictOn lt P) {a b c : α} (ha : P a) (hb : P b) (hc : P c)
    (hab : lt a b = true) (hbc : lt b c = true) : lt a c = true :=
  h.trans_not ha hb hc hab (h.asymm hb hc hbc)

/-- Of an item and one below it, at most one is tied with a third one. -/
theorem tied_of_lt (h : StrictOn lt P) {v a b : α} (hv : P v) (ha : P a) (hb : P b)
    (hab : lt a b = true) (htied : tied lt v a = true) : tied lt v b = false := by
  simp only [tied, Bool.and_eq_true, Bool.not_eq_true'] at htied
  have hvb : lt v b = true := h.not_trans' hv ha hb htied.2 hab
  simp [tied, hvb]

end StrictOn

theorem tied_flip : tied (fun a b => lt b a) = tied lt := by
  funext v a
  rw [tied, tied, Bool.and_comm]

theorem sorted_reverse {xs : List α} :
    Sorted lt xs.reverse ↔ Sorted (fun a b => lt b a) xs := List.pairwise_reverse

theorem Answers.flip {less : α → α → Except ε Bool} (h : Answers less lt P) :
    Answers (fun a b => less b a) (fun a b => lt b a) P := fun ha hb => h hb ha

theorem Answers.comap {β : Type} {less : α → α → Except ε Bool} (h : Answers less lt P) (g : β → α) :
    Answers (fun a b => less (g a) (g b)) (fun a b => lt (g a) (g b)) fun a => P (g a) :=
  fun ha hb => h ha hb

/-! ## Ties in ordered lists -/

/-- Behind an item that is below all items of a list, none of its ties is left. -/
theorem filter_tied_of_lt (h : StrictOn lt P) {v y : α} {xs : List α} (hv : P v) (hy : P y)
    (hxs : ∀ x ∈ xs, P x) (hlt : ∀ x ∈ xs, lt y x = true) (htied : tied lt v y = true) :
    xs.filter (tied lt v) = [] := by
  apply List.filter_eq_nil_iff.mpr
  intro x hx
  simp [h.tied_of_lt hv hy (hxs x hx) (hlt x hx) htied]

/-- A list without ties may be reversed. -/
theorem filter_tied_reverse (h : StrictOn lt P) {v : α} {xs : List α} (hv : P v)
    (hxs : ∀ x ∈ xs, P x) (hlt : xs.Pairwise fun a b => lt a b = true) :
    xs.reverse.filter (tied lt v) = xs.filter (tied lt v) := by
  induction xs with
  | nil => rfl
  | cons x xs ih =>
      have hrest := ih (fun y hy => hxs y (List.mem_cons_of_mem _ hy)) hlt.tail
      rw [List.reverse_cons, List.filter_append, hrest]
      by_cases htied : tied lt v x = true
      · have hnone := filter_tied_of_lt h hv (hxs x List.mem_cons_self)
          (fun y hy => hxs y (List.mem_cons_of_mem _ hy))
          (fun y hy => List.rel_of_pairwise_cons hlt hy) htied
        simp [htied, hnone]
      · simp [htied]

/-- An item may pass over items that are all below it. -/
theorem filter_tied_cons (h : StrictOn lt P) {v y : α} {xs : List α} (hv : P v) (hy : P y)
    (hxs : ∀ x ∈ xs, P x) (hlt : ∀ x ∈ xs, lt y x = true) :
    (y :: xs).filter (tied lt v) = (xs ++ [y]).filter (tied lt v) := by
  rw [List.filter_append, List.filter_cons]
  by_cases htied : tied lt v y = true
  · simp [htied, filter_tied_of_lt h hv hy hxs hlt htied]
  · simp [htied]

/-- No item of a sorted list is below its first one. -/
theorem Sorted.not_lt_head (h : StrictOn lt P) {x : α} {xs : List α} (hx : P x)
    (hsorted : Sorted lt (x :: xs)) : ∀ y ∈ x :: xs, lt y x = false :=
  List.forall_mem_cons.mpr ⟨h.irrefl hx, fun _ hy => List.rel_of_pairwise_cons hsorted hy⟩

/-- The last item of a sorted list is below none of them. -/
theorem Sorted.not_last_lt (h : StrictOn lt P) {xs : List α} (hxs : ∀ x ∈ xs, P x)
    (hsorted : Sorted lt xs) {last x : α} (hlast : last ∈ xs.getLast?) (hx : x ∈ xs) :
    lt last x = false := by
  obtain ⟨before, rfl⟩ := List.getLast?_eq_some_iff.mp hlast
  rcases List.mem_append.mp hx with hmem | hmem
  · exact (List.pairwise_append.mp hsorted).2.2 x hmem last (List.mem_singleton_self last)
  · obtain rfl := List.mem_singleton.mp hmem
    exact h.irrefl (hxs x hx)

/-! ## Arrangements -/

namespace Keeps

theorem refl (xs : List α) : Keeps lt P xs xs := ⟨.refl _, fun _ _ => rfl⟩

theorem trans {xs ys zs : List α} (h : Keeps lt P xs ys) (h' : Keeps lt P ys zs) :
    Keeps lt P xs zs :=
  ⟨h'.perm.trans h.perm, fun v hv => (h'.ties v hv).trans (h.ties v hv)⟩

theorem append {xs xs' ys ys' : List α} (h : Keeps lt P xs xs') (h' : Keeps lt P ys ys') :
    Keeps lt P (xs ++ ys) (xs' ++ ys') := by
  refine ⟨h.perm.append h'.perm, fun v hv => ?_⟩
  rw [List.filter_append, List.filter_append, h.ties v hv, h'.ties v hv]

end Keeps

namespace Arranges

theorem refl_of_sorted {xs : List α} (h : Sorted lt xs) : Arranges lt P xs xs :=
  ⟨.refl _, h, fun _ _ => rfl⟩

theorem keeps {xs ys : List α} (h : Arranges lt P xs ys) : Keeps lt P xs ys := ⟨h.perm, h.ties⟩

theorem mem {xs ys : List α} (h : Arranges lt P xs ys) (hxs : ∀ x ∈ xs, P x) :
    ∀ y ∈ ys, P y := fun y hy => hxs y (h.perm.mem_iff.mp hy)

/-- Items may be moved before they are arranged, but for ties. -/
theorem of_keeps {xs ys zs : List α} (h : Arranges lt P ys zs) (hkeeps : Keeps lt P xs ys) :
    Arranges lt P xs zs :=
  ⟨h.perm.trans hkeeps.perm, h.sorted, fun v hv => (h.ties v hv).trans (hkeeps.ties v hv)⟩

/-- The reverse of an arrangement in the opposite order. -/
theorem reverse {xs ys : List α} (h : Arranges (fun a b => lt b a) P xs ys) :
    Arranges lt P xs.reverse ys.reverse where
  perm := (List.reverse_perm _).trans (h.perm.trans (List.reverse_perm _).symm)
  sorted := sorted_reverse.mpr h.sorted
  ties v hv := by
    have hties := h.ties v hv
    rw [tied_flip] at hties
    rw [List.filter_reverse, List.filter_reverse, hties]

/-- Of two items of an arrangement, the first one is below the second one, or they are tied and
stood in this order before. -/
theorem rel_of_sublist {xs ys : List α} {a b : α} (hirrefl : ∀ x ∈ xs, lt x x = false)
    (hxs : ∀ x ∈ xs, P x) (h : Arranges lt P xs ys) (hab : [a, b].Sublist ys) :
    lt a b = true ∨ tied lt a b = true ∧ [a, b].Sublist xs := by
  have hle : lt b a = false := by
    have hpair := h.sorted.sublist hab
    exact List.rel_of_pairwise_cons hpair List.mem_cons_self
  by_cases hlt : lt a b = true
  · exact .inl hlt
  · have ha : a ∈ xs := h.perm.mem_iff.mp (hab.subset List.mem_cons_self)
    have htied : tied lt a b = true := by simp [tied, hle, hlt]
    have hself : tied lt a a = true := by simp [tied, hirrefl a ha]
    have hfilter := hab.filter (tied lt a)
    rw [h.ties a (hxs a ha)] at hfilter
    simp only [List.filter_cons, htied, hself, if_true, List.filter_nil] at hfilter
    exact .inr ⟨htied, hfilter.trans List.filter_sublist⟩

end Arranges

/-! ## Merging from the heads -/

/-- Merges two lists, of whose heads the first one goes out unless the second one is below it. -/
def mergeHeads (lt : α → α → Bool) (xs ys : List α) : List α :=
  xs.merge ys fun x y => !lt y x

@[simp]
theorem mergeHeads_nil (xs : List α) : mergeHeads lt xs [] = xs := by
  simp [mergeHeads]

@[simp]
theorem nil_mergeHeads (ys : List α) : mergeHeads lt [] ys = ys := by
  simp [mergeHeads]

theorem mergeHeads_of_not_lt {x y : α} {xs ys : List α} (h : lt y x = false) :
    mergeHeads lt (x :: xs) (y :: ys) = x :: mergeHeads lt xs (y :: ys) := by
  simp [mergeHeads, h]

theorem mergeHeads_of_lt {x y : α} {xs ys : List α} (h : lt y x = true) :
    mergeHeads lt (x :: xs) (y :: ys) = y :: mergeHeads lt (x :: xs) ys := by
  simp [mergeHeads, h]

/-- What no head of the second list is below goes out first. -/
theorem mergeHeads_append_left {before xs ys : List α}
    (h : ∀ x ∈ before, ∀ y ∈ ys.head?, lt y x = false) :
    mergeHeads lt (before ++ xs) ys = before ++ mergeHeads lt xs ys := by
  cases ys with
  | nil => simp
  | cons y ys =>
      induction before with
      | nil => rfl
      | cons b before ih =>
          have hb : lt y b = false := h b List.mem_cons_self y rfl
          rw [List.cons_append, mergeHeads_of_not_lt hb,
            ih fun x hx => h x (List.mem_cons_of_mem _ hx)]
          rfl

/-- What is below the head of the first list goes out first. -/
theorem mergeHeads_append_right {before xs ys : List α}
    (h : ∀ y ∈ before, ∀ x ∈ xs.head?, lt y x = true) :
    mergeHeads lt xs (before ++ ys) = before ++ mergeHeads lt xs ys := by
  cases xs with
  | nil => simp
  | cons x xs =>
      induction before with
      | nil => rfl
      | cons b before ih =>
          have hb : lt b x = true := h b List.mem_cons_self x rfl
          rw [List.cons_append, mergeHeads_of_lt hb,
            ih fun y hy => h y (List.mem_cons_of_mem _ hy)]
          rfl

/-- One item comes behind all items that are below it. -/
theorem mergeHeads_singleton {x : α} {ys : List α} (h : ∀ y ∈ ys, lt y x = true) :
    mergeHeads lt [x] ys = ys ++ [x] := by
  have hbelow : ∀ y ∈ ys, ∀ z ∈ [x].head?, lt y z = true := by simpa using h
  have happend : mergeHeads lt [x] (ys ++ []) = ys ++ mergeHeads lt [x] [] :=
    mergeHeads_append_right hbelow
  rwa [List.append_nil, mergeHeads_nil] at happend

/-- Merging two sorted lists from their heads arranges one behind the other. -/
theorem arranges_mergeHeads (h : StrictOn lt P) {xs ys : List α} (hpxs : ∀ x ∈ xs, P x)
    (hpys : ∀ y ∈ ys, P y) (hxs : Sorted lt xs) (hys : Sorted lt ys) :
    Arranges lt P (xs ++ ys) (mergeHeads lt xs ys) := by
  induction xs generalizing ys with
  | nil => simpa using Arranges.refl_of_sorted hys
  | cons x xs ihx =>
      induction ys with
      | nil => simpa using Arranges.refl_of_sorted hxs
      | cons y ys ihy =>
          have hx : P x := hpxs x List.mem_cons_self
          have hy : P y := hpys y List.mem_cons_self
          have hptail : ∀ z ∈ xs, P z := fun z hz => hpxs z (List.mem_cons_of_mem _ hz)
          cases hlt : lt y x with
          | false =>
              have hrest := ihx hptail hpys hxs.tail hys
              rw [mergeHeads_of_not_lt hlt]
              refine ⟨hrest.perm.cons x, List.pairwise_cons.mpr ⟨?_, hrest.sorted⟩, ?_⟩
              · intro z hz
                rcases List.mem_append.mp (hrest.perm.mem_iff.mp hz) with hz | hz
                · exact List.rel_of_pairwise_cons hxs hz
                · rcases List.mem_cons.mp hz with rfl | hmem
                  · exact hlt
                  · exact h.not_trans (hpys z hz) hy hx
                      (List.rel_of_pairwise_cons hys hmem) hlt
              · intro v hv
                rw [List.filter_cons, hrest.ties v hv, List.cons_append, List.filter_cons]
          | true =>
              have hrest := ihy (fun z hz => hpys z (List.mem_cons_of_mem _ hz)) hys.tail
              have hbelow : ∀ z ∈ x :: xs, lt y z = true := by
                intro z hz
                rcases List.mem_cons.mp hz with rfl | hmem
                · exact hlt
                · exact h.trans_not hy hx (hpxs z hz) hlt (List.rel_of_pairwise_cons hxs hmem)
              rw [mergeHeads_of_lt hlt]
              refine ⟨(hrest.perm.cons y).trans List.perm_middle.symm,
                List.pairwise_cons.mpr ⟨?_, hrest.sorted⟩, ?_⟩
              · intro z hz
                rcases List.mem_append.mp (hrest.perm.mem_iff.mp hz) with hz | hz
                · exact h.asymm hy (hpxs z hz) (hbelow z hz)
                · exact List.rel_of_pairwise_cons hys hz
              · intro v hv
                calc (y :: mergeHeads lt (x :: xs) ys).filter (tied lt v)
                    = ([y] ++ ((x :: xs) ++ ys)).filter (tied lt v) := by
                      rw [List.filter_append, ← hrest.ties v hv, ← List.filter_append]
                      rfl
                  _ = (y :: (x :: xs)).filter (tied lt v) ++ ys.filter (tied lt v) := by
                      rw [← List.filter_append]
                      rfl
                  _ = (x :: xs ++ y :: ys).filter (tied lt v) := by
                      rw [filter_tied_cons h hv hy hpxs hbelow, ← List.filter_append,
                        List.append_assoc]
                      rfl

end PageQuery.Ordering
