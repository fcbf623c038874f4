import Mathlib
import PageQuery.Proofs.Ordering.Sorting
import PageQuery.Proofs.Value.Comparison

/-!
# The order of sorted records

Sorting runs one stable sort for each key, the last key first.  Where the values that a key finds have an
order of their own, this comes to comparing records once: the first key at which they differ decides by
its direction, an absent value being the smallest one, and records that agree at every key keep their
places.
-/

namespace PageQuery

open PageQuery.Ordering

/-- Of two items of a list, one stands before the other. -/
theorem Ordering.pair_sublist_or {ι : Type} {places : List ι} {i j : ι} (hi : i ∈ places) (hj : j ∈ places)
    (hne : i ≠ j) : [i, j].Sublist places ∨ [j, i].Sublist places := by
  obtain ⟨before, after, rfl⟩ := List.append_of_mem hi
  rcases List.mem_append.mp hj with hbefore | hafter
  · exact .inr ((List.singleton_sublist.mpr hbefore).append
      (List.singleton_sublist.mpr List.mem_cons_self))
  · obtain rfl | hafter := List.mem_cons.mp hafter
    · exact absurd rfl hne
    · exact .inl (((List.singleton_sublist.mpr hafter).cons_cons i).trans (List.sublist_append_right _ _))

namespace Value

variable {u v : Value} {values : List Value} {lt : Value → Value → Bool}

/-! ## Values that have an order -/

/-- Two values agree: both are absent, or they are equal. -/
def Agree (u v : Value) : Prop :=
  u.isNone = true ∧ v.isNone = true ∨ u.isNone = false ∧ v.isNone = false ∧ u.same v = .ok true

/-- A value is smaller than another one: only it is absent, or it is below the other one. -/
def Smaller (u v : Value) : Prop :=
  u.isNone = true ∧ v.isNone = false ∨ u.isNone = false ∧ v.isNone = false ∧ u.less v = .ok true

/-- A value of a list that is not absent. -/
def Present (values : List Value) (v : Value) : Prop :=
  v ∈ values ∧ v.isNone = false

/-- The values of a list can be compared, absent ones aside: they have a strict weak order, and the ones
of which neither is below the other are the equal ones. -/
def Comparable (values : List Value) : Prop :=
  ∃ lt, StrictOn lt (Present values) ∧ Answers less lt (Present values) ∧
    Answers same (tied lt) (Present values)

/-- A value is below another one, as far as they can be compared. -/
def isBelow (u v : Value) : Bool :=
  (u.less v).toOption.getD false

/-- Values of one kind that has a linear order can be compared. -/
theorem comparable_of_order {β : Type} [LinearOrder β] {f : β → Value}
    (hless : ∀ m n, (f m).less (f n) = .ok (decide (m < n)))
    (hsame : ∀ m n, (f m).same (f n) = .ok (m == n))
    (h : ∀ v ∈ values, v = .none ∨ ∃ n, v = f n) : Comparable values := by
  have hpresent {v : Value} (hv : Present values v) : ∃ n, v = f n := by
    rcases h v hv.1 with rfl | hn
    · cases hv.2
    · exact hn
  have hbelow (m n : β) : (f m).isBelow (f n) = decide (m < n) := by
    rw [isBelow, hless]
    rfl
  refine ⟨isBelow, ⟨fun {u v} hu hv hlt => ?_, fun {u v w} hu hv hw hlt => ?_⟩, fun {u v} hu hv => ?_,
    fun {u v} hu hv => ?_⟩
  all_goals
    obtain ⟨m, rfl⟩ := hpresent hu
    obtain ⟨n, rfl⟩ := hpresent hv
  · rw [hbelow, decide_eq_true_eq] at hlt
    rw [hbelow, decide_eq_false_iff_not]
    exact hlt.asymm
  · obtain ⟨o, rfl⟩ := hpresent hw
    rw [hbelow, decide_eq_true_eq] at hlt ⊢
    rw [hbelow, decide_eq_true_eq]
    exact (lt_or_ge m n).imp_right fun hnm => hnm.trans_lt hlt
  · rw [hless, hbelow]
  · have htied : (m == n) = (!decide (m < n) && !decide (n < m)) := by
      rw [Bool.eq_iff_iff, beq_iff_eq, Bool.and_eq_true, Bool.not_eq_true', Bool.not_eq_true',
        decide_eq_false_iff_not, decide_eq_false_iff_not, not_lt, not_lt, and_comm, le_antisymm_iff]
    rw [hsame, tied, hbelow, hbelow, htied]

/-- An order of values with the absent one before all others. -/
def absentFirst (lt : Value → Value → Bool) (u v : Value) : Bool :=
  if u.isNone then !v.isNone else if v.isNone then false else lt u v

theorem strictOn_absentFirst (h : StrictOn lt (Present values)) :
    StrictOn (absentFirst lt) (· ∈ values) where
  asymm {a b} ha hb hlt := by
    cases hna : a.isNone <;> cases hnb : b.isNone <;>
      simp only [absentFirst, hna, hnb, Bool.false_eq_true, if_true, if_false, Bool.not_true,
        Bool.not_false] at hlt ⊢
    exact h.asymm ⟨ha, hna⟩ ⟨hb, hnb⟩ hlt
  split {a b c} ha hb hc hlt := by
    cases hna : a.isNone <;> cases hnb : b.isNone <;> cases hnc : c.isNone <;>
      simp only [absentFirst, hna, hnb, hnc, Bool.false_eq_true, if_true, if_false, Bool.not_true,
        Bool.not_false, or_true, true_or] at hlt ⊢
    exact h.split ⟨ha, hna⟩ ⟨hb, hnb⟩ ⟨hc, hnc⟩ hlt

theorem answers_before (hless : Answers less lt (Present values))
    (hsame : Answers same (tied lt) (Present values)) :
    Answers before (absentFirst lt) (· ∈ values) := by
  intro u v hu hv
  rw [before, absentFirst]
  cases hnu : u.isNone with
  | true => rfl
  | false =>
      cases hnv : v.isNone with
      | true => rfl
      | false =>
          simp only [Bool.false_eq_true, if_false, hsame ⟨hu, hnu⟩ ⟨hv, hnv⟩, hless ⟨hu, hnu⟩ ⟨hv, hnv⟩]
          cases hlt : lt u v with
          | true => simp [tied, hlt]
          | false => cases tied lt u v <;> rfl

theorem absentFirst_eq_true (hless : Answers less lt (Present values)) (hu : u ∈ values)
    (hv : v ∈ values) : absentFirst lt u v = true ↔ u.Smaller v := by
  cases hnu : u.isNone <;> cases hnv : v.isNone <;> simp [absentFirst, Smaller, hnu, hnv]
  rw [hless ⟨hu, hnu⟩ ⟨hv, hnv⟩, Except.ok.injEq]

theorem tied_absentFirst_eq_true (hsame : Answers same (tied lt) (Present values)) (hu : u ∈ values)
    (hv : v ∈ values) : tied (absentFirst lt) u v = true ↔ u.Agree v := by
  cases hnu : u.isNone <;> cases hnv : v.isNone <;> simp [absentFirst, Agree, tied, hnu, hnv]
  rw [hsame ⟨hu, hnu⟩ ⟨hv, hnv⟩, Except.ok.injEq, tied, Bool.and_eq_true, Bool.not_eq_true',
    Bool.not_eq_true']

end Value

namespace SortKey

variable {k : SortKey} {keys rest : List SortKey} {records : List Value} {a b : Value}

/-! ## Records -/

def sortValueOf (k : SortKey) (record : Value) : Value :=
  (k.valueOf record).sortValue

/-- Two records agree at a key. -/
def Agrees (k : SortKey) (a b : Value) : Prop :=
  (k.sortValueOf a).Agree (k.sortValueOf b)

/-- A key finds comparable values in records.  A member of an enumeration has one value wherever it is
found, so what is found at the same member agrees. -/
structure Compares (k : SortKey) (records : List Value) : Prop where
  comparable : Value.Comparable (records.map k.sortValueOf)
  oneValue : ∀ a ∈ records, ∀ b ∈ records, (k.valueOf a).isSameMember (k.valueOf b) = true →
    k.Agrees a b

/-- A key puts a record before another one: the value of the first record is the smaller one if the key
is ascending, and the larger one if it is descending. -/
def Favours (k : SortKey) (a b : Value) : Prop :=
  if k.descending then (k.sortValueOf b).Smaller (k.sortValueOf a)
  else (k.sortValueOf a).Smaller (k.sortValueOf b)

/-- The first key at which two records differ puts the first one before the second one. -/
def StandsBefore (keys : List SortKey) (a b : Value) : Prop :=
  ∃ agreed k rest, keys = agreed ++ k :: rest ∧ (∀ k' ∈ agreed, k'.Agrees a b) ∧ ¬ k.Agrees a b ∧
    k.Favours a b

/-- An order of records tells what a key finds in them: which value is smaller and which ones agree. -/
def Tells (k : SortKey) (lt : Value → Value → Bool) (records : List Value) : Prop :=
  ∀ a ∈ records, ∀ b ∈ records,
    (lt a b = true ↔ (k.sortValueOf a).Smaller (k.sortValueOf b)) ∧ (tied lt a b = true ↔ k.Agrees a b)

/-- A key that finds comparable values compares the records by a strict weak order. -/
theorem Compares.exists_order (h : k.Compares records) :
    ∃ lt, StrictOn lt (· ∈ records) ∧ Answers k.before lt (· ∈ records) ∧ k.Tells lt records := by
  obtain ⟨⟨lt, hstrict, hless, hsame⟩, hone⟩ := h
  have hmem {a : Value} (ha : a ∈ records) : k.sortValueOf a ∈ records.map k.sortValueOf :=
    List.mem_map_of_mem ha
  have horder := (Value.strictOn_absentFirst hstrict).comap k.sortValueOf
  refine ⟨_, ⟨fun ha hb => horder.asymm (hmem ha) (hmem hb),
    fun ha hb hc => horder.split (hmem ha) (hmem hb) (hmem hc)⟩, ?_, ?_⟩
  · intro a b ha hb
    rw [before]
    split
    · rename_i hmember
      have htied := (Value.tied_absentFirst_eq_true hsame (hmem ha) (hmem hb)).mpr (hone a ha b hb hmember)
      rw [tied, Bool.and_eq_true, Bool.not_eq_true'] at htied
      exact congrArg _ htied.1.symm
    · exact Value.answers_before hless hsame (hmem ha) (hmem hb)
  · intro a ha b hb
    exact ⟨Value.absentFirst_eq_true hless (hmem ha) (hmem hb),
      Value.tied_absentFirst_eq_true hsame (hmem ha) (hmem hb)⟩

variable {lt : SortKey → Value → Value → Bool}

theorem directed_eq_true (h : k.Tells (lt k) records) (ha : a ∈ records) (hb : b ∈ records) :
    directed lt k a b = true ↔ k.Favours a b := by
  rw [directed, Favours]
  split
  · exact (h b hb a ha).1
  · exact (h a ha b hb).1

/-- Whether the first key is one that two records differ at. -/
theorem standsBefore_cons : StandsBefore (k :: rest) a b ↔
    ¬ k.Agrees a b ∧ k.Favours a b ∨ k.Agrees a b ∧ StandsBefore rest a b := by
  constructor
  · rintro ⟨agreed, k', rest', hkeys, hagreed, hdiffers, hfavours⟩
    cases agreed with
    | nil =>
        obtain ⟨rfl, -⟩ := List.cons.inj hkeys
        exact .inl ⟨hdiffers, hfavours⟩
    | cons k'' agreed =>
        obtain ⟨rfl, rfl⟩ := List.cons.inj hkeys
        obtain ⟨hk, hagreed⟩ := List.forall_mem_cons.mp hagreed
        exact .inr ⟨hk, agreed, k', rest', rfl, hagreed, hdiffers, hfavours⟩
  · rintro (⟨hdiffers, hfavours⟩ | ⟨hagrees, agreed, k', rest', rfl, hagreed, hdiffers, hfavours⟩)
    · exact ⟨[], k, rest, rfl, by simp, hdiffers, hfavours⟩
    · exact ⟨k :: agreed, k', rest', rfl, List.forall_mem_cons.mpr ⟨hagrees, hagreed⟩, hdiffers, hfavours⟩

theorem not_standsBefore_nil : ¬ StandsBefore [] a b := by
  rintro ⟨agreed, k, rest, hkeys, -⟩
  simp at hkeys

theorem not_agrees_of_favours (h : k.Tells (lt k) records) (ha : a ∈ records) (hb : b ∈ records)
    (hfavours : k.Favours a b) : ¬ k.Agrees a b := by
  rw [← directed_eq_true h ha hb] at hfavours
  rw [← (h a ha b hb).2, ← tied_directed, tied, hfavours]
  simp

/-- Comparing records key by key comes to the first key at which they differ. -/
theorem mayPrecedeBy_iff {ι : Type} {g : ι → Value} {R : ι → ι → Prop}
    (h : ∀ k ∈ keys, k.Tells (lt k) records) {i j : ι} (hi : g i ∈ records) (hj : g j ∈ records) :
    mayPrecedeBy lt g R keys i j ↔
      StandsBefore keys (g i) (g j) ∨ (∀ k ∈ keys, k.Agrees (g i) (g j)) ∧ R i j := by
  induction keys with
  | nil => simp [mayPrecedeBy, not_standsBefore_nil]
  | cons k keys ih =>
      obtain ⟨hk, hkeys⟩ := List.forall_mem_cons.mp h
      have hdiffers : k.Favours (g i) (g j) ↔ ¬ k.Agrees (g i) (g j) ∧ k.Favours (g i) (g j) :=
        ⟨fun hfavours => ⟨not_agrees_of_favours hk hi hj hfavours, hfavours⟩, And.right⟩
      rw [mayPrecedeBy, directed_eq_true hk hi hj, (hk _ hi _ hj).2, ih hkeys, hdiffers,
        standsBefore_cons, List.forall_mem_cons, and_or_left, or_assoc, and_assoc]

theorem Agrees.symm (h : k.Tells (lt k) records) (ha : a ∈ records) (hb : b ∈ records)
    (hagrees : k.Agrees a b) : k.Agrees b a := by
  rw [← (h a ha b hb).2] at hagrees
  rwa [← (h b hb a ha).2, tied, Bool.and_comm]

theorem strictOn_directed {P : Value → Prop} (h : StrictOn (lt k) P) : StrictOn (directed lt k) P := by
  unfold directed
  cases k.descending with
  | true => exact h.flip
  | false => exact h

/-- Of two items, at most one may stand before the other. -/
theorem mayPrecedeBy_asymm {ι : Type} {g : ι → Value} {R : ι → ι → Prop} (hR : ∀ i j, R i j → ¬ R j i)
    (h : ∀ k ∈ keys, StrictOn (lt k) (· ∈ records)) {i j : ι} (hi : g i ∈ records) (hj : g j ∈ records)
    (hij : mayPrecedeBy lt g R keys i j) : ¬ mayPrecedeBy lt g R keys j i := by
  induction keys with
  | nil => exact hR i j hij
  | cons k keys ih =>
      obtain ⟨hk, hkeys⟩ := List.forall_mem_cons.mp h
      have htied (a b : Value) : tied (lt k) a b = (!directed lt k a b && !directed lt k b a) := by
        rw [← tied_directed, tied]
      rw [mayPrecedeBy, htied] at hij ⊢
      rcases hij with hlt | ⟨htied, hrest⟩
      · have hge := (strictOn_directed hk).asymm hi hj hlt
        simp [hlt, hge]
      · simp only [Bool.and_eq_true, Bool.not_eq_true'] at htied
        simp [htied.1, htied.2, ih hkeys hrest]

/-- Sorting rearranges the places of the records, and of two records one stands before another one
exactly if the first key at which they differ puts it there, or they agree at every key and it stood
before the other one already.  So an absent value stands before all others under an ascending key and
behind them under a descending one. -/
theorem arrangeAll_lexicographic (h : ∀ k ∈ keys, k.Compares records) :
    ∃ order : List (Fin records.length), arrangeAll keys records = .ok (order.map records.get) ∧
      order.Perm (List.finRange records.length) ∧
      (∀ i j, [i, j].Sublist order ↔
        StandsBefore keys (records.get i) (records.get j) ∨
          (∀ k ∈ keys, k.Agrees (records.get i) (records.get j)) ∧ i < j) ∧
      ∀ agreed k rest, keys = agreed ++ k :: rest → ∀ i j,
        (∀ k' ∈ agreed, k'.Agrees (records.get i) (records.get j)) →
        (k.sortValueOf (records.get i)).isNone = true → (k.sortValueOf (records.get j)).isNone = false →
          (if k.descending then [j, i] else [i, j]).Sublist order := by
  choose! lt hstrict hanswers htells using fun k (hk : k ∈ keys) => (h k hk).exists_order
  have hmem (i : Fin records.length) : records.get i ∈ records := List.get_mem _ _
  obtain ⟨order, harrange, hperm, hpairwise⟩ := exists_arrangeAll_map hstrict hanswers
    (fun i _ => hmem i) (List.pairwise_lt_finRange records.length)
  rw [List.map_get_finRange] at harrange
  have hplaces (i : Fin records.length) : i ∈ order := hperm.mem_iff.mpr (List.mem_finRange i)
  have hprecede (i j : Fin records.length) : [i, j].Sublist order ↔
      StandsBefore keys (records.get i) (records.get j) ∨
        (∀ k ∈ keys, k.Agrees (records.get i) (records.get j)) ∧ i < j := by
    rw [← mayPrecedeBy_iff (g := records.get) htells (hmem i) (hmem j)]
    refine ⟨fun hij => List.pairwise_iff_forall_sublist.mp hpairwise hij, fun hij => ?_⟩
    -- One of the two places stands before the other, and the wrong one may not.
    have hnot := mayPrecedeBy_asymm (fun i j hlt => hlt.asymm) hstrict (hmem i) (hmem j) hij
    have hne : i ≠ j := by
      rintro rfl
      exact hnot hij
    refine (pair_sublist_or (hplaces i) (hplaces j) hne).resolve_right fun hji => hnot ?_
    exact List.pairwise_iff_forall_sublist.mp hpairwise hji
  refine ⟨order, harrange, hperm, hprecede, ?_⟩
  rintro agreed k rest rfl i j hagreed hnone hsome
  have hsmaller : (k.sortValueOf (records.get i)).Smaller (k.sortValueOf (records.get j)) :=
    .inl ⟨hnone, hsome⟩
  have hk := htells k (List.mem_append_right _ List.mem_cons_self)
  have hagreed' : ∀ k' ∈ agreed, k'.Agrees (records.get j) (records.get i) := fun k' hk' =>
    (hagreed k' hk').symm (htells k' (List.mem_append_left _ hk')) (hmem i) (hmem j)
  split
  · rename_i hdescending
    have hfavours : k.Favours (records.get j) (records.get i) := by rwa [Favours, if_pos hdescending]
    have hdiffers := not_agrees_of_favours hk (hmem j) (hmem i) hfavours
    exact (hprecede j i).mpr (.inl ⟨agreed, k, rest, rfl, hagreed', hdiffers, hfavours⟩)
  · rename_i hascending
    have hfavours : k.Favours (records.get i) (records.get j) := by rwa [Favours, if_neg hascending]
    have hdiffers := not_agrees_of_favours hk (hmem i) (hmem j) hfavours
    exact (hprecede i j).mpr (.inl ⟨agreed, k, rest, rfl, hagreed, hdiffers, hfavours⟩)

/-- Notes with a rank, which may be missing, and a name. -/
def notes : List Value :=
  let note (identity : ℕ) (rank : Value) (name : String) : Value :=
    .record (.own identity) "Note" [("rank", rank), ("name", .text name)]
  [note 1 (.int 2) "x", note 2 .none "y", note 3 (.member "Level" "LOW" .plain (.int 1)) "z",
    note 4 (.int 2) "w", note 5 (.int 2) "x"]

/-- Notes of one rank are sorted by their names, those of one rank and one name keep their places, and
one without a rank comes behind one of the lowest rank. -/
theorem arrangeAll_lexicographic_notes :
    ∃ order : List (Fin 5),
      arrangeAll [⟨"rank", true⟩, ⟨"name", false⟩] notes = .ok (order.map notes.get) ∧
        [3, 0].Sublist order ∧ [0, 4].Sublist order ∧ [2, 1].Sublist order := by
  have hranks : notes.map (sortValueOf ⟨"rank", true⟩) =
      [.int 2, .none, .int 1, .int 2, .int 2] := rfl
  have hnames : notes.map (sortValueOf ⟨"name", false⟩) =
      [.text "x", .text "y", .text "z", .text "w", .text "x"] := rfl
  have hrank : Compares ⟨"rank", true⟩ notes := by
    refine ⟨hranks ▸ Value.comparable_of_order Value.less_int Value.same_int (by simp), ?_⟩
    intro a ha b hb hmember
    simp only [notes, List.mem_cons, List.not_mem_nil, or_false] at ha hb
    rcases ha with rfl | rfl | rfl | rfl | rfl <;> rcases hb with rfl | rfl | rfl | rfl | rfl <;>
      first
        | exact absurd hmember Bool.false_ne_true
        | exact .inr ⟨rfl, rfl, Value.same_int 1 1⟩
  have hname : Compares ⟨"name", false⟩ notes := by
    refine ⟨hnames ▸ Value.comparable_of_order Value.less_text Value.same_text (by simp), ?_⟩
    intro a ha b hb hmember
    simp only [notes, List.mem_cons, List.not_mem_nil, or_false] at ha hb
    rcases ha with rfl | rfl | rfl | rfl | rfl <;> rcases hb with rfl | rfl | rfl | rfl | rfl <;>
      cases hmember
  have hsame : Agrees ⟨"rank", true⟩ (notes.get (3 : Fin 5)) (notes.get (0 : Fin 5)) :=
    .inr ⟨rfl, rfl, Value.same_int 2 2⟩
  have hdiffers : ¬ Agrees ⟨"name", false⟩ (notes.get (3 : Fin 5)) (notes.get (0 : Fin 5)) := by
    rintro (⟨⟨⟩, -⟩ | ⟨-, -, hsame⟩)
    cases (Value.same_text "w" "x").symm.trans hsame
  have hbefore : Favours ⟨"name", false⟩ (notes.get (3 : Fin 5)) (notes.get (0 : Fin 5)) :=
    .inr ⟨rfl, rfl, (Value.less_text "w" "x").trans (by decide)⟩
  have hkeys : ∀ k ∈ [⟨"rank", true⟩, ⟨"name", false⟩], Compares k notes :=
    List.forall_mem_cons.mpr ⟨hrank, List.forall_mem_singleton.mpr hname⟩
  obtain ⟨order, harrange, -, hprecede, hnone⟩ := arrangeAll_lexicographic hkeys
  refine ⟨order, harrange, ?_, ?_, ?_⟩
  · exact (hprecede (3 : Fin 5) (0 : Fin 5)).mpr (.inl ⟨[⟨"rank", true⟩], ⟨"name", false⟩, [], rfl,
      List.forall_mem_singleton.mpr hsame, hdiffers, hbefore⟩)
  · refine (hprecede (0 : Fin 5) (4 : Fin 5)).mpr (.inr ⟨?_, by decide⟩)
    rw [List.forall_mem_cons, List.forall_mem_singleton]
    exact ⟨.inr ⟨rfl, rfl, Value.same_int 2 2⟩, .inr ⟨rfl, rfl, Value.same_text "x" "x"⟩⟩
  · exact hnone [] ⟨"rank", true⟩ [⟨"name", false⟩] rfl (1 : Fin 5) (2 : Fin 5) (by simp) rfl rfl

end SortKey
end PageQuery
