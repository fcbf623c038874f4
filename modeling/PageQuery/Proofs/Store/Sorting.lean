import Mathlib
import PageQuery.Proofs.Ordering.Sorting
import PageQuery.Proofs.Store.Requests
import PageQuery.Store.Select

/-!
# Rows and mirrors in order

Keys that lead to plain columns order rows by the places of the cells that they lead to, the first key
that tells two rows apart deciding.  A store sorts rows by this order, and in memory it is the order of
the mirrors.  A last key that no two rows share leaves one arrangement only, so both ways of sorting come
to the same.
-/

namespace PageQuery

namespace SortKey

variable {s : Store} {root : Model} {keys : List SortKey} {a b c : Row}

def place (k : SortKey) (s : Store) (root : Model) (r : Row) : WithBot (ℤ ⊕ₗ String) :=
  (k.cell s root r).place

/-- A key in its direction puts a row before another one. -/
def Precedes (k : SortKey) (s : Store) (root : Model) (a b : Row) : Prop :=
  if k.descending then k.place s root b < k.place s root a else k.place s root a < k.place s root b

/-- A row may stand before another one: the first key that tells them apart decides. -/
def InOrder (s : Store) (root : Model) : List SortKey → Row → Row → Prop
  | [], _, _ => True
  | k :: ks, a, b =>
    k.Precedes s root a b ∨ k.place s root a = k.place s root b ∧ InOrder s root ks a b

theorem Precedes.trans {k : SortKey} (hab : k.Precedes s root a b) (hbc : k.Precedes s root b c) :
    k.Precedes s root a c := by
  rw [Precedes] at hab hbc ⊢
  split
  · rename_i hdescending
    rw [if_pos hdescending] at hab hbc
    exact hbc.trans hab
  · rename_i hdescending
    rw [if_neg hdescending] at hab hbc
    exact hab.trans hbc

theorem precedes_congr {k : SortKey} {a' b' : Row} (ha : k.place s root a = k.place s root a')
    (hb : k.place s root b = k.place s root b') :
    k.Precedes s root a b ↔ k.Precedes s root a' b' := by
  rw [Precedes, Precedes, ha, hb]

theorem precedes_trichotomy (k : SortKey) (s : Store) (root : Model) (a b : Row) :
    k.Precedes s root a b ∨ k.place s root a = k.place s root b ∨ k.Precedes s root b a := by
  rw [Precedes, Precedes]
  rcases lt_trichotomy (k.place s root a) (k.place s root b) with hlt | heq | hgt <;>
    split <;> simp [*]

theorem Precedes.irrefl {k : SortKey} (h : k.place s root a = k.place s root b) :
    ¬ k.Precedes s root a b := by
  rw [Precedes, h]
  split <;> exact lt_irrefl _

theorem InOrder.trans (hab : InOrder s root keys a b) (hbc : InOrder s root keys b c) :
    InOrder s root keys a c := by
  induction keys with
  | nil => trivial
  | cons k ks ih =>
      rcases hab with hab | ⟨hab, hab'⟩
      · rcases hbc with hbc | ⟨hbc, -⟩
        · exact .inl (hab.trans hbc)
        · exact .inl ((precedes_congr rfl hbc).mp hab)
      · rcases hbc with hbc | ⟨hbc, hbc'⟩
        · exact .inl ((precedes_congr hab.symm rfl).mp hbc)
        · exact .inr ⟨hab.trans hbc, ih hab' hbc'⟩

theorem inOrder_total (keys : List SortKey) (s : Store) (root : Model) (a b : Row) :
    InOrder s root keys a b ∨ InOrder s root keys b a := by
  induction keys with
  | nil => exact .inl trivial
  | cons k ks ih =>
      rcases precedes_trichotomy k s root a b with hab | heq | hba
      · exact .inl (.inl hab)
      · exact ih.imp (fun h => .inr ⟨heq, h⟩) fun h => .inr ⟨heq.symm, h⟩
      · exact .inr (.inl hba)

/-- Rows that may stand before each other are not told apart by any key. -/
theorem InOrder.place_eq (hab : InOrder s root keys a b) (hba : InOrder s root keys b a) :
    ∀ k ∈ keys, k.place s root a = k.place s root b := by
  induction keys with
  | nil => nofun
  | cons k ks ih =>
      rcases hab with hab | ⟨hab, hab'⟩
      · rcases hba with hba | ⟨hba, -⟩
        · exact absurd (hab.trans hba) (Precedes.irrefl rfl)
        · exact absurd hab (Precedes.irrefl hba.symm)
      · rcases hba with hba | ⟨-, hba'⟩
        · exact absurd hba (Precedes.irrefl hab.symm)
        · exact List.forall_mem_cons.mpr ⟨hab, ih hab' hba'⟩

/-- A key by the keys of the rows themselves tells all of them apart. -/
theorem InOrder.antisymm (h : s.Sound) {k : SortKey} (hk : k ∈ keys) (hid : k.field = ["id"])
    (ha : a ∈ s.rows root.name) (hb : b ∈ s.rows root.name) (hab : InOrder s root keys a b)
    (hba : InOrder s root keys b a) : a = b := by
  have hplace := hab.place_eq hba k hk
  have hcell (r : Row) : k.cell s root r = .whole r.key := by
    simp [cell, hid, Store.cellAhead, Store.ahead, Row.cell]
  rw [place, place, hcell, hcell] at hplace
  exact h.key_injective ha hb (by simpa [Cell.place] using hplace)

/-! ## The order of a store -/

/-- A list is sorted if its items are compared as by a total order. -/
theorem pairwise_mergeSort_of_mem {α : Type} {le : α → α → Bool} {xs : List α}
    (htrans : ∀ a ∈ xs, ∀ b ∈ xs, ∀ c ∈ xs, le a b = true → le b c = true → le a c = true)
    (htotal : ∀ a ∈ xs, ∀ b ∈ xs, le a b = true ∨ le b a = true) :
    (xs.mergeSort le).Pairwise fun a b => le a b = true := by
  have hattach : (xs.attach.mergeSort fun a b => le a.1 b.1).map Subtype.val = xs.mergeSort le := by
    have hmap := List.map_mergeSort (r := fun a b : { x // x ∈ xs } => le a.1 b.1) (s := le)
      (f := Subtype.val) (l := xs.attach) fun a _ b _ => rfl
    rwa [List.attach_map_subtype_val] at hmap
  rw [← hattach, List.pairwise_map]
  refine List.pairwise_mergeSort (fun a b c => ?_) (fun a b => ?_) xs.attach
  · exact htrans a a.2 b b.2 c c.2
  · simpa using htotal a a.2 b b.2

/-- Rows can be arranged in the order of any keys. -/
theorem exists_inOrder (keys : List SortKey) (s : Store) (root : Model) (rows : List Row) :
    ∃ arranged : List Row, arranged.Perm rows ∧ arranged.Pairwise (InOrder s root keys) := by
  classical
  refine ⟨rows.mergeSort fun a b => decide (InOrder s root keys a b), List.mergeSort_perm _ _, ?_⟩
  refine (List.pairwise_mergeSort (fun a b c hab hbc => ?_) (fun a b => ?_) rows).imp
    of_decide_eq_true
  · exact decide_eq_true ((of_decide_eq_true hab).trans (of_decide_eq_true hbc))
  · simpa using inOrder_total keys s root a b

/-- Rows that keys tell apart have one arrangement in the order of the keys. -/
theorem eq_of_inOrder {chosen arranged : List Row} (hperm : chosen.Perm arranged)
    (hchosen : chosen.Pairwise (InOrder s root keys))
    (harranged : arranged.Pairwise (InOrder s root keys))
    (hlast : ∀ a ∈ chosen, ∀ b ∈ chosen, InOrder s root keys a b → InOrder s root keys b a → a = b) :
    chosen = arranged :=
  hperm.eq_of_pairwise
    (fun a b ha hb hab hba => hlast a ha b (hperm.mem_iff.mpr hb) hab hba) hchosen harranged

/-- The cells of rows are in order as the rows are by the keys that lead to them. -/
theorem cellsInOrder_iff (hkeys : ∀ k ∈ keys, (k.cell s root a).OrderedAsPlaces (k.cell s root b)) :
    Store.cellsInOrder (keys.map (·.descending)) (keys.map (·.cell s root a))
      (keys.map (·.cell s root b)) = true ↔ InOrder s root keys a b := by
  induction keys with
  | nil => simp [Store.cellsInOrder, InOrder]
  | cons k ks ih =>
      obtain ⟨hk, hks⟩ := List.forall_mem_cons.mp hkeys
      rw [List.map_cons, List.map_cons, List.map_cons, Store.cellsInOrder, InOrder, Precedes, place,
        place]
      cases horder : (k.cell s root a).order (k.cell s root b) with
      | lt =>
          have hlt := hk.lt_iff.mp horder
          cases k.descending <;> simp [hlt, hlt.not_gt, hlt.ne]
      | eq =>
          have heq := hk.eq_iff.mp horder
          cases k.descending <;> simp [heq, ih hks]
      | gt =>
          have hgt := hk.gt_iff.mp horder
          cases k.descending <;> simp [hgt, hgt.not_gt, hgt.ne']

/-! ## The order of mirrors -/

/-- Whether a record stands before another one under a key; a comparison that fails puts none before. -/
def below (k : SortKey) (u v : Value) : Bool :=
  match k.before u v with
  | .ok verdict => verdict
  | .error _ => false

theorem isSameMember_valueOf (type : ColumnType) (c d : Cell) :
    (type.valueOf c).isSameMember (type.valueOf d) = false := by
  cases type <;> cases c <;> rfl

theorem sortValue_valueOf (type : ColumnType) (c : Cell) :
    (type.valueOf c).sortValue = type.valueOf c := by
  cases type <;> cases c <;> rfl

variable {n : ℕ}

/-- A key finds in a mirror the value of the cell that it leads to. -/
theorem LeadsTo.valueOf_mirror {k : SortKey} {type : ColumnType} (hk : k.LeadsTo s root type)
    (h : s.Sound) (hroot : root ∈ s.models) (hn : k.field.length ≤ n) {r : Row}
    (hr : r ∈ s.rows root.name) :
    k.valueOf (s.mirror n root r) = type.valueOf (k.cell s root r) ∧
      type.Holds (k.cell s root r) := by
  obtain ⟨relations, name, owner, choices, default, hleads, hfield, htype, -, hnames⟩ := hk
  have hcell : k.cell s root r = s.cellAhead root r relations name := by
    simp [cell, hnames]
  rw [valueOf, hcell, hnames]
  exact ⟨h.follow_column hroot hleads hfield htype hr (by simpa [hnames] using hn),
    h.holds_cellAhead hroot hleads hfield hr⟩

theorem LeadsTo.isPlain {k : SortKey} {type : ColumnType} (hk : k.LeadsTo s root type) :
    type.isPlain = true := by
  obtain ⟨-, -, -, -, -, -, -, htype, -⟩ := hk
  exact htype

/-- Mirrors stand before each other under a key as the places of the cells do. -/
theorem LeadsTo.before_mirror {k : SortKey} {type : ColumnType} (hk : k.LeadsTo s root type)
    (h : s.Sound) (hroot : root ∈ s.models) (hn : k.field.length ≤ n)
    (ha : a ∈ s.rows root.name) (hb : b ∈ s.rows root.name) :
    k.before (s.mirror n root a) (s.mirror n root b) =
      .ok (decide (k.place s root a < k.place s root b)) := by
  obtain ⟨hvalue, hholds⟩ := hk.valueOf_mirror h hroot hn ha
  obtain ⟨hvalue', hholds'⟩ := hk.valueOf_mirror h hroot hn hb
  rw [before, hvalue, hvalue', isSameMember_valueOf, if_neg Bool.false_ne_true, sortValue_valueOf,
    sortValue_valueOf, hholds.before_eq hk.isPlain hholds']
  rfl

section Mirrors

variable (h : s.Sound) (hroot : root ∈ s.models)
  (hkeys : ∀ k ∈ keys, ∃ type, k.LeadsTo s root type) (hn : ∀ k ∈ keys, k.field.length ≤ n)

include h hroot hkeys hn

theorem below_mirror {k : SortKey} (hk : k ∈ keys) (ha : a ∈ s.rows root.name)
    (hb : b ∈ s.rows root.name) :
    below k (s.mirror n root a) (s.mirror n root b) =
      decide (k.place s root a < k.place s root b) := by
  obtain ⟨type, hleads⟩ := hkeys k hk
  rw [below, hleads.before_mirror h hroot (hn k hk) ha hb]

theorem mayPrecede_mirror (ha : a ∈ s.rows root.name) (hb : b ∈ s.rows root.name) :
    mayPrecede below keys (s.mirror n root a) (s.mirror n root b) ↔ InOrder s root keys a b := by
  induction keys with
  | nil => exact Iff.rfl
  | cons k ks ih =>
      have hrest := ih (fun k hk => hkeys k (List.mem_cons_of_mem _ hk))
        fun k hk => hn k (List.mem_cons_of_mem _ hk)
      have hab := below_mirror h hroot hkeys hn List.mem_cons_self ha hb
      have hba := below_mirror h hroot hkeys hn List.mem_cons_self hb ha
      have htied : (!decide (k.place s root a < k.place s root b) &&
          !decide (k.place s root b < k.place s root a)) = true ↔
            k.place s root a = k.place s root b := by
        rw [Bool.and_eq_true, Bool.not_eq_true', Bool.not_eq_true', decide_eq_false_iff_not,
          decide_eq_false_iff_not, not_lt, not_lt, eq_comm, le_antisymm_iff]
      rw [mayPrecede, InOrder, Precedes, directed, Ordering.tied, hab, hba, hrest, htied]
      cases k.descending <;> simp

/-- Mirrors of rows are sorted by keys without a failure, and as the rows are in order. -/
theorem exists_arrangeAll_mirrors {chosen arranged : List Row}
    (hchosen : ∀ r ∈ chosen, r ∈ s.rows root.name) (hperm : arranged.Perm chosen)
    (hsorted : arranged.Pairwise (InOrder s root keys))
    (hlast : ∀ a ∈ chosen, ∀ b ∈ chosen, InOrder s root keys a b → InOrder s root keys b a → a = b) :
    arrangeAll keys (chosen.map (s.mirror n root)) = .ok (arranged.map (s.mirror n root)) := by
  let P : Value → Prop := fun v => ∃ r ∈ s.rows root.name, v = s.mirror n root r
  have hstrict : ∀ k ∈ keys, Ordering.StrictOn (below k) P := by
    intro k hk
    constructor
    · rintro u v ⟨a, ha, rfl⟩ ⟨b, hb, rfl⟩ hlt
      rw [below_mirror h hroot hkeys hn hk ha hb, decide_eq_true_eq] at hlt
      rw [below_mirror h hroot hkeys hn hk hb ha, decide_eq_false_iff_not]
      exact hlt.asymm
    · rintro u v w ⟨a, ha, rfl⟩ ⟨b, hb, rfl⟩ ⟨c, hc, rfl⟩ hlt
      rw [below_mirror h hroot hkeys hn hk ha hc, decide_eq_true_eq] at hlt
      rw [below_mirror h hroot hkeys hn hk ha hb, below_mirror h hroot hkeys hn hk hb hc,
        decide_eq_true_eq, decide_eq_true_eq]
      exact (lt_or_ge (k.place s root a) _).imp_right fun hba => hba.trans_lt hlt
  have hanswers : ∀ k ∈ keys, Ordering.Answers k.before (below k) P := by
    rintro k hk u v ⟨a, ha, rfl⟩ ⟨b, hb, rfl⟩
    obtain ⟨type, hleads⟩ := hkeys k hk
    rw [below_mirror h hroot hkeys hn hk ha hb]
    exact hleads.before_mirror h hroot (hn k hk) ha hb
  have hrecords : ∀ v ∈ chosen.map (s.mirror n root), P v := by
    intro v hv
    obtain ⟨r, hr, rfl⟩ := List.mem_map.mp hv
    exact ⟨r, hchosen r hr, rfl⟩
  obtain ⟨sorted, harrange, hsortedPerm, hpairwise⟩ := exists_arrangeAll hstrict hanswers hrecords
  rw [harrange, Except.ok.injEq]
  have hmem : ∀ v ∈ sorted, ∃ r ∈ chosen, s.mirror n root r = v :=
    fun v hv => List.mem_map.mp (hsortedPerm.mem_iff.mp hv)
  have harranged : ∀ r ∈ arranged, r ∈ s.rows root.name :=
    fun r hr => hchosen r (hperm.mem_iff.mp hr)
  refine List.Perm.eq_of_pairwise ?_ hpairwise ?_ (hsortedPerm.trans (hperm.symm.map _))
  · intro u v hu hv huv hvu
    obtain ⟨a, ha, rfl⟩ := hmem u hu
    obtain ⟨b, hb, rfl⟩ := List.mem_map.mp hv
    have hb' := hperm.mem_iff.mp hb
    rw [mayPrecede_mirror h hroot hkeys hn (hchosen a ha) (hchosen b hb')] at huv
    rw [mayPrecede_mirror h hroot hkeys hn (hchosen b hb') (hchosen a ha)] at hvu
    rw [hlast a ha b hb' huv hvu]
  · rw [List.pairwise_map]
    refine hsorted.imp_of_mem fun ha hb hab => ?_
    rwa [mayPrecede_mirror h hroot hkeys hn (harranged _ ha) (harranged _ hb)]

end Mirrors

end SortKey
end PageQuery
