import Mathlib
import PageQuery.Proofs.Predicate.Testing
import PageQuery.Proofs.Store.Lowering
import PageQuery.Proofs.Store.Telling

/-!
# Predicates on rows and on their mirrors

Every predicate that tests columns and searches collections, those within each other included, is lowered
to a condition.  A row meets the condition exactly when the predicate, its searches detached, holds on the
mirror of the row, and no comparison on the mirror fails.  Where the searches may be detached that is the
meaning of the predicate itself.
-/

namespace PageQuery

namespace Store

variable {s : Store} {root base m : Model} {path relations : List String} {name : String}

/-- A predicate tests columns of a model and of the models that its relations lead to, and searches
collections. -/
inductive Tests (s : Store) : Model → Predicate → Prop
  | contains {relations : List String} {base m : Model} {name piece : String}
      {choices : List (Value × Value)} {default : Value} (hleads : s.Leads base relations m)
      (hfield : m.field? name = some (.column .text choices default)) (hpiece : IsPrintable piece) :
      Tests s base (.contains (relations ++ [name]) piece)
  | equals {relations : List String} {base m : Model} {name : String} {type : ColumnType}
      {choices : List (Value × Value)} {default v : Value} (hleads : s.Leads base relations m)
      (hfield : m.field? name = some (.column type choices default)) (hv : s.Recognizes type v) :
      Tests s base (.equals (relations ++ [name]) v)
  | range {relations : List String} {base m : Model} {name : String} {type : ColumnType}
      {choices : List (Value × Value)} {default lower upper : Value} {low high : Option Cell}
      (hleads : s.Leads base relations m)
      (hfield : m.field? name = some (.column type choices default)) (htype : type.isPlain = true)
      (hlow : type.Slot lower low) (hhigh : type.Slot upper high)
      (hsome : low ≠ none ∨ high ≠ none) : Tests s base (.range (relations ++ [name]) lower upper)
  | any {relations : List String} {base owner target : Model} {name : String} {f : ModelField}
      {inner : Predicate} (hleads : s.Leads base relations owner)
      (hfield : owner.field? name = some f) (hmany : f.isSingle = false)
      (htarget : f.target?.bind s.model? = some target) (hinner : Tests s target inner) :
      Tests s base (.any (relations ++ [name]) inner)
  | and {base : Model} {p : Predicate} {ps : List Predicate} (h : ∀ q ∈ p :: ps, Tests s base q) :
      Tests s base (.and (p :: ps))
  | or {base : Model} {p : Predicate} {ps : List Predicate} (h : ∀ q ∈ p :: ps, Tests s base q) :
      Tests s base (.or (p :: ps))

/-- A predicate behind a base is lowered to a condition that the selected row and the row at the base
meet exactly when they pass, which is when the predicate with detached searches holds on their mirrors;
`holding` tells of which rows at the base it holds as it stands.  Where the searches may be detached,
both find the same selected rows. -/
structure Lowers (s : Store) (root base : Model) (path : List String) (p : Predicate)
    (passes : Row → Option Row → Bool) (holding : Option Row → Bool) (depth : ℕ) : Prop where
  formed : ∃ c f, Condition.ofPredicate s root.name path p = .ok c ∧
    s.Formed root base path c f passes
  detached : ∀ n ≥ depth, ∀ k ≥ depth, ∀ r ∈ s.rows root.name, ∀ o, (∀ e ∈ o, e ∈ s.rows base.name) →
    p.holdsDetached 0 (s.mirror n root r) path (s.mirror? k base o) = .ok (passes r o)
  holds : ∀ k ≥ depth, ∀ o, (∀ e ∈ o, e ∈ s.rows base.name) →
    p.holds 0 (s.mirror? k base o) = .ok (holding o)
  alone : p.searches = false → ∀ r o, passes r o = holding o
  missing : p.isDetachable true = true → holding none = false
  attached : ∀ inside, p.isDetachable inside = true → (inside = false → path = []) →
    ∀ r ∈ s.rows root.name,
      (s.reach (some root) r path).any (passes r) = (s.reach (some root) r path).any holding

/-! ## One test -/

/-- A predicate that asks something of the cell that names lead to from the base, and of no missing
cell but where it asks for one. -/
theorem lowers_leaf {p : Predicate} (asks : Cell → Bool)
    (hformed : ∃ c f, Condition.ofPredicate s root.name path p = .ok c ∧
      s.Formed root base path c f fun _ o => asks (s.cellAhead? base o relations name))
    (hdetached : ∀ zone top v, p.holdsDetached zone top path v = p.holds zone v)
    (hholds : ∀ k ≥ relations.length + 1, ∀ o, (∀ e ∈ o, e ∈ s.rows base.name) →
      p.holds 0 (s.mirror? k base o) = .ok (asks (s.cellAhead? base o relations name)))
    (hmissing : p.isDetachable true = true → asks .absent = false) :
    s.Lowers root base path p (fun _ o => asks (s.cellAhead? base o relations name))
      (fun o => asks (s.cellAhead? base o relations name)) (relations.length + 1) where
  formed := hformed
  detached _ _ k hk _ _ o ho := (hdetached _ _ _).trans (hholds k hk o ho)
  holds := hholds
  alone _ _ _ := rfl
  missing := hmissing
  attached _ _ _ _ _ := rfl

/-- One test of a column behind a base is formed by the cell that its names lead to. -/
theorem Sound.formed_test (h : s.Sound) (hroot : s.model? root.name = some root)
    (hbase : s.Base root path base) (hleads : s.Leads base relations m) {type : ColumnType}
    {choices : List (Value × Value)} {default : Value}
    (hfield : m.field? name = some (.column type choices default)) {comparison asked : Comparison}
    {v w : Value} {passes : Cell → Bool}
    (hasked : Test.asked type comparison.suffix = .ok ([], comparison))
    (hprepare : Test.prepare true type comparison v = .ok (asked, w))
    (hanswers : ∀ p : Place, p.type = type →
      Test.Answers ⟨p, [], asked, w⟩ (s.Holding type) passes) :
    ∃ f, s.Formed root base path (Condition.ofTest (path ++ (relations ++ [name])) comparison v) f
      fun _ o => passes (s.cellAhead? base o relations name) := by
  obtain ⟨t, hprepared, hsettles, hanswer⟩ :=
    h.exists_test hroot hbase hleads hfield hasked hprepare hanswers
  refine ⟨_, hprepared, rfl, ?_, fun paths r _ o ho => ?_⟩
  · intro y hy
    obtain rfl := List.mem_singleton.mp hy
    exact hsettles
  · rw [← hanswer paths r o ho]
    simp [Formula.single, Formula.meets, Formula.meetsAll]

/-- The mirror of a row that may be missing has the value of the cell that the names of a plain column
lead to. -/
theorem Sound.follow_base (h : s.Sound) (hbase : base ∈ s.models)
    (hleads : s.Leads base relations m) {type : ColumnType} {choices : List (Value × Value)}
    {default : Value} (hfield : m.field? name = some (.column type choices default))
    (htype : type.isPlain = true) {k : ℕ} (hk : k ≥ relations.length + 1) {o : Option Row}
    (ho : ∀ e ∈ o, e ∈ s.rows base.name) :
    (s.mirror? k base o).follow (relations ++ [name]) =
        type.valueOf (s.cellAhead? base o relations name) ∧
      type.Holds (s.cellAhead? base o relations name) := by
  have hholds := (hleads.holding_cellAhead? hbase hfield ho).holds h
  have hjson : type ≠ .json := by
    rintro rfl
    cases htype
  exact ⟨by rw [hleads.follow_column? h.zoned hfield hjson o hk, hholds.read_eq htype], hholds⟩

theorem Sound.lowers_contains (h : s.Sound) (hroot : s.model? root.name = some root)
    (hbase : s.Base root path base) (hleads : s.Leads base relations m)
    {choices : List (Value × Value)} {default : Value}
    (hfield : m.field? name = some (.column .text choices default)) {piece : String}
    (hpiece : IsPrintable piece) :
    ∃ passes holding depth,
      s.Lowers root base path (.contains (relations ++ [name]) piece) passes holding depth := by
  obtain ⟨f, hformed⟩ := h.formed_test hroot hbase hleads hfield rfl
    (Test.prepare_containing .text piece)
    (fun p hp => (Test.answers_containing hp hpiece).mono fun _ hc => hc.holds h)
  refine ⟨_, _, _, lowers_leaf (fun c => (ColumnType.text.valueOf c).containsText piece)
    ⟨_, f, by rw [Condition.ofPredicate], hformed⟩
    (fun _ _ _ => by rw [Predicate.holdsDetached]) (fun k hk o ho => ?_) fun _ => rfl⟩
  obtain ⟨hfollow, -⟩ :=
    h.follow_base (hbase.mem_models (mem_of_model? hroot).1) hleads hfield rfl hk ho
  rw [Predicate.holds, hfollow]

end Store

/-- A column tells a missing cell only if it is asked for nothing. -/
theorem ColumnType.Tells.absent_eq {type : ColumnType} {keeps : Cell → Prop} {v : Value}
    {passes : Cell → Bool} (h : type.Tells keeps v passes) (hkeeps : keeps .absent) :
    passes .absent = v.bare.isNone := by
  have hsame := h.same .absent hkeeps
  rw [read_absent, Value.none_same] at hsame
  exact (Except.ok.inj hsame).symm

theorem ColumnType.Bounds.asked {type : ColumnType} {v : Value} {β : Cell} (h : type.Bounds v β) :
    Test.asked type Comparison.atLeast.suffix = .ok ([], .atLeast) ∧
      Test.asked type Comparison.atMost.suffix = .ok ([], .atMost) := by
  cases h <;> exact ⟨rfl, rfl⟩

namespace Store

variable {s : Store} {root base m : Model} {path relations : List String} {name : String}

theorem Sound.lowers_equals (h : s.Sound) (hroot : s.model? root.name = some root)
    (hbase : s.Base root path base) (hleads : s.Leads base relations m) {type : ColumnType}
    {choices : List (Value × Value)} {default : Value}
    (hfield : m.field? name = some (.column type choices default)) {v : Value}
    (hv : s.Recognizes type v) :
    ∃ passes holding depth,
      s.Lowers root base path (.equals (relations ++ [name]) v) passes holding depth := by
  obtain ⟨passes, hv⟩ := hv.exists_tells h
  obtain ⟨asked, w, hprepare, hanswers⟩ := hv.prepared
  have hasked : Test.asked type Comparison.equal.suffix = .ok ([], .equal) := rfl
  obtain ⟨f, hformed⟩ := h.formed_test hroot hbase hleads hfield hasked hprepare hanswers
  refine ⟨_, _, _, lowers_leaf passes ⟨_, f, ?_, hformed⟩
    (fun _ _ _ => by rw [Predicate.holdsDetached]) (fun k hk o ho => ?_) fun hdetachable => ?_⟩
  · rw [Condition.ofPredicate, given_eq_aware h.zoned h.zone, hv.aware]
  · have hholding :=
      hleads.holding_cellAhead? (hbase.mem_models (mem_of_model? hroot).1) hfield ho
    rw [Predicate.holds, hleads.follow_column? h.zoned hfield hv.json o hk, hv.same _ hholding]
    rfl
  · rw [hv.absent_eq .absent]
    simpa [Predicate.isDetachable] using hdetachable

theorem between_some_some (low high : Cell) (c : Cell) :
    c.between (some low) (some high) =
      (c.between (some low) none && c.between none (some high)) := by
  simp only [Cell.between, Option.all_some, Option.all_none, Bool.and_true]
  cases c.isAbsent <;> rfl

/-- The bounds of a range, of which at least one is given, are tested one after the other. -/
theorem Sound.formed_between (h : s.Sound) (hroot : s.model? root.name = some root)
    (hbase : s.Base root path base) (hleads : s.Leads base relations m) {type : ColumnType}
    {choices : List (Value × Value)} {default : Value}
    (hfield : m.field? name = some (.column type choices default)) {lower upper : Value}
    {low high : Option Cell} (hlow : type.Slot lower low) (hhigh : type.Slot upper high)
    (hsome : low ≠ none ∨ high ≠ none) :
    ∃ f, s.Formed root base path
      (Formula.join .and (Formula.join .and .empty
        (Condition.ofBound s (path ++ (relations ++ [name])) .atLeast lower))
        (Condition.ofBound s (path ++ (relations ++ [name])) .atMost upper)) f
      fun _ o => (s.cellAhead? base o relations name).between low high := by
  have hbelow {v : Value} {β : Cell} (hv : type.Bounds v β) :=
    h.formed_test hroot hbase hleads hfield hv.asked.1 (hv.prepare (.inl rfl))
      (fun p hp => (hv.answers hp).1.mono fun _ hc => hc.holds h)
  have habove {v : Value} {β : Cell} (hv : type.Bounds v β) :=
    h.formed_test hroot hbase hleads hfield hv.asked.2 (hv.prepare (.inr rfl))
      (fun p hp => (hv.answers hp).2.mono fun _ hc => hc.holds h)
  have hgiven := given_eq_aware h.zoned h.zone
  cases low with
  | none =>
      obtain rfl : lower = .none := hlow
      cases high with
      | none => simp at hsome
      | some β =>
          obtain ⟨f, hf⟩ := habove hhigh
          refine ⟨f, ?_⟩
          simp only [Condition.ofBound, hgiven, ColumnType.Bounds.isNone_eq hhigh]
          exact hf
  | some α =>
      obtain ⟨f, hf⟩ := hbelow hlow
      cases high with
      | none =>
          obtain rfl : upper = .none := hhigh
          refine ⟨f, ?_⟩
          simp only [Condition.ofBound, hgiven, ColumnType.Bounds.isNone_eq hlow]
          exact hf
      | some β =>
          obtain ⟨g, hg⟩ := habove hhigh
          refine ⟨f.join .and g, ?_⟩
          simp only [Condition.ofBound, hgiven, ColumnType.Bounds.isNone_eq hlow,
            ColumnType.Bounds.isNone_eq hhigh, between_some_some]
          exact hf.join_and hg

theorem Sound.lowers_range (h : s.Sound) (hroot : s.model? root.name = some root)
    (hbase : s.Base root path base) (hleads : s.Leads base relations m) {type : ColumnType}
    {choices : List (Value × Value)} {default : Value}
    (hfield : m.field? name = some (.column type choices default)) (htype : type.isPlain = true)
    {lower upper : Value} {low high : Option Cell} (hlow : type.Slot lower low)
    (hhigh : type.Slot upper high) (hsome : low ≠ none ∨ high ≠ none) :
    ∃ passes holding depth,
      s.Lowers root base path (.range (relations ++ [name]) lower upper) passes holding depth := by
  obtain ⟨f, hf⟩ := h.formed_between hroot hbase hleads hfield hlow hhigh hsome
  refine ⟨_, _, _, lowers_leaf (Cell.between low high)
    ⟨_, f, by rw [Condition.ofPredicate], hf⟩
    (fun _ _ _ => by rw [Predicate.holdsDetached]) (fun k hk o ho => ?_) fun _ => rfl⟩
  obtain ⟨hfollow, hholds⟩ :=
    h.follow_base (hbase.mem_models (mem_of_model? hroot).1) hleads hfield htype hk ho
  rw [Predicate.holds, hfollow, ColumnType.inRange_eq htype hlow hhigh hholds]
  rfl

/-! ## Searches -/

/-- A search is met, wherever it stands, by the rows from which the path of its collection leads to one
that passes. -/
theorem Sound.lowers_any (h : s.Sound) (hroot : s.model? root.name = some root)
    (hbase : s.Base root path base) {owner target : Model} {f : ModelField} {inner : Predicate}
    (hleads : s.Leads base relations owner) (hfield : owner.field? name = some f)
    (hmany : f.isSingle = false) (htarget : f.target?.bind s.model? = some target)
    {passes : Row → Option Row → Bool} {holding : Option Row → Bool} {depth : ℕ}
    (hinner : s.Lowers root target (path ++ (relations ++ [name])) inner passes holding depth) :
    s.Lowers root base path (.any (relations ++ [name]) inner)
      (fun r _ => (s.reach (some root) r (path ++ (relations ++ [name]))).any (passes r))
      (fun o => (s.gathered base o relations name f).any fun e => holding (some e))
      ((path ++ (relations ++ [name])).length + depth) where
  formed := by
    obtain ⟨c, g, hcondition, hformed⟩ := hinner.formed
    refine ⟨_, _, ?_, hformed.search h hroot (.elements hbase hleads hfield hmany htarget)⟩
    rw [Condition.ofPredicate, hcondition]
    dsimp only
    rw [hformed.prepared]
  detached n hn k _ r hr o _ := by
    have hbehind : s.Base root (path ++ (relations ++ [name])) target :=
      .elements hbase hleads hfield hmany htarget
    rw [Predicate.holdsDetached, spread_mirror hbehind.modelAt (by omega) r]
    refine anyHolds_map fun o ho => ?_
    exact hinner.detached n (by omega) _ (by omega) r hr o (mem_rows_of_reach hr hbehind.modelAt ho)
  holds k hk o _ := by
    simp only [List.length_append, List.length_singleton] at hk
    rw [Predicate.holds, hleads.elements_mirror? hfield hmany htarget o (by omega)]
    refine anyHolds_map fun e he => ?_
    have hmem := mem_rows_of_gathered htarget he
    exact hinner.holds _ (by omega) (some e) (by simpa using hmem)
  alone hsearches := by simp [Predicate.searches] at hsearches
  missing _ := rfl
  attached inside hdetachable _ r hr := by
    rw [Predicate.isDetachable] at hdetachable
    have hnone := hinner.missing hdetachable
    obtain ⟨o, os, hreach⟩ := List.exists_cons_of_ne_nil (reach_ne_nil (s := s) (some root) r path)
    calc (s.reach (some root) r path).any
          (fun _ => (s.reach (some root) r (path ++ (relations ++ [name]))).any (passes r))
        = (s.reach (some root) r (path ++ (relations ++ [name]))).any (passes r) := by
          rw [hreach]
          simp
      _ = (s.reach (some root) r (path ++ (relations ++ [name]))).any holding :=
          hinner.attached true hdetachable nofun r hr
      _ = (s.reach (some root) r path).any fun o =>
            (s.gathered base o relations name f).any fun e => holding (some e) := by
          rw [reach_elements hbase hleads hfield, List.any_flatMap]
          congr 1
          funext o
          split_ifs with hempty
          · rw [hempty, List.any_cons, hnone]
            rfl
          · exact List.any_map

/-! ## Connectives -/

theorem all_eq_of_mem {α : Type} {f g : α → Bool} {xs : List α} (h : ∀ x ∈ xs, f x = g x) :
    xs.all f = xs.all g := by
  rw [Bool.eq_iff_iff, List.all_eq_true, List.all_eq_true]
  exact forall₂_congr fun x hx => by rw [h x hx]

theorem any_eq_of_mem {α : Type} {f g : α → Bool} {xs : List α} (h : ∀ x ∈ xs, f x = g x) :
    xs.any f = xs.any g := by
  rw [Bool.eq_iff_iff, List.any_eq_true, List.any_eq_true]
  exact exists_congr fun x => and_congr_right fun hx => by rw [h x hx]

theorem any_any_comm {α β : Type} (f : α → β → Bool) (xs : List α) (ys : List β) :
    (xs.any fun x => ys.any (f x)) = ys.any fun y => xs.any fun x => f x y := by
  rw [Bool.eq_iff_iff]
  simp only [List.any_eq_true]
  constructor
  · rintro ⟨x, hx, y, hy, hf⟩
    exact ⟨y, hy, x, hx, hf⟩
  · rintro ⟨y, hy, x, hx, hf⟩
    exact ⟨x, hx, y, hy, hf⟩

/-- The conditions of several predicates, each of which is lowered. -/
theorem exists_ofPredicates {ps : List Predicate} {passes : Predicate → Row → Option Row → Bool}
    {holding : Predicate → Option Row → Bool} {depth : Predicate → ℕ}
    (h : ∀ p ∈ ps, s.Lowers root base path p (passes p) (holding p) (depth p)) :
    ∃ cs, Condition.ofPredicates s root.name path ps = .ok cs ∧
      List.Forall₂ (fun c passes => ∃ f, s.Formed root base path c f passes) cs (ps.map passes) := by
  induction ps with
  | nil => exact ⟨[], rfl, .nil⟩
  | cons p ps ih =>
      obtain ⟨hp, hps⟩ := List.forall_mem_cons.mp h
      obtain ⟨c, f, hcondition, hformed⟩ := hp.formed
      obtain ⟨cs, hconditions, hall⟩ := ih hps
      refine ⟨c :: cs, ?_, .cons ⟨f, hformed⟩ hall⟩
      rw [Condition.ofPredicates, hcondition]
      dsimp only
      rw [hconditions]

/-- From the selected row itself no path leads further, so that only this row is asked. -/
theorem Lowers.passes_eq {p : Predicate} {passes : Row → Option Row → Bool}
    {holding : Option Row → Bool} {depth : ℕ} (h : s.Lowers root base [] p passes holding depth)
    (hdetachable : p.isDetachable false = true) {r : Row} (hr : r ∈ s.rows root.name) :
    passes r (some r) = holding (some r) := by
  simpa [reach_nil] using h.attached false hdetachable (fun _ => rfl) r hr

section Connectives

variable {p : Predicate} {ps : List Predicate} {passes : Predicate → Row → Option Row → Bool}
  {holding : Predicate → Option Row → Bool} {depth : Predicate → ℕ}
  (h : ∀ q ∈ p :: ps, s.Lowers root base path q (passes q) (holding q) (depth q))

include h

theorem lowers_and :
    s.Lowers root base path (.and (p :: ps)) (fun r o => (p :: ps).all fun q => passes q r o)
      (fun o => (p :: ps).all fun q => holding q o) ((p :: ps).map depth).sum where
  formed := by
    obtain ⟨cs, hconditions, hall⟩ := exists_ofPredicates h
    obtain _ | ⟨⟨f, hformed⟩, hrest⟩ := hall
    obtain ⟨g, hg⟩ := hformed.foldl_and hrest
    refine ⟨_, g, ?_, by simpa [Function.comp_def] using hg⟩
    rw [Condition.ofPredicate, hconditions]
    rfl
  detached n hn k hk r hr o ho := by
    rw [Predicate.holdsDetached]
    refine Predicate.holdsDetachedAll_eq fun q hq => ?_
    have hdepth : depth q ≤ ((p :: ps).map depth).sum := List.le_sum_of_mem (List.mem_map_of_mem hq)
    exact (h q hq).detached n (hdepth.trans hn) k (hdepth.trans hk) r hr o ho
  holds k hk o ho := by
    rw [Predicate.holds]
    refine Predicate.holdsAll_eq fun q hq => ?_
    have hdepth : depth q ≤ ((p :: ps).map depth).sum := List.le_sum_of_mem (List.mem_map_of_mem hq)
    exact (h q hq).holds k (hdepth.trans hk) o ho
  alone hsearches r o := by
    rw [Predicate.searches, Predicate.someSearches_eq, List.any_eq_false] at hsearches
    exact all_eq_of_mem fun q hq => (h q hq).alone (by simpa using hsearches q hq) r o
  missing hdetachable := by
    rw [Predicate.isDetachable, Bool.and_eq_true, Predicate.allDetachable_eq,
      List.all_eq_true] at hdetachable
    rw [List.all_cons, (h p List.mem_cons_self).missing (hdetachable.2 p List.mem_cons_self),
      Bool.false_and]
  attached inside hdetachable hpath r hr := by
    rw [Predicate.isDetachable, Bool.and_eq_true, Predicate.allDetachable_eq,
      List.all_eq_true] at hdetachable
    obtain ⟨hitems, hdetachable⟩ := hdetachable
    cases inside with
    | false =>
        obtain rfl := hpath rfl
        simp only [reach_nil, List.any_cons, List.any_nil, Bool.or_false]
        exact all_eq_of_mem fun q hq => (h q hq).passes_eq (hdetachable q hq) hr
    | true =>
        rw [Bool.not_true, Bool.false_or, Bool.or_eq_true, decide_eq_true_eq, Bool.not_eq_true',
          Predicate.someSearches_eq, List.any_eq_false] at hitems
        rcases hitems with hone | hsearches
        · -- the one item is all that is asked of an element
          obtain rfl : ps = [] := by simpa using hone
          simpa using (h p List.mem_cons_self).attached true (hdetachable p List.mem_cons_self)
            nofun r hr
        · refine any_eq_of_mem fun o _ => all_eq_of_mem fun q hq => ?_
          exact (h q hq).alone (by simpa using hsearches q hq) r o

theorem lowers_or :
    s.Lowers root base path (.or (p :: ps)) (fun r o => (p :: ps).any fun q => passes q r o)
      (fun o => (p :: ps).any fun q => holding q o) ((p :: ps).map depth).sum where
  formed := by
    obtain ⟨cs, hconditions, hall⟩ := exists_ofPredicates h
    obtain _ | ⟨⟨f, hformed⟩, hrest⟩ := hall
    obtain ⟨g, hg⟩ := hformed.foldl_or hrest
    refine ⟨_, g, ?_, by simpa [Function.comp_def] using hg⟩
    rw [Condition.ofPredicate, hconditions]
    rfl
  detached n hn k hk r hr o ho := by
    rw [Predicate.holdsDetached]
    refine Predicate.holdsDetachedSome_eq fun q hq => ?_
    have hdepth : depth q ≤ ((p :: ps).map depth).sum := List.le_sum_of_mem (List.mem_map_of_mem hq)
    exact (h q hq).detached n (hdepth.trans hn) k (hdepth.trans hk) r hr o ho
  holds k hk o ho := by
    rw [Predicate.holds]
    refine Predicate.holdsSome_eq fun q hq => ?_
    have hdepth : depth q ≤ ((p :: ps).map depth).sum := List.le_sum_of_mem (List.mem_map_of_mem hq)
    exact (h q hq).holds k (hdepth.trans hk) o ho
  alone hsearches r o := by
    rw [Predicate.searches, Predicate.someSearches_eq, List.any_eq_false] at hsearches
    exact any_eq_of_mem fun q hq => (h q hq).alone (by simpa using hsearches q hq) r o
  missing hdetachable := by
    rw [Predicate.isDetachable, Predicate.allDetachable_eq, List.all_eq_true] at hdetachable
    rw [List.any_eq_false]
    exact fun q hq => by simp [(h q hq).missing (hdetachable q hq)]
  attached inside hdetachable hpath r hr := by
    rw [Predicate.isDetachable, Predicate.allDetachable_eq, List.all_eq_true] at hdetachable
    rw [any_any_comm (fun o q => passes q r o), any_any_comm (fun o q => holding q o)]
    exact any_eq_of_mem fun q hq => (h q hq).attached inside (hdetachable q hq) hpath r hr

end Connectives

/-- A predicate that tests columns and searches collections means on rows, with detached searches, what it
means on their mirrors. -/
theorem Sound.lowers (h : s.Sound) (hroot : s.model? root.name = some root) {p : Predicate}
    (htests : s.Tests base p) (hbase : s.Base root path base) :
    ∃ passes holding depth, s.Lowers root base path p passes holding depth := by
  induction htests generalizing path with
  | contains hleads hfield hpiece => exact h.lowers_contains hroot hbase hleads hfield hpiece
  | equals hleads hfield hv => exact h.lowers_equals hroot hbase hleads hfield hv
  | range hleads hfield htype hlow hhigh hsome =>
      exact h.lowers_range hroot hbase hleads hfield htype hlow hhigh hsome
  | any hleads hfield hmany htarget hinner ih =>
      obtain ⟨passes, holding, depth, hlowers⟩ := ih (.elements hbase hleads hfield hmany htarget)
      exact ⟨_, _, _, h.lowers_any hroot hbase hleads hfield hmany htarget hlowers⟩
  | and hps ih =>
      choose! passes holding depth hlowers using fun q hq => ih q hq hbase
      exact ⟨_, _, _, lowers_and hlowers⟩
  | or hps ih =>
      choose! passes holding depth hlowers using fun q hq => ih q hq hbase
      exact ⟨_, _, _, lowers_or hlowers⟩

end Store
end PageQuery
