import Mathlib
import PageQuery.Schema.Hint

/-!
# Choices without absence

Stripping absence from a hint looks at its alternatives, of which it keeps those that are not written like
an earlier one.  Hints that are written alike are equal, so what is left is decided by which alternatives
there are: a single one beside absence stands for the hint, and several leave the hint as it is.
-/

namespace PageQuery.Hint

/-! ## Hints that are written alike -/

mutual

theorem alike_self : (h : Hint) → alike h h = true
  | .type t => beq_self_eq_true t
  | .optional h => alike_self h
  | .union hs => alikeAll_self hs
  | .either g h => by rw [alike, alike_self g, alike_self h]; rfl
  | .collection n b hs => by rw [alike, alikeAll_self hs]; simp
  | .applied n hs => by rw [alike, alikeAll_self hs]; simp
  | .deque h => alike_self h
  | .classWide h => alike_self h
  | .forward s => beq_self_eq_true s
  | .reference s => beq_self_eq_true s
  | .nothing => rfl
  | .thing s t b w => by simp [alike]

theorem alikeAll_self : (hs : List Hint) → alikeAll hs hs = true
  | [] => rfl
  | h :: hs => by rw [alikeAll, alike_self h, alikeAll_self hs]; rfl

end

mutual

theorem eq_of_alike : (g h : Hint) → alike g h = true → g = h
  | .type s, h, halike => by
    cases h with
    | type t => exact congrArg _ (eq_of_beq halike)
    | _ => cases halike
  | .optional g, h, halike => by
    cases h with
    | optional h => exact congrArg _ (eq_of_alike g h halike)
    | _ => cases halike
  | .union gs, h, halike => by
    cases h with
    | union hs => exact congrArg _ (eq_of_alikeAll gs hs halike)
    | _ => cases halike
  | .either g g', h, halike => by
    cases h with
    | either h h' =>
        obtain ⟨hg, hg'⟩ := Bool.and_eq_true_iff.mp halike
        rw [eq_of_alike g h hg, eq_of_alike g' h' hg']
    | _ => cases halike
  | .collection n b gs, h, halike => by
    cases h with
    | collection m c hs =>
        obtain ⟨hshape, hgs⟩ := Bool.and_eq_true_iff.mp halike
        obtain ⟨hn, hb⟩ := Bool.and_eq_true_iff.mp hshape
        rw [eq_of_beq hn, eq_of_beq hb, eq_of_alikeAll gs hs hgs]
    | _ => cases halike
  | .applied n gs, h, halike => by
    cases h with
    | applied m hs =>
        obtain ⟨hn, hgs⟩ := Bool.and_eq_true_iff.mp halike
        rw [eq_of_beq hn, eq_of_alikeAll gs hs hgs]
    | _ => cases halike
  | .deque g, h, halike => by
    cases h with
    | deque h => exact congrArg _ (eq_of_alike g h halike)
    | _ => cases halike
  | .classWide g, h, halike => by
    cases h with
    | classWide h => exact congrArg _ (eq_of_alike g h halike)
    | _ => cases halike
  | .forward s, h, halike => by
    cases h with
    | forward t => exact congrArg _ (eq_of_beq halike)
    | _ => cases halike
  | .reference s, h, halike => by
    cases h with
    | reference t => exact congrArg _ (eq_of_beq halike)
    | _ => cases halike
  | .nothing, h, halike => by
    cases h with
    | nothing => rfl
    | _ => cases halike
  | .thing s t b w, h, halike => by
    cases h with
    | thing s' t' b' w' =>
        obtain ⟨hkeys, hw⟩ := Bool.and_eq_true_iff.mp halike
        obtain ⟨htexts, hb⟩ := Bool.and_eq_true_iff.mp hkeys
        obtain ⟨hs, ht⟩ := Bool.and_eq_true_iff.mp htexts
        rw [eq_of_beq hs, eq_of_beq ht, eq_of_beq hb, eq_of_beq hw]
    | _ => cases halike

theorem eq_of_alikeAll : (gs hs : List Hint) → alikeAll gs hs = true → gs = hs
  | [], [], _ => rfl
  | [], _ :: _, halike => by cases halike
  | _ :: _, [], halike => by cases halike
  | g :: gs, h :: hs, halike => by
    obtain ⟨hhead, htail⟩ := Bool.and_eq_true_iff.mp halike
    rw [eq_of_alike g h hhead, eq_of_alikeAll gs hs htail]

end

theorem alike_iff {g h : Hint} : alike g h = true ↔ g = h :=
  ⟨eq_of_alike g h, fun heq => heq ▸ alike_self g⟩

theorem alike_eq_false_iff {g h : Hint} : alike g h = false ↔ g ≠ h := by
  rw [← Bool.not_eq_true, alike_iff]

/-! ## Distinct alternatives -/

/-- Hints that are added one after the other, unless they are there, stay distinct. -/
theorem foldl_distinct {kept : List Hint} (hkept : kept.Nodup) (hs : List Hint) :
    (hs.foldl (fun kept h => if kept.any (alike h) then kept else kept ++ [h]) kept).Nodup ∧
      ∀ g, g ∈ hs.foldl (fun kept h => if kept.any (alike h) then kept else kept ++ [h]) kept ↔
        g ∈ kept ∨ g ∈ hs := by
  induction hs generalizing kept with
  | nil => exact ⟨hkept, fun g => by simp⟩
  | cons h hs ih =>
      have hany : kept.any (alike h) = true ↔ h ∈ kept := by
        simp [alike_iff]
      rw [List.foldl_cons]
      split
      · rename_i hin
        obtain ⟨hnodup, hmem⟩ := ih hkept
        refine ⟨hnodup, fun g => (hmem g).trans ?_⟩
        rw [List.mem_cons]
        refine ⟨fun hg => hg.imp_right .inr, ?_⟩
        rintro (hg | rfl | hg)
        · exact .inl hg
        · exact .inl (hany.mp hin)
        · exact .inr hg
      · rename_i hout
        have hnodup : (kept ++ [h]).Nodup :=
          List.nodup_append.mpr ⟨hkept, List.nodup_singleton h, fun a ha b hb heq =>
            hout (hany.mpr (List.mem_singleton.mp hb ▸ heq ▸ ha))⟩
        obtain ⟨hnodup', hmem⟩ := ih hnodup
        refine ⟨hnodup', fun g => (hmem g).trans ?_⟩
        rw [List.mem_append, List.mem_singleton, List.mem_cons, or_assoc]

theorem nodup_distinct (hs : List Hint) : (distinct hs).Nodup :=
  (foldl_distinct List.nodup_nil hs).1

theorem mem_distinct {hs : List Hint} {g : Hint} : g ∈ distinct hs ↔ g ∈ hs := by
  rw [distinct, (foldl_distinct List.nodup_nil hs).2 g]
  simp

theorem eq_singleton_of_nodup {hs : List Hint} {s : Hint} (hnodup : hs.Nodup) (hs0 : s ∈ hs)
    (honly : ∀ g ∈ hs, g = s) : hs = [s] := by
  obtain ⟨n, hrepeat⟩ : ∃ n, hs = List.replicate n s := ⟨hs.length, List.eq_replicate_of_mem honly⟩
  rw [hrepeat] at hnodup hs0 ⊢
  have hone := List.nodup_replicate.mp hnodup
  have hpos : n ≠ 0 := fun hzero => by rw [hzero] at hs0; cases hs0
  rw [show n = 1 by omega]
  rfl

/-! ## What is left without absence -/

/-- One hint is left of several ones beside absence. -/
def Leaves (hs : List Hint) (s : Hint) : Prop :=
  s ∈ hs ∧ ∀ g ∈ hs, g = s ∨ g = absent

theorem Leaves.absent_behind {hs : List Hint} {s : Hint} (h : Leaves hs s) : Leaves (hs ++ [absent]) s := by
  refine ⟨List.mem_append_left _ h.1, fun g hg => ?_⟩
  rcases List.mem_append.mp hg with hg | hg
  · exact h.2 g hg
  · exact .inr (List.mem_singleton.mp hg)

theorem Leaves.absent_before {hs : List Hint} {s : Hint} (h : Leaves hs s) : Leaves (absent :: hs) s := by
  refine ⟨List.mem_cons_of_mem _ h.1, fun g hg => ?_⟩
  rcases List.mem_cons.mp hg with hg | hg
  · exact .inr hg
  · exact h.2 g hg

theorem inside_of_ne_forward {h : Hint} (hh : ∀ text, h ≠ .forward text) : h.inside = h := by
  cases h with
  | forward text => exact absurd rfl (hh text)
  | _ => rfl

/-- Inside a generic form nothing changes where no text is. -/
theorem map_inside_of_resolved {hs : List Hint} (hresolved : ∀ text, .forward text ∉ hs) :
    hs.map inside = hs := by
  have hsame : ∀ h ∈ hs, h.inside = h := fun h hh =>
    inside_of_ne_forward fun text heq => hresolved text (heq ▸ hh)
  rw [List.map_congr_left hsame, List.map_id']

theorem Leaves.forward_notMem {hs : List Hint} {s : Hint} (h : Leaves hs s)
    (hresolved : ∀ text, s ≠ .forward text) (text : String) : Hint.forward text ∉ hs := by
  intro hmem
  rcases h.2 _ hmem with heq | heq
  · exact hresolved text heq.symm
  · cases heq

/-- A single alternative beside absence stands for the whole hint. -/
theorem withoutAbsent_of_leaves {h s : Hint} (hleaves : Leaves h.alternatives s) : h.withoutAbsent = s := by
  obtain ⟨hs, honly⟩ := hleaves
  rw [withoutAbsent]
  split
  · rename_i single hsingle
    have hmem : s ∈ distinct h.alternatives := mem_distinct.mpr hs
    rw [hsingle] at hmem
    exact (List.mem_singleton.mp hmem).symm
  · rename_i hseveral
    have hs0 : s ≠ absent := by
      rintro rfl
      exact hseveral _ (eq_singleton_of_nodup (nodup_distinct _) (mem_distinct.mpr hs) fun g hg =>
        (honly g (mem_distinct.mp hg)).elim id id)
    have hleft : (distinct h.alternatives).filter (fun g => !alike g absent) = [s] := by
      refine eq_singleton_of_nodup ((nodup_distinct _).filter _) ?_ ?_
      · exact List.mem_filter.mpr ⟨mem_distinct.mpr hs, by rw [alike_eq_false_iff.mpr hs0]; rfl⟩
      · intro g hg
        obtain ⟨hg, hpresent⟩ := List.mem_filter.mp hg
        refine (honly g (mem_distinct.mp hg)).resolve_right ?_
        rintro rfl
        rw [alike_self] at hpresent
        cases hpresent
    rw [hleft]

/-- Whether a hint is a choice between several types other than absence. -/
def IsChoice (h : Hint) : Prop :=
  ∃ a ∈ h.alternatives, ∃ b ∈ h.alternatives, a ≠ b ∧ a ≠ absent ∧ b ≠ absent

/-- A choice between several types stays as it is. -/
theorem withoutAbsent_of_isChoice {h : Hint} (hchoice : h.IsChoice) : h.withoutAbsent = h := by
  obtain ⟨a, ha, b, hb, hne, ha0, hb0⟩ := hchoice
  have hnot {hs : List Hint} (ha : a ∈ hs) (hb : b ∈ hs) (s : Hint) : hs ≠ [s] := by
    rintro rfl
    exact hne ((List.mem_singleton.mp ha).trans (List.mem_singleton.mp hb).symm)
  have hkept {g : Hint} (hg : g ∈ h.alternatives) (hg0 : g ≠ absent) :
      g ∈ (distinct h.alternatives).filter fun g => !alike g absent :=
    List.mem_filter.mpr ⟨mem_distinct.mpr hg, by rw [alike_eq_false_iff.mpr hg0]; rfl⟩
  rw [withoutAbsent]
  split
  · rename_i hsingle
    exact absurd hsingle (hnot (mem_distinct.mpr ha) (mem_distinct.mpr hb) _)
  · split
    · rename_i hsingle
      exact absurd hsingle (hnot (hkept ha ha0) (hkept hb hb0) _)
    · rfl

/-- Of a hint that is no choice one alternative is left. -/
theorem exists_leaves {h : Hint} (hsome : h.alternatives ≠ []) (hchoice : ¬ h.IsChoice) :
    ∃ s, Leaves h.alternatives s := by
  by_cases habsent : ∀ g ∈ h.alternatives, g = absent
  · obtain ⟨s, hs⟩ := List.exists_mem_of_ne_nil _ hsome
    exact ⟨s, hs, fun g hg => .inr (habsent g hg)⟩
  · push Not at habsent
    obtain ⟨s, hs, hs0⟩ := habsent
    refine ⟨s, hs, fun g hg => ?_⟩
    by_contra hother
    obtain ⟨hne, hg0⟩ := not_or.mp hother
    exact hchoice ⟨g, hg, s, hs, hne, hg0, hs0⟩

end PageQuery.Hint
