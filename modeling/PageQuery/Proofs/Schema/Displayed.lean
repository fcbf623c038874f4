import Mathlib
import PageQuery.Proofs.Schema.Tables
import PageQuery.Response

/-!
# What a displayed value picks

A member of an enumeration is shown by its value, and a choice by its stored value.  Where such a text comes
back in a filter it picks a member or a choice again.  But a member is picked by its name before any is picked
by its value, and a choice by its label before a later one is picked by its stored value.  So a displayed
value picks itself unless a name or a label stands in its way, and this module says exactly when.  Members
that also are moments, lists or tuples are shown by another text than that of their value, which may pick
nothing.
-/

namespace PageQuery

open PageQuery.Text

/-- Values that are told apart by their texts: each has one, none is blank, none has blanks at its ends, and
no two are the same, letter case aside. -/
structure AreDistinctive (values : List Value) : Prop where
  written : ∀ v ∈ values, v.hasPlainText = true
  notBlank : ∀ v ∈ values, isBlank v.plainText = false
  trimmed : ∀ v ∈ values, trim v.plainText = v.plainText
  apart : values.Pairwise fun u v => lower u.plainText ≠ lower v.plainText

/-- The first item of a list that something is true of. -/
def IsFirst {α : Type} (p : α → Prop) (xs : List α) (x : α) : Prop :=
  ∃ before after, xs = before ++ x :: after ∧ p x ∧ ∀ y ∈ before, ¬ p y

section Finding

variable {α : Type} {p : α → Bool} {q : α → Prop} {xs before after : List α} {x : α}

theorem find?_eq_some_iff_isFirst (hpq : ∀ y, p y = true ↔ q y) :
    xs.find? p = some x ↔ IsFirst q xs x := by
  rw [List.find?_eq_some_iff_append, IsFirst]
  simp only [Bool.not_eq_eq_eq_not, Bool.not_true, ← Bool.not_eq_true, hpq]
  constructor
  · rintro ⟨hx, before, after, hxs, hbefore⟩
    exact ⟨before, after, hxs, hx, hbefore⟩
  · rintro ⟨before, after, hxs, hx, hbefore⟩
    exact ⟨hx, before, after, hxs, hbefore⟩

theorem exists_isFirst (h : ∃ x ∈ xs, q x) : ∃ x, IsFirst q xs x := by
  classical
  obtain ⟨x, hx, hqx⟩ := h
  have hsome : (xs.find? fun y => decide (q y)).isSome := by
    rw [List.find?_isSome]
    exact ⟨x, hx, decide_eq_true hqx⟩
  obtain ⟨y, hy⟩ := Option.isSome_iff_exists.mp hsome
  exact ⟨y, (find?_eq_some_iff_isFirst fun z => decide_eq_true_iff).mp hy⟩

/-- An item whose value sets it apart is not preceded by one that has the same text. -/
theorem lower_ne_of_areDistinctive {value : α → Value}
    (h : AreDistinctive ((before ++ x :: after).map value)) :
    ∀ y ∈ before, lower (value y).plainText ≠ lower (value x).plainText := by
  intro y hy
  have hapart := h.apart
  rw [List.map_append, List.map_cons, List.pairwise_append] at hapart
  exact hapart.2.2 (value y) (List.mem_map_of_mem hy) (value x) List.mem_cons_self

end Finding

def Enumeration.valueOf (e : Enumeration) (m : String × Value) : Value :=
  .member e.name m.1 e.mixin m.2

/-- Whether a member is shown by another text than that of its value: a moment by one with a mark between its
day and its time, a list or a tuple by the list of what its items are shown as. -/
def Enumeration.reshapes (e : Enumeration) (m : String × Value) : Bool :=
  match e.mixin, m.2 with
  | .moment, _ | .other, .list _ | .other, .tuple _ => true
  | _, _ => false

theorem Enumeration.valueOf_injective (e : Enumeration) : Function.Injective e.valueOf := by
  rintro ⟨s, u⟩ ⟨t, v⟩ h
  obtain ⟨-, hname, -, hvalue⟩ := Value.member.inj h
  exact Prod.ext hname hvalue

namespace Parser

variable {e : Enumeration} {m n : String × Value} {text : String}
  {options before after : List (Value × Value)} {o c : Value × Value}

/-! ## Members -/

/-- The name of a member is a text, letter case aside. -/
def IsNamed (text : String) (m : String × Value) : Prop :=
  lower m.1 = lower text

theorem displays_eq_ok {wanted : String} {v : Value} (hv : v.hasPlainText = true) :
    displays wanted v = .ok (lower v.plainText == wanted) := by
  rw [displays, Value.writePlain, if_pos hv]
  rfl

/-- Names come first. -/
theorem readMember_of_isFirst (h : IsFirst (IsNamed (trim text)) e.distinctMembers n) :
    readMember e text = .ok (e.valueOf n) := by
  have hfound : (e.distinctMembers.find? fun n => lower n.1 == lower (trim text)) = some n :=
    (find?_eq_some_iff_isFirst fun _ => beq_iff_eq).mpr h
  rw [readMember, findMember, hfound]
  rfl

/-- Where no member has such a name, a member is picked by the text of its value. -/
theorem readMember_eq_iff (h : AreDistinctive (e.distinctMembers.map (·.2))) (hm : m ∈ e.distinctMembers)
    (hnone : ∀ n ∈ e.distinctMembers, ¬ IsNamed (trim text) n) :
    readMember e text = .ok (e.valueOf m) ↔ lower (trim text) = lower m.2.plainText := by
  have hname : (e.distinctMembers.find? fun n => lower n.1 == lower (trim text)) = none := by
    rw [List.find?_eq_none]
    exact fun n hn heq => hnone n hn (beq_iff_eq.mp heq)
  have hdisplays (n : String × Value) (hn : n ∈ e.distinctMembers) :
      displays (lower (trim text)) n.2 = .ok (lower n.2.plainText == lower (trim text)) :=
    displays_eq_ok (h.written _ (List.mem_map_of_mem hn))
  rw [readMember, findMember, hname]
  dsimp only
  constructor
  · intro hself
    split at hself
    · rename_i n hn
      obtain rfl : n = m := e.valueOf_injective (Except.ok.inj hself)
      obtain ⟨-, -, -, hn, -⟩ := search_eq_some.mp hn
      rw [hdisplays n hm, Except.ok.injEq, beq_iff_eq] at hn
      exact hn.symm
    · cases hself
    · cases hself
  · intro htext
    obtain ⟨before, after, hmembers⟩ := List.append_of_mem hm
    have hfound : search (fun n => displays (lower (trim text)) n.2) e.distinctMembers = .ok (some m) := by
      refine search_eq_some.mpr ⟨before, after, hmembers, ?_, fun n hn => ?_⟩
      · rw [hdisplays m hm, htext, beq_self_eq_true]
      · rw [hdisplays n (by simp [hmembers, hn]), Except.ok.injEq, beq_eq_false_iff_ne, htext]
        rw [hmembers] at h
        exact lower_ne_of_areDistinctive h n hn
    rw [hfound]
    rfl

/-- Unless it is reshaped, a member is shown by the text of its value. -/
theorem exists_shown (hm : m ∈ e.distinctMembers) (hwritten : m.2.hasPlainText = true)
    (hplain : e.reshapes m = false) :
    ∃ shown, (e.valueOf m).serialize = .ok shown ∧ shown.writePlain = .ok m.2.plainText := by
  obtain ⟨key, v⟩ := m
  have hholds := e.fits _ (Enumeration.mem_of_mem_distinctMembers hm)
  have hwrite : v.writePlain = .ok v.plainText := if_pos hwritten
  rw [Enumeration.valueOf]
  rw [Enumeration.reshapes] at hplain
  generalize e.mixin = mixin at hholds hplain
  cases mixin with
  | plain => exact ⟨v, rfl, hwrite⟩
  | moment => cases hplain
  | _ => cases v <;> first | (cases hholds; done) | (cases hplain; done) | exact ⟨_, rfl, hwrite⟩

/-! ## Choices -/

/-- The label of a choice is a text, letter case aside. -/
def IsLabelled (text : String) (o : Value × Value) : Prop :=
  lower o.2.plainText = lower text

/-- A choice stops a search for a text that is not its stored value: by its label, which is that text or
cannot be written. -/
def Stops (text : String) (o : Value × Value) : Prop :=
  o.2.hasPlainText = false ∨ IsLabelled text o

theorem offers_eq (hwritten : o.1.hasPlainText = true) :
    offers (lower text) o =
      if lower o.1.plainText = lower text then .ok true
      else if o.2.hasPlainText then .ok (lower o.2.plainText == lower text) else .error .badValue := by
  rw [offers, displays_eq_ok hwritten]
  by_cases hvalue : lower o.1.plainText = lower text
  · simp [hvalue]
  · rw [beq_false_of_ne hvalue, if_neg hvalue, displays, Value.writePlain]
    cases o.2.hasPlainText <;> rfl

section Choices

variable (h : AreDistinctive ((before ++ o :: after).map (·.1)))

include h

/-- A choice before another one does not have that one's stored value. -/
theorem offers_before (hc : c ∈ before) :
    offers (lower o.1.plainText) c =
      if c.2.hasPlainText then .ok (lower c.2.plainText == lower o.1.plainText)
      else .error .badValue := by
  rw [offers_eq (h.written _ (List.mem_map_of_mem (by simp [hc]))),
    if_neg (lower_ne_of_areDistinctive h c hc)]

theorem offers_eq_false (hc : c ∈ before) (hstops : ¬ Stops o.1.plainText c) :
    offers (lower o.1.plainText) c = .ok false := by
  rw [Stops, not_or, Bool.not_eq_false] at hstops
  rw [offers_before h hc, if_pos hstops.1, beq_false_of_ne hstops.2]

theorem readChoice_eq : readChoice (before ++ o :: after) o.1.plainText =
    match search (offers (lower o.1.plainText)) (before ++ o :: after) with
    | .ok (some c) => .ok c.1
    | .ok none => .error (.unreadable (.choice o.1.plainText))
    | .error f => .error (.fault f) := by
  rewrite [readChoice, h.trimmed _ (by simp)]
  rfl

/-- The first choice before another one that stops the search for that one's stored value is picked by its
label, which has to be written. -/
theorem readChoice_of_stops (hc : IsFirst (Stops o.1.plainText) before c) :
    readChoice (before ++ o :: after) o.1.plainText =
      if c.2.hasPlainText then .ok c.1 else .error (.fault .badValue) := by
  obtain ⟨front, back, rfl, hstops, hfront⟩ := hc
  have hmem : c ∈ front ++ c :: back := by simp
  have hbefore : ∀ d ∈ front, offers (lower o.1.plainText) d = .ok false := fun d hd =>
    offers_eq_false h (by simp [hd]) (hfront d hd)
  have hwhole : front ++ c :: back ++ o :: after = front ++ c :: (back ++ o :: after) := by simp
  have hoffers := offers_before h hmem
  rw [readChoice_eq h]
  cases hlabel : c.2.hasPlainText with
  | true =>
      have hnamed : IsLabelled o.1.plainText c := hstops.resolve_left (by simp [hlabel])
      rw [hlabel, if_pos rfl, beq_iff_eq.mpr hnamed] at hoffers
      rw [search_eq_some.mpr ⟨front, _, hwhole, hoffers, hbefore⟩]
      rfl
  | false =>
      rw [hlabel, if_neg Bool.false_ne_true] at hoffers
      rw [search_eq_error.mpr ⟨front, c, _, hwhole, hoffers, hbefore⟩]
      rfl

/-- Where no choice before it stops the search, the stored value picks the choice. -/
theorem readChoice_of_value (hnone : ∀ c ∈ before, ¬ Stops o.1.plainText c) :
    readChoice (before ++ o :: after) o.1.plainText = .ok o.1 := by
  have hoffers : offers (lower o.1.plainText) o = .ok true := by
    rw [offers_eq (h.written _ (by simp)), if_pos rfl]
  rw [readChoice_eq h, search_eq_some.mpr ⟨before, after, rfl, hoffers,
    fun c hc => offers_eq_false h hc (hnone c hc)⟩]

end Choices

/-! ## Displayed values -/

/-- Let the values of an enumeration be distinctive.  The text by which a member is shown, that of its value
unless it is reshaped, picks the first member that has it as its name, if there is one.  So the member is
picked again exactly if no other one is the first of that name, and its own name or value is that text.
Let the stored values of choices be distinctive.  The text of a stored value picks the first choice before
it that has the text as its label, unless that label cannot be written, and else the choice itself; so the
value is picked again exactly if no choice before it stops the search. -/
theorem displayed_picks_itself_iff :
    (∀ e : Enumeration, AreDistinctive (e.distinctMembers.map (·.2)) → ∀ m ∈ e.distinctMembers,
      (e.reshapes m = false →
        ∃ shown, (e.valueOf m).serialize = .ok shown ∧ shown.writePlain = .ok m.2.plainText) ∧
      ∀ shown text, (e.valueOf m).serialize = .ok shown → shown.writePlain = .ok text →
        (e.reshapes m = false → trim text = text ∧ text = m.2.plainText) ∧
        (∀ n, IsFirst (IsNamed (trim text)) e.distinctMembers n → readMember e text = .ok (e.valueOf n)) ∧
        (readMember e text = .ok (e.valueOf m) ↔
          (∀ n, IsFirst (IsNamed (trim text)) e.distinctMembers n → n = m) ∧
            (IsNamed (trim text) m ∨ lower (trim text) = lower m.2.plainText))) ∧
    ∀ before after o, AreDistinctive ((before ++ o :: after).map (·.1)) →
      (∀ c, IsFirst (Stops o.1.plainText) before c →
        readChoice (before ++ o :: after) o.1.plainText =
          if c.2.hasPlainText then .ok c.1 else .error (.fault .badValue)) ∧
      (readChoice (before ++ o :: after) o.1.plainText = .ok o.1 ↔
        ∀ c ∈ before, ¬ Stops o.1.plainText c) := by
  refine ⟨fun e h m hm => ?_, fun before after o h => ?_⟩
  · have hmem : m.2 ∈ e.distinctMembers.map (·.2) := List.mem_map_of_mem hm
    have hshown := exists_shown hm (h.written _ hmem)
    refine ⟨hshown, fun shown text hserialize hwrite => ⟨fun hplain => ?_, fun n => readMember_of_isFirst, ?_⟩⟩
    · obtain ⟨shown', hserialize', hwrite'⟩ := hshown hplain
      obtain rfl := Except.ok.inj (hserialize.symm.trans hserialize')
      obtain rfl := Except.ok.inj (hwrite.symm.trans hwrite')
      exact ⟨h.trimmed _ hmem, rfl⟩
    · by_cases hnamed : ∃ n ∈ e.distinctMembers, IsNamed (trim text) n
      · obtain ⟨n, hn⟩ := exists_isFirst hnamed
        rw [readMember_of_isFirst hn, Except.ok.injEq, e.valueOf_injective.eq_iff]
        constructor
        · rintro rfl
          obtain ⟨-, -, -, hname, -⟩ := id hn
          refine ⟨fun k hk => ?_, .inl hname⟩
          have hpick := (readMember_of_isFirst hk).symm.trans (readMember_of_isFirst hn)
          exact e.valueOf_injective (Except.ok.inj hpick)
        · exact fun hself => hself.1 n hn
      · have hnone : ∀ n ∈ e.distinctMembers, ¬ IsNamed (trim text) n := fun n hn hname =>
          hnamed ⟨n, hn, hname⟩
        rw [readMember_eq_iff h hm hnone, or_iff_right (hnone m hm)]
        refine (and_iff_right fun n hn => ?_).symm
        obtain ⟨front, back, hmembers, hname, -⟩ := hn
        exact absurd hname (hnone n (by simp [hmembers]))
  · refine ⟨fun c hc => readChoice_of_stops h hc, fun hself c hc hstops => ?_,
      fun hnone => readChoice_of_value h hnone⟩
    obtain ⟨d, hd⟩ := exists_isFirst ⟨c, hc, hstops⟩
    rw [readChoice_of_stops h hd] at hself
    obtain ⟨front, back, rfl, -, -⟩ := hd
    split at hself
    · exact lower_ne_of_areDistinctive h d (by simp) (by rw [Except.ok.inj hself])
    · cases hself

/-- The marks of a school with the points that they are worth; a pass is another name for a fair one. -/
def marks : Enumeration :=
  { name := "Mark", mixin := .number, members := [("GOOD", .int 2), ("FAIR", .int 1), ("PASS", .int 1)] }

/-- The points of a mark pick the mark.  A letter that is stored for a size picks the size, although it is
the label of the size behind it as well. -/
theorem displayed_picks_itself_marks :
    (AreDistinctive (marks.distinctMembers.map (·.2)) ∧
      ("FAIR", .int 1) ∈ marks.distinctMembers ∧
      (marks.valueOf ("FAIR", .int 1)).serialize = .ok (.int 1) ∧
      readMember marks "1" = .ok (marks.valueOf ("FAIR", .int 1))) ∧
    AreDistinctive (([(.text "s", .text "Small")] ++ (.text "m", .text "Medium") ::
      [(.text "l", .text "M")] : List (Value × Value)).map (·.1)) ∧
    readChoice ([(.text "s", .text "Small")] ++ (.text "m", .text "Medium") ::
      [(.text "l", .text "M")]) "m" = .ok (.text "m") := by
  have hmembers : marks.distinctMembers = [("GOOD", .int 2), ("FAIR", .int 1)] := by cbv
  have hmarks : AreDistinctive (marks.distinctMembers.map (·.2)) := by
    rw [hmembers]
    exact ⟨by decide +kernel, by decide +kernel, by decide +kernel, by decide +kernel⟩
  have hfair : ("FAIR", .int 1) ∈ marks.distinctMembers := by
    rw [hmembers]
    exact List.mem_cons_of_mem _ List.mem_cons_self
  have hsizes : AreDistinctive (([(.text "s", .text "Small")] ++ (.text "m", .text "Medium") ::
      [(.text "l", .text "M")] : List (Value × Value)).map (·.1)) :=
    ⟨by decide +kernel, by decide +kernel, by decide +kernel, by decide +kernel⟩
  have hserialize : (marks.valueOf ("FAIR", .int 1)).serialize = .ok (.int 1) := rfl
  have hwrite : (Value.int 1).writePlain = .ok "1" := by decide +kernel
  obtain ⟨-, hshown⟩ := displayed_picks_itself_iff.1 marks hmarks _ hfair
  obtain ⟨-, -, hpicks⟩ := hshown _ _ hserialize hwrite
  refine ⟨⟨hmarks, hfair, hserialize, hpicks.mpr ⟨?_, .inr (by decide +kernel)⟩⟩, hsizes, ?_⟩
  · rintro n ⟨before, after, hn, hname, -⟩
    have hunnamed : ∀ k ∈ marks.distinctMembers, ¬ lower k.1 = lower (trim "1") := by
      rw [hmembers]
      decide +kernel
    exact absurd hname (hunnamed n (by simp [hn]))
  · refine (displayed_picks_itself_iff.2 _ _ _ hsizes).2.mpr ?_
    rw [List.forall_mem_singleton, Stops, IsLabelled]
    decide +kernel

/-- Two shifts, each of which has the name of the other one as its value. -/
def crossed : Enumeration :=
  { name := "Shift", members := [("EARLY", .text "late"), ("LATE", .text "early")] }

def atTen : Value :=
  .datetime ⟨⟨2022, 9, 21⟩, ⟨10, 0, 0, 0⟩, none, false⟩

def dues : Enumeration :=
  { name := "Due", mixin := .moment, members := [("FIRST", atTen)] }

/-- The value that the early shift is shown by picks the late one, the text that a moment is shown by does not
pick the moment, and the stored value of a choice picks the choice before it, which has it as its label. -/
theorem displayed_picks_another :
    (AreDistinctive (crossed.distinctMembers.map (·.2)) ∧
      ("EARLY", .text "late") ∈ crossed.distinctMembers ∧
      (crossed.valueOf ("EARLY", .text "late")).serialize = .ok (.text "late") ∧
      readMember crossed (Value.text "late").plainText = .ok (crossed.valueOf ("LATE", .text "early")) ∧
      crossed.valueOf ("LATE", .text "early") ≠ crossed.valueOf ("EARLY", .text "late")) ∧
    (AreDistinctive (dues.distinctMembers.map (·.2)) ∧ ("FIRST", atTen) ∈ dues.distinctMembers ∧
      (dues.valueOf ("FIRST", atTen)).serialize = .ok (.text "2022-09-21T10:00:00") ∧
      readMember dues "2022-09-21T10:00:00" ≠ .ok (dues.valueOf ("FIRST", atTen))) ∧
    AreDistinctive (([(.text "a", .text "B"), (.text "b", .text "C")] : List (Value × Value)).map (·.1)) ∧
    readChoice [(.text "a", .text "B"), (.text "b", .text "C")] (Value.text "b").plainText =
      .ok (.text "a") := by
  have hmembers : crossed.distinctMembers = [("EARLY", .text "late"), ("LATE", .text "early")] := by cbv
  have hshifts : AreDistinctive (crossed.distinctMembers.map (·.2)) := by
    rw [hmembers]
    exact ⟨by decide +kernel, by decide +kernel, by decide +kernel, by decide +kernel⟩
  have hother : crossed.valueOf ("LATE", .text "early") ≠ crossed.valueOf ("EARLY", .text "late") :=
    crossed.valueOf_injective.ne fun h => absurd (congrArg Prod.fst h) (by decide)
  have hten : ("FIRST", atTen) ∈ dues.distinctMembers := List.mem_cons_self
  have hdues : AreDistinctive (dues.distinctMembers.map (·.2)) :=
    ⟨by decide +kernel, by decide +kernel, by decide +kernel, by decide +kernel⟩
  have hunnamed : ∀ n ∈ dues.distinctMembers, ¬ IsNamed (trim "2022-09-21T10:00:00") n := by
    intro n hn
    rw [List.mem_singleton.mp hn, IsNamed]
    decide +kernel
  have hshown : (dues.valueOf ("FIRST", atTen)).serialize = .ok (.text "2022-09-21T10:00:00") := by cbv
  have hlost : lower (trim "2022-09-21T10:00:00") ≠ lower atTen.plainText := by decide +kernel
  refine ⟨⟨hshifts, by simp [hmembers], rfl, by cbv, hother⟩, ⟨hdues, hten, hshown, ?_⟩, ?_, by cbv⟩
  · exact fun hself => hlost ((readMember_eq_iff hdues hten hunnamed).mp hself)
  · exact ⟨by decide +kernel, by decide +kernel, by decide +kernel, by decide +kernel⟩

end Parser
end PageQuery
