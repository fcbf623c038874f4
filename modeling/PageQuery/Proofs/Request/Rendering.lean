import Mathlib
import PageQuery.Request.Parameters
import PageQuery.Proofs.Text.Parts

/-!
# Filters as texts

A list of items is written as a row of clauses, and reading the text brings the items back.  The
items that can be written in this way are the ones that reading a filter gives: the property is a
path of words, and the values are trimmed and hold no comma and no closing bracket.

The reader scans for clauses.  So the proof shows that it takes a clause off the front of a text as
it was written, whatever follows, and that every clause that it takes could have been written.
-/

namespace PageQuery

open PageQuery.Text

/-! ## Writing -/

/-- The text of an item as a clause.  A blank stands behind the bracket, so that the brackets of an
item whose only value is empty are not. -/
def FilterItem.render (item : FilterItem) : String :=
  item.property.getD "" ++ "[ " ++ String.intercalate "," (item.values.map (·.getD "")) ++ "]"

def Filter.render (items : List FilterItem) : String :=
  String.intercalate "," (items.map FilterItem.render)

/-- Whether characters are a path: words joined by points. -/
def Filter.isPath (cs : List Char) : Bool :=
  (splitChars '.' cs).all fun word => !word.isEmpty && word.all isWordChar

/-- Whether characters are a value that can stand in brackets, between commas. -/
def Filter.isValue (cs : List Char) : Bool :=
  trimChars cs == cs && !cs.contains ',' && !cs.contains ']'

def FilterItem.isClause (item : FilterItem) : Bool :=
  item.property.any (fun name => Filter.isPath name.toList) && !item.values.isEmpty &&
    item.values.all fun v => v.any fun text => Filter.isValue text.toList

namespace Filter

/-! ## Paths -/

/-- Whether characters can follow a word in a path: every other character is a point before a word. -/
def continuesPath : List Char → Bool
  | [] => true
  | c :: cs => (isWordChar c || (c = '.' && cs.head?.any isWordChar)) && continuesPath cs

theorem isWordChar_point : isWordChar '.' = false := by decide

theorem parts_of_continuesPath {cs part : List Char} {parts : List (List Char)}
    (h : splitChars '.' cs = part :: parts) :
    (continuesPath cs = (part.all isWordChar && parts.all fun word =>
      !word.isEmpty && word.all isWordChar)) ∧ cs.head?.any isWordChar = part.head?.any isWordChar := by
  induction cs generalizing part parts with
  | nil =>
      rw [splitChars, List.cons.injEq] at h
      obtain ⟨rfl, rfl⟩ := h
      exact ⟨rfl, rfl⟩
  | cons c cs ih =>
      by_cases hc : c = '.'
      · subst hc
        rw [splitChars, if_pos rfl, List.cons.injEq] at h
        obtain ⟨rfl, rfl⟩ := h
        obtain ⟨first, rest, hsplit⟩ := List.exists_cons_of_ne_nil (splitChars_ne_nil '.' cs)
        obtain ⟨hcontinues, hhead⟩ := ih hsplit
        refine ⟨?_, by simp [isWordChar_point]⟩
        rw [hsplit, continuesPath, hcontinues, hhead]
        cases first <;> simp [isWordChar_point, Bool.and_assoc]
      · obtain ⟨first, rest, hsplit, hcons⟩ := splitChars_cons_of_ne hc cs
        rw [hcons, List.cons.injEq] at h
        obtain ⟨rfl, rfl⟩ := h
        rw [continuesPath, (ih hsplit).1]
        simp [hc, Bool.and_assoc]

/-- A path begins with a word and goes on in words joined by points. -/
theorem isPath_eq (cs : List Char) :
    isPath cs = (cs.head?.any isWordChar && continuesPath cs) := by
  obtain ⟨part, parts, hsplit⟩ := List.exists_cons_of_ne_nil (splitChars_ne_nil '.' cs)
  obtain ⟨hcontinues, hhead⟩ := parts_of_continuesPath hsplit
  rw [isPath, hsplit, hcontinues, hhead]
  cases part <;> simp [Bool.and_assoc]

/-- A path is taken off a text up to its bracket. -/
theorem takePath_append {cs : List Char} (h : continuesPath cs = true) (rest : List Char) :
    takePath (cs ++ '[' :: rest) = (cs, '[' :: rest) := by
  induction cs with
  | nil => simp [takePath, isWordChar]
  | cons c cs ih =>
      rw [continuesPath, Bool.and_eq_true] at h
      have hhead : cs.head?.any isWordChar = true →
          (cs ++ '[' :: rest).head?.any isWordChar = true := by
        cases cs <;> simp
      have hc : (isWordChar c || (c = '.' && (cs ++ '[' :: rest).head?.any isWordChar)) = true := by
        rw [Bool.or_eq_true, Bool.and_eq_true] at h ⊢
        exact h.1.imp_right fun hpoint => ⟨hpoint.1, hhead hpoint.2⟩
      rw [List.cons_append, takePath, if_pos hc, ih h.2]

/-- What is taken off a text goes on like a path, and begins like the text where that is a word. -/
theorem continuesPath_takePath (cs : List Char) :
    continuesPath (takePath cs).1 = true ∧
      (cs.head?.any isWordChar = true → (takePath cs).1.head?.any isWordChar = true) := by
  induction cs with
  | nil => simp [takePath, continuesPath]
  | cons c cs ih =>
      rw [takePath]
      split
      · rename_i hc
        rw [Bool.or_eq_true, Bool.and_eq_true] at hc
        refine ⟨?_, by simp⟩
        rw [continuesPath, Bool.and_eq_true, Bool.or_eq_true, Bool.and_eq_true]
        exact ⟨hc.imp_right fun hpoint => ⟨hpoint.1, ih.2 hpoint.2⟩, ih.1⟩
      · rename_i hc
        exact ⟨rfl, fun hword => absurd (by simpa using .inl hword) hc⟩

/-! ## Clauses -/

def Clause.written (c : Clause) : List Char :=
  c.path ++ '[' :: (c.values ++ [']'])

/-- A clause that is read back where it is written. -/
structure Clause.Proper (c : Clause) : Prop where
  path : isPath c.path = true
  values : c.values ≠ []
  closed : ']' ∉ c.values

theorem clauseAt?_written {c : Clause} (h : c.Proper) (rest : List Char) :
    clauseAt? (c.written ++ rest) = some (c, rest) := by
  obtain ⟨hpath, hvalues, hclosed⟩ := h
  rw [isPath_eq, Bool.and_eq_true] at hpath
  have hinside : ∀ d ∈ c.values, (decide (d ≠ ']')) = true := by
    intro d hd
    exact decide_eq_true fun heq => hclosed (heq ▸ hd)
  have hhead : (c.written ++ rest).head?.any isWordChar = true := by
    rw [Clause.written]
    cases hcs : c.path with
    | nil => simp [hcs] at hpath
    | cons d cs => simpa [hcs] using hpath.1
  have htake : takePath (c.written ++ rest) = (c.path, '[' :: (c.values ++ ']' :: rest)) := by
    have hsplit := takePath_append hpath.2 (c.values ++ ']' :: rest)
    rw [Clause.written]
    simpa using hsplit
  have hdrop : (c.values ++ ']' :: rest).dropWhile (· ≠ ']') = ']' :: rest := by
    rw [List.dropWhile_append_of_pos hinside, List.dropWhile_cons_of_neg (by simp)]
  have htaken : (c.values ++ ']' :: rest).takeWhile (· ≠ ']') = c.values := by
    rw [List.takeWhile_append_of_pos hinside, List.takeWhile_cons_of_neg (by simp), List.append_nil]
  rw [clauseAt?, if_pos hhead, htake]
  simp only [hdrop, htaken]
  simp [hvalues]

theorem proper_of_clauseAt? {cs rest : List Char} {c : Clause}
    (h : clauseAt? cs = some (c, rest)) : c.Proper := by
  rw [clauseAt?] at h
  split at h
  · rename_i hword
    obtain ⟨hcontinues, hhead⟩ := continuesPath_takePath cs
    split at h
    · rename_i path inside htake
      rw [htake] at hcontinues hhead
      split at h
      · cases h
      · split at h
        · cases h
        · rename_i hvalues
          obtain ⟨rfl, -⟩ := Prod.mk.inj (Option.some.inj h)
          refine ⟨?_, by simpa using hvalues, fun hmem => ?_⟩
          · rw [isPath_eq, Bool.and_eq_true]
            exact ⟨hhead hword, hcontinues⟩
          · simpa using List.mem_takeWhile_imp hmem
    · cases h
  · cases h

theorem clauses_nil : clauses [] = [] := by
  rw [clauses]
  rfl

theorem clauses_of_clauseAt? {cs rest : List Char} {c : Clause}
    (h : clauseAt? cs = some (c, rest)) : clauses cs = c :: clauses rest := by
  rw [clauses]
  split
  · rename_i hfound
    obtain ⟨rfl, rfl⟩ := Prod.mk.inj (Option.some.inj (h.symm.trans hfound))
    rfl
  · rename_i hfound
    cases h.symm.trans hfound

/-- A character that no clause begins with is passed over. -/
theorem clauses_cons {cs : List Char} {c : Char} (h : clauseAt? (c :: cs) = none) :
    clauses (c :: cs) = clauses cs := by
  rw [clauses]
  split
  · rename_i hfound
    cases h.symm.trans hfound
  · rfl

/-- A text that is one clause has its item. -/
theorem parse_written {c : Clause} (h : c.Proper) : parse (String.ofList c.written) = .ok [c.item] := by
  have hclauses : clauses c.written = [c] := by
    rw [← List.append_nil c.written, clauses_of_clauseAt? (clauseAt?_written h []), clauses_nil]
  have hblank : isBlank (String.ofList c.written) = false := by
    rw [isBlank, String.toList_ofList, Clause.written, List.all_append, List.all_cons]
    simp [show isBlankChar '[' = false by decide]
  rw [parse, parseAs, if_neg (by simp [hblank]), String.toList_ofList, hclauses]
  rfl

theorem clauses_intercalate {cs : List Clause} (h : ∀ c ∈ cs, c.Proper) :
    clauses ([','].intercalate (cs.map Clause.written)) = cs := by
  induction cs with
  | nil => rw [List.map_nil, List.intercalate_nil, clauses_nil]
  | cons c cs ih =>
      obtain ⟨hc, hcs⟩ := List.forall_mem_cons.mp h
      cases cs with
      | nil =>
          rw [List.map_singleton, List.intercalate_singleton, ← List.append_nil c.written,
            clauses_of_clauseAt? (clauseAt?_written hc []), clauses_nil]
      | cons next cs =>
          have hcomma (rest : List Char) : clauseAt? (',' :: rest) = none := by
            rw [clauseAt?, if_neg (by simp [isWordChar])]
          rw [List.map_cons, List.map_cons, List.intercalate_cons_cons, List.append_assoc,
            clauses_of_clauseAt? (clauseAt?_written hc _), List.singleton_append,
            clauses_cons (hcomma _), ← List.map_cons, ih hcs]

theorem proper_of_mem_clauses {cs : List Char} {c : Clause} (h : c ∈ clauses cs) : c.Proper := by
  induction cs using clauses.induct with
  | case1 cs found rest hfound _ ih =>
      rw [clauses_of_clauseAt? hfound] at h
      rcases List.mem_cons.mp h with rfl | h
      · exact proper_of_clauseAt? hfound
      · exact ih h
  | case2 hnone =>
      rw [clauses_nil] at h
      cases h
  | case3 d cs hnone ih => exact ih (clauses_cons hnone ▸ h)

/-! ## Items -/

def clauseOf (item : FilterItem) : Clause :=
  { path := (item.property.getD "").toList
    values := ' ' :: [','].intercalate (item.values.map fun v => (v.getD "").toList) }

theorem toList_render (items : List FilterItem) :
    (render items).toList = [','].intercalate ((items.map clauseOf).map Clause.written) := by
  have hitem (item : FilterItem) : item.render.toList = (clauseOf item).written := by
    have hcomma : ",".toList = [','] := rfl
    have hbegins : "[ ".toList = ['[', ' '] := rfl
    have hends : "]".toList = [']'] := rfl
    simp [FilterItem.render, clauseOf, Clause.written, String.toList_intercalate, hcomma, hbegins,
      hends, Function.comp_def]
  rw [render, String.toList_intercalate, List.map_map, List.map_map]
  exact congrArg _ (List.map_congr_left fun item _ => hitem item)

/-- The texts of a clause's item. -/
theorem exists_of_isClause {item : FilterItem} (h : item.isClause = true) :
    ∃ name texts, item = ⟨some name, texts.map some⟩ ∧ isPath name.toList = true ∧ texts ≠ [] ∧
      ∀ text ∈ texts, isValue text.toList = true := by
  obtain ⟨property, values⟩ := item
  simp only [FilterItem.isClause, Bool.and_eq_true, List.all_eq_true, Option.any_eq_true] at h
  obtain ⟨⟨⟨name, rfl, hname⟩, hvalues⟩, hall⟩ := h
  obtain ⟨texts, rfl⟩ : ∃ texts : List String, values = texts.map some := by
    refine ⟨values.map (·.getD ""), ?_⟩
    rw [List.map_map]
    refine (List.map_id values).symm.trans (List.map_congr_left fun v hv => ?_)
    obtain ⟨text, rfl, -⟩ := hall v hv
    rfl
  refine ⟨name, texts, rfl, hname, by rintro rfl; simp at hvalues, fun text htext => ?_⟩
  obtain ⟨_, hsome, hvalue⟩ := hall (some text) (List.mem_map_of_mem htext)
  rwa [← Option.some.inj hsome] at hvalue

theorem isValue_iff {cs : List Char} :
    isValue cs = true ↔ trimChars cs = cs ∧ ',' ∉ cs ∧ ']' ∉ cs := by
  simp [isValue, and_assoc]

/-- The clause of an item is read back where it is written, and stands for the item. -/
theorem proper_clauseOf {item : FilterItem} (h : item.isClause = true) :
    (clauseOf item).Proper ∧ (clauseOf item).item = item := by
  obtain ⟨name, texts, rfl, hname, htexts, hvalues⟩ := exists_of_isClause h
  have hplain (text : String) (htext : text ∈ texts) := isValue_iff.mp (hvalues text htext)
  have hinside : (clauseOf ⟨some name, texts.map some⟩).values =
      ' ' :: [','].intercalate (texts.map String.toList) := by
    simp [clauseOf, Function.comp_def]
  refine ⟨⟨hname, List.cons_ne_nil _ _, ?_⟩, ?_⟩
  · rw [hinside, List.mem_cons, not_or]
    refine ⟨by decide, fun hmem => ?_⟩
    rcases mem_of_mem_intercalate hmem with hcomma | ⟨part, hpart, hmem⟩
    · cases hcomma
    · obtain ⟨text, htext, rfl⟩ := List.mem_map.mp hpart
      exact (hplain text htext).2.2 hmem
  · obtain ⟨first, rest, rfl⟩ := List.exists_cons_of_ne_nil htexts
    have hjoined : splitChars ',' ([','].intercalate ((first :: rest).map String.toList)) =
        first.toList :: rest.map String.toList := by
      refine splitChars_intercalate (List.cons_ne_nil _ _) fun part hpart => ?_
      obtain ⟨text, htext, rfl⟩ := List.mem_map.mp hpart
      exact (hplain text htext).2.1
    have hblank : ' ' ≠ ',' := by decide
    obtain ⟨part, parts, hparts, hsplit⟩ := splitChars_cons_of_ne hblank
      ([','].intercalate ((first :: rest).map String.toList))
    obtain ⟨rfl, rfl⟩ := List.cons.inj (hjoined.symm.trans hparts)
    have htrimmed : (splitChars ',' (' ' :: [','].intercalate
        ((first :: rest).map String.toList))).map trimChars = (first :: rest).map String.toList := by
      rw [hsplit, List.map_cons, trimChars_blank_cons rfl, List.map_map]
      exact List.map_congr_left fun text htext => (hplain text htext).1
    have hitem := congrArg (List.map fun cs => some (String.ofList cs)) htrimmed
    rw [List.map_map, List.map_map] at hitem
    simpa [Clause.item, hinside, clauseOf, Function.comp_def] using hitem

/-- The item of a clause can be written as a clause. -/
theorem isClause_item {c : Clause} (h : c.Proper) : c.item.isClause = true := by
  obtain ⟨hpath, -, hclosed⟩ := h
  have hvalues : ∀ part ∈ splitChars ',' c.values, isValue (trimChars part) = true := by
    intro part hpart
    refine isValue_iff.mpr ⟨trimChars_trimChars part, fun hmem => ?_, fun hmem => ?_⟩
    · exact (mem_of_mem_splitChars hpart (mem_of_mem_trimChars hmem)).2 rfl
    · exact hclosed (mem_of_mem_splitChars hpart (mem_of_mem_trimChars hmem)).1
  simpa [FilterItem.isClause, Clause.item, hpath, splitChars_ne_nil] using hvalues

/-! ## Reading what was written -/

theorem isBlank_render (item : FilterItem) (rest : List FilterItem) :
    isBlank (render (item :: rest)) = false := by
  obtain ⟨tail, htail⟩ := part_prefix_intercalate ',' (clauseOf item).written
    ((rest.map clauseOf).map Clause.written)
  have hbracket : isBlankChar '[' = false := by decide
  rw [isBlank, toList_render, List.map_cons, List.map_cons, ← htail]
  simp [Clause.written, hbracket]

theorem parse_render_of_isClause {items : List FilterItem} (hitems : items ≠ [])
    (h : ∀ item ∈ items, item.isClause = true) : parse (render items) = .ok items := by
  have hproper : ∀ c ∈ items.map clauseOf, c.Proper := by
    intro c hc
    obtain ⟨item, hitem, rfl⟩ := List.mem_map.mp hc
    exact (proper_clauseOf (h item hitem)).1
  have hclauses : clauses (render items).toList = items.map clauseOf := by
    rw [toList_render, clauses_intercalate hproper]
  have hback : (items.map clauseOf).map Clause.item = items := by
    rw [List.map_map]
    refine (List.map_congr_left fun item hitem => ?_).trans (List.map_id items)
    exact (proper_clauseOf (h item hitem)).2
  obtain ⟨item, rest, rfl⟩ := List.exists_cons_of_ne_nil hitems
  rw [parse, parseAs, if_neg (by simp [isBlank_render]), hclauses]
  exact congrArg Except.ok hback

/-- What is written as clauses is read as it was.  And whatever a text is read as can be written as
clauses, if it is anything at all, so it is read as the same again. -/
theorem parse_render {items : List FilterItem} (hitems : items ≠ []) :
    ((∀ item ∈ items, item.isClause = true) → parse (render items) = .ok items) ∧
      ∀ s, parse s = .ok items →
        (∀ item ∈ items, item.isClause = true) ∧ parse (render items) = .ok items := by
  refine ⟨parse_render_of_isClause hitems, fun s hs => ?_⟩
  have hclause : ∀ item ∈ items, item.isClause = true := by
    rw [parse, parseAs] at hs
    split at hs
    · exact absurd (Except.ok.inj hs).symm hitems
    · split at hs
      · cases hs
      · intro item hitem
        rw [← Except.ok.inj hs] at hitem
        obtain ⟨c, hc, rfl⟩ := List.mem_map.mp hitem
        exact isClause_item (proper_of_mem_clauses hc)
  exact ⟨hclause, parse_render_of_isClause hitems hclause⟩

/-- Two clauses with an open bracket and an empty value inside, and text between them that is passed
over. -/
theorem parse_render_passedOver :
    let items : List FilterItem :=
      [⟨some "title", [some "a[b", some ""]⟩, ⟨some "tags.name", [some "x"]⟩]
    items ≠ [] ∧ (∀ item ∈ items, item.isClause = true) ∧
      parse ".title[a[b , ] or tags.name[x]" = .ok items ∧ parse (render items) = .ok items := by
  intro items
  have hclauses : (clauses ".title[a[b , ] or tags.name[x]".toList).map Clause.item = items := by
    decide +kernel
  have hread : parse ".title[a[b , ] or tags.name[x]" = .ok items := by
    rw [parse, parseAs, if_neg (by decide +kernel)]
    split
    · rename_i hnone
      rw [hnone] at hclauses
      exact absurd hclauses (List.cons_ne_nil _ _).symm
    · rw [hclauses]
  obtain ⟨hclause, -⟩ := (parse_render (List.cons_ne_nil _ _)).2 _ hread
  exact ⟨List.cons_ne_nil _ _, hclause, hread, (parse_render (List.cons_ne_nil _ _)).1 hclause⟩

end Filter

/-- A filter that was written as clauses is read back from the parameters. -/
theorem Parameters.filterItems_render {p : Parameters} {item : FilterItem} {rest : List FilterItem}
    (hfilter : p.filter = .text (Filter.render (item :: rest)))
    (h : ∀ i ∈ item :: rest, i.isClause = true) :
    p.hasFilter = .ok true ∧ p.filterItems = .ok (item :: rest) := by
  have hblank := Filter.isBlank_render item rest
  have htruthy : (Value.text (Filter.render (item :: rest))).isTruthy = true := by
    change (!(Filter.render (item :: rest)).isEmpty) = true
    rw [Bool.not_eq_true', Bool.eq_false_iff]
    intro hempty
    rw [String.isEmpty_iff.mp hempty] at hblank
    cases hblank
  have hgiven : p.hasFilter = .ok true := by
    rw [hasFilter, hfilter, isGiven, htruthy]
    simp [Value.bare, hblank]
  refine ⟨hgiven, ?_⟩
  rw [filterItems, hgiven, hfilter]
  have hparse := Filter.parse_render_of_isClause (List.cons_ne_nil _ _) h
  rw [Filter.parse] at hparse
  simp only [Value.asText?, Value.bare, hparse, Except.mapError]
  rfl

end PageQuery
