import Mathlib
import PageQuery.Proofs.Request.Rendering
import PageQuery.Proofs.Text.Marks

/-!
# The clauses of a text

Where clauses stand in a text is said here without the reader: the text is taken apart into clauses
and the gaps around them, so that no clause begins inside a gap.  There is exactly one way to do so,
and the reader finds just its clauses, from left to right.

Nothing is asked of the gaps.  A text that holds a clause is read whatever else it holds, with the
outcome of its clauses alone; the gaps hold nothing but commas and blanks exactly where the text
follows the grammar.
-/

namespace PageQuery.Filter

open PageQuery.Text

variable {cs rest : List Char} {c : Clause}

/-! ## Where clauses begin -/

/-- A clause begins some characters. -/
def Begins (cs : List Char) : Prop :=
  ∃ c : Clause, c.Proper ∧ c.written <+: cs

/-- A clause stands somewhere in some characters. -/
def Occurs (cs : List Char) : Prop :=
  ∃ c : Clause, c.Proper ∧ c.written <:+: cs

theorem takePath_parts (cs : List Char) : (takePath cs).1 ++ (takePath cs).2 = cs := by
  induction cs with
  | nil => rfl
  | cons c cs ih =>
      rw [takePath]
      split
      · exact congrArg (c :: ·) ih
      · rfl

/-- The clause at the head of a text and the rest are the text. -/
theorem eq_written_of_clauseAt? (h : clauseAt? cs = some (c, rest)) : cs = c.written ++ rest := by
  rw [clauseAt?] at h
  split at h
  · split at h
    · rename_i path inside htake
      have hparts := takePath_parts cs
      rw [htake] at hparts
      split at h
      · cases h
      · rename_i last tail hdrop
        split at h
        · cases h
        · obtain ⟨rfl, rfl⟩ := Prod.mk.inj (Option.some.inj h)
          obtain rfl : last = ']' := by
            have hhead := List.head?_dropWhile_not (· ≠ ']') inside
            rw [hdrop] at hhead
            simpa using hhead
          have hinside : inside = inside.takeWhile (· ≠ ']') ++ ']' :: tail := by
            rw [← hdrop, List.takeWhile_append_dropWhile]
          calc cs = path ++ '[' :: inside := hparts.symm
            _ = path ++ '[' :: (inside.takeWhile (· ≠ ']') ++ ']' :: tail) := by rw [← hinside]
            _ = _ := by simp [Clause.written]
    · cases h
  · cases h

theorem clauseAt?_eq_some_iff :
    clauseAt? cs = some (c, rest) ↔ c.Proper ∧ cs = c.written ++ rest := by
  constructor
  · exact fun h => ⟨proper_of_clauseAt? h, eq_written_of_clauseAt? h⟩
  · rintro ⟨hc, rfl⟩
    exact clauseAt?_written hc rest

/-- The reader knows where a clause begins. -/
theorem begins_iff : Begins cs ↔ (clauseAt? cs).isSome = true := by
  rw [Option.isSome_iff_exists]
  constructor
  · rintro ⟨c, hc, rest, rfl⟩
    exact ⟨(c, rest), clauseAt?_written hc rest⟩
  · rintro ⟨⟨c, rest⟩, h⟩
    obtain ⟨hc, rfl⟩ := clauseAt?_eq_some_iff.mp h
    exact ⟨c, hc, List.prefix_append _ _⟩

instance : DecidablePred Begins := fun _ => decidable_of_iff _ begins_iff.symm

theorem clauseAt?_eq_none_iff : clauseAt? cs = none ↔ ¬ Begins cs := by
  rw [begins_iff, Option.not_isSome_iff_eq_none]

theorem Clause.Proper.begins_written (h : c.Proper) (rest : List Char) :
    Begins (c.written ++ rest) :=
  ⟨c, h, List.prefix_append _ _⟩

theorem not_begins_cons {d : Char} (h : isWordChar d = false) (cs : List Char) :
    ¬ Begins (d :: cs) := by
  rw [← clauseAt?_eq_none_iff, clauseAt?, if_neg (by simp [h])]

/-! ## Taking a text apart -/

/-- Some characters taken apart: a gap, and then clauses, each with the gap behind it. -/
structure Dissection where
  front : List Char
  pieces : List (Clause × List Char)

def written (pieces : List (Clause × List Char)) : List Char :=
  pieces.flatMap fun piece => piece.1.written ++ piece.2

/-- No clause begins inside a gap that other characters follow. -/
def Silent (gap rest : List Char) : Prop :=
  ∀ k < gap.length, ¬ Begins ((gap ++ rest).drop k)

instance (gap rest : List Char) : Decidable (Silent gap rest) :=
  inferInstanceAs (Decidable (∀ k < gap.length, ¬ Begins ((gap ++ rest).drop k)))

namespace Dissection

def text (d : Dissection) : List Char :=
  d.front ++ written d.pieces

def gaps (d : Dissection) : List (List Char) :=
  d.front :: d.pieces.map (·.2)

/-- Some characters come apart into clauses and the gaps around them, and no clause begins inside a
gap. -/
structure Dissects (d : Dissection) (cs : List Char) : Prop where
  text_eq : d.text = cs
  proper : ∀ piece ∈ d.pieces, piece.1.Proper
  front : Silent d.front (written d.pieces)
  behind : ∀ piece after, piece :: after <:+ d.pieces → Silent piece.2 (written after)

end Dissection

open Dissection

variable {d d' : Dissection}

theorem written_cons (piece : Clause × List Char) (pieces : List (Clause × List Char)) :
    written (piece :: pieces) = piece.1.written ++ (piece.2 ++ written pieces) := by
  rw [written, List.flatMap_cons, List.append_assoc]
  rfl

theorem silent_nil (rest : List Char) : Silent [] rest :=
  fun k hk => absurd hk (Nat.not_lt_zero k)

theorem silent_cons {a : Char} {gap : List Char} :
    Silent (a :: gap) rest ↔ ¬ Begins (a :: (gap ++ rest)) ∧ Silent gap rest :=
  Nat.forall_lt_succ_left

/-- The gaps behind clauses are those behind the first and behind the others. -/
theorem silent_behind_cons {piece : Clause × List Char} {pieces : List (Clause × List Char)} :
    (∀ other after, other :: after <:+ piece :: pieces → Silent other.2 (written after)) ↔
      Silent piece.2 (written pieces) ∧
        ∀ other after, other :: after <:+ pieces → Silent other.2 (written after) := by
  constructor
  · intro h
    exact ⟨h piece pieces (List.suffix_refl _),
      fun other after hsuffix => h other after (hsuffix.trans (List.suffix_cons _ _))⟩
  · rintro ⟨hpiece, hpieces⟩ other after hsuffix
    rcases List.suffix_cons_iff.mp hsuffix with heq | hsuffix
    · obtain ⟨rfl, rfl⟩ := List.cons.inj heq
      exact hpiece
    · exact hpieces other after hsuffix

theorem dissects_nil_iff : d.Dissects [] ↔ d = ⟨[], []⟩ := by
  constructor
  · intro h
    obtain ⟨front, pieces⟩ := d
    obtain ⟨rfl, hpieces⟩ := List.append_eq_nil_iff.mp h.text_eq
    cases pieces with
    | nil => rfl
    | cons piece pieces => simp [written_cons, Clause.written] at hpieces
  · rintro rfl
    exact ⟨rfl, by simp, silent_nil _, by simp⟩

/-- Where a clause begins, it is taken off first. -/
theorem dissects_clause_iff (hc : clauseAt? cs = some (c, rest)) :
    d.Dissects cs ↔
      ∃ d' : Dissection, d = ⟨[], (c, d'.front) :: d'.pieces⟩ ∧ d'.Dissects rest := by
  obtain ⟨hproper, rfl⟩ := clauseAt?_eq_some_iff.mp hc
  have hbegins := hproper.begins_written rest
  constructor
  · intro h
    obtain ⟨front, pieces⟩ := d
    have htext : front ++ written pieces = c.written ++ rest := h.text_eq
    have hfront := h.front
    cases front with
    | cons a front =>
        rw [← htext] at hbegins
        exact absurd hbegins (silent_cons.mp hfront).1
    | nil =>
        cases pieces with
        | nil => simp [written, Clause.written] at htext
        | cons piece pieces =>
            obtain ⟨c', gap⟩ := piece
            obtain ⟨hc', hpieces⟩ := List.forall_mem_cons.mp h.proper
            rw [List.nil_append, written_cons] at htext
            rw [← htext, clauseAt?_written hc'] at hc
            obtain ⟨rfl, rfl⟩ := Prod.mk.inj (Option.some.inj hc)
            obtain ⟨hgap, hbehind⟩ := silent_behind_cons.mp h.behind
            exact ⟨⟨gap, pieces⟩, rfl, rfl, hpieces, hgap, hbehind⟩
  · rintro ⟨d', rfl, h⟩
    refine ⟨?_, List.forall_mem_cons.mpr ⟨hproper, h.proper⟩, silent_nil _,
      silent_behind_cons.mpr ⟨h.front, h.behind⟩⟩
    rw [← h.text_eq]
    exact written_cons _ _

/-- Where no clause begins, the first character belongs to a gap. -/
theorem dissects_skip_iff {a : Char} (ha : ¬ Begins (a :: cs)) :
    d.Dissects (a :: cs) ↔
      ∃ d' : Dissection, d = ⟨a :: d'.front, d'.pieces⟩ ∧ d'.Dissects cs := by
  constructor
  · intro h
    obtain ⟨front, pieces⟩ := d
    have htext : front ++ written pieces = a :: cs := h.text_eq
    have hfront := h.front
    cases front with
    | nil =>
        cases pieces with
        | nil => cases htext
        | cons piece pieces =>
            rw [List.nil_append, written_cons] at htext
            rw [← htext] at ha
            exact absurd ((h.proper piece List.mem_cons_self).begins_written _) ha
    | cons b front =>
        obtain ⟨rfl, hrest⟩ := List.cons.inj htext
        exact ⟨⟨front, pieces⟩, rfl, hrest, h.proper, (silent_cons.mp hfront).2, h.behind⟩
  · rintro ⟨d', rfl, h⟩
    refine ⟨congrArg (a :: ·) h.text_eq, h.proper, silent_cons.mpr ⟨?_, h.front⟩, h.behind⟩
    rwa [← h.text_eq] at ha

/-- There is one way to take characters apart, and its clauses are those that are read. -/
theorem exists_dissects (cs : List Char) :
    ∃ d : Dissection, d.Dissects cs ∧ d.pieces.map (·.1) = clauses cs ∧
      ∀ d' : Dissection, d'.Dissects cs → d' = d := by
  -- the reader's own recursion: a clause is taken off, or a character is passed over
  induction cs using clauses.induct with
  | case1 cs c rest hfound _ ih =>
      obtain ⟨d, hd, hclauses, hunique⟩ := ih
      refine ⟨⟨[], (c, d.front) :: d.pieces⟩, (dissects_clause_iff hfound).mpr ⟨d, rfl, hd⟩, ?_, ?_⟩
      · rw [clauses_of_clauseAt? hfound, List.map_cons, hclauses]
      · intro d' hd'
        obtain ⟨inner, rfl, hinner⟩ := (dissects_clause_iff hfound).mp hd'
        rw [hunique inner hinner]
  | case2 hnone =>
      refine ⟨⟨[], []⟩, dissects_nil_iff.mpr rfl, clauses_nil.symm, fun d' hd' => ?_⟩
      exact dissects_nil_iff.mp hd'
  | case3 a cs hnone ih =>
      obtain ⟨d, hd, hclauses, hunique⟩ := ih
      have ha := clauseAt?_eq_none_iff.mp hnone
      refine ⟨⟨a :: d.front, d.pieces⟩, (dissects_skip_iff ha).mpr ⟨d, rfl, hd⟩, ?_, ?_⟩
      · rw [clauses_cons hnone, ← hclauses]
      · intro d' hd'
        obtain ⟨inner, rfl, hinner⟩ := (dissects_skip_iff ha).mp hd'
        rw [hunique inner hinner]

theorem Dissection.Dissects.unique (h : d.Dissects cs) (h' : d'.Dissects cs) : d' = d := by
  obtain ⟨_, -, -, hunique⟩ := exists_dissects cs
  rw [hunique d h, hunique d' h']

theorem Dissection.Dissects.clauses_eq (h : d.Dissects cs) : clauses cs = d.pieces.map (·.1) := by
  obtain ⟨found, hfound, hclauses, -⟩ := exists_dissects cs
  rw [h.unique hfound] at hclauses
  exact hclauses.symm

/-- A clause stands in a text if and only if one is found: none is missed. -/
theorem Dissection.Dissects.occurs_iff (h : d.Dissects cs) : Occurs cs ↔ d.pieces ≠ [] := by
  obtain ⟨front, pieces⟩ := d
  have htext : front ++ written pieces = cs := h.text_eq
  have hfront := h.front
  constructor
  · rintro ⟨c, hc, before, after, hcs⟩ rfl
    have hlt : before.length < front.length := by
      have hlength := congrArg List.length (hcs.trans htext.symm)
      simp [written, Clause.written] at hlength
      omega
    refine hfront before.length hlt ?_
    rw [htext, ← hcs, List.append_assoc, List.drop_left]
    exact hc.begins_written after
  · intro hne
    obtain ⟨piece, pieces, rfl⟩ := List.exists_cons_of_ne_nil hne
    refine ⟨piece.1, h.proper piece List.mem_cons_self, front, piece.2 ++ written pieces, ?_⟩
    rw [← htext, written_cons, List.append_assoc]

/-! ## What is read -/

/-- An item stands for a clause: its property is the path, and its values are the parts that the
characters in the brackets come apart into at every comma, trimmed. -/
def Clause.StandsFor (c : Clause) (item : FilterItem) : Prop :=
  ∃ parts : List (List Char), parts ≠ [] ∧ (∀ part ∈ parts, ',' ∉ part) ∧
    [','].intercalate parts = c.values ∧
    item = ⟨some (String.ofList c.path), parts.map fun part => some (String.ofList (trimChars part))⟩

theorem Clause.standsFor_item (c : Clause) : c.StandsFor c.item := by
  refine ⟨splitChars ',' c.values, splitChars_ne_nil _ _, fun part hpart hmem => ?_,
    intercalate_splitChars _ _, rfl⟩
  exact (mem_of_mem_splitChars hpart hmem).2 rfl

/-- The items of the clauses that a text comes apart into. -/
def Dissection.items (d : Dissection) : List FilterItem :=
  d.pieces.map fun piece => piece.1.item

theorem Dissection.standsFor_items (d : Dissection) :
    List.Forall₂ (fun piece item => piece.1.StandsFor item) d.pieces d.items := by
  rw [Dissection.items, List.forall₂_map_right_iff, List.forall₂_same]
  exact fun piece _ => piece.1.standsFor_item

theorem isBlank_of_occurs {s : String} (h : Occurs s.toList) : isBlank s = false := by
  obtain ⟨c, -, hinfix⟩ := h
  have hbracket : '[' ∈ s.toList := hinfix.subset (by simp [Clause.written])
  rw [isBlank, List.all_eq_false]
  exact ⟨'[', hbracket, by decide⟩

/-- A text that is not blank is read as the clauses that it comes apart into, if there are any. -/
theorem parse_of_dissects {s : String} (hs : isBlank s = false) (h : d.Dissects s.toList) :
    parse s = if d.pieces = [] then .error (.noClause (.text s)) else .ok d.items := by
  rw [parse, parseAs, if_neg (by simp [hs]), h.clauses_eq, Dissection.items]
  cases d.pieces with
  | nil => rfl
  | cons piece pieces => simp [Function.comp_def]

/-- A text that is not blank either holds no clause, which is an error, or comes apart in exactly one way
into clauses and gaps such that no clause begins inside a gap.  Then it is read as the items that stand
for these clauses, in the order of the text. -/
theorem parse_finds_clauses {s : String} (hs : isBlank s = false) :
    (¬ Occurs s.toList ∧ parse s = .error (.noClause (.text s))) ∨
      ∃ d : Dissection, ∃ items, d.Dissects s.toList ∧ d.pieces ≠ [] ∧
        (∀ d' : Dissection, d'.Dissects s.toList → d' = d) ∧ parse s = .ok items ∧
        List.Forall₂ (fun piece item => piece.1.StandsFor item) d.pieces items := by
  obtain ⟨d, hd, -, hunique⟩ := exists_dissects s.toList
  have hparse := parse_of_dissects hs hd
  by_cases hpieces : d.pieces = []
  · rw [if_pos hpieces] at hparse
    exact .inl ⟨fun hoccurs => hd.occurs_iff.mp hoccurs hpieces, hparse⟩
  · rw [if_neg hpieces] at hparse
    exact .inr ⟨d, d.items, hd, hpieces, hunique, hparse, d.standsFor_items⟩

/-- A path behind points, a bracket and an empty value inside, empty brackets between, and a clause that is
not closed. -/
def crowded : Dissection :=
  { front := "..".toList
    pieces :=
      [(⟨"a.b".toList, "c[d , ".toList⟩, "x[] y[]z-".toList),
        (⟨"w_9.1".toList, ",e".toList⟩, "t[".toList)] }

theorem dissects_crowded : crowded.Dissects "..a.b[c[d , ]x[] y[]z-w_9.1[,e]t[".toList := by
  refine ⟨by decide +kernel, ?_, by decide +kernel,
    silent_behind_cons.mpr ⟨by decide +kernel, silent_behind_cons.mpr ⟨by decide +kernel, by simp⟩⟩⟩
  refine List.forall_mem_cons.mpr ⟨⟨?_, ?_, ?_⟩, List.forall_mem_singleton.mpr ⟨?_, ?_, ?_⟩⟩
  all_goals decide +kernel

theorem parse_finds_clauses_crowded :
    isBlank "..a.b[c[d , ]x[] y[]z-w_9.1[,e]t[" = false ∧
      crowded.Dissects "..a.b[c[d , ]x[] y[]z-w_9.1[,e]t[".toList ∧
      (∀ d : Dissection, d.Dissects "..a.b[c[d , ]x[] y[]z-w_9.1[,e]t[".toList → d = crowded) ∧
      parse "..a.b[c[d , ]x[] y[]z-w_9.1[,e]t[" =
        .ok [⟨some "a.b", [some "c[d", some ""]⟩, ⟨some "w_9.1", [some "", some "e"]⟩] := by
  have hblank : isBlank "..a.b[c[d , ]x[] y[]z-w_9.1[,e]t[" = false := by decide +kernel
  have hread := parse_of_dissects hblank dissects_crowded
  rcases parse_finds_clauses hblank with ⟨-, herror⟩ | ⟨d, items, hd, -, hunique, -, -⟩
  · rw [herror] at hread
    cases hread
  · obtain rfl := hunique crowded dissects_crowded
    exact ⟨hblank, dissects_crowded, hunique, hread⟩

/-! ## What is passed over -/

def isSeparator (c : Char) : Bool :=
  c = ',' || isBlankChar c

/-- Nothing but commas and blanks stands in the gaps. -/
def Dissection.IsClean (d : Dissection) : Prop :=
  ∀ gap ∈ d.gaps, ∀ c ∈ gap, isSeparator c = true

/-- Some characters follow the grammar: they are clauses, at least one, with nothing but commas and blanks
around them. -/
def Follows (cs : List Char) : Prop :=
  ∃ d : Dissection, d.text = cs ∧ d.pieces ≠ [] ∧ (∀ piece ∈ d.pieces, piece.1.Proper) ∧ d.IsClean

/-- The clauses alone, with a comma between two of them. -/
def Dissection.kept (d : Dissection) : List Char :=
  [','].intercalate ((d.pieces.map (·.1)).map Clause.written)

theorem isWordChar_of_isSeparator {a : Char} (h : isSeparator a = true) : isWordChar a = false := by
  rw [isSeparator, Bool.or_eq_true, decide_eq_true_eq] at h
  rcases h with rfl | hblank
  · decide
  · by_contra hword
    rw [Bool.not_eq_false, isWordChar, Bool.or_eq_true, beq_iff_eq] at hword
    rcases hword with halnum | rfl
    · rw [isBlankChar_of_isMark (by simp [isMark, halnum])] at hblank
      cases hblank
    · cases hblank

theorem silent_of_separators {gap : List Char} (h : ∀ a ∈ gap, isSeparator a = true)
    (rest : List Char) : Silent gap rest := by
  induction gap with
  | nil => exact silent_nil rest
  | cons a gap ih =>
      obtain ⟨ha, hgap⟩ := List.forall_mem_cons.mp h
      exact silent_cons.mpr ⟨not_begins_cons (isWordChar_of_isSeparator ha) _, ih hgap⟩

/-- Clauses between commas and blanks are the clauses that a text comes apart into. -/
theorem Dissection.IsClean.dissects (h : d.IsClean) (htext : d.text = cs)
    (hproper : ∀ piece ∈ d.pieces, piece.1.Proper) : d.Dissects cs := by
  obtain ⟨hfront, hbehind⟩ := List.forall_mem_cons.mp h
  refine ⟨htext, hproper, silent_of_separators hfront _, fun piece after hsuffix => ?_⟩
  have hpiece : piece ∈ d.pieces := hsuffix.subset List.mem_cons_self
  exact silent_of_separators (hbehind piece.2 (List.mem_map_of_mem hpiece)) _

theorem Dissection.Dissects.follows_iff (h : d.Dissects cs) :
    Follows cs ↔ d.pieces ≠ [] ∧ d.IsClean := by
  constructor
  · rintro ⟨d', htext, hpieces, hproper, hclean⟩
    obtain rfl := h.unique (hclean.dissects htext hproper)
    exact ⟨hpieces, hclean⟩
  · rintro ⟨hpieces, hclean⟩
    exact ⟨d, h.text_eq, hpieces, h.proper, hclean⟩

theorem follows_intercalate {found : List Clause} (hfound : found ≠ []) (h : ∀ c ∈ found, c.Proper) :
    Follows ([','].intercalate (found.map Clause.written)) := by
  induction found with
  | nil => exact absurd rfl hfound
  | cons c found ih =>
      obtain ⟨hc, hrest⟩ := List.forall_mem_cons.mp h
      cases found with
      | nil =>
          refine ⟨⟨[], [(c, [])]⟩, ?_, List.cons_ne_nil _ _, by simpa using hc, by simp [IsClean, gaps]⟩
          simp [Dissection.text, written]
      | cons next found =>
          obtain ⟨d, htext, -, hproper, hclean⟩ := ih (List.cons_ne_nil _ _) hrest
          obtain ⟨hfront, hbehind⟩ := List.forall_mem_cons.mp hclean
          refine ⟨⟨[], (c, ',' :: d.front) :: d.pieces⟩, ?_, List.cons_ne_nil _ _,
            List.forall_mem_cons.mpr ⟨hc, hproper⟩, ?_⟩
          · rw [List.map_cons, List.map_cons, List.intercalate_cons_cons, ← List.map_cons, ← htext,
              Dissection.text, Dissection.text, written_cons]
            simp
          · refine List.forall_mem_cons.mpr ⟨by simp, List.forall_mem_cons.mpr ⟨?_, hbehind⟩⟩
            exact List.forall_mem_cons.mpr ⟨rfl, hfront⟩

/-- The clauses of a text are read alike where they stand alone. -/
theorem Dissection.Dissects.parse_kept (h : d.Dissects cs) (hpieces : d.pieces ≠ []) :
    Follows d.kept ∧ parse (String.ofList d.kept) = .ok d.items := by
  have hproper : ∀ c ∈ d.pieces.map (·.1), c.Proper := by
    intro c hc
    obtain ⟨piece, hpiece, rfl⟩ := List.mem_map.mp hc
    exact h.proper piece hpiece
  have hfollows : Follows d.kept := follows_intercalate (by simpa using hpieces) hproper
  refine ⟨hfollows, ?_⟩
  obtain ⟨alone, halone, -⟩ := exists_dissects (String.ofList d.kept).toList
  have hclauses : alone.pieces.map (·.1) = d.pieces.map (·.1) := by
    rw [← halone.clauses_eq, String.toList_ofList, kept, clauses_intercalate hproper]
  have hne : alone.pieces ≠ [] := by
    intro hnil
    rw [hnil] at hclauses
    exact hpieces (List.map_eq_nil_iff.mp hclauses.symm)
  have hitems (e : Dissection) : e.items = (e.pieces.map (·.1)).map Clause.item := by
    rw [List.map_map]
    rfl
  rw [parse_of_dissects (isBlank_of_occurs (halone.occurs_iff.mpr hne)) halone, if_neg hne,
    hitems, hclauses, ← hitems]

/-- A text that is not blank is an error only if it holds no clause at all.  Any other text is read, and what
stands around its clauses is dropped: its outcome is that of the clauses alone, which follow the grammar.
What is dropped is nothing but commas and blanks if and only if the text follows the grammar itself. -/
theorem parse_drops_gaps {s : String} (hs : isBlank s = false) :
    (¬ Occurs s.toList ∧ ¬ Follows s.toList ∧ parse s = .error (.noClause (.text s))) ∨
      ∃ d : Dissection, ∃ items, d.Dissects s.toList ∧ parse s = .ok items ∧
        List.Forall₂ (fun piece item => piece.1.StandsFor item) d.pieces items ∧
        (d.IsClean ↔ Follows s.toList) ∧
        Follows d.kept ∧ parse (String.ofList d.kept) = .ok items := by
  obtain ⟨d, hd, -⟩ := exists_dissects s.toList
  have hparse := parse_of_dissects hs hd
  by_cases hpieces : d.pieces = []
  · rw [if_pos hpieces] at hparse
    refine .inl ⟨fun hoccurs => hd.occurs_iff.mp hoccurs hpieces, fun hfollows => ?_, hparse⟩
    exact (hd.follows_iff.mp hfollows).1 hpieces
  · rw [if_neg hpieces] at hparse
    obtain ⟨hfollows, hkept⟩ := hd.parse_kept hpieces
    refine .inr ⟨d, d.items, hd, hparse, d.standsFor_items, ?_, hfollows, hkept⟩
    exact ⟨fun hclean => hd.follows_iff.mpr ⟨hpieces, hclean⟩, fun h => (hd.follows_iff.mp h).2⟩

def halfEmpty : Dissection :=
  { front := []
    pieces := [(⟨"title".toList, "a".toList⟩, ",price[]".toList)] }

theorem dissects_halfEmpty : halfEmpty.Dissects "title[a],price[]".toList := by
  refine ⟨by decide +kernel, List.forall_mem_singleton.mpr ⟨?_, ?_, ?_⟩, by decide +kernel,
    silent_behind_cons.mpr ⟨by decide +kernel, by simp⟩⟩
  all_goals decide +kernel

/-- The condition on the price has no value.  Alone it is an error; behind another one it is dropped. -/
theorem parse_drops_gaps_emptyBrackets :
    isBlank "title[a],price[]" = false ∧ ¬ Follows "title[a],price[]".toList ∧
      parse "title[a],price[]" = .ok [⟨some "title", [some "a"]⟩] ∧
      parse "title[a],price[]" = parse "title[a]" ∧
      parse "price[]" = .error (.noClause (.text "price[]")) := by
  have hblank : isBlank "title[a],price[]" = false := by decide +kernel
  have halone : isBlank "price[]" = false := by decide +kernel
  have hprice : (Dissection.mk "price[]".toList []).Dissects "price[]".toList :=
    ⟨by simp [Dissection.text, written], by simp, by decide +kernel, by simp⟩
  have hread := parse_of_dissects hblank dissects_halfEmpty
  rcases parse_drops_gaps hblank with ⟨-, -, herror⟩ | ⟨d, items, hd, hitems, -, hclean, -, hkept⟩
  · rw [herror] at hread
    cases hread
  · obtain rfl := dissects_halfEmpty.unique hd
    have hpiece : ",price[]".toList ∈ halfEmpty.gaps := by simp [gaps, halfEmpty]
    refine ⟨hblank, fun hfollows => ?_, hread, hitems.trans hkept.symm, ?_⟩
    · have hletter := hclean.mpr hfollows _ hpiece 'p' (by decide)
      revert hletter
      decide
    · exact parse_of_dissects halone hprice

end PageQuery.Filter
