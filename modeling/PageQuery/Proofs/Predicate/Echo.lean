import Mathlib
import PageQuery.Proofs.Predicate.Shape
import PageQuery.Proofs.Request.Rendering
import PageQuery.Proofs.Schema.Declared
import PageQuery.Proofs.Value.Shown

/-!
# Shown values can be asked for

A client that copies a value out of a response into a filter asks for that value: the text of the value
is neither cut nor trimmed inside the brackets, it leaves no bound open, and it is read as the value
again, a date or a moment as both bounds of a range.
-/

namespace PageQuery

open PageQuery.Text

namespace Parser.Reads

variable {p : Parser} {text : String} {v : Value}

theorem trim_eq (h : p.Reads text v) : trim text = text := by
  rw [trim, h.marks.trimChars_eq, String.ofList_toList]

theorem isBlank_eq (h : p.Reads text v) : isBlank text = false := by
  obtain ⟨c, cs, hcs⟩ := List.exists_cons_of_ne_nil (show text.toList ≠ [] by simpa using h.nonempty)
  have hc := isBlankChar_of_isMark (h.marks c (hcs ▸ List.mem_cons_self))
  rw [isBlank, hcs, List.all_cons, hc, Bool.false_and]

theorem convert_eq (h : p.Reads text v) {f : Field} (hparser : f.parser = some p)
    (path : Option String) : f.convert text path = .ok v := by
  simp only [Field.convert, hparser, h.run]

end Parser.Reads

namespace Predicate

/-! ## Leaves -/

section Leaves

variable {settings : Settings} {f : Field} {field : List String} {property : Option String}
  {p : Parser} {text : String} {v : Value}

/-- A text that is read as a value asks of a scalar field that it equals the value. -/
theorem ofLeaf_equals (hkind : f.kind = .scalar) (hparser : f.parser = some p) (h : p.Reads text v) :
    ofLeaf settings f field ⟨property, [some text]⟩ = .ok (.equals field v) := by
  have husable : usableValues ⟨property, [some text]⟩ = [text] := by
    simp [usableValues, isBlank?, h.isBlank_eq, h.trim_eq]
  have hcomparisons : comparisons f field ⟨property, [some text]⟩ = .ok [.equals field v] := by
    rw [comparisons, if_neg (by simp [hkind]), husable, List.mapM_cons, h.convert_eq hparser]
    rfl
  simp only [ofLeaf, hkind, hcomparisons, Outcome.ok_bind, combine]

theorem bound_of_reads (hparser : f.parser = some p) (h : p.Reads text v) {placeholder : Value}
    (hplaceholder : (Value.text text).same placeholder ≠ .ok true) :
    bound placeholder f property (some text) = .ok v := by
  have hset : isOpenSlot placeholder (some text) = false := by
    rw [isOpenSlot, h.isBlank_eq, h.trim_eq, Bool.false_or]
    split
    · rename_i b hsame
      exact Bool.eq_false_iff.mpr fun hb => hplaceholder (hb ▸ hsame)
    · rfl
  rw [bound, hset, if_neg (by simp), Option.getD_some, h.trim_eq, h.convert_eq hparser]

/-- A text that is read as a value and stands in both slots asks for a range from the value to it. -/
theorem ofLeaf_range (hkind : f.kind = .datetime) (hparser : f.parser = some p) (h : p.Reads text v)
    (hplaceholder : (Value.text text).same settings.datePlaceholder ≠ .ok true)
    (hvalue : v.isNone = false) :
    ofLeaf settings f field ⟨property, [some text, some text]⟩ = .ok (.range field v v) := by
  simp only [ofLeaf, hkind, ofDates, bound_of_reads hparser h hplaceholder, Outcome.ok_bind, hvalue,
    Bool.false_and, Bool.false_eq_true, if_false]

end Leaves

/-! ## Filters -/

def ofText (x : Context) (root : TypeRef) (s : String) : Except Failure (Option Predicate) := do
  let items ← (Filter.parse s).mapError .request
  build x root items

/-- A name that is one word of ASCII letters, digits and underscores. -/
def IsName (name : String) : Prop :=
  name ≠ "" ∧ ∀ c ∈ name.toList, Filter.isWordChar c = true

theorem IsName.isSegment {name : String} (h : IsName name) : IsSegment name := by
  obtain ⟨hname, hword⟩ := h
  refine ⟨hname, fun hpoint => ?_, fun c hc => ?_⟩
  · exact absurd (hword '.' hpoint) (by decide)
  · have hc := hword c hc
    rw [Filter.isWordChar, Bool.or_eq_true, beq_iff_eq] at hc
    rcases hc with hc | rfl
    · exact isBlankChar_of_isMark (by simp [isMark, hc])
    · decide

theorem IsName.isPath {name : String} (h : IsName name) : Filter.isPath name.toList = true := by
  obtain ⟨-, hpoint, -⟩ := h.isSegment
  obtain ⟨hname, hword⟩ := h
  rw [Filter.isPath, splitChars_last hpoint, List.all_cons, List.all_nil, Bool.and_true,
    Bool.and_eq_true, List.all_eq_true]
  exact ⟨by simpa using hname, hword⟩

/-- A filter of one clause, with values that are marks and commas, has one item. -/
theorem ofText_clause {x : Context} {root : TypeRef} {name values : String} (hname : IsName name)
    (hvalues : values ≠ "") (hclosed : ']' ∉ values.toList) :
    ofText x root (name ++ "[" ++ values ++ "]") =
      (ofItem x root (Filter.Clause.item ⟨name.toList, values.toList⟩)).map some := by
  have hproper : Filter.Clause.Proper ⟨name.toList, values.toList⟩ :=
    ⟨hname.isPath, by simpa using hvalues, hclosed⟩
  have hwritten : name ++ "[" ++ values ++ "]" =
      String.ofList (Filter.Clause.written ⟨name.toList, values.toList⟩) := by
    rw [← String.toList_inj]
    simp [Filter.Clause.written]
  rw [ofText, hwritten, Filter.parse_written hproper, Except.mapError, Outcome.ok_bind, build,
    List.mapM_cons]
  cases ofItem x root (Filter.Clause.item ⟨name.toList, values.toList⟩) <;> rfl

/-- The item of one value. -/
theorem item_single {name text : String} (h : AreMarks text.toList) :
    Filter.Clause.item ⟨name.toList, text.toList⟩ = ⟨some name, [some text]⟩ := by
  rw [Filter.Clause.item, splitChars_last (h.notMem rfl), List.map_singleton, h.trimChars_eq,
    String.ofList_toList, String.ofList_toList]

/-- The item of a value that stands twice. -/
theorem item_twice {name text : String} (h : AreMarks text.toList) :
    Filter.Clause.item ⟨name.toList, (text ++ "," ++ text).toList⟩ =
      ⟨some name, [some text, some text]⟩ := by
  have htwice : (text ++ "," ++ text).toList = text.toList ++ ',' :: text.toList := by simp
  rw [Filter.Clause.item, htwice, splitChars_append (h.notMem rfl), splitChars_last (h.notMem rfl),
    List.map_cons, List.map_singleton, h.trimChars_eq, String.ofList_toList, String.ofList_toList]

/-- An item about a declared field asks what the leaf of the field does. -/
theorem ofItem_declared {x : Context} (hfilled : x.registry.Filled x.catalogue) {limit : Whole}
    (hlimit : x.settings.maxPathDepth = .ok limit) {type name builtin : String}
    (hname : IsName name) (hdeclares : x.catalogue.Declares type name builtin)
    {values : List (Option String)} (hvalues : values ≠ []) :
    ofItem x (.record type) ⟨some name, values⟩ =
      (ofLeaf x.settings (.ofBuiltin x.catalogue name builtin) [name] ⟨some name, values⟩).mapError
        .request := by
  obtain ⟨p, hp, hchain⟩ := Context.resolve_declared hfilled hlimit hname.isSegment hdeclares
  have hleaf : p.leaf = .ofBuiltin x.catalogue name builtin := by
    rw [ResolvedPath.leaf, hchain]
    rfl
  have hfield : p.field = [name] := by
    rw [ResolvedPath.field, hchain]
    rfl
  have hcollection : p.isCollection = false := by
    rw [ResolvedPath.isCollection, hleaf, Field.isCollection_ofBuiltin]
  rw [ofItem, if_neg (by simpa using hvalues), hp, Outcome.ok_bind, hcollection, if_neg (by simp), hleaf,
    hfield]

/-- Whether the values of a field are tested or set beside bounds is told by one of them. -/
theorem kind_of_typeOf {v : Value} (hv : v.IsWritable) {builtin : String}
    (htype : v.typeOf = .builtin builtin) (c : Catalogue) (name : String) :
    (Field.ofBuiltin c name builtin).kind = if v.isDated then .datetime else .scalar := by
  cases v <;> first | (obtain rfl := TypeRef.builtin.inj htype; rfl) | cases hv

/-- The text that a value of a built-in type is shown by asks, as a value of a filter, for the field of
the value that equals it.  A field of dates is asked for by a range: both bounds are the value, but for
the label of its zone, unless the text happens to be what stands for an open bound. -/
theorem ofText_shown {x : Context} (hfilled : x.registry.Filled x.catalogue) {limit : Whole}
    (hlimit : x.settings.maxPathDepth = .ok limit) {type name builtin : String} (hname : IsName name)
    (hdeclares : x.catalogue.Declares type name builtin) {v : Value} (hv : v.IsWritable)
    (htype : v.typeOf = .builtin builtin) :
    ∃ shown, v.serialize = .ok shown ∧
      (v.isDated = false → ofText x (.record type) (name ++ "[" ++ shown.plainText ++ "]") =
        .ok (some (.equals [name] v))) ∧
      (v.isDated = true →
        (Value.text shown.plainText).same x.settings.datePlaceholder ≠ .ok true →
        ofText x (.record type)
            (name ++ "[" ++ (shown.plainText ++ "," ++ shown.plainText) ++ "]") =
          .ok (some (.range [name] v.unlabelled v.unlabelled))) := by
  obtain ⟨parser, shown, hparser, hshown, hreads⟩ := Value.exists_reads hv htype
  have hkind := kind_of_typeOf hv htype x.catalogue name
  have hopen : ']' ∉ shown.plainText.toList := hreads.marks.notMem rfl
  refine ⟨shown, hshown, fun hdated => ?_, fun hdated hplaceholder => ?_⟩
  · have hsame : v.unlabelled = v := by
      cases v <;> first | rfl | cases hdated
    rw [hdated, if_neg (by simp)] at hkind
    rw [hsame] at hreads
    rw [ofText_clause hname hreads.nonempty hopen, item_single hreads.marks,
      ofItem_declared hfilled hlimit hname hdeclares (List.cons_ne_nil _ _),
      ofLeaf_equals hkind hparser hreads]
    rfl
  · have hpresent : v.unlabelled.isNone = false := by
      cases v <;> first | rfl | cases hdated
    rw [hdated, if_pos rfl] at hkind
    rw [ofText_clause hname (by simp) (by simpa using hopen), item_twice hreads.marks,
      ofItem_declared hfilled hlimit hname hdeclares (List.cons_ne_nil _ _),
      ofLeaf_range hkind hparser hreads hplaceholder hpresent]
    rfl

/-- A type of records with an amount, which may be absent, and a moment. -/
def ledger : Context :=
  { catalogue :=
      { records := [
          { name := "Entry"
            annotations := [
              ("amount", .optional (.type (.builtin "Decimal"))),
              ("booked", .type (.builtin "datetime"))] }] } }

/-- An amount with a power of ten, and a moment of a year below 1000 with microseconds and an offset with
seconds. -/
theorem ofText_shown_ledger :
    ofText ledger (.record "Entry") "amount[-1.50E+7]" =
        .ok (some (.equals ["amount"] (.decimal (.finite true 150 5)))) ∧
      ofText ledger (.record "Entry")
          "booked[0987-06-05T04:03:02.000001-01:01:01,0987-06-05T04:03:02.000001-01:01:01]" =
        .ok (some (.range ["booked"]
          (.datetime ⟨⟨987, 6, 5⟩, ⟨4, 3, 2, 1⟩, some (-3661000000), false⟩)
          (.datetime ⟨⟨987, 6, 5⟩, ⟨4, 3, 2, 1⟩, some (-3661000000), false⟩))) := by
  have hlimit : ledger.settings.maxPathDepth = .ok (.ofInt 2) := rfl
  have hhints : ledger.catalogue.hints "Entry" =
      .ok [("amount", .optional (.type (.builtin "Decimal"))), ("booked", .type (.builtin "datetime"))] :=
    rfl
  have hother : lower "amount" ≠ lower "booked" := by decide
  have hamount : ledger.catalogue.Declares "Entry" "amount" "Decimal" := by
    refine ⟨rfl, ⟨_, rfl⟩, _, _, hhints, .head _, rfl, ?_⟩
    simp [Ne.symm hother]
  have hbooked : ledger.catalogue.Declares "Entry" "booked" "datetime" := by
    refine ⟨rfl, ⟨_, rfl⟩, _, _, hhints, .tail _ (.head _), rfl, ?_⟩
    simp [hother]
  constructor
  · have hname : IsName "amount" := ⟨by decide, List.all_eq_true.mp (by decide)⟩
    have hv : (Value.decimal (.finite true 150 5)).IsWritable :=
      show Decimal.inRange ⟨150, 5⟩ = true by decide
    have htext : (Decimal.finite true 150 5).text = "-1.50E+7" := by decide
    obtain ⟨shown, hshown, hequals, -⟩ := ofText_shown .empty hlimit hname hamount hv rfl
    obtain rfl := Except.ok.inj hshown
    rw [Value.plainText, htext] at hequals
    exact hequals rfl
  · have hname : IsName "booked" := ⟨by decide, List.all_eq_true.mp (by decide)⟩
    have hoffset : IsWholeOffset (-3661000000) := ⟨by decide, by decide⟩
    have hv : (Value.datetime ⟨⟨987, 6, 5⟩, ⟨4, 3, 2, 1⟩, some (-3661000000), true⟩).IsWritable :=
      ⟨by decide, by decide, by rintro offset ⟨⟩; exact hoffset⟩
    have htext : (DateTime.mk ⟨987, 6, 5⟩ ⟨4, 3, 2, 1⟩ (some (-3661000000)) true).text =
        "0987-06-05T04:03:02.000001-01:01:01" := by decide
    obtain ⟨shown, hshown, -, hrange⟩ := ofText_shown .empty hlimit hname hbooked hv rfl
    obtain rfl := Except.ok.inj hshown
    rw [Value.plainText, htext] at hrange
    exact hrange rfl (by decide +kernel)

end Predicate
end PageQuery
