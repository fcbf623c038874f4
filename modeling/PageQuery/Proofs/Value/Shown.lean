import Mathlib
import PageQuery.Response
import PageQuery.Source
import PageQuery.Proofs.Calendar.Reading
import PageQuery.Proofs.Number.Written
import PageQuery.Proofs.Value.Uuids

/-!
# Shown values are read back

A response shows a number, a truth value, an identifier, a date or a moment by a text without blanks
and separators, and the parser of its type reads that text as the value.  The text that stands for an
open bound may happen to be one of these texts; nothing else is in the way.
-/

namespace PageQuery

open PageQuery.Text

/-- The values of the built-in types that have texts of their own, as far as there are such values: whole
numbers that are not too long, decimals and dates in range, naive times of day, and moments that are
naive or have an offset of whole seconds. -/
def Value.IsWritable : Value → Prop
  | .int n => (Nat.toDigits 10 n.natAbs).length ≤ Number.maxDigits
  | .bool _ => True
  | .decimal d => d.IsRepresentable
  | .uuid n => n < 2 ^ 128
  | .time t offset => t.isValid = true ∧ offset = Option.none
  | .date d => d.isValid = true
  | .datetime t =>
    t.date.isValid = true ∧ t.time.isValid = true ∧ ∀ offset ∈ t.offset, IsWholeOffset offset
  | _ => False

/-- A value without the label of its zone, which no text but a literal shows. -/
def Value.unlabelled : Value → Value
  | .datetime t => .datetime { t with labelled := false }
  | v => v

/-- Whether a value is a date or a moment, so that a filter asks for it by a range. -/
def Value.isDated : Value → Bool
  | .date _ | .datetime _ => true
  | _ => false

/-- A text that a parser reads as a value, and that stands in a filter as it is. -/
structure Parser.Reads (p : Parser) (text : String) (v : Value) : Prop where
  marks : AreMarks text.toList
  nonempty : text ≠ ""
  run : p.run text = .ok v

/-- A parser that reads nothing from the empty text reads no value from it. -/
theorem Parser.Reads.of_run {p : Parser} {text : String} {v : Value} {e : Failure}
    (hmarks : AreMarks text.toList) (hempty : p.run "" = .error e) (hrun : p.run text = .ok v) :
    p.Reads text v := by
  refine ⟨hmarks, ?_, hrun⟩
  rintro rfl
  rw [hempty] at hrun
  cases hrun

/-- A value is shown by a text that the parser of its type reads back. -/
theorem Value.exists_reads {v : Value} (h : v.IsWritable) {type : String}
    (htype : v.typeOf = .builtin type) : ∃ parser shown, builtinParser? type = some parser ∧
      v.serialize = .ok shown ∧ parser.Reads shown.plainText v.unlabelled := by
  cases v with
  | int n =>
      obtain rfl := TypeRef.builtin.inj htype
      have hrun : Parser.run .integer (toString n) = .ok (.int n) := by
        rw [Parser.run, Number.readInteger_toString h]
        rfl
      exact ⟨.integer, .int n, rfl, rfl, .of_run (Number.marks_toString_int n) rfl hrun⟩
  | bool b =>
      obtain rfl := TypeRef.builtin.inj htype
      refine ⟨.boolean, .bool b, rfl, rfl, ?_⟩
      cases b with
      | true => exact .of_run (List.all_eq_true.mp (by decide)) rfl rfl
      | false => exact .of_run (List.all_eq_true.mp (by decide)) rfl rfl
  | decimal d =>
      obtain rfl := TypeRef.builtin.inj htype
      have hrun : Parser.run .decimal d.text = .ok (.decimal d) := by
        rw [Parser.run, Decimal.read_text h]
      exact ⟨.decimal, .text d.text, rfl, rfl, .of_run d.marks_text rfl hrun⟩
  | uuid n =>
      obtain rfl := TypeRef.builtin.inj htype
      have hrun : Parser.run .uuid (uuidText n) = .ok (.uuid n) := by
        rw [Parser.run, readUuid_uuidText h]
        rfl
      exact ⟨.uuid, .text (uuidText n), rfl, rfl, .of_run (marks_uuidText h) rfl hrun⟩
  | time t offset =>
      obtain rfl := TypeRef.builtin.inj htype
      obtain ⟨ht, rfl⟩ := h
      have htext : (Value.time t Option.none).plainText = t.text := String.append_empty
      have hrun : Parser.run .time t.text = .ok (.time t Option.none) := by
        rw [Parser.run, Written.time_text ht]
        rfl
      refine ⟨.time, .text (Value.time t Option.none).plainText, rfl, rfl, ?_⟩
      rw [htext]
      exact .of_run t.marks_text rfl hrun
  | date d =>
      obtain rfl := TypeRef.builtin.inj htype
      have hrun : Parser.run .date d.text = .ok (.date d) := by
        rw [Parser.run, Written.dateOrDateTime_text h]
        rfl
      exact ⟨.date, .text d.text, rfl, rfl, .of_run d.marks_text rfl hrun⟩
  | datetime t =>
      obtain rfl := TypeRef.builtin.inj htype
      obtain ⟨hdate, htime, hoffset⟩ := h
      have hrun : Parser.run .dateTime t.text = .ok (.datetime { t with labelled := false }) := by
        rw [Parser.run, Written.dateTimeOrDate_text hdate htime hoffset]
        rfl
      exact ⟨.dateTime, .text t.text, rfl, rfl, .of_run (DateTime.marks_text hoffset) rfl hrun⟩
  | _ => cases h

end PageQuery
