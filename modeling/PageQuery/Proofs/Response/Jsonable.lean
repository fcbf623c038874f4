import Mathlib
import PageQuery.Response
import PageQuery.Value.Json
import PageQuery.Proofs.Outcome

/-!
# What a client is sent

A value of a record is turned into one that has a JSON text: nothing, a truth value, a number, a text,
or a list of such values.  Three kinds of values are not: a set stays a set, a member of an enumeration
gives its value as it stands, whatever it is, and a whole number may be too long to be written.  Members
that also are dates, times or lists are taken for these first, and shown like them.  This module says
exactly what is turned into JSON, and that whatever is stays as it is when it is turned once more.
-/

namespace PageQuery.Value

variable {v w : Value} {xs ws : List Value}

/-! ## Values of records and values of JSON -/

/-- The values that fields hold: nothing, truth values, numbers, texts, octets, identifiers, moments,
members of enumerations of such values, and collections of them. -/
inductive IsStored : Value → Prop
  | none : IsStored .none
  | bool (b : Bool) : IsStored (.bool b)
  | int (n : ℤ) : IsStored (.int n)
  | float (x : Binary64) : IsStored (.float x)
  | decimal (d : Decimal) : IsStored (.decimal d)
  | uuid (n : ℕ) : IsStored (.uuid n)
  | text (s : String) : IsStored (.text s)
  | bytes (octets : List UInt8) : IsStored (.bytes octets)
  | datetime (t : DateTime) : IsStored (.datetime t)
  | date (d : Date) : IsStored (.date d)
  | time (t : Time) (offset : Option ℤ) : IsStored (.time t offset)
  | member {v : Value} (enumeration name : String) (mixin : Mixin) (h : IsStored v) :
      IsStored (.member enumeration name mixin v)
  | list {xs : List Value} (h : ∀ x ∈ xs, IsStored x) : IsStored (.list xs)
  | tuple {xs : List Value} (h : ∀ x ∈ xs, IsStored x) : IsStored (.tuple xs)
  | set {xs : List Value} (h : ∀ x ∈ xs, IsStored x) : IsStored (.set xs)

/-- The values that a client is sent: nothing, truth values, numbers that can be written, texts, and lists of
them.  A member of an enumeration is none of these, even where it counts as a text or a number. -/
inductive IsJson : Value → Prop
  | none : IsJson .none
  | bool (b : Bool) : IsJson (.bool b)
  | int {n : ℤ} (h : Number.isWritable n = true) : IsJson (.int n)
  | float (x : Binary64) : IsJson (.float x)
  | text (s : String) : IsJson (.text s)
  | list {xs : List Value} (h : ∀ x ∈ xs, IsJson x) : IsJson (.list xs)

/-- Whether a member of an enumeration of a mixin is taken for what it is besides a member: for a date, a
moment, a time of day, a list or a tuple. -/
def isTakenFor : Mixin → Value → Bool
  | .plain, _ => false
  | _, .datetime _ | _, .date _ | _, .time .. => true
  | .other, .list _ | .other, .tuple _ => true
  | _, _ => false

/-- Lists and tuples lead to a set, to a number that cannot be written, or to a member of an enumeration
that is taken for a member and whose value could not be sent as it stands. -/
inductive LeadsAstray : Value → Prop
  | int {n : ℤ} (h : Number.isWritable n = false) : LeadsAstray (.int n)
  | set (xs : List Value) : LeadsAstray (.set xs)
  | member {v : Value} (enumeration name : String) {mixin : Mixin} (htaken : isTakenFor mixin v = false)
      (h : ¬ IsJson v) : LeadsAstray (.member enumeration name mixin v)
  | taken {v : Value} (enumeration name : String) {mixin : Mixin} (htaken : isTakenFor mixin v = true)
      (h : LeadsAstray v) : LeadsAstray (.member enumeration name mixin v)
  | list {x : Value} {xs : List Value} (hx : x ∈ xs) (h : LeadsAstray x) : LeadsAstray (.list xs)
  | tuple {x : Value} {xs : List Value} (hx : x ∈ xs) (h : LeadsAstray x) : LeadsAstray (.tuple xs)

theorem isJson_list : IsJson (.list xs) ↔ ∀ x ∈ xs, IsJson x :=
  ⟨fun h => by cases h with | list h => exact h, .list⟩

theorem leadsAstray_list : LeadsAstray (.list xs) ↔ ∃ x ∈ xs, LeadsAstray x :=
  ⟨fun h => by cases h with | list hx h => exact ⟨_, hx, h⟩, fun ⟨_, hx, h⟩ => .list hx h⟩

theorem leadsAstray_tuple : LeadsAstray (.tuple xs) ↔ ∃ x ∈ xs, LeadsAstray x :=
  ⟨fun h => by cases h with | tuple hx h => exact ⟨_, hx, h⟩, fun ⟨_, hx, h⟩ => .tuple hx h⟩

theorem leadsAstray_member {enumeration name : String} {mixin : Mixin} :
    LeadsAstray (.member enumeration name mixin v) ↔
      if isTakenFor mixin v then LeadsAstray v else ¬ IsJson v := by
  constructor
  · rintro (_ | _ | ⟨_, _, htaken, h⟩ | ⟨_, _, htaken, h⟩)
    · rwa [htaken, if_neg Bool.false_ne_true]
    · rwa [htaken, if_pos rfl]
  · intro h
    split at h
    · exact .taken _ _ ‹_› h
    · rename_i htaken
      exact .member _ _ (Bool.eq_false_iff.mpr htaken) h

/-- A member is shown as what it is taken for, or else as its value. -/
theorem serialize_member (enumeration name : String) (mixin : Mixin) (v : Value) :
    (member enumeration name mixin v).serialize = if isTakenFor mixin v then v.serialize else .ok v := by
  cases mixin <;> cases v <;> rfl

/-! ## Several values -/

theorem serializeAll_eq_mapM (xs : List Value) : serializeAll xs = xs.mapM serialize := by
  induction xs with
  | nil => rfl
  | cons x xs ih =>
      rw [serializeAll, List.mapM_cons, ih]
      cases serialize x with
      | error f => rfl
      | ok v => cases xs.mapM serialize <;> rfl

theorem jsonItems_eq_mapM (xs : List Value) : jsonItems xs = xs.mapM json := by
  induction xs with
  | nil => rfl
  | cons x xs ih =>
      rw [jsonItems, List.mapM_cons, ih]
      cases json x with
      | error f => rfl
      | ok text => cases xs.mapM json <;> rfl

theorem serializeAll_eq_ok :
    serializeAll xs = .ok ws ↔ List.Forall₂ (fun x w => serialize x = .ok w) xs ws := by
  rw [serializeAll_eq_mapM, Outcome.mapM_eq_ok]

/-! ## Values of JSON -/

/-- What could be sent is left as it is. -/
theorem IsJson.serialize_eq (h : IsJson v) : v.serialize = .ok v := by
  induction h with
  | list _ ih =>
      rw [serialize, serializeAll_eq_ok.mpr (List.forall₂_same.mpr ih)]
      rfl
  | _ => rfl

theorem IsJson.exists_json (h : IsJson v) : ∃ text, v.json = .ok text := by
  induction h with
  | list _ ih =>
      obtain ⟨texts, htexts⟩ := exists_forall₂ ih
      rw [json, jsonItems_eq_mapM, Outcome.mapM_eq_ok.mpr htexts]
      exact ⟨_, rfl⟩
  | int h => exact ⟨_, if_pos h⟩
  | _ => exact ⟨_, rfl⟩

/-! ## Values of records -/

/-- The items of a list or a tuple can be sent if and only if none leads astray. -/
theorem exists_serializeAll
    (h : ∀ x ∈ xs, ∃ w, serialize x = .ok w ∧ (IsJson w ↔ ¬ LeadsAstray x)) :
    ∃ ws, serializeAll xs = .ok ws ∧ (IsJson (.list ws) ↔ ¬ ∃ x ∈ xs, LeadsAstray x) := by
  obtain ⟨ws, hws⟩ := exists_forall₂ h
  refine ⟨ws, serializeAll_eq_ok.mpr (hws.imp fun _ _ hxw => hxw.1), ?_⟩
  rw [isJson_list]
  clear h
  induction hws with
  | nil => simp
  | cons hxw _ ih => simp [hxw.2, ih]

/-- Every value of a field can be shown, and it is shown as JSON if and only if it does not lead astray. -/
theorem IsStored.exists_serialize (h : IsStored v) :
    ∃ w, v.serialize = .ok w ∧ (IsJson w ↔ ¬ LeadsAstray v) := by
  induction h with
  | @member v e name mixin _ ih =>
      rw [serialize_member, leadsAstray_member]
      cases isTakenFor mixin v with
      | true => exact ih
      | false => exact ⟨v, rfl, not_not.symm⟩
  | int n =>
      refine ⟨.int n, rfl, ?_⟩
      cases hn : Number.isWritable n with
      | true => exact iff_of_true (.int hn) fun h => by cases h with | int h => simp [hn] at h
      | false => exact iff_of_false (fun h => by cases h with | int h => simp [hn] at h) (not_not.mpr (.int hn))
  | list _ ih =>
      obtain ⟨ws, hws, hjson⟩ := exists_serializeAll ih
      exact ⟨.list ws, by rw [serialize, hws]; rfl, hjson.trans leadsAstray_list.not.symm⟩
  | tuple _ ih =>
      obtain ⟨ws, hws, hjson⟩ := exists_serializeAll ih
      exact ⟨.list ws, by rw [serialize, hws]; rfl, hjson.trans leadsAstray_tuple.not.symm⟩
  | @set xs _ _ => exact ⟨.set xs, rfl, iff_of_false nofun (not_not.mpr (.set xs))⟩
  | _ => exact ⟨_, rfl, iff_of_true (by constructor) nofun⟩

/-- Every value that a field can hold is turned into a value.  Unless lists and tuples lead to a set, to a
number that cannot be written, or to a member of an enumeration that is taken for no date or list and
whose value could not be sent as it stands, that is nothing, a truth value, a number, a text or a list of
such values; it has a JSON text then, and turning it once more changes nothing.  Otherwise it is none of
these. -/
theorem serialize_isJson_iff (h : IsStored v) :
    ∃ w, v.serialize = .ok w ∧ (IsJson w ↔ ¬ LeadsAstray v) ∧
      (¬ LeadsAstray v → w.serialize = .ok w ∧ ∃ text, w.json = .ok text) := by
  obtain ⟨w, hw, hjson⟩ := h.exists_serialize
  refine ⟨w, hw, hjson, fun hstraight => ?_⟩
  have hsent := hjson.mpr hstraight
  exact ⟨hsent.serialize_eq, hsent.exists_json⟩

/-- The row of a payment: its state, its amount, its day, which is a date, and the key of its receipt, which
there is not. -/
def payment : Value :=
  .tuple [.member "State" "PAID" .text (.text "paid"), .list [.decimal (.finite false 150 (-2))],
    .member "Due" "FIRST" .date (.date ⟨2022, 9, 21⟩), .none]

/-- The row of a reminder: its day, which is a member of an enumeration of days, and its tags. -/
def reminder : Value :=
  .list [.member "Due" "FIRST" .plain (.date ⟨2022, 9, 21⟩), .set [.int 1]]

/-- A payment is sent as JSON.  Of a reminder neither the day nor the tags are. -/
theorem serialize_isJson_iff_rows :
    (IsStored payment ∧ ¬ LeadsAstray payment ∧
        payment.serialize =
          .ok (.list [.text "paid", .list [.text "1.50"], .text "2022-09-21", .none])) ∧
      IsStored reminder ∧
        reminder.serialize = .ok (.list [.date ⟨2022, 9, 21⟩, .set [.int 1]]) ∧
        ¬ IsJson (.list [.date ⟨2022, 9, 21⟩, .set [.int 1]]) := by
  have hpayment : IsStored payment := by
    refine .tuple ?_
    simp only [List.forall_mem_cons]
    exact ⟨.member _ _ _ (.text _), .list (List.forall_mem_singleton.mpr (.decimal _)),
      .member _ _ _ (.date _), .none, List.forall_mem_nil _⟩
  have hreminder : IsStored reminder := by
    refine .list (List.forall_mem_cons.mpr ⟨.member _ _ _ (.date _), ?_⟩)
    exact List.forall_mem_singleton.mpr (.set (List.forall_mem_singleton.mpr (.int 1)))
  have hsent : payment.serialize =
      .ok (.list [.text "paid", .list [.text "1.50"], .text "2022-09-21", .none]) := by cbv
  have hkept : reminder.serialize = .ok (.list [.date ⟨2022, 9, 21⟩, .set [.int 1]]) := by cbv
  have hjson : IsJson (.list [.text "paid", .list [.text "1.50"], .text "2022-09-21", .none]) := by
    refine .list ?_
    simp only [List.forall_mem_cons]
    exact ⟨.text _, .list (List.forall_mem_singleton.mpr (.text _)), .text _, .none,
      List.forall_mem_nil _⟩
  obtain ⟨w, hw, hiff, -⟩ := serialize_isJson_iff hpayment
  obtain ⟨u, hu, hiff', -⟩ := serialize_isJson_iff hreminder
  obtain rfl := Except.ok.inj (hw.symm.trans hsent)
  obtain rfl := Except.ok.inj (hu.symm.trans hkept)
  refine ⟨⟨hpayment, hiff.mp hjson, hsent⟩, hreminder, hkept, fun h => hiff'.mp h ?_⟩
  exact .list (List.mem_cons_of_mem _ List.mem_cons_self) (.set _)

end PageQuery.Value
