import Mathlib
import PageQuery.Proofs.Schema.Declared

/-!
# Sessions with a registry

A registry keeps tables so that no type has to be looked at twice.  This must not show in what it answers:
after any steps the table of a type is the one of the fields that were registered for it last, and otherwise
the one of its declaration, whatever was looked up in between and whatever was done to other types.  What
does show is whether a type is registered, and a type whose declaration gives no table is not registered by
looking it up.
-/

namespace PageQuery

open PageQuery.Text

/-! ## Tables -/

/-- The last of some fields that has a name with a lower-case form. -/
def IsLastNamed (fields : List Field) (key : String) (f : Field) : Prop :=
  ∃ before after, fields = before ++ f :: after ∧ lower f.name = key ∧ ∀ g ∈ after, lower g.name ≠ key

namespace Table

variable {fields : List Field} {entries : List (String × Field)} {f : Field} {key : String}

theorem ofFields_append_singleton (fields : List Field) (f : Field) :
    ofFields (fields ++ [f]) = (ofFields fields).insert f := by
  rw [ofFields, List.foldl_append]
  rfl

/-- Later fields go first where one is looked for. -/
theorem lookup_ofFields (fields : List Field) (key : String) :
    (ofFields fields).entries.lookup key = fields.reverse.find? fun f => lower f.name == key := by
  induction fields using List.reverseRecOn with
  | nil => rfl
  | append_singleton fields f ih =>
      rw [ofFields_append_singleton, insert, lookup_put, ih, List.reverse_concat, List.find?_cons]
      by_cases hkey : key = lower f.name
      · rw [if_pos hkey, hkey, beq_self_eq_true]
      · rw [if_neg hkey, beq_false_of_ne (Ne.symm hkey)]

theorem lookup_ofFields_eq_some_iff :
    (ofFields fields).entries.lookup key = some f ↔ IsLastNamed fields key f := by
  rw [lookup_ofFields, List.find?_eq_some_iff_append, beq_iff_eq]
  constructor
  · rintro ⟨hkey, after, before, hreverse, hafter⟩
    refine ⟨before.reverse, after.reverse, ?_, hkey, ?_⟩
    · simpa using congrArg List.reverse hreverse
    · simpa using hafter
  · rintro ⟨before, after, rfl, hkey, hafter⟩
    exact ⟨hkey, after.reverse, before.reverse, by simp, by simpa using hafter⟩

theorem lookup_ofFields_eq_none_iff :
    (ofFields fields).entries.lookup key = none ↔ ∀ f ∈ fields, lower f.name ≠ key := by
  rw [lookup_ofFields, List.find?_eq_none]
  simp

theorem mem_keys_put {k : String} :
    k ∈ (put key f entries).map Prod.fst ↔ k = key ∨ k ∈ entries.map Prod.fst := by
  induction entries with
  | nil => simp [put]
  | cons entry entries ih =>
      rw [put]
      split
      · rename_i hkey
        rw [List.map_cons, List.map_cons, List.mem_cons, List.mem_cons, hkey, ← or_assoc, or_self]
      · rw [List.map_cons, List.map_cons, List.mem_cons, List.mem_cons, ih]
        exact or_left_comm

theorem nodup_keys_put (h : (entries.map Prod.fst).Nodup) : ((put key f entries).map Prod.fst).Nodup := by
  induction entries with
  | nil => simp [put]
  | cons entry entries ih =>
      obtain ⟨hentry, hentries⟩ := List.nodup_cons.mp h
      rw [put]
      split
      · rename_i hkey
        exact List.nodup_cons.mpr ⟨hkey ▸ hentry, hentries⟩
      · rename_i hkey
        refine List.nodup_cons.mpr ⟨fun hmem => ?_, ih hentries⟩
        exact (mem_keys_put.mp hmem).elim hkey hentry

/-- A table has one entry for each key. -/
theorem nodup_keys_ofFields (fields : List Field) : ((ofFields fields).entries.map Prod.fst).Nodup := by
  induction fields using List.reverseRecOn with
  | nil => exact List.nodup_nil
  | append_singleton fields f ih =>
      rw [ofFields_append_singleton]
      exact nodup_keys_put ih

/-- The entries of a table are the last fields of their names, letter case aside. -/
theorem mem_ofFields_iff : (key, f) ∈ (ofFields fields).entries ↔ IsLastNamed fields key f := by
  have hkeys := nodup_keys_ofFields fields
  rw [← lookup_ofFields_eq_some_iff, List.lookup_eq_some_iff]
  constructor
  · intro hmem
    obtain ⟨before, after, hentries⟩ := List.append_of_mem hmem
    rw [hentries, List.map_append, List.map_cons, List.nodup_append] at hkeys
    refine ⟨before, after, hentries, fun entry hentry => ?_⟩
    have hne := hkeys.2.2 entry.1 (List.mem_map_of_mem hentry) key List.mem_cons_self
    simpa using Ne.symm hne
  · rintro ⟨before, after, hentries, -⟩
    rw [hentries]
    exact List.mem_append_right _ List.mem_cons_self

end Table

/-! ## Steps -/

/-- What is done with a registry: fields are registered for a type, or else those of its declaration, its
table is asked for, a field is looked up in it, it is asked whether a type is registered, or the registry is
cleared. -/
inductive RegistryStep where
  | register (t : TypeRef) (fields : Option (List Field))
  | consult (t : TypeRef)
  | lookup (t : TypeRef) (name : String) (path : Option String)
  | isRegistered (t : TypeRef)
  | clear

namespace RegistryStep

variable {c : Catalogue} {t : TypeRef} {step : RegistryStep} {steps : List RegistryStep}

def isClear : RegistryStep → Bool
  | .clear => true
  | _ => false

def subject? : RegistryStep → Option TypeRef
  | .register t _ | .consult t | .lookup t _ _ => some t
  | .isRegistered _ | .clear => none

/-- The fields that a step registers for a type: those that it gives, and otherwise those of the declaration
if it has any. -/
def registered? (c : Catalogue) (t : TypeRef) : RegistryStep → Option (List Field)
  | .register u fields => if u = t then fields.or (c.fields t).toOption else none
  | _ => none

def decides (t : TypeRef) : RegistryStep → Bool
  | .register u _ => u == t
  | .clear => true
  | _ => false

/-- A step puts a table for a type into the registry if none is there: it needs the table, and gives its
fields or finds them in the declaration. -/
def Fills (c : Catalogue) (t : TypeRef) (step : RegistryStep) : Prop :=
  step.subject? = some t ∧
    ((∃ fields, step = .register t (some fields)) ∨ ∃ fields, c.fields t = .ok fields)

/-- The steps since the registry was last cleared, the latest one first. -/
def recent (steps : List RegistryStep) : List RegistryStep :=
  steps.reverse.takeWhile fun step => !step.isClear

/-- The fields of a type after some steps: those that were registered last since the registry was cleared,
and otherwise those of its declaration. -/
def fieldsAfter (c : Catalogue) (t : TypeRef) (steps : List RegistryStep) : Except Fault (List Field) :=
  match (recent steps).findSome? (registered? c t) with
  | some fields => .ok fields
  | none => c.fields t

theorem recent_append_singleton (steps : List RegistryStep) (step : RegistryStep) :
    recent (steps ++ [step]) = if step.isClear = true then [] else step :: recent steps := by
  rw [recent, List.reverse_concat, List.takeWhile_cons]
  cases step.isClear <;> rfl

theorem fieldsAfter_append_singleton (c : Catalogue) (t : TypeRef) (steps : List RegistryStep)
    (step : RegistryStep) :
    fieldsAfter c t (steps ++ [step]) = if step.isClear = true then c.fields t else
      match step.registered? c t with
      | some fields => .ok fields
      | none => fieldsAfter c t steps := by
  rw [fieldsAfter, recent_append_singleton]
  cases step.isClear with
  | true => rfl
  | false =>
      rw [if_neg Bool.false_ne_true, if_neg Bool.false_ne_true, List.findSome?_cons]
      cases step.registered? c t <;> rfl

/-- A step that decides nothing for a type registers nothing for it. -/
theorem registered?_of_not_decides (h : step.decides t = false) : step.registered? c t = none := by
  cases step with
  | register u fields => exact if_neg fun hu => Bool.false_ne_true (h ▸ beq_iff_eq.mpr hu)
  | _ => rfl

/-- Only what decides for a type bears on its fields. -/
theorem fieldsAfter_filter (c : Catalogue) (t : TypeRef) (steps : List RegistryStep) :
    fieldsAfter c t (steps.filter (·.decides t)) = fieldsAfter c t steps := by
  induction steps using List.reverseRecOn with
  | nil => rfl
  | append_singleton steps step ih =>
      rw [List.filter_append, List.filter_singleton, fieldsAfter_append_singleton]
      cases hdecides : step.decides t with
      | true => rw [cond_true, fieldsAfter_append_singleton, ih]
      | false =>
          have hclear : ¬ step.isClear = true := by
            cases step <;> simp_all [decides, isClear]
          rw [cond_false, List.append_nil, ih, if_neg hclear, registered?_of_not_decides hdecides]

end RegistryStep

namespace Registry

open RegistryStep

variable {c : Catalogue} {r : Registry} {t u : TypeRef} {table : Table} {step : RegistryStep}
  {steps : List RegistryStep}

def after (c : Catalogue) (r : Registry) : RegistryStep → Registry
  | .register t (some fields) => (r.register t fields).1
  | .register t none => (r.introspect c t).1
  | .consult t | .lookup t _ _ => (r.consult c t).1
  | .isRegistered _ => r
  | .clear => {}

def run (c : Catalogue) (steps : List RegistryStep) : Registry :=
  steps.foldl (after c) {}

theorem run_append_singleton (c : Catalogue) (steps : List RegistryStep) (step : RegistryStep) :
    run c (steps ++ [step]) = (run c steps).after c step := by
  rw [run, List.foldl_append]
  rfl

theorem introspect_of_error {x : Fault} (h : c.fields t = .error x) : (r.introspect c t).1 = r := by
  rw [introspect, h]

theorem introspect_of_ok {fields : List Field} (h : c.fields t = .ok fields) :
    (r.introspect c t).1 = r.put t (.ofFields fields) := by
  rw [introspect, h]
  rfl

/-! ## What is registered -/

theorem isRegistered_iff : r.isRegistered t = true ↔ ∃ table, r.tables.lookup t = some table := by
  rw [isRegistered]
  induction r.tables with
  | nil => simp
  | cons entry tables ih =>
      rw [List.any_cons, List.lookup_cons, Bool.or_eq_true, ih, Bool.beq_comm]
      cases t == entry.1 <;> simp

theorem isRegistered_put : (r.put u table).isRegistered t = true ↔ u = t ∨ r.isRegistered t = true := by
  rw [isRegistered_iff, isRegistered_iff, put, List.lookup_cons]
  cases htu : t == u with
  | true => simp [beq_iff_eq.mp htu]
  | false =>
      rw [or_iff_right (Ne.symm (ne_of_beq_false htu))]
      dsimp only
      rw [lookup_filter_ne htu]

theorem isRegistered_introspect : (r.introspect c u).1.isRegistered t = true ↔
    (u = t ∧ ∃ fields, c.fields t = .ok fields) ∨ r.isRegistered t = true := by
  cases hfields : c.fields u with
  | error x =>
      rw [introspect_of_error hfields]
      refine (or_iff_right ?_).symm
      rintro ⟨rfl, fields, hok⟩
      rw [hok] at hfields
      cases hfields
  | ok fields =>
      rw [introspect_of_ok hfields, isRegistered_put]
      refine or_congr_left (iff_self_and.mpr ?_)
      rintro rfl
      exact ⟨fields, hfields⟩

theorem isRegistered_consult : (r.consult c u).1.isRegistered t = true ↔
    (u = t ∧ ∃ fields, c.fields t = .ok fields) ∨ r.isRegistered t = true := by
  rw [consult]
  split
  · rename_i hregistered
    refine (or_iff_right_of_imp ?_).symm
    rintro ⟨rfl, -⟩
    exact hregistered
  · exact isRegistered_introspect

/-- A step registers the type that it fills the table of, and only clearing removes one. -/
theorem isRegistered_after : (r.after c step).isRegistered t = true ↔
    step.isClear = false ∧ (step.Fills c t ∨ r.isRegistered t = true) := by
  cases step with
  | register u fields =>
      cases fields with
      | some fields =>
          have hfills : Fills c t (.register u (some fields)) ↔ u = t :=
            ⟨fun h => Option.some.inj h.1, fun h => h ▸ ⟨rfl, .inl ⟨fields, rfl⟩⟩⟩
          rw [after, register, isRegistered_put, hfills]
          simp [isClear]
      | none =>
          rw [after, isRegistered_introspect]
          simp [isClear, Fills, subject?]
  | consult u | lookup u name path =>
      rw [after, isRegistered_consult]
      simp [isClear, Fills, subject?]
  | isRegistered u => simp [after, isClear, Fills, subject?]
  | clear => simp [after, isClear, isRegistered]

theorem isRegistered_run (c : Catalogue) (steps : List RegistryStep) (t : TypeRef) :
    (run c steps).isRegistered t = true ↔ ∃ step ∈ recent steps, step.Fills c t := by
  induction steps using List.reverseRecOn with
  | nil => simp [run, isRegistered, recent]
  | append_singleton steps step ih =>
      rw [run_append_singleton, isRegistered_after, recent_append_singleton, ih]
      cases step.isClear <;> simp

/-! ## Tables of types -/

theorem table_put : (r.put u table).table c t = if u = t then .ok table else r.table c t := by
  rw [Registry.table, put, List.lookup_cons]
  cases htu : t == u with
  | true => rw [if_pos (beq_iff_eq.mp htu).symm]
  | false =>
      rw [if_neg (Ne.symm (ne_of_beq_false htu)), Registry.table]
      dsimp only
      rw [lookup_filter_ne htu]

theorem table_introspect : (r.introspect c u).1.table c t = if u = t then
      match c.fields t with
      | .ok fields => .ok (.ofFields fields)
      | .error _ => r.table c t
    else r.table c t := by
  cases hfields : c.fields u with
  | error x =>
      rw [introspect_of_error hfields]
      split
      · rename_i hut
        rw [← hut, hfields]
      · rfl
  | ok fields =>
      rw [introspect_of_ok hfields, table_put]
      split
      · rename_i hut
        rw [← hut, hfields]
      · rfl

/-- Looking a type up changes no table. -/
theorem table_consult : (r.consult c u).1.table c t = r.table c t := by
  rw [consult]
  split
  · rfl
  · rename_i hregistered
    rw [table_introspect]
    split
    · rename_i hut
      subst hut
      have hlookup : r.tables.lookup u = none := by
        rw [← Option.not_isSome_iff_eq_none, Option.isSome_iff_exists, ← isRegistered_iff]
        exact hregistered
      rw [Registry.table, hlookup]
      dsimp only
      rw [Catalogue.table]
      cases c.fields u <;> rfl
    · rfl

/-- A step gives a type the table of the fields that it registers for it.  Apart from that it changes none,
unless it clears them all. -/
theorem table_after : (r.after c step).table c t = if step.isClear = true then c.table t else
    match step.registered? c t with
    | some fields => .ok (.ofFields fields)
    | none => r.table c t := by
  cases step with
  | register u fields =>
      have hclear : ¬ (RegistryStep.register u fields).isClear = true := Bool.false_ne_true
      rw [if_neg hclear, registered?]
      cases fields with
      | some fields =>
          rw [after, register, table_put]
          split <;> rfl
      | none =>
          rw [after, table_introspect]
          split
          · cases c.fields t <;> rfl
          · rfl
  | consult u | lookup u name path => exact table_consult
  | isRegistered u => rfl
  | clear => rfl

theorem table_run (c : Catalogue) (steps : List RegistryStep) (t : TypeRef) :
    (run c steps).table c t = (fieldsAfter c t steps).map .ofFields := by
  induction steps using List.reverseRecOn with
  | nil => rfl
  | append_singleton steps step ih =>
      rw [run_append_singleton, table_after, fieldsAfter_append_singleton, ih]
      split
      · rfl
      · cases step.registered? c t <;> rfl

/-! ## Fields -/

theorem lookup_eq_ok_iff {name : String} {path : Option String} {f : Field} :
    (run c steps).lookup c t name path = .ok f ↔
      ∃ fields, fieldsAfter c t steps = .ok fields ∧ IsLastNamed fields (lower name) f := by
  rw [lookup, table_run]
  cases fieldsAfter c t steps with
  | error x => simp [Except.map]
  | ok fields =>
      simp only [Except.map, Table.find?, Except.ok.injEq, exists_eq_left',
        ← Table.lookup_ofFields_eq_some_iff]
      cases (Table.ofFields fields).entries.lookup (lower name) <;> simp

theorem lookup_eq_error_iff {name : String} {path : Option String} {e : Failure} :
    (run c steps).lookup c t name path = .error e ↔
      (∃ x, fieldsAfter c t steps = .error x ∧ e = .fault x) ∨
      ∃ fields, fieldsAfter c t steps = .ok fields ∧ (∀ f ∈ fields, lower f.name ≠ lower name) ∧
        e = .request (unknownField t name path) := by
  rw [lookup, table_run]
  cases fieldsAfter c t steps with
  | error x => simp [Except.map, eq_comm]
  | ok fields =>
      simp only [Except.map, Table.find?, Except.ok.injEq, exists_eq_left',
        ← Table.lookup_ofFields_eq_none_iff]
      cases (Table.ofFields fields).entries.lookup (lower name) <;> simp [eq_comm]

/-- After any steps the table of a type is made of the fields that were registered for it last since the
registry was cleared, and otherwise of those of its declaration; leaving out every step that does not register
that type or clear changes nothing in it.  A type is registered exactly if a step since then put a table for
it there, which looking it up does unless its declaration gives none.  Each table has one entry for each name
in lower case, with the last field of that name.  This is what a look-up in any letter case finds, and it
fails for that name and that path exactly if there is no such field, unless there is no table at all. -/
theorem run_transparent (c : Catalogue) (steps : List RegistryStep) (t : TypeRef) :
    (run c steps).table c t = (fieldsAfter c t steps).map .ofFields ∧
    (run c steps).table c t = (run c (steps.filter (·.decides t))).table c t ∧
    ((run c steps).isRegistered t = true ↔ ∃ step ∈ recent steps, step.Fills c t) ∧
    (∀ table, (run c steps).table c t = .ok table → (table.entries.map Prod.fst).Nodup ∧
      ∃ fields, fieldsAfter c t steps = .ok fields ∧
        ∀ key f, (key, f) ∈ table.entries ↔ IsLastNamed fields key f) ∧
    ∀ name path,
      (∀ f, (run c steps).lookup c t name path = .ok f ↔
        ∃ fields, fieldsAfter c t steps = .ok fields ∧ IsLastNamed fields (lower name) f) ∧
      (∀ e, (run c steps).lookup c t name path = .error e ↔
        (∃ x, fieldsAfter c t steps = .error x ∧ e = .fault x) ∨
        ∃ fields, fieldsAfter c t steps = .ok fields ∧ (∀ f ∈ fields, lower f.name ≠ lower name) ∧
          e = .request (unknownField t name path)) ∧
      ∀ name' path', lower name' = lower name → ∀ f,
        (run c steps).lookup c t name' path' = .ok f ↔ (run c steps).lookup c t name path = .ok f := by
  refine ⟨table_run c steps t, ?_, isRegistered_run c steps t, fun table htable => ?_, fun name path => ?_⟩
  · rw [table_run, table_run, fieldsAfter_filter]
  · rw [table_run] at htable
    obtain ⟨fields, hfields, rfl⟩ := Outcome.map_eq_ok.mp htable
    exact ⟨Table.nodup_keys_ofFields fields, fields, hfields, fun key f => Table.mem_ofFields_iff⟩
  · refine ⟨fun f => lookup_eq_ok_iff, fun e => lookup_eq_error_iff, fun name' path' hlower f => ?_⟩
    rw [lookup_eq_ok_iff, lookup_eq_ok_iff, hlower]

/-- Notes with a field of something that is no type, and posts. -/
def drafts : Catalogue where
  records := [{ name := "Note", annotations := [("marks", .forward "[int]")] },
    { name := "Post", annotations := [("title", .type (.builtin "str")), ("views", .type (.builtin "int"))] }]

/-- Posts are looked up, then fields are registered for them, and they and notes are looked up again. -/
def drafting : List RegistryStep :=
  [.lookup (.record "Post") "views" none,
    .register (.record "Post")
      (some [{ name := "Title", kind := .string }, { name := "TITLE", kind := .scalar }]),
    .lookup (.record "Post") "views" none, .lookup (.record "Note") "other" none]

/-- The registered fields stay, and of two names that differ in letter case the later one does.  Notes are not
registered by looking them up, and a name that they do not have is not told. -/
theorem run_transparent_drafting :
    (∃ table, (run drafts drafting).table drafts (.record "Post") = .ok table ∧
        ("title", { name := "TITLE", kind := .scalar }) ∈ table.entries) ∧
      (run drafts drafting).lookup drafts (.record "Post") "tiTLE" none =
        .ok { name := "TITLE", kind := .scalar } ∧
      (run drafts drafting).lookup drafts (.record "Post") "views" none =
        .error (.request (unknownField (.record "Post") "views" none)) ∧
      (run drafts drafting).isRegistered (.record "Note") = false ∧
      (run drafts drafting).lookup drafts (.record "Note") "other" none = .error (.fault .badType) := by
  have hpost : fieldsAfter drafts (.record "Post") drafting =
      .ok [{ name := "Title", kind := .string }, { name := "TITLE", kind := .scalar }] := rfl
  have hnote : drafts.fields (.record "Note") = .error .badType := rfl
  have hafter : fieldsAfter drafts (.record "Note") drafting = .error .badType := by
    rw [← hnote]
    rfl
  have hlast : IsLastNamed [{ name := "Title", kind := .string }, { name := "TITLE", kind := .scalar }]
      "title" { name := "TITLE", kind := .scalar } :=
    ⟨[_], [], rfl, by decide +kernel, List.forall_mem_nil _⟩
  have htitle : lower "tiTLE" = "title" := by decide +kernel
  obtain ⟨htable, -, -, hentries, hanswers⟩ := run_transparent drafts drafting (.record "Post")
  obtain ⟨-, -, hregistered, -, hanswers'⟩ := run_transparent drafts drafting (.record "Note")
  rw [hpost] at htable
  obtain ⟨-, fields, hfields, hentries⟩ := hentries _ htable
  obtain rfl := Except.ok.inj (hfields.symm.trans hpost)
  refine ⟨⟨_, htable, (hentries _ _).mpr hlast⟩, ((hanswers _ _).1 _).mpr ⟨_, hpost, htitle ▸ hlast⟩,
    ((hanswers _ _).2.1 _).mpr (.inr ⟨_, hpost, ?_, rfl⟩), ?_,
    ((hanswers' _ _).2.1 _).mpr (.inl ⟨_, hafter, rfl⟩)⟩
  · simp only [List.forall_mem_cons]
    exact ⟨by decide +kernel, by decide +kernel, List.forall_mem_nil _⟩
  · rw [← Bool.not_eq_true, hregistered]
    have hrecent : recent drafting = drafting.reverse := rfl
    rintro ⟨step, hstep, -, ⟨fields, rfl⟩ | ⟨fields, hfields⟩⟩
    · rw [hrecent, List.mem_reverse, drafting] at hstep
      simp at hstep
    · rw [hnote] at hfields
      cases hfields

end Registry
end PageQuery
