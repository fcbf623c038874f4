import Mathlib
import PageQuery.Settings

/-!
# Settings between two reloads

A reader of settings keeps what it finds in two places that are filled at different times: the dictionary
when it first looks into it, whether or not it finds a valid value there, and each value once it was read
and found valid.  Between two reloads both hold what one dictionary says, the one that was offered when
the reader first looked.
-/

namespace PageQuery

/-- What is done with a reader of settings: another dictionary is offered, or none, it is told to reload,
it is asked for its dictionary, or an attribute of it is read. -/
inductive SettingsStep where
  | offer (entries : Option SettingEntries)
  | reload
  | user
  | read (name : String)

/-- A whole number of at least one that is no truth value. -/
def Value.IsPositiveInt (v : Value) : Prop :=
  ∃ n : ℤ, v.bare = .int n ∧ 1 ≤ n

namespace SettingsView

variable {v : SettingsView} {defaults entries : SettingEntries} {current : Option SettingEntries}
  {name : String} {value default : Value} {step : SettingsStep} {steps : List SettingsStep}

/-! ## Steps -/

def after (v : SettingsView) : SettingsStep → SettingsView
  | .offer entries => v.offer entries
  | .reload => v.reload
  | .user => v.user.2
  | .read name => (v.read name).2

def run (v : SettingsView) (steps : List SettingsStep) : SettingsView :=
  steps.foldl after v

def offeredAfter (current : Option SettingEntries) : SettingsStep → Option SettingEntries
  | .offer entries => entries
  | _ => current

def offered (current : Option SettingEntries) (steps : List SettingsStep) : Option SettingEntries :=
  steps.foldl offeredAfter current

/-- Names of attributes that the reader has beside the settings: of what it keeps, of what it can be told,
and those with two underscores that every object has. -/
def IsOwn (name : String) : Prop :=
  name ∈ ["defaults", "user_settings", "_user_settings", "_cached_attrs", "reload"] ∨
    ['_', '_'].isPrefixOf name.toList = true

/-- No name of a setting has a lower-case letter. -/
def HasUpperCaseNames (defaults : SettingEntries) : Prop :=
  ∀ name default, defaults.lookup name = some default → ∀ c ∈ name.toList, c.isLower = false

/-- A step at which the reader looks into the dictionary: it is asked for it, be it by name, or for a
setting that it knows. -/
inductive Looks (defaults : SettingEntries) : SettingsStep → Prop
  | user : Looks defaults .user
  | byName : Looks defaults (.read "user_settings")
  | setting {name : String} {default : Value} (hname : defaults.lookup name = some default) :
      Looks defaults (.read name)

theorem run_append (v : SettingsView) (steps steps' : List SettingsStep) :
    v.run (steps ++ steps') = (v.run steps).run steps' :=
  List.foldl_append

theorem get_of_known (hname : v.defaults.lookup name = some default) :
    v.get name = (readSetting v.defaults v.entries name,
      v.remember name (readSetting v.defaults v.entries name)) := by
  rw [get, hname]
  rfl

theorem get_of_unknown (hname : v.defaults.lookup name = none) :
    v.get name = (.error (.unknownSetting name), v) := by
  rw [get, hname]
  rfl

/-- Whatever is read, the reader stays as it is, keeps the dictionary, or remembers what the dictionary
says. -/
theorem read_cases (v : SettingsView) (name : String) :
    (v.read name).2 = v ∨ (v.read name).2 = v.user.2 ∨
      (v.read name).2 = v.remember name (readSetting v.defaults v.entries name) := by
  unfold read
  split
  · exact .inl rfl
  · exact .inr (.inl rfl)
  · exact .inl rfl
  · exact .inl rfl
  · rename_i name _ _ _ _ _ _
    split
    · exact .inl rfl
    · cases hname : v.defaults.lookup name with
      | none => exact .inl (congrArg Prod.snd (get_of_unknown hname))
      | some default => exact .inr (.inr (congrArg Prod.snd (get_of_known hname)))

theorem defaults_after (v : SettingsView) (step : SettingsStep) :
    (v.after step).defaults = v.defaults := by
  cases step with
  | read name =>
      rw [after]
      rcases v.read_cases name with h | h | h <;> rw [h]
      · rfl
      · cases readSetting v.defaults v.entries name <;> rfl
  | _ => rfl

theorem current_after (v : SettingsView) (step : SettingsStep) :
    (v.after step).current = offeredAfter v.current step := by
  cases step with
  | read name =>
      change (v.read name).2.current = v.current
      rcases v.read_cases name with h | h | h <;> rw [h]
      · rfl
      · cases readSetting v.defaults v.entries name <;> rfl
  | _ => rfl

theorem defaults_run (v : SettingsView) (steps : List SettingsStep) :
    (v.run steps).defaults = v.defaults := by
  induction steps generalizing v with
  | nil => rfl
  | cons step steps ih => exact (ih (v.after step)).trans (v.defaults_after step)

theorem current_run (v : SettingsView) (steps : List SettingsStep) :
    (v.run steps).current = offered v.current steps := by
  induction steps generalizing v with
  | nil => rfl
  | cons step steps ih =>
      rw [offered, List.foldl_cons, ← v.current_after step]
      exact ih (v.after step)

/-! ## Attributes and settings -/

/-- What is not an attribute is read as a setting. -/
theorem read_of_notMem (v : SettingsView)
    (h : name ∉ ["defaults", "user_settings", "_user_settings", "_cached_attrs"]) :
    v.read name = match v.cached.lookup name with
      | some value => (.ok value, v)
      | none => v.get name := by
  unfold read
  split
  · simp at h
  · simp at h
  · simp at h
  · simp at h
  · rfl

/-- The names of the attributes have lower-case letters. -/
theorem notMem_of_known (hupper : HasUpperCaseNames defaults)
    (hname : defaults.lookup name = some default) :
    name ∉ ["defaults", "user_settings", "_user_settings", "_cached_attrs"] := by
  have hletters := hupper name default hname
  intro hmem
  simp only [List.mem_cons, List.not_mem_nil, or_false] at hmem
  rcases hmem with rfl | rfl | rfl | rfl
  · exact absurd (hletters 'd' (by decide)) (by decide)
  · exact absurd (hletters 'u' (by decide)) (by decide)
  · exact absurd (hletters 'u' (by decide)) (by decide)
  · exact absurd (hletters 'c' (by decide)) (by decide)

theorem notMem_of_not_isOwn (h : ¬ IsOwn name) :
    name ∉ ["defaults", "user_settings", "_user_settings", "_cached_attrs"] := by
  refine fun hmem => h (.inl ?_)
  simp only [List.mem_cons, List.not_mem_nil, or_false] at hmem ⊢
  tauto

/-! ## Before the first look -/

def fresh (defaults : SettingEntries) (current : Option SettingEntries) : SettingsView :=
  { defaults := defaults, current := current }

theorem reload_eq_fresh (v : SettingsView) : v.reload = fresh v.defaults v.current := rfl

/-- A step at which the reader does not look leaves it with nothing kept. -/
theorem after_fresh (h : ¬ Looks defaults step) :
    (fresh defaults current).after step = fresh defaults (offeredAfter current step) := by
  cases step with
  | offer entries => rfl
  | reload => rfl
  | user => exact absurd .user h
  | read name =>
      change ((fresh defaults current).read name).2 = fresh defaults current
      unfold read
      split
      · rfl
      · exact absurd .byName h
      · rename_i hkept
        cases hkept
      · rfl
      · rename_i name _ _ _ _ _ _
        have hunknown : (fresh defaults current).defaults.lookup name = none := by
          cases hname : (fresh defaults current).defaults.lookup name with
          | none => rfl
          | some default => exact absurd (.setting hname) h
        exact congrArg Prod.snd (get_of_unknown hunknown)

theorem run_fresh (h : ∀ step ∈ steps, ¬ Looks defaults step) :
    (fresh defaults current).run steps = fresh defaults (offered current steps) := by
  induction steps generalizing current with
  | nil => rfl
  | cons step steps ih =>
      obtain ⟨hstep, hsteps⟩ := List.forall_mem_cons.mp h
      rw [run, List.foldl_cons, after_fresh hstep]
      exact ih hsteps

/-! ## After the first look -/

/-- What a reader keeps and what it cached is what one dictionary says. -/
structure Holds (v : SettingsView) (entries : SettingEntries) : Prop where
  kept : v.kept = some entries
  cached : ∀ entry ∈ v.cached, readSetting v.defaults entries entry.1 = .ok entry.2

theorem Holds.entries_eq (h : v.Holds entries) : v.entries = entries := by
  rw [SettingsView.entries, h.kept]
  rfl

theorem Holds.user (h : v.Holds entries) : v.user.2.Holds entries where
  kept := congrArg some h.entries_eq
  cached := h.cached

theorem remember_user (r : Except Failure Value) : v.user.2.remember name r = v.remember name r := by
  cases r <;> rfl

theorem Holds.remember (h : v.Holds entries) (name : String) :
    (v.remember name (readSetting v.defaults entries name)).Holds entries := by
  cases hread : readSetting v.defaults entries name with
  | error e => exact h.user
  | ok value =>
      refine ⟨h.user.kept, fun entry hentry => ?_⟩
      rcases List.mem_append.mp hentry with hcached | hnew
      · exact h.cached entry hcached
      · obtain rfl := List.mem_singleton.mp hnew
        exact hread

/-- A step keeps what the dictionary says, whatever is offered meanwhile. -/
theorem Holds.after (h : v.Holds entries) (hstep : step ≠ .reload) : (v.after step).Holds entries := by
  cases step with
  | offer current => exact ⟨h.kept, h.cached⟩
  | reload => exact absurd rfl hstep
  | user => exact h.user
  | read name =>
      rw [SettingsView.after]
      rcases v.read_cases name with heq | heq | heq <;> rw [heq]
      · exact h
      · exact h.user
      · rw [h.entries_eq]
        exact h.remember name

theorem Holds.run (h : v.Holds entries) (hsteps : ∀ step ∈ steps, step ≠ .reload) :
    (v.run steps).Holds entries := by
  induction steps generalizing v with
  | nil => exact h
  | cons step steps ih =>
      obtain ⟨hstep, hsteps⟩ := List.forall_mem_cons.mp hsteps
      exact ih (h.after hstep) hsteps

/-- At its first look a reader keeps the dictionary that is offered. -/
theorem holds_of_looks (hupper : HasUpperCaseNames defaults) (h : Looks defaults step)
    (current : Option SettingEntries) :
    ((fresh defaults current).after step).Holds (current.getD []) := by
  have hkeeps : (fresh defaults current).user.2.Holds (current.getD []) :=
    ⟨rfl, fun entry hentry => nomatch hentry⟩
  cases h with
  | user => exact hkeeps
  | byName => exact hkeeps
  | @setting name default hname =>
      rw [after, read_of_notMem _ (notMem_of_known hupper hname)]
      have hremember := hkeeps.remember name
      rw [remember_user] at hremember
      change ((fresh defaults current).get name).2.Holds _
      rw [get_of_known hname]
      exact hremember

/-! ## Answers -/

theorem positive?_isNone {v : Value} : (positive? v).isNone = true ↔ ¬ v.IsPositiveInt := by
  rw [positive?, Value.asInt?, Value.IsPositiveInt]
  cases v.bare <;> simp

/-- What a reader answers from a dictionary: the dictionary itself; for a setting the value that the
dictionary has, or else the default; a failure exactly if that value has to be a positive whole number and
is none, which is reported as a misconfiguration if the value can be shown; and that a name is unknown,
which leaves the reader as it is. -/
structure Answers (v : SettingsView) (entries : SettingEntries) : Prop where
  user : v.user.1 = entries
  byName : (v.read "user_settings").1 = .ok (.mapping entries)
  valid : ∀ name default, v.defaults.lookup name = some default →
    (name ∈ positiveSettings → ((entries.lookup name).getD default).IsPositiveInt) →
      (v.read name).1 = .ok ((entries.lookup name).getD default)
  invalid : ∀ name default, v.defaults.lookup name = some default →
    name ∈ positiveSettings → ¬ ((entries.lookup name).getD default).IsPositiveInt →
      (v.read name).1 = .error ((Failure.misconfigured name
        ((entries.lookup name).getD default)).showing ((entries.lookup name).getD default).hasLiteral)
  unknown : ∀ name, v.defaults.lookup name = none → ¬ IsOwn name →
    v.read name = (.error (.unknownSetting name), v)

/-- A reader answers from a dictionary if that is the one it looks into and what it cached is what that
one says. -/
theorem answers_of_cached (hupper : HasUpperCaseNames v.defaults) (hentries : v.entries = entries)
    (hcached : ∀ entry ∈ v.cached, readSetting v.defaults entries entry.1 = .ok entry.2) :
    v.Answers entries := by
  have hlookup {name : String} {value : Value} (h : v.cached.lookup name = some value) :
      readSetting v.defaults entries name = .ok value := by
    obtain ⟨before, behind, hmem, -⟩ := List.lookup_eq_some_iff.mp h
    exact hcached (name, value) (by simp [hmem])
  have hread {name : String} {default : Value} (hname : v.defaults.lookup name = some default) :
      (v.read name).1 = readSetting v.defaults entries name := by
    rw [v.read_of_notMem (notMem_of_known hupper hname)]
    cases h : v.cached.lookup name with
    | none => rw [get_of_known hname, hentries]
    | some value => exact (hlookup h).symm
  refine ⟨hentries, congrArg (fun es => Except.ok (Value.mapping es)) hentries, ?_, ?_, ?_⟩
  · intro name default hname hvalid
    rw [hread hname, readSetting, hname]
    refine if_neg fun hinvalid => ?_
    rw [Bool.and_eq_true, List.contains_iff_mem, positive?_isNone] at hinvalid
    exact hinvalid.2 (hvalid hinvalid.1)
  · intro name default hname hpositive hinvalid
    rw [hread hname, readSetting, hname]
    refine if_pos ?_
    rw [Bool.and_eq_true, List.contains_iff_mem, positive?_isNone]
    exact ⟨hpositive, hinvalid⟩
  · intro name hname hown
    rw [v.read_of_notMem (notMem_of_not_isOwn hown)]
    cases h : v.cached.lookup name with
    | none => exact get_of_unknown hname
    | some value =>
        have hvalue := hlookup h
        rw [readSetting, hname] at hvalue
        cases hvalue

/-- After a reload, as at the beginning, nothing is kept. -/
theorem run_eq_fresh {before : List SettingsStep}
    (hbefore : before = [] ∨ before.getLast? = some .reload) :
    (new defaults current).run before = fresh (new defaults current).defaults (offered current before) := by
  rcases hbefore with rfl | hlast
  · rfl
  · obtain ⟨before, rfl⟩ := List.getLast?_eq_some_iff.mp hlast
    calc (new defaults current).run (before ++ [.reload])
        = ((new defaults current).run before).reload := by
          rw [run_append]
          rfl
      _ = fresh (new defaults current).defaults (offered current before) := by
          rw [reload_eq_fresh, defaults_run, current_run]
          rfl
      _ = fresh (new defaults current).defaults (offered current (before ++ [.reload])) := by
          rw [offered, offered, List.foldl_append]
          rfl

/-- Between two reloads a reader of settings with upper-case names answers from one dictionary.  It is the
one that is offered when the reader first looks: `before` is what was done up to the last reload, `idle`
what was done since then without a look, and `later` what was done from the first look on. -/
theorem answers_between_reloads (hupper : HasUpperCaseNames (new defaults current).defaults)
    {before idle later : List SettingsStep} (hbefore : before = [] ∨ before.getLast? = some .reload)
    (hidle : ∀ step ∈ idle, ¬ Looks (new defaults current).defaults step)
    (hfirst : ∀ step ∈ later.head?, Looks (new defaults current).defaults step)
    (hlater : ∀ step ∈ later, step ≠ .reload) :
    ((new defaults current).run (before ++ idle ++ later)).Answers
      ((offered current (before ++ idle)).getD []) := by
  have hfresh : (new defaults current).run (before ++ idle) =
      fresh (new defaults current).defaults (offered current (before ++ idle)) := by
    rw [run_append, run_eq_fresh hbefore, run_fresh hidle, offered, offered, offered, List.foldl_append]
  rw [run_append, hfresh]
  -- Until the first look the reader answers from what is offered, and from then on from what it kept.
  cases later with
  | nil => exact answers_of_cached hupper rfl fun entry hentry => nomatch hentry
  | cons first rest =>
      have hheld := (holds_of_looks hupper (hfirst first rfl) (offered current (before ++ idle))).run
        (List.forall_mem_cons.mp hlater).2
      refine answers_of_cached ?_ hheld.entries_eq hheld.cached
      rw [defaults_run]
      exact hupper

theorem hasUpperCaseNames_defaultSettings : HasUpperCaseNames defaultSettings := by
  intro name default hname
  have hnames : ∀ entry ∈ defaultSettings, ∀ c ∈ entry.1.toList, c.isLower = false := by
    simp [defaultSettings, Char.isLower]
  obtain ⟨before, behind, hentries, -⟩ := List.lookup_eq_some_iff.mp hname
  exact hnames (name, default) (by simp [hentries])

theorem not_looks_of_unknown (hname : defaults.lookup name = none) (hne : name ≠ "user_settings") :
    ¬ Looks defaults (.read name) := by
  intro h
  generalize hstep : SettingsStep.read name = step at h
  cases h with
  | user => cases hstep
  | byName => exact hne (SettingsStep.read.inj hstep)
  | setting hknown =>
      obtain rfl := SettingsStep.read.inj hstep
      rw [hname] at hknown
      cases hknown

/-- A setting is changed twice, but only the first change was there when the reader first looked, which
it did for a setting with a truth value where a number has to be. -/
theorem answers_between_reloads_changed :
    let v := (new [] none).run ([.read "MAX_SIZE", .reload] ++
      [.offer (some [("MAX_SIZE", .int 7), ("DEFAULT_SIZE", .bool true)]), .read "missing"] ++
      [.read "DEFAULT_SIZE", .offer (some [("MAX_SIZE", .int 9)])])
    (v.read "MAX_SIZE").1 = .ok (.int 7) ∧
      (v.read "DEFAULT_SIZE").1 = .error (.misconfigured "DEFAULT_SIZE" (.bool true)) ∧
      v.read "missing" = (.error (.unknownSetting "missing"), v) := by
  have hupper : HasUpperCaseNames (new [] none).defaults := hasUpperCaseNames_defaultSettings
  have hbefore : [SettingsStep.read "MAX_SIZE", .reload] = [] ∨
      [SettingsStep.read "MAX_SIZE", .reload].getLast? = some .reload := .inr rfl
  have hidle : ∀ step ∈ [SettingsStep.offer (some [("MAX_SIZE", .int 7), ("DEFAULT_SIZE", .bool true)]),
      .read "missing"], ¬ Looks (new [] none).defaults step := by
    rw [List.forall_mem_cons, List.forall_mem_singleton]
    exact ⟨nofun, not_looks_of_unknown rfl (by decide)⟩
  have hfirst : ∀ step ∈ [SettingsStep.read "DEFAULT_SIZE",
      .offer (some [("MAX_SIZE", .int 9)])].head?, Looks (new [] none).defaults step := by
    rintro step ⟨⟩
    exact .setting rfl
  have hlater : ∀ step ∈ [SettingsStep.read "DEFAULT_SIZE", .offer (some [("MAX_SIZE", .int 9)])],
      step ≠ .reload := by
    rw [List.forall_mem_cons, List.forall_mem_singleton]
    exact ⟨nofun, nofun⟩
  have hanswers := answers_between_reloads hupper hbefore hidle hfirst hlater
  refine ⟨hanswers.valid "MAX_SIZE" _ rfl fun _ => ⟨7, rfl, by decide⟩, ?_, ?_⟩
  · refine hanswers.invalid "DEFAULT_SIZE" _ rfl (by decide) ?_
    rintro ⟨n, ⟨⟩, -⟩
  · refine hanswers.unknown "missing" rfl ?_
    unfold IsOwn
    decide

/-- No setting is called `user_settings`, but it is the name of an attribute: reading it is no error, and
it is a look at the dictionary, which decides what is read of a setting later on. -/
theorem looks_by_unknown_name :
    let v := new [] (some [("MAX_SIZE", .int 7)])
    v.defaults.lookup "user_settings" = none ∧
      (v.read "user_settings").1 = .ok (.mapping [("MAX_SIZE", .int 7)]) ∧
      ((v.run [.offer (some [("MAX_SIZE", .int 9)])]).read "MAX_SIZE").1 = .ok (.int 9) ∧
      ((v.run [.read "user_settings", .offer (some [("MAX_SIZE", .int 9)])]).read "MAX_SIZE").1 =
        .ok (.int 7) :=
  ⟨rfl, rfl, rfl, rfl⟩

end SettingsView
end PageQuery
