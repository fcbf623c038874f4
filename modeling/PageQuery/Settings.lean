import PageQuery.Failure
import PageQuery.Value.Order

/-!
# Settings

Settings are a dictionary; a name that it does not hold has its default.  Four settings have to be
whole numbers of at least one, which is checked when they are read, so a wrong entry does no harm
until it is needed.  A `SettingsView` reads from a dictionary that may be exchanged: it keeps the
one that it met first, and each value that it found in it, until it is told to reload.
-/

namespace PageQuery

abbrev SettingEntries := List (String × Value)

def defaultSettings : SettingEntries :=
  [("DEFAULT_PAGE", .int 1), ("DEFAULT_SIZE", .int 5), ("MAX_SIZE", .int 1000),
    ("MAX_PATH_DEPTH", .int 2), ("DATE_PLACEHOLDER", .text "_"), ("LOG_QUERIES", .bool false)]

/-- The settings that have to be whole numbers of at least one. -/
def positiveSettings : List String :=
  ["DEFAULT_PAGE", "DEFAULT_SIZE", "MAX_SIZE", "MAX_PATH_DEPTH"]

def positive? (v : Value) : Option Int :=
  v.asInt?.filter (1 ≤ ·)

/-- Reads a setting: it has to be known, and positive where that is asked for. -/
def readSetting (defaults entries : SettingEntries) (name : String) : Except Failure Value :=
  match defaults.lookup name with
  | none => .error (.unknownSetting name)
  | some default =>
    let v := (entries.lookup name).getD default
    if positiveSettings.contains name && (positive? v).isNone then
      .error ((Failure.misconfigured name v).showing v.hasLiteral)
    else .ok v

/-- The settings in effect. -/
structure Settings where
  entries : SettingEntries := []

namespace Settings

def get (s : Settings) (name : String) : Except Failure Value :=
  readSetting defaultSettings s.entries name

def getPositive (s : Settings) (name : String) : Except Failure Whole :=
  (s.get name).map fun v => (Whole.ofValue? v).getD (.ofInt 1)

def defaultPage (s : Settings) : Except Failure Whole := s.getPositive "DEFAULT_PAGE"

def defaultSize (s : Settings) : Except Failure Whole := s.getPositive "DEFAULT_SIZE"

def maxSize (s : Settings) : Except Failure Whole := s.getPositive "MAX_SIZE"

/-- The number of segments that a path may always have. -/
def maxPathDepth (s : Settings) : Except Failure Whole := s.getPositive "MAX_PATH_DEPTH"

/-- What stands for the open bound of a date filter. -/
def datePlaceholder (s : Settings) : Value :=
  (s.entries.lookup "DATE_PLACEHOLDER").getD (.text "_")

/-- Whether predicates and orderings are noted in the log. -/
def logsQueries (s : Settings) : Bool :=
  ((s.entries.lookup "LOG_QUERIES").getD (.bool false)).isTruthy

end Settings

/-- A reader of settings.  `current` is the dictionary that is offered, if any, `kept` the one that
was met first since the last reload, and `cached` holds the settings that were read since then, each
with the value that was found. -/
structure SettingsView where
  defaults : SettingEntries
  current : Option SettingEntries
  kept : Option SettingEntries := none
  cached : SettingEntries := []

namespace SettingsView

/-- A reader that has met nothing yet; without defaults of its own it has the usual ones. -/
def new (defaults : SettingEntries) (current : Option SettingEntries) : SettingsView :=
  { defaults := if defaults.isEmpty then defaultSettings else defaults, current := current }

/-- Exchanges the dictionary that is offered. -/
def offer (v : SettingsView) (current : Option SettingEntries) : SettingsView :=
  { v with current := current }

/-- Forgets the dictionary that was kept and the settings that were read. -/
def reload (v : SettingsView) : SettingsView :=
  { v with kept := none, cached := [] }

/-- The dictionary that is kept, or else the one that is offered. -/
def entries (v : SettingsView) : SettingEntries :=
  v.kept.getD (v.current.getD [])

/-- The dictionary, which is kept from now on. -/
def user (v : SettingsView) : SettingEntries × SettingsView :=
  (v.entries, { v with kept := some v.entries })

/-- The reader after a setting was looked up: its value is cached if it is a valid one. -/
def remember (v : SettingsView) (name : String) : Except Failure Value → SettingsView
  | .ok value => { v.user.2 with cached := v.cached ++ [(name, value)] }
  | .error _ => v.user.2

/-- Looks up a setting that is not cached.  Only a known name makes the reader keep the dictionary. -/
def get (v : SettingsView) (name : String) : Except Failure Value × SettingsView :=
  if (v.defaults.lookup name).isNone then (.error (.unknownSetting name), v)
  else
    let r := readSetting v.defaults v.entries name
    (r, v.remember name r)

/-- Reads an attribute of the reader: what it keeps for itself, or else a setting, cached or not. -/
def read (v : SettingsView) (name : String) : Except Failure Value × SettingsView :=
  match name, v.kept with
  | "defaults", _ => (.ok (.mapping v.defaults), v)
  | "user_settings", _ => (.ok (.mapping v.user.1), v.user.2)
  | "_user_settings", some entries => (.ok (.mapping entries), v)
  | "_cached_attrs", _ => (.ok (.set (v.cached.map fun entry => .text entry.1)), v)
  | _, _ =>
    match v.cached.lookup name with
    | some value => (.ok value, v)
    | none => v.get name

end SettingsView
end PageQuery
