import PageQuery.Fault
import PageQuery.Value.Literal

/-!
# Responses

Shows records to a client: values are turned into plain ones, and the requested dotted paths
become a nested mapping.  A step through a collection yields one value for each element.
Attributes are read by a `Reader`, so the same rules serve records in memory and rows of a store.
-/

namespace PageQuery

open PageQuery.Text

namespace Value

def relatedRows (model : String) (keys : List Int) : List Value :=
  keys.map (.row model)

mutual

/-- Reads an attribute of a value, or of every element of a list. -/
def step (read : Reader) (name : String) : Value → Value
  | .list xs => .list (stepAll read name xs)
  | .tuple xs => .list (stepAll read name xs)
  | .member _ _ .other (.list xs) => .list (stepAll read name xs)
  | .member _ _ .other (.tuple xs) => .list (stepAll read name xs)
  | .related model keys => .list ((relatedRows model keys).map (read · name))
  | .none => .none
  | v => read v name

def stepAll (read : Reader) (name : String) : List Value → List Value
  | [] => []
  | x :: xs => step read name x :: stepAll read name xs

end

def steps (read : Reader) (v : Value) (names : List String) : Value :=
  names.foldl (fun v name => v.step read name) v

def atPath (read : Reader) (v : Value) (path : String) : Value :=
  v.steps read (split '.' path)

/-- The text by which a date, a moment or a time of day writes itself. -/
def isoText? : Value → Option String
  | .datetime t => some t.text
  | .date d => some d.text
  | .time t offset => some (Value.time t offset).plainText
  | _ => Option.none

/-- Turns a member of an enumeration into a plain value: what also is a moment is shown as one, and
any other member as its value. -/
def plainMember (mixin : Mixin) (v : Value) : Value :=
  if mixin = .plain then v else ((isoText? v).map Value.text).getD v

/-- Turns a record into a plain value.  It is taken for what it has the attributes of: one that looks
like a moment cannot be shown, one that looks like an identifier or a decimal is shown by its own text,
and one with a key is shown by its key. -/
def plainRecord (record : Value) (attributes : List (String × Value)) : Except Fault Value :=
  let has (name : String) : Bool := (attributes.lookup name).isSome
  if has "isoformat" then .error .badType
  else if has "hex" || has "as_tuple" then record.writePlain.map .text
  else
    match attributes.lookup "pk" with
    | some key => key.writePlain.map .text
    | Option.none => .ok record

/-- Turns a value that holds no other values into a plain one.  A row is shown by its key. -/
def plainAtom : Value → Except Fault Value
  | .datetime t => .ok (.text t.text)
  | .date d => .ok (.text d.text)
  | .time t offset => .ok (.text (Value.time t offset).plainText)
  | .member _ _ mixin v => .ok (plainMember mixin v)
  | .uuid n => .ok (.text (uuidText n))
  | .bytes os => .ok (.text (quotedOctets os))
  | .decimal d => .ok (.text d.text)
  | .row _ key => (Value.int key).writePlain.map .text
  | .record identity type attributes =>
    plainRecord (.record identity type attributes) attributes
  | v => .ok v

mutual

/-- Turns a value into a plain one: moments, decimals and identifiers become texts, and members of
enumerations their values.  Durations, sets and records without a key stay as they are. -/
def serialize : Value → Except Fault Value
  | .list xs => (serializeAll xs).map .list
  | .tuple xs => (serializeAll xs).map .list
  | .member _ _ .other (.list xs) => (serializeAll xs).map .list
  | .member _ _ .other (.tuple xs) => (serializeAll xs).map .list
  | .related model keys => ((relatedRows model keys).mapM plainAtom).map .list
  | v => plainAtom v

/-- Turns several values into plain ones. -/
def serializeAll : List Value → Except Fault (List Value)
  | [] => .ok []
  | x :: xs =>
    match serialize x with
    | .error f => .error f
    | .ok v => (serializeAll xs).map (v :: ·)

end

end Value

namespace Response

/-- Sets the value of a key, in its old place or at the end. -/
def set (key : String) (v : Value) : List (String × Value) → List (String × Value)
  | [] => [(key, v)]
  | (k, u) :: rest => if k = key then (key, v) :: rest else (k, u) :: set key v rest

/-- Puts a value under nested keys.  A value that stands on the way is kept, and nothing is put
below it. -/
def put (entries : List (String × Value)) :
    List String → String → Except Fault Value → Except Fault (List (String × Value))
  | [], leaf, v => v.map fun v => set leaf v entries
  | key :: keys, leaf, v =>
    match entries.lookup key with
    | none => (put [] keys leaf v).map fun inner => set key (.mapping inner) entries
    | some (.mapping inner) =>
      (put inner keys leaf v).map fun inner => set key (.mapping inner) entries
    | some _ => .ok entries

def addPath (read : Value.Reader) (record : Value) (entries : List (String × Value))
    (path : String) : Except Fault (List (String × Value)) :=
  let names := split '.' path
  put entries names.dropLast (names.getLast?.getD "") (record.atPath read path).serialize

def nested (read : Value.Reader) (record : Value) (paths : List String) : Except Fault Value :=
  if record.isNone then .ok .none
  else (paths.foldlM (addPath read record) []).map .mapping

end Response
end PageQuery
