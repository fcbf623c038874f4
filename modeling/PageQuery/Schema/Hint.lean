import PageQuery.Text.Quoted

/-!
# Types and hints

A field of a record is declared by a hint: a type, a choice between types, a collection of elements,
or a text that names a type declared elsewhere.  This module holds the hints, the way alternatives
are flattened and absence is stripped from them, and the name by which a hint is shown.
-/

namespace PageQuery

open PageQuery.Text

/-- A type by name. -/
inductive TypeRef where
  | builtin (name : String)
  | record (name : String)
  | enumeration (name : String)
  | model (name : String)
  deriving DecidableEq, Repr, Inhabited

def TypeRef.name : TypeRef → String
  | builtin n | record n | enumeration n | model n => n

def TypeRef.absent : TypeRef := .builtin "NoneType"

/-- The hint of a field. -/
inductive Hint where
  | type (t : TypeRef)
  | optional (h : Hint)
  | union (alternatives : List Hint)
  | either (left right : Hint)
  | collection (name : String) (generic : Bool) (arguments : List Hint)
  /-- A type with arguments that is no collection. -/
  | applied (name : String) (arguments : List Hint)
  | deque (element : Hint)
  | classWide (h : Hint)
  | forward (text : String)
  | reference (text : String)
  /-- The absent value itself, which is no type. -/
  | nothing
  /-- Something else that is no type: its name, its literal, whether it may be a key, and whether name and
  literal can be written at all. -/
  | thing (name literal : String) (hashable writable : Bool)
  deriving Inhabited

namespace Hint

mutual

def alike : Hint → Hint → Bool
  | .type s, .type t => s == t
  | .optional g, .optional h => alike g h
  | .union gs, .union hs => alikeAll gs hs
  | .either g g', .either h h' => alike g h && alike g' h'
  | .collection n b gs, .collection m c hs => n == m && b == c && alikeAll gs hs
  | .applied n gs, .applied m hs => n == m && alikeAll gs hs
  | .deque g, .deque h => alike g h
  | .classWide g, .classWide h => alike g h
  | .forward s, .forward t => s == t
  | .reference s, .reference t => s == t
  | .nothing, .nothing => true
  | .thing s s' b w, .thing t t' c w' => s == t && s' == t' && b == c && w == w'
  | _, _ => false

def alikeAll : List Hint → List Hint → Bool
  | [], [] => true
  | g :: gs, h :: hs => alike g h && alikeAll gs hs
  | _, _ => false

end

def absent : Hint := .type .absent

/-- A hint inside a generic form: a text there is a reference to a type. -/
def inside : Hint → Hint
  | .forward text => .reference text
  | h => h

mutual

/-- The alternatives of a hint, nested choices flattened. -/
def alternatives : Hint → List Hint
  | .optional h => (alternatives h).map inside ++ [absent]
  | .union hs => alternativesOf hs
  | .either g h => alternatives g ++ alternatives h
  | h => [h]

def alternativesOf : List Hint → List Hint
  | [] => []
  | h :: hs => (alternatives h).map inside ++ alternativesOf hs

end

/-- The hints that are not written like an earlier one. -/
def distinct (hs : List Hint) : List Hint :=
  hs.foldl (fun kept h => if kept.any (alike h) then kept else kept ++ [h]) []

/-- A choice whose alternatives are all alike is no choice. -/
def collapse (h : Hint) : Hint :=
  match distinct h.alternatives with
  | [single] => single
  | _ => h

/-- A hint without the absent value, if one alternative is left; a choice between several stays as
it is. -/
def withoutAbsent (h : Hint) : Hint :=
  match distinct h.alternatives with
  | [single] => single
  | several =>
    match several.filter fun g => !alike g absent with
    | [single] => single
    | _ => h

/-- Whether a choice with this operand becomes a generic union. -/
def isGeneric : Hint → Bool
  | .optional _ | .union _ | .deque _ | .classWide _ | .forward _ | .reference _ => true
  | .collection _ generic _ => generic
  | .either g h => isGeneric g || isGeneric h
  | _ => false

/-- Whether two hints may be joined by a bar: a text only joins a generic form. -/
def joinable (g h : Hint) : Bool :=
  let isText : Hint → Bool
    | .forward _ => true
    | _ => false
  if isText g then !isText h && isGeneric h
  else !isText h || isGeneric g

mutual

def isHashable : Hint → Bool
  | .thing _ _ hashable _ => hashable
  | .optional h | .deque h | .classWide h => isHashable h
  | .either g h => isHashable g && isHashable h
  | .union hs | .collection _ _ hs | .applied _ hs => areHashable hs
  | _ => true

def areHashable : List Hint → Bool
  | [] => true
  | h :: hs => isHashable h && areHashable hs

end

mutual

def isWritable : Hint → Bool
  | .thing _ _ _ writable => writable
  | .optional h | .deque h | .classWide h => isWritable h
  | .either g h => isWritable g && isWritable h
  | .union hs | .collection _ _ hs | .applied _ hs => areWritable hs
  | _ => true

def areWritable : List Hint → Bool
  | [] => true
  | h :: hs => isWritable h && areWritable hs

end

def qualifiedName (t : TypeRef) : String :=
  match t with
  | .builtin "Decimal" => "decimal.Decimal"
  | .builtin "UUID" => "uuid.UUID"
  | .builtin "Any" => "typing.Any"
  | .builtin n =>
    if ["date", "datetime", "time", "timedelta"].contains n then "datetime." ++ n else n
  | t => t.name

/-- What stands for further arguments of the kind of the one before it. -/
def andSoOn : Hint := .type (.builtin "...")

/-- The place where a collection type is defined, as a beginning of its name. -/
def collectionPlace (name : String) (generic : Bool) : String :=
  if generic then "typing."
  else if ["Sequence", "MutableSet", "Collection"].contains name then "collections.abc."
  else ""

abbrev Named := Hint × String

def Named.inside : Named → Named
  | (.forward text, _) => (.reference text, "ForwardRef(" ++ quoted text ++ ")")
  | n => n

/-- The named hints that are not written like an earlier one. -/
def distinctNamed (ns : List Named) : List Named :=
  ns.foldl (fun kept n => if kept.any (alike n.1 ·.1) then kept else kept ++ [n]) []

/-- Whether alternatives are one type and the absent value. -/
def isOptional (hs : List Hint) : Bool :=
  hs.length == 2 && hs.any (alike absent)

/-- The name of a choice, given its alternatives: a generic one names its form, any other one has
bars between the alternatives. -/
def choiceName (generic : Bool) (alternatives : List Named) : String :=
  match distinctNamed alternatives with
  | [single] => single.2
  | several =>
    if !generic then
      String.intercalate " | " (several.map fun n => if alike n.1 absent then "None" else n.2)
    else if isOptional (several.map (·.1)) then
      let others := several.filter fun n => !alike n.1 absent
      "typing.Optional[" ++ commaSeparated (others.map (·.2)) ++ "]"
    else "typing.Union[" ++ commaSeparated (several.map (·.2)) ++ "]"
where
  /-- Names with commas between them. -/
  commaSeparated (names : List String) : String := String.intercalate ", " names

def bracketed (name : String) (arguments : List String) : String :=
  name ++ "[" ++ String.intercalate ", " arguments ++ "]"

mutual

/-- The alternatives of a hint with the places of all names in them. -/
def named : Hint → List Named
  | .optional h => (named h).map Named.inside ++ [(absent, TypeRef.absent.name)]
  | .union hs => namedOf hs
  | .either g h => named g ++ named h
  | .type t => [(.type t, qualifiedName t)]
  | .collection n generic hs =>
    let head := collectionPlace n generic ++ n
    [(.collection n generic hs, if hs.isEmpty then head else bracketed head (fullNames hs))]
  | .applied n hs => [(.applied n hs, bracketed n (fullNames hs))]
  | .deque h => [(.deque h, bracketed "typing.Deque" [choiceName h.isGeneric (named h)])]
  | .classWide h =>
    [(.classWide h, bracketed "typing.ClassVar" [choiceName h.isGeneric (named h)])]
  | .forward s => [(.forward s, quoted s)]
  | .reference s => [(.reference s, "ForwardRef(" ++ quoted s ++ ")")]
  | .nothing => [(.nothing, "None")]
  | .thing name literal hashable writable => [(.thing name literal hashable writable, literal)]

/-- The alternatives of several hints inside a generic form. -/
def namedOf : List Hint → List Named
  | [] => []
  | h :: hs => (named h).map Named.inside ++ namedOf hs

def fullNames : List Hint → List String
  | [] => []
  | h :: hs => choiceName h.isGeneric (named h) :: fullNames hs

end

/-- A hint with the places of all names in it. -/
def fullName (h : Hint) : String :=
  choiceName h.isGeneric (named h)

def shownName (h : Hint) : String :=
  match h with
  | .type t => t.name
  | .optional _ | .union _ | .either .. =>
    if !h.isGeneric then h.fullName
    else if isOptional (distinct h.alternatives) then "Optional"
    else "Union"
  | .collection name _ _ | .applied name _ => name
  | .deque _ => "Deque"
  | .classWide _ => "ClassVar"
  | .forward text => text
  | .reference text => "ForwardRef(" ++ quoted text ++ ")"
  | .nothing => "None"
  | .thing name _ _ _ => name

end Hint
end PageQuery
