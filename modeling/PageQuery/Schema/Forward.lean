import PageQuery.Schema.Denotation

/-!
# Hints given as texts

A hint may be a text: the name of a type declared elsewhere, or an expression over such names.
Resolving replaces every text by the hint that it denotes and stops at the first one that denotes
none.
-/

namespace PageQuery.Hint

mutual

/-- A hint with every text replaced by what it denotes, or what stands in the way of that. -/
def resolveWith (denote : String → Except Obstacle Hint) : Hint → Except Obstacle Hint
  | .type t => .ok (.type t)
  | .optional h => (resolveWith denote h).map .optional
  | .union hs => (resolveAll denote hs).map .union
  | .either g h =>
    match resolveWith denote g with
    | .error e => .error e
    | .ok g => (resolveWith denote h).map (.either g)
  | .collection name generic hs => (resolveAll denote hs).map (.collection name generic)
  | .applied name hs => (resolveAll denote hs).map (.applied name)
  | .deque h => (resolveWith denote h).map .deque
  | .classWide h => (resolveWith denote h).map .classWide
  | .forward text | .reference text => denote text
  | .nothing => .ok .nothing
  | .thing name literal hashable writable => .ok (.thing name literal hashable writable)

def resolveAll (denote : String → Except Obstacle Hint) : List Hint → Except Obstacle (List Hint)
  | [] => .ok []
  | h :: hs =>
    match resolveWith denote h with
    | .error e => .error e
    | .ok h => (resolveAll denote hs).map (h :: ·)

end

/-- What a text denotes; texts within it are followed as far as `fuel` goes. -/
def denoted (c : Catalogue) : Nat → String → Except Obstacle Hint
  | 0, text => .error (.undeclared text)
  | fuel + 1, text =>
    match Expression.read? text with
    | none => .error (.broken .badSyntax)
    | some e =>
      match (Denoted.ofExpression c e).bind Denoted.asHint with
      | .error o => .error o
      | .ok h => resolveWith (denoted c fuel) h

/-- A hint with every text replaced by what it denotes.  A text within a text is shorter, so a
hundred of them in each other are more than any hint has. -/
def resolve (c : Catalogue) (h : Hint) : Except Obstacle Hint :=
  resolveWith (denoted c 100) h

def checkText (text : String) : Except Fault Unit :=
  if (Expression.read? text).isSome then .ok () else .error .badSyntax

/-- Checks a text inside a generic form; anything else may stand there. -/
def checkPart : Hint → Except Fault Unit
  | .forward text => checkText text
  | _ => .ok ()

mutual

/-- Whether the parts of a hint fit together: a text inside a generic form has to be an expression,
and a bar needs two sides that it can join. -/
def check : Hint → Except Fault Unit
  | .forward _ | .type _ | .nothing | .thing .. => .ok ()
  | .reference text => checkText text
  | .optional h | .deque h | .classWide h =>
    match check h with
    | .error f => .error f
    | .ok _ => checkPart h
  | .union hs => checkAll true hs
  | .collection _ generic hs => checkAll generic hs
  | .applied _ hs => checkAll false hs
  | .either g h =>
    match check g, check h with
    | .error f, _ => .error f
    | _, .error f => .error f
    | _, _ =>
      if !joinable g h then .error .badType
      else if isGeneric g || isGeneric h then
        match checkPart g with
        | .error f => .error f
        | .ok _ => checkPart h
      else .ok ()

def checkAll (generic : Bool) : List Hint → Except Fault Unit
  | [] => .ok ()
  | h :: hs =>
    match check h with
    | .error f => .error f
    | .ok _ =>
      match if generic then checkPart h else .ok () with
      | .error f => .error f
      | .ok _ => checkAll generic hs

end

end PageQuery.Hint
