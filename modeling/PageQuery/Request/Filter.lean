import PageQuery.Failure
import PageQuery.Text.Blank

/-!
# Filter texts

A filter is a row of clauses, each a property path with values in brackets:
`title[a,b],tags.name[x]`.  The reader looks for clauses from left to right and passes over
everything between them.  A clause is a path of words joined by points, an opening bracket, at
least one character that is no closing bracket, and a closing bracket; its values are separated by
commas and trimmed.
-/

namespace PageQuery

open PageQuery.Text

/-- One condition of a filter: a property and the values that it may have.  Where a filter is not
read from a text, either may be absent. -/
structure FilterItem where
  property : Option String
  values : List (Option String)
  deriving DecidableEq, Repr

namespace Filter

/-- A word is made of ASCII letters, digits and underscores. -/
def isWordChar (c : Char) : Bool :=
  c.isAlphanum || c == '_'

/-- The longest path at the head of a text that begins with a word, and the rest.  A point belongs
to the path if a word follows it. -/
def takePath : List Char → List Char × List Char
  | [] => ([], [])
  | c :: cs =>
    if isWordChar c || (c = '.' && cs.head?.any isWordChar) then
      let (path, rest) := takePath cs
      (c :: path, rest)
    else ([], c :: cs)

/-- The characters of a clause: its path and what stands in its brackets. -/
structure Clause where
  path : List Char
  values : List Char
  deriving DecidableEq, Repr

/-- The clause at the head of a text, and the rest. -/
def clauseAt? (cs : List Char) : Option (Clause × List Char) :=
  if cs.head?.any isWordChar then
    match takePath cs with
    | (path, '[' :: inside) =>
      match inside.dropWhile (· ≠ ']') with
      | [] => none
      | _ :: rest =>
        if (inside.takeWhile (· ≠ ']')).isEmpty then none
        else some (⟨path, inside.takeWhile (· ≠ ']')⟩, rest)
    | _ => none
  else none

/-- What follows the path of a text is no longer than the text. -/
theorem takePath_rest_length (cs : List Char) : (takePath cs).2.length ≤ cs.length := by
  induction cs with
  | nil => simp [takePath]
  | cons c cs ih =>
    simp only [takePath]
    split
    · exact Nat.le_succ_of_le ih
    · exact Nat.le_refl _

/-- What follows a clause is shorter than the text. -/
theorem clauseAt?_rest_length {cs rest : List Char} {c : Clause}
    (h : clauseAt? cs = some (c, rest)) : rest.length < cs.length := by
  unfold clauseAt? at h
  split at h
  · split at h
    · rename_i path inside hpath
      have hp := takePath_rest_length cs
      rw [hpath] at hp
      have hd := (List.dropWhile_sublist (· ≠ ']') (l := inside)).length_le
      split at h
      · contradiction
      · rename_i last tail hdrop
        rw [hdrop] at hd
        simp only [List.length_cons] at hp hd
        split at h
        · contradiction
        · have hrest : tail = rest := by
            simp only [Option.some.injEq, Prod.mk.injEq] at h
            exact h.2
          rw [← hrest]
          omega
    · contradiction
  · contradiction

/-- The clauses of a text, from left to right; where none begins, one character is passed over. -/
def clauses (cs : List Char) : List Clause :=
  match found : clauseAt? cs with
  | some (c, rest) =>
    have : rest.length < cs.length := clauseAt?_rest_length found
    c :: clauses rest
  | none =>
    match cs with
    | [] => []
    | _ :: cs => clauses cs
termination_by cs.length

/-- The item of a clause: its values are separated by commas and trimmed. -/
def Clause.item (c : Clause) : FilterItem :=
  { property := some (String.ofList c.path)
    values := (splitChars ',' c.values).map fun v => some (String.ofList (trimChars v)) }

/-- Reads a filter that was given as some value with a text.  A blank text has no items; any other
text has to hold a clause. -/
def parseAs (given : Value) (s : String) : Except RequestError (List FilterItem) :=
  if isBlank s then .ok []
  else
    match clauses s.toList with
    | [] => .error (.noClause given)
    | cs => .ok (cs.map Clause.item)

def parse (s : String) : Except RequestError (List FilterItem) :=
  parseAs (.text s) s

end Filter
end PageQuery
