import PageQuery.Failure
import PageQuery.Text.Blank
import PageQuery.Text.Case

/-!
# Sort texts

A sort is a row of tokens with commas between them, each a path and an optional direction.  Only
`desc`, in any letter case, means descending; whatever else follows the path counts for nothing.
-/

namespace PageQuery

open PageQuery.Text

/-- One key of an ordering: a property path and a direction. -/
structure SortKey where
  property : String
  descending : Bool := false
  deriving DecidableEq, Repr

def SortKey.field (k : SortKey) : List String :=
  split '.' k.property

def boolLiteral (b : Bool) : String :=
  (Value.bool b).literal

def SortKey.literal (k : SortKey) : String :=
  "SortKey(property=" ++ quoted k.property ++ ", descending=" ++ boolLiteral k.descending ++ ")"

namespace SortKey

/-- The key that a token writes; a blank token writes none. -/
def token? (token : String) : Option SortKey :=
  match words token with
  | [] => none
  | path :: rest =>
    some ⟨path, match rest with
      | direction :: _ => lower direction == "desc"
      | [] => false⟩

def tokens (s : String) : List SortKey :=
  (split ',' s).filterMap token?

/-- Reads a sort that was given as some value with a text; at least one token has to write a key. -/
def parseAs (given : Value) (s : String) : Except RequestError (List SortKey) :=
  match tokens s with
  | [] => .error (.noSortToken given)
  | keys => .ok keys

/-- Reads a sort; an absent one is empty. -/
def parse (sort : Option String) : Except RequestError (List SortKey) :=
  parseAs (.ofText? sort) (sort.getD "")

/-- Reads a sort from a value; something else than a text cannot be read. -/
def read (v : Value) : Except Failure (List SortKey) :=
  match v, v.asText? with
  | .none, _ => (parse none).mapError .request
  | v, some s => (parseAs v s).mapError .request
  | _, none => .error (.fault .badType)

end SortKey
end PageQuery
