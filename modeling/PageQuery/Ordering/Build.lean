import PageQuery.Path
import PageQuery.Request.Sort

/-!
# From sorts to sort keys

Each token of a sort is resolved to a key with the names as their types spell them.  A key has to
lead to one comparable value, so neither a path through a collection nor one that ends on a
relation can be sorted by.
-/

namespace PageQuery

open PageQuery.Text

namespace SortKey

def ofToken (x : Context) (root : TypeRef) (token : SortKey) : Except Failure SortKey := do
  let path := token.property
  let p ← x.resolve root (some path)
  if p.isCollection then .error (.request (.sortThroughCollection path p.leaf.name))
  else if p.leaf.isRelation then .error (.request (.sortByRelation path p.leaf.name))
  else .ok ⟨p.dotted, token.descending⟩

def build (x : Context) (root : TypeRef) (sort : Value) : Except Failure (List SortKey) := do
  let tokens ← read sort
  tokens.mapM (ofToken x root)

/-- The types whose tables are looked at for tokens, up to the first one that fails. -/
def consultedByTokens (x : Context) (root : TypeRef) : List SortKey → List TypeRef
  | [] => []
  | token :: tokens =>
    x.consulted root (some token.property) ++
      match ofToken x root token with
      | .ok _ => consultedByTokens x root tokens
      | .error _ => []

/-- The types whose tables are looked at for a sort. -/
def consulted (x : Context) (root : TypeRef) (sort : Value) : List TypeRef :=
  match read sort with
  | .ok tokens => consultedByTokens x root tokens
  | .error _ => []

def literals (keys : List SortKey) : String :=
  "[" ++ commaList (keys.map literal) ++ "]"

end SortKey
end PageQuery
