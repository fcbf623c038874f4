import PageQuery.Schema.Catalogue
import PageQuery.Schema.Expression
import PageQuery.Schema.Known

/-!
# What expressions denote

An expression over declared names denotes a type, a generic form, a choice between types, or a
plain thing such as a number, a text or a function.  Operators, attributes and subscripts are
defined for some of these only.  What stands in the way of a denotation is either told, a name that
nothing declares or a misused operator, or it is a fault.
-/

namespace PageQuery

-- Powers are the core library's own, whatever other instances are in scope.
attribute [local instance (high)] instPowNat

/-- What keeps an expression from denoting anything. -/
inductive Obstacle where
  | undeclared (name : String)
  | misused (message : String)
  | broken (f : Fault)

def Obstacle.message? : Obstacle → Option String
  | undeclared name => some ("name '" ++ name ++ "' is not defined")
  | misused message => some message
  | broken _ => none

/-- What an expression denotes. -/
inductive Denoted where
  | hint (h : Hint)
  | value (v : Value)
  | dots
  | tuple (items : List Denoted)
  | list (items : List Denoted)
  /-- A function or an attribute, by its name and the name of its type. -/
  | feature (name type : String)
  deriving Inhabited

namespace Denoted

def valueType : Value → String
  | .none => "NoneType"
  | .bool _ => "bool"
  | .int _ => "int"
  | .float _ => "float"
  | .text _ => "str"
  | .member enumeration _ _ _ => enumeration
  | _ => "object"

def typeName : Denoted → String
  | .hint (.type (.enumeration _)) => "EnumType"
  | .hint (.type _) => "type"
  | .hint (.either ..) => "types.UnionType"
  | .hint _ => "types.GenericAlias"
  | .value v => valueType v
  | .dots => "ellipsis"
  | .tuple _ => "tuple"
  | .list _ => "list"
  | .feature _ type => type

/-- A type or form as the literal of a list or tuple shows it. -/
def hintLiteral : Hint → String
  | .type (.enumeration n) => "<enum '" ++ n ++ "'>"
  | .type t => "<class '" ++ Hint.qualifiedName t ++ "'>"
  | h => h.fullName

mutual

def literal : Denoted → String
  | .hint h => hintLiteral h
  | .value v => v.literal
  | .dots => "Ellipsis"
  | .tuple xs => "(" ++ commaList (literals xs) ++ (if xs.length = 1 then ",)" else ")")
  | .list xs => "[" ++ commaList (literals xs) ++ "]"
  | .feature name "builtin_function_or_method" => "<built-in function " ++ name ++ ">"
  | .feature name "NotImplementedType" => name
  | .feature name "function" => "<function " ++ name ++ ">"
  | .feature name "getset_descriptor" => "<attribute '" ++ name ++ "'>"
  | .feature name _ => "<method '" ++ name ++ "'>"

def literals : List Denoted → List String
  | [] => []
  | x :: xs => literal x :: literals xs

end

mutual

def hasLiteral : Denoted → Bool
  | .hint h => h.isWritable
  | .value v => v.hasLiteral
  | .tuple xs | .list xs => haveLiterals xs
  | _ => true

def haveLiterals : List Denoted → Bool
  | [] => true
  | x :: xs => hasLiteral x && haveLiterals xs

end

/-- A complaint that shows something.  If that cannot be written, this is what goes wrong. -/
def complaint (writable : Bool) (message : String) : Obstacle :=
  if writable then .misused message else .broken .badValue

def isTruthy : Denoted → Bool
  | .value v => v.isTruthy
  | .tuple xs | .list xs => !xs.isEmpty
  | _ => true

/-- The whole number that something is; truth values count as one and zero. -/
def number? : Denoted → Option Int
  | .value (.bool b) => some (if b then 1 else 0)
  | .value v => v.asInt?
  | _ => none

/-- Whether something may be an alternative of a choice between types. -/
def isAlternative : Denoted → Bool
  | .hint _ | .value .none => true
  | _ => false

def alternative : Denoted → Hint
  | .hint h => h
  | _ => .absent

def alike : Denoted → Denoted → Bool
  | .hint g, .hint h => g.alike h
  | .value u, .value v => u.isAmong [v]
  | .dots, .dots => true
  | .feature m s, .feature n t => m == n && s == t
  | .tuple xs, .tuple ys | .list xs, .list ys => literals xs == literals ys
  | _, _ => false

/-- The complaint about operands that an operator is not defined on. -/
def unsupported (operator : String) (l r : Denoted) : Obstacle :=
  .misused ("unsupported operand type(s) for " ++ operator ++ ": '" ++ l.typeName ++ "' and '" ++
    r.typeName ++ "'")

def join (l r : Denoted) : Except Obstacle Denoted :=
  match l, r with
  | .value .none, .value .none => .error (unsupported "|" l r)
  | .value (.bool a), .value (.bool b) => .ok (.value (.bool (a || b)))
  | l, r =>
    if l.isAlternative && r.isAlternative then
      .ok (.hint (Hint.either l.alternative r.alternative).collapse)
    else
      match l.number?, r.number? with
      | some (.ofNat m), some (.ofNat n) => .ok (.value (.int (m ||| n : Nat)))
      | _, _ => .error (unsupported "|" l r)

def compute (operator : String) (l r : Denoted) : Except Obstacle Denoted :=
  match operator, l.number?, r.number? with
  | "+", some m, some n => .ok (.value (.int (m + n)))
  | "-", some m, some n => .ok (.value (.int (m - n)))
  | "*", some m, some n => .ok (.value (.int (m * n)))
  | "&", some (.ofNat m), some (.ofNat n) => .ok (.value (.int (m &&& n : Nat)))
  | "^", some (.ofNat m), some (.ofNat n) => .ok (.value (.int (m ^^^ n : Nat)))
  | "**", some m, some (.ofNat n) => .ok (.value (.int (m ^ n)))
  | "/", some m, some n =>
    if n = 0 then .error (.broken .divisionByZero)
    else
      let negative := decide (m < 0) != decide (n < 0)
      .ok (.value (.float (Binary64.ofRatio negative m.natAbs n.natAbs)))
  | "//", some m, some n =>
    if n = 0 then .error (.broken .divisionByZero) else .ok (.value (.int (Int.fdiv m n)))
  | "%", some m, some n =>
    if n = 0 then .error (.broken .divisionByZero) else .ok (.value (.int (Int.fmod m n)))
  | _, _, _ =>
    match operator, l, r with
    | "+", .value (.text s), .value (.text t) => .ok (.value (.text (s ++ t)))
    | "+", .value (.text _), r =>
      .error (.misused ("can only concatenate str (not \"" ++ r.typeName ++ "\") to str"))
    | "**", l, r => .error (unsupported "** or pow()" l r)
    | operator, l, r => .error (unsupported operator l r)

/-- Whether something is among the items of another one. -/
def within (l : Denoted) : Denoted → Except Obstacle Bool
  | .tuple xs | .list xs => .ok (xs.any (alike l))
  | r => .error (.misused ("argument of type '" ++ r.typeName ++ "' is not iterable"))

def compare (operator : String) (l r : Denoted) : Except Obstacle Denoted :=
  let answer (b : Bool) : Except Obstacle Denoted := .ok (.value (.bool b))
  match operator, l.number?, r.number? with
  | "==", _, _ | "is", _, _ => answer (l.alike r)
  | "!=", _, _ | "is not", _, _ => answer (!l.alike r)
  | "in", _, _ => (l.within r).bind answer
  | "not in", _, _ => (l.within r).bind fun b => answer !b
  | "<", some m, some n => answer (m < n)
  | ">", some m, some n => answer (n < m)
  | "<=", some m, some n => answer (m ≤ n)
  | ">=", some m, some n => answer (n ≤ m)
  | operator, _, _ =>
    .error (.misused ("'" ++ operator ++ "' not supported between instances of '" ++ l.typeName ++
      "' and '" ++ r.typeName ++ "'"))

def operate (operator : String) (l r : Denoted) : Except Obstacle Denoted :=
  if operator = "|" then l.join r
  else if ["==", "!=", "<", ">", "<=", ">=", "is", "is not", "in", "not in"].contains operator then
    l.compare operator r
  else l.compute operator r

def sign (operator : String) (x : Denoted) : Except Obstacle Denoted :=
  match operator, x.number? with
  | "not", _ => .ok (.value (.bool !x.isTruthy))
  | "-", some n => .ok (.value (.int (-n)))
  | "+", some n => .ok (.value (.int n))
  | "~", some n => .ok (.value (.int (-n - 1)))
  | operator, _ =>
    .error (.misused ("bad operand type for unary " ++ operator ++ ": '" ++ x.typeName ++ "'"))

def owner? : Hint → Option TypeRef
  | .type t => some t
  | .collection name _ _ | .applied name _ => some (.builtin name)
  | _ => none

def part (c : Catalogue) (x : Denoted) (name : String) : Except Obstacle Denoted :=
  let missing : Except Obstacle Denoted := .error (.broken .noAttribute)
  match x with
  | .hint h =>
    match owner? h with
    | none => missing
    | some t =>
      if name = "__name__" || name = "__qualname__" then .ok (.value (.text t.name))
      else
        match t with
        | .enumeration e =>
          match (c.enumeration? e).bind (·.member? name) with
          | some m => .ok (.value m)
          | none => missing
        | .builtin n =>
          if (Known.methods n).contains name then .ok (.feature name "method_descriptor")
          else if Known.hasPart n name then .ok (.feature name "getset_descriptor")
          else missing
        | _ => missing
  | .value (.member _ n _ v) =>
    if name = "name" then .ok (.value (.text n))
    else if name = "value" then .ok (.value v)
    else missing
  | .feature n _ => if name = "__name__" then .ok (.value (.text n)) else missing
  | _ => missing

/-- What stands in brackets behind a type, as an argument of it.  A text names a type there, and a
function is shown by its name. -/
def argument : Denoted → Hint
  | .hint h => h
  | .value .none => .nothing
  | .value v =>
    match v.asText? with
    | some s => .forward s
    | none => .thing v.plainText v.literal true v.hasLiteral
  | .dots => .andSoOn
  | .feature name "builtin_function_or_method" => .thing name name true true
  | .feature name type => .thing name (Denoted.feature name type).literal true true
  | x => .thing x.literal x.literal (x.typeName == "tuple") x.hasLiteral

def arguments : Denoted → List Hint
  | .tuple xs => xs.map argument
  | x => [x.argument]

def subscript (c : Catalogue) (head index : Denoted) : Except Obstacle Denoted :=
  match head with
  | .hint (.type (.builtin n)) =>
    if ["list", "tuple", "set", "frozenset"].contains n then
      .ok (.hint (.collection n false index.arguments))
    else if Known.genericTypes.contains n then .ok (.hint (.applied n index.arguments))
    else .error (.misused ("type '" ++ n ++ "' is not subscriptable"))
  | .hint (.type (.enumeration e)) =>
    match index with
    | .value (.text name) =>
      match (c.enumeration? e).bind (·.member? name) with
      | some m => .ok (.value m)
      | none => .error (.broken .noKey)
    | _ => .error (.broken .noKey)
  | .hint (.type t) => .error (.misused ("type '" ++ t.name ++ "' is not subscriptable"))
  | .hint h => .error (complaint h.isWritable (h.fullName ++ " is not a generic class"))
  | x => .error (.misused ("'" ++ x.typeName ++ "' object is not subscriptable"))

/-- The type of something, as a call of `type` gives it. -/
def typeOf : Denoted → Hint
  | .value (.member e _ _ _) => .type (.enumeration e)
  | x => .type (.builtin x.typeName)

def call (head : Denoted) (arguments : List Denoted) : Except Obstacle Denoted :=
  match head, arguments with
  | .hint (.type (.builtin "type")), [x] => .ok (.hint x.typeOf)
  | .hint (.type (.builtin "int")), [] => .ok (.value (.int 0))
  | .hint (.type (.builtin "bool")), [] => .ok (.value (.bool false))
  | .hint (.type (.builtin "bool")), [x] => .ok (.value (.bool x.isTruthy))
  | .hint (.type (.builtin "str")), [] => .ok (.value (.text ""))
  | .hint (.type (.builtin "str")), [.value v] =>
    if v.hasPlainText then .ok (.value (.text v.plainText)) else .error (.broken .badValue)
  | .hint (.type (.builtin "list")), [] => .ok (.list [])
  | .hint (.type (.builtin "tuple")), [] => .ok (.tuple [])
  | .hint _, _ | .feature .., _ => .error (.broken .badType)
  | x, _ => .error (.misused ("'" ++ x.typeName ++ "' object is not callable"))

/-- What a name denotes: a declared type, or something that needs no declaration. -/
def ofName (c : Catalogue) (name : String) : Except Obstacle Denoted :=
  if name = "Ellipsis" then .ok .dots
  else if name = "NotImplemented" then .ok (.feature name "NotImplementedType")
  else
    match c.record? name, c.enumeration? name with
    | some _, _ => .ok (.hint (.type (.record name)))
    | none, some _ => .ok (.hint (.type (.enumeration name)))
    | none, none =>
      if Known.types.contains name then .ok (.hint (.type (.builtin name)))
      else if Known.functions.contains name then
        .ok (.feature name "builtin_function_or_method")
      else
        match Known.typeAliases.lookup name with
        | some t => .ok (.hint (.type (.builtin t)))
        | none => .error (.undeclared name)

mutual

def ofExpression (c : Catalogue) : Expression → Except Obstacle Denoted
  | .name s => ofName c s
  | .constant v => .ok (.value v)
  | .function => .ok (.feature "<lambda>" "function")
  | .dots => .ok .dots
  | .tuple es => (ofExpressions c es).map .tuple
  | .list es => (ofExpressions c es).map .list
  | .part e name =>
    match ofExpression c e with
    | .error o => .error o
    | .ok x => x.part c name
  | .subscript e index =>
    match ofExpression c e with
    | .error o => .error o
    | .ok x =>
      match ofExpression c index with
      | .error o => .error o
      | .ok i => x.subscript c i
  | .call e es =>
    match ofExpression c e with
    | .error o => .error o
    | .ok x =>
      match ofExpressions c es with
      | .error o => .error o
      | .ok xs => x.call xs
  | .unary operator e =>
    match ofExpression c e with
    | .error o => .error o
    | .ok x => x.sign operator
  | .binary operator e e' =>
    match ofExpression c e with
    | .error o => .error o
    | .ok l =>
      match ofExpression c e' with
      | .error o => .error o
      | .ok r => l.operate operator r
  | .both e e' =>
    match ofExpression c e with
    | .error o => .error o
    | .ok l => if l.isTruthy then ofExpression c e' else .ok l
  | .either e e' =>
    match ofExpression c e with
    | .error o => .error o
    | .ok l => if l.isTruthy then .ok l else ofExpression c e'
  | .choice condition e e' =>
    match ofExpression c condition with
    | .error o => .error o
    | .ok x => if x.isTruthy then ofExpression c e else ofExpression c e'

def ofExpressions (c : Catalogue) : List Expression → Except Obstacle (List Denoted)
  | [] => .ok []
  | e :: es =>
    match ofExpression c e with
    | .error o => .error o
    | .ok x => (ofExpressions c es).map (x :: ·)

end

/-- What is denoted, as the hint of a field: a text names a type once more, and a tuple is no
hint. -/
def asHint (x : Denoted) : Except Obstacle Hint :=
  match x with
  | .hint h => .ok h
  | .value .none => .ok .absent
  | .value v =>
    match v.asText? with
    | some s => .ok (.forward s)
    | none => .ok (.thing v.plainText v.literal true v.hasLiteral)
  | .dots => .ok (.thing Denoted.dots.literal Denoted.dots.literal true true)
  | .tuple xs =>
    .error (complaint (haveLiterals xs) ("Forward references must evaluate to types. Got " ++
      String.ofList ((Denoted.tuple xs).literal.toList.take 100) ++ "."))
  | .list xs =>
    .ok (.thing (Denoted.list xs).literal (Denoted.list xs).literal false (haveLiterals xs))
  | .feature name type => .ok (.thing name (Denoted.feature name type).literal true true)

end Denoted
end PageQuery
