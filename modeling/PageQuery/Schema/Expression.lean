import PageQuery.Number.Binary
import PageQuery.Number.Numeral
import PageQuery.Text.Blank
import PageQuery.Value.Basic

/-!
# Type expressions

A hint may be written as a text.  Such a text is an expression over names, constants, attributes,
subscripts and operators: `list[int]`, `Post | None`, `Status.ACTIVE`.  This module cuts a text into
tokens and reads the expression that the tokens write; a text that writes none is refused.
-/

namespace PageQuery

open PageQuery.Text

/-- An expression over types and constants. -/
inductive Expression where
  | name (s : String)
  | constant (v : Value)
  | dots
  /-- A function without a name. -/
  | function
  | tuple (items : List Expression)
  | list (items : List Expression)
  | part (owner : Expression) (name : String)
  | subscript (head index : Expression)
  | call (head : Expression) (arguments : List Expression)
  | unary (operator : String) (e : Expression)
  | binary (operator : String) (left right : Expression)
  | both (left right : Expression)
  | either (left right : Expression)
  | choice (condition whenTrue whenFalse : Expression)
  deriving Inhabited

namespace Expression

/-- A part of a text: a name, a number, a quoted text, or a sign. -/
inductive Token where
  | name (s : String)
  | constant (v : Value)
  | sign (s : String)

def isNameChar (c : Char) : Bool :=
  c.isAlphanum || c == '_' || 128 ≤ c.toNat

/-- The signs of two or three characters; a shorter one is only read where no longer one stands. -/
def longSigns : List String :=
  ["...", "**", "//", "<<", ">>", "==", "!=", "<=", ">=", ":=", "->"]

def shortSigns : List Char :=
  ['(', ')', '[', ']', ',', '.', '|', '^', '&', '<', '>', '+', '-', '*', '/', '%', '@', '~', ':',
    '\x7b', '\x7d', '=']

def number? (s : String) : Option Value :=
  let digits := s.toList.filter (· ≠ '_')
  if digits.all Char.isDigit then
    if 1 < digits.length && digits.head? == some '0' && digits.any (· ≠ '0') then none
    else (Number.readInteger s).map .int
  else if s.toList.all fun c => isNameChar c || c = '.' || c = '+' || c = '-' then
    match s.toList with
    | '0' :: c :: digits =>
      if c = 'x' || c = 'X' then (Number.readHexadecimal digits).map .int
      else (Binary64.read s).map .float
    | _ => (Binary64.read s).map .float
  else none

/-- The characters of a number at the head of a text.  A sign belongs to it only behind the letter
that marks an exponent. -/
def takeNumber (isExponent : Bool) : List Char → List Char
  | [] => []
  | c :: cs =>
    if isNameChar c || c = '.' || (isExponent && (c = '+' || c = '-')) then
      c :: takeNumber (c = 'e' || c = 'E') cs
    else []

/-- The characters of a quoted text up to the closing mark, and what follows it.  A backslash takes
the character behind it along. -/
def takeQuoted (mark : Char) : List Char → Option (List Char × List Char)
  | [] => none
  | '\n' :: _ => none
  | '\\' :: 'n' :: cs => (takeQuoted mark cs).map fun (s, rest) => ('\n' :: s, rest)
  | '\\' :: 't' :: cs => (takeQuoted mark cs).map fun (s, rest) => ('\t' :: s, rest)
  | '\\' :: c :: cs =>
    (takeQuoted mark cs).map fun (s, rest) =>
      (if c = '\\' || c = '\'' || c = '"' then c :: s else '\\' :: c :: s, rest)
  | c :: cs =>
    if c = mark then some ([], cs) else (takeQuoted mark cs).map fun (s, rest) => (c :: s, rest)

def sign? (cs : List Char) : Option String :=
  (longSigns.find? fun s => s.toList.isPrefixOf cs).orElse fun _ =>
    match cs with
    | c :: _ => if shortSigns.contains c then some (String.singleton c) else none
    | [] => none

/-- The number of brackets that are open behind a token. -/
def depthAfter (depth : Nat) (s : String) : Nat :=
  if ["(", "[", "\x7b"].contains s then depth + 1
  else if [")", "]", "\x7d"].contains s then depth - 1
  else depth

/-- Cuts a text into tokens.  A line may only end within brackets or at the end of the text; what
follows a hash sign on a line counts for nothing.  Every step takes a character, so the length of
the text is `fuel` enough. -/
def tokens (depth : Nat) : Nat → List Char → Option (List Token)
  | 0, _ => some []
  | _, [] => some []
  | fuel + 1, c :: cs =>
    if c = '\n' && depth = 0 then
      if cs.all fun c => c = '\n' || c = ' ' || c = '\t' then some [] else none
    else if c = ' ' || c = '\t' || c = '\n' || c = '\x0c' then tokens depth fuel cs
    else if c = '#' then tokens depth fuel (cs.dropWhile (· ≠ '\n'))
    else if c = '\'' || c = '"' then
      match takeQuoted c cs with
      | none => none
      | some (s, rest) =>
        (tokens depth fuel rest).map (.constant (.text (String.ofList s)) :: ·)
    else if c.isDigit || (c = '.' && (cs.head?.map Char.isDigit).getD false) then
      let digits := takeNumber false (c :: cs)
      match number? (String.ofList digits) with
      | none => none
      | some v => (tokens depth fuel ((c :: cs).drop digits.length)).map (.constant v :: ·)
    else if isNameChar c then
      let word := c :: cs.takeWhile isNameChar
      (tokens depth fuel (cs.dropWhile isNameChar)).map (.name (String.ofList word) :: ·)
    else
      match sign? (c :: cs) with
      | none => none
      | some s => (tokens (depthAfter depth s) fuel ((c :: cs).drop s.length)).map (.sign s :: ·)

/-- Words with a meaning of their own, which are no names. -/
def reserved : List String :=
  ["and", "as", "assert", "async", "await", "break", "class", "continue", "def", "del", "elif",
    "else", "except", "finally", "for", "from", "global", "if", "import", "in", "is", "lambda",
    "nonlocal", "not", "or", "pass", "raise", "return", "try", "while", "with", "yield"]

/-- How tightly a sign between two operands binds. -/
def binding? : String → Option Nat
  | "|" => some 1
  | "^" => some 2
  | "&" => some 3
  | "<<" | ">>" => some 4
  | "+" | "-" => some 5
  | "*" | "/" | "//" | "%" | "@" => some 6
  | _ => none

def comparison? : List Token → Option (String × List Token)
  | .name "is" :: .name "not" :: ts => some ("is not", ts)
  | .name "is" :: ts => some ("is", ts)
  | .name "not" :: .name "in" :: ts => some ("not in", ts)
  | .name "in" :: ts => some ("in", ts)
  | .sign s :: ts => if ["==", "!=", "<", ">", "<=", ">="].contains s then some (s, ts) else none
  | _ => none

def isColon : Token → Bool
  | .sign s => s == ":"
  | _ => false

abbrev Parsed := Option (Expression × List Token)

mutual

/-- Reads a choice by a condition, or what is below it. -/
def whole : Nat → List Token → Parsed
  | 0, _ => none
  | fuel + 1, .name "lambda" :: ts =>
    match ts.dropWhile (!isColon ·) with
    | [] => none
    | _ :: ts => (whole fuel ts).map fun (_, ts) => (.function, ts)
  | fuel + 1, ts => do
    let (e, ts) ← anyOf fuel ts
    match ts with
    | .name "if" :: ts =>
      let (condition, ts) ← anyOf fuel ts
      match ts with
      | .name "else" :: ts =>
        let (other, ts) ← whole fuel ts
        some (.choice condition e other, ts)
      | _ => none
    | ts => some (e, ts)

def anyOf : Nat → List Token → Parsed
  | 0, _ => none
  | fuel + 1, ts => do
    let (e, ts) ← allOf fuel ts
    match ts with
    | .name "or" :: ts =>
      let (other, ts) ← anyOf fuel ts
      some (.either e other, ts)
    | ts => some (e, ts)

def allOf : Nat → List Token → Parsed
  | 0, _ => none
  | fuel + 1, ts => do
    let (e, ts) ← negated fuel ts
    match ts with
    | .name "and" :: ts =>
      let (other, ts) ← allOf fuel ts
      some (.both e other, ts)
    | ts => some (e, ts)

def negated : Nat → List Token → Parsed
  | 0, _ => none
  | fuel + 1, .name "not" :: ts => do
    let (e, ts) ← negated fuel ts
    some (.unary "not" e, ts)
  | fuel + 1, ts => do
    let (e, ts) ← operand fuel ts
    let (e, ts) ← operated fuel 1 e ts
    match comparison? ts with
    | none => some (e, ts)
    | some (operator, ts) =>
      let (right, ts) ← operand fuel ts
      let (right, ts) ← operated fuel 1 right ts
      some (.binary operator e right, ts)

/-- Reads the operators behind an operand that bind at least as tightly as `least`, from left to
right. -/
def operated : Nat → Nat → Expression → List Token → Parsed
  | 0, _, _, _ => none
  | fuel + 1, least, left, .sign s :: ts =>
    match binding? s with
    | none => some (left, .sign s :: ts)
    | some level =>
      if level < least then some (left, .sign s :: ts)
      else do
        let (right, ts) ← operand fuel ts
        let (right, ts) ← operated fuel (level + 1) right ts
        operated fuel least (.binary s left right) ts
  | _, _, left, ts => some (left, ts)

def operand : Nat → List Token → Parsed
  | 0, _ => none
  | fuel + 1, .sign s :: ts =>
    if s = "-" || s = "+" || s = "~" then do
      let (e, ts) ← operand fuel ts
      some (.unary s e, ts)
    else do
      let (e, ts) ← atom fuel (.sign s :: ts)
      powered fuel e ts
  | fuel + 1, ts => do
    let (e, ts) ← atom fuel ts
    powered fuel e ts

/-- Reads attributes, subscripts, calls and a power behind an atom. -/
def powered : Nat → Expression → List Token → Parsed
  | 0, _, _ => none
  | fuel + 1, e, .sign "." :: .name s :: ts =>
    if reserved.contains s then none else powered fuel (.part e s) ts
  | _, _, .sign "." :: _ => none
  | fuel + 1, e, .sign "[" :: ts => do
    let (index, ts) ← listed fuel ts
    match index, ts with
    | ([], _), _ => none
    | (es, trailing), .sign "]" :: ts =>
      powered fuel (.subscript e (match es, trailing with
        | [single], false => single
        | es, _ => .tuple es)) ts
    | _, _ => none
  | fuel + 1, e, .sign "(" :: ts => do
    let (arguments, ts) ← listed fuel ts
    match arguments, ts with
    | ([], true), _ => none
    | (es, _), .sign ")" :: ts => powered fuel (.call e es) ts
    | _, _ => none
  | fuel + 1, e, .sign "**" :: ts => do
    let (exponent, ts) ← operand fuel ts
    some (.binary "**" e exponent, ts)
  | _, e, ts => some (e, ts)

/-- Reads a name, a constant, or expressions in brackets. -/
def atom : Nat → List Token → Parsed
  | _, .sign "..." :: ts => some (.dots, ts)
  | _, .constant (.text s) :: .constant (.text t) :: ts =>
    some (.constant (.text (s ++ t)), ts)
  | _, .constant v :: ts => some (.constant v, ts)
  | _, .name "None" :: ts => some (.constant .none, ts)
  | _, .name "True" :: ts => some (.constant (.bool true), ts)
  | _, .name "False" :: ts => some (.constant (.bool false), ts)
  | _, .name s :: ts => if reserved.contains s then none else some (.name s, ts)
  | fuel + 1, .sign "(" :: ts => do
    let (inside, ts) ← listed fuel ts
    match inside, ts with
    | ([], true), _ => none
    | (es, trailing), .sign ")" :: ts =>
      some (match es, trailing with
        | [single], false => single
        | es, _ => .tuple es, ts)
    | _, _ => none
  | fuel + 1, .sign "[" :: ts => do
    let (inside, ts) ← listed fuel ts
    match inside, ts with
    | ([], true), _ => none
    | (es, _), .sign "]" :: ts => some (.list es, ts)
    | _, _ => none
  | _, _ => none

/-- Reads expressions with commas between them, and whether a comma stands behind the last one. -/
def listed : Nat → List Token → Option ((List Expression × Bool) × List Token)
  | 0, _ => none
  | _, [] => some (([], false), [])
  | _, .sign ")" :: ts => some (([], false), .sign ")" :: ts)
  | _, .sign "]" :: ts => some (([], false), .sign "]" :: ts)
  | _, .sign "," :: ts => some (([], true), ts)
  | fuel + 1, ts => do
    let (e, ts) ← whole fuel ts
    match ts with
    | .sign "," :: ts =>
      let ((es, trailing), ts) ← listed fuel ts
      if trailing && es.isEmpty then none else some ((e :: es, trailing || es.isEmpty), ts)
    | ts => some (([e], false), ts)

end

/-- The expression that a text writes.  Commas outside brackets make a tuple, and no blank may
stand before the expression. -/
def read? (s : String) : Option Expression := do
  let cs := s.toList.dropWhile (· = '\n')
  if cs.head?.any fun c => c = ' ' || c = '\t' then none
  else
    let ts ← tokens 0 (cs.length + 1) cs
    match ← listed (16 * (ts.length + 1)) ts with
    | (([], _), _) => none
    | ((es, trailing), []) =>
      some (match es, trailing with
        | [single], false => single
        | es, _ => .tuple es)
    | _ => none

end Expression
end PageQuery
