import PageQuery.Text.CaseTable

/-!
# Lower case and case folding

Names are compared by their lower-case form and texts by their folded form.  Both follow Unicode:
lower case is one character for one, except for the dotted capital I and for a capital sigma, whose
form depends on its neighbours; folding may turn one character into several (`ß` into `ss`).
-/

namespace PageQuery.Text

/-- The code that the first row covering `n` moves it to. -/
def shiftBy (rows : List CaseRow) (n : Nat) : Option Nat :=
  (rows.find? (·.covers n)).map fun row => (n + row.shift : Int).toNat

def lowerChar (c : Char) : Char :=
  let n := c.toNat
  if n < 128 then
    if 65 ≤ n && n ≤ 90 then Char.ofNat (n + 32) else c
  else
    match shiftBy lowerRows n with
    | some m => Char.ofNat m
    | none => c

def inRanges (ranges : List (Nat × Nat)) (n : Nat) : Bool :=
  ranges.any fun range => range.1 ≤ n && n ≤ range.2

/-- Whether the nearest neighbour that is not passed over has case. -/
def meetsCased (neighbours : List Char) : Bool :=
  match neighbours.dropWhile fun c => inRanges ignorableRanges c.toNat with
  | [] => false
  | c :: _ => inRanges casedRanges c.toNat

/-- The lower-case form of a character between the characters before it, nearest first, and those
after it.  A capital sigma that ends a word takes its final form. -/
def lowerAt (before : List Char) (c : Char) (after : List Char) : List Char :=
  if c.toNat = 0x3A3 then
    [if meetsCased before && !meetsCased after then 'ς' else 'σ']
  else if c.toNat = 0x130 then ['i', Char.ofNat 0x307]
  else [lowerChar c]

/-- The lower-case form of the characters that follow `before`. -/
def lowerFrom (before : List Char) : List Char → List Char
  | [] => []
  | c :: cs => lowerAt before c cs ++ lowerFrom (c :: before) cs

def lower (s : String) : String :=
  String.ofList (lowerFrom [] s.toList)

def foldChar (c : Char) : List Char :=
  let n := c.toNat
  if n < 128 then [lowerChar c]
  else
    match foldExpansions.find? (·.1 == n) with
    | some (_, codes) => codes.map Char.ofNat
    | none =>
      if 0x13A0 ≤ n && n ≤ 0x13F5 then [c]
      else
        match shiftBy foldRows n with
        | some m => [Char.ofNat m]
        | none => [lowerChar c]

def fold (s : String) : List Char :=
  s.toList.flatMap foldChar

end PageQuery.Text
