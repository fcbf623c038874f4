import PageQuery.Number.Significant
import PageQuery.Value.Literal
import PageQuery.Value.Order

/-!
# Cells

A store keeps the value of a column in a cell: a whole or real number, a text, an identifier, a day,
a moment or a time of day, or nothing.  Cells are ordered: nothing comes first, then the numbers by
value, then the others.  A cell that holds something also has a text, in which patterns are looked
for without regard to the case of ASCII letters.
-/

namespace PageQuery

open PageQuery.Text

-- Powers are the core library's own, whatever other instances are in scope.
attribute [local instance (high)] instPowNat

/-- What a store keeps of the value of a column. -/
inductive Cell where
  | absent
  | whole (n : Int)
  | real (x : Binary64)
  | text (s : String)
  | identifier (n : Nat)
  | day (d : Date)
  /-- A moment of a clock that the store keeps for all moments. -/
  | moment (date : Date) (time : Time)
  | clock (t : Time)
  deriving DecidableEq, Repr

namespace Cell

def isAbsent (c : Cell) : Bool := c == .absent

def whole? : Cell → Option Int
  | .whole n => some n
  | _ => none

def num? : Cell → Option Num
  | .whole n => some (.whole n)
  | .real x => some (.binary x)
  | _ => none

/-- Where the cells of a kind stand among those of other kinds. -/
def rank : Cell → Nat
  | .absent => 0
  | .whole _ | .real _ => 1
  | .text _ => 2
  | .identifier _ => 3
  | .day _ => 4
  | .moment .. => 5
  | .clock _ => 6

def orderTexts (s t : String) : Ordering :=
  if s = t then .eq else if s < t then .lt else .gt

def order (a b : Cell) : Ordering :=
  match a, b with
  | .whole m, .whole n => compare m n
  | .text s, .text t => orderTexts s t
  | .identifier m, .identifier n => compare m n
  | .day d, .day e => d.order e
  | .moment d t, .moment e u => (d.order e).then (compare t.micros u.micros)
  | .clock t, .clock u => compare t.micros u.micros
  | a, b =>
    match a.num?, b.num? with
    | some m, some n => (m.toDecimal.order n.toDecimal).getD .eq
    | _, _ => compare a.rank b.rank

/-- The text of a cell; an absent one has none. -/
def shown? : Cell → Option String
  | .absent => none
  | .whole n => some (toString n)
  | .real x => some x.shortText
  | .text s => some s
  | .identifier n => some (String.ofList (hexDigits 32 n))
  | .day d => some d.text
  | .moment date time => some (date.text ++ " " ++ time.text)
  | .clock t => some t.text

/-- A whole number that a store can keep has sixty-four bits at most. -/
def fits (n : Int) : Bool :=
  -(2 ^ (63 : Nat)) ≤ n && n < 2 ^ (63 : Nat)

/-- The cell of a real number: not-a-number is nothing. -/
def ofBinary : Binary64 → Cell
  | .nan => .absent
  | x => .real x

/-- The cell of a decimal number: a whole one if it is one and a store can keep it, and otherwise
the nearest real one. -/
def ofDecimal : Decimal → Cell
  | .finite negative c e =>
    let n : Int := if negative then -(c : Int) else c
    if e = 0 && fits n then .whole n
    else
      let x := Binary64.ofNumeral negative ⟨c, e⟩
      match x, x.truncated? with
      | .finite _ m k, some n =>
        if (m = 0 || 0 ≤ k || m % 2 ^ k.natAbs = 0) &&
            -(2 ^ (63 : Nat)) < n && n < 2 ^ (63 : Nat) - 1 then
          .whole n
        else .real x
      | _, _ => .real x
  | .infinite negative => .real (.infinite negative)
  | .nan .. => .absent

/-- A cell whose number a store can keep. -/
def checked (c : Cell) : Except Fault Cell :=
  match c with
  | .whole n => if fits n then .ok c else .error .overflow
  | c => .ok c

end Cell

def lowerAscii (s : String) : List Char :=
  s.toList.map Char.toLower

/-- A piece of text to be found in another one: at its beginning or behind something, and at its
end or before something. -/
structure Pattern where
  begins : Bool
  ends : Bool
  piece : String
  deriving DecidableEq, Repr

namespace Pattern

/-- The characters before the first zero character, if there is one. -/
def beforeZero (s : String) : String × Bool :=
  let kept := s.toList.takeWhile (·.toNat ≠ 0)
  (String.ofList kept, kept.length < s.length)

/-- A pattern of a piece.  A zero character ends the piece and the pattern with it. -/
def make (begins ends : Bool) (s : String) : Pattern :=
  let (piece, cut) := beforeZero s
  ⟨begins, ends || cut, piece⟩

/-- Whether a text has the piece where the pattern asks for it.  Only what stands before a zero
character of the text counts. -/
def matchesText (p : Pattern) (s : String) : Bool :=
  let piece := lowerAscii p.piece
  let text := lowerAscii (beforeZero s).1
  match p.begins, p.ends with
  | true, true => text == piece
  | true, false => piece.isPrefixOf text
  | false, true => piece.isSuffixOf text
  | false, false => occursIn piece text

end Pattern
end PageQuery
