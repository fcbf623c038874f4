/-!
# Blank characters, words and separated parts

Filter and sort texts arrive from people and from query strings, so any white space of Unicode may
stand around a name, a value or a direction.  This module fixes which characters are blank and how a
text is trimmed, cut into words and cut at a separator.  Everything is defined on lists of
characters; the versions on strings only convert.
-/

namespace PageQuery.Text

/-- A blank is a character of the Unicode white-space class or one of the four information
separators `U+001C` to `U+001F`. -/
def isBlankChar (c : Char) : Bool :=
  let n := c.toNat
  (9 ≤ n && n ≤ 13) || (28 ≤ n && n ≤ 32) || n == 0x85 || n == 0xA0 || n == 0x1680 ||
    (0x2000 ≤ n && n ≤ 0x200A) || n == 0x2028 || n == 0x2029 || n == 0x202F || n == 0x205F ||
    n == 0x3000

/-- The characters left when blanks are taken off both ends. -/
def trimChars (cs : List Char) : List Char :=
  ((cs.dropWhile isBlankChar).reverse.dropWhile isBlankChar).reverse

/-- The text left when blanks are taken off both ends. -/
def trim (s : String) : String :=
  String.ofList (trimChars s.toList)

/-- A text is blank when it holds nothing but blanks; the empty text is blank. -/
def isBlank (s : String) : Bool :=
  s.toList.all isBlankChar

/-- An absent text counts as a blank one. -/
def isBlank? : Option String → Bool
  | none => true
  | some s => isBlank s

/-- The parts between separators; there is always one part more than there are separators. -/
def splitChars (separator : Char) : List Char → List (List Char)
  | [] => [[]]
  | c :: cs =>
    if c = separator then [] :: splitChars separator cs
    else
      match splitChars separator cs with
      | [] => [[c]]
      | part :: parts => (c :: part) :: parts

def split (separator : Char) (s : String) : List String :=
  (splitChars separator s.toList).map String.ofList

/-- The maximal runs of characters that are not blank, in order. -/
def wordsChars : List Char → List (List Char)
  | [] => []
  | c :: cs =>
    if isBlankChar c then wordsChars cs
    else
      match cs with
      | [] => [[c]]
      | d :: _ =>
        if isBlankChar d then [c] :: wordsChars cs
        else
          match wordsChars cs with
          | [] => [[c]]
          | word :: words => (c :: word) :: words

def words (s : String) : List String :=
  (wordsChars s.toList).map String.ofList

/-- Whether `needle` occurs in the characters `cs` as one unbroken run. -/
def occursIn (needle : List Char) : List Char → Bool
  | [] => needle.isEmpty
  | c :: cs => needle.isPrefixOf (c :: cs) || occursIn needle cs

/-- The text padded on the left with zeros to at least `width` characters. -/
def padZeros (width : Nat) (s : String) : String :=
  String.ofList (List.replicate (width - s.length) '0' ++ s.toList)

end PageQuery.Text
