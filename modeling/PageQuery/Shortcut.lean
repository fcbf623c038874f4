/-!
# Tests that stop early

A test may fail to give an answer.  Testing the items of a list goes from left to right and stops at
the first item that settles the question, so a failure behind that item is never met.
-/

namespace PageQuery

def anyHolds {α ε : Type} (test : α → Except ε Bool) : List α → Except ε Bool
  | [] => .ok false
  | x :: xs =>
    match test x with
    | .ok false => anyHolds test xs
    | r => r

def allHold {α ε : Type} (test : α → Except ε Bool) : List α → Except ε Bool
  | [] => .ok true
  | x :: xs =>
    match test x with
    | .ok true => allHold test xs
    | r => r

end PageQuery
