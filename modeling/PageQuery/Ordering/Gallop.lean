/-!
# Galloping

How many items at the head of a list pass a test, if the ones that pass come first.  The count is
found with few tests: at places that double their distance until one does not pass, and by halving
after that.  A test may fail, which ends the search.
-/

namespace PageQuery.Ordering

variable {α ε : Type}

/-- Where a stretch of unknown items is halved; seen from its end, the middle of an even one is the
other place. -/
def middle (fromEnd : Bool) (count : Nat) : Nat :=
  (if fromEnd then count - 1 else count) / 2

/-- The middle of a stretch lies in it. -/
theorem middle_lt (fromEnd : Bool) {count : Nat} (h : 0 < count) :
    middle fromEnd count < count := by
  unfold middle
  split <;> omega

/-- Finds the first item that does not pass among the `count` items from `start` on, by halving.
Whatever stands before them passes, and the item behind them does not. -/
def halve (test : α → Except ε Bool) (fromEnd : Bool) (xs : List α) (start count : Nat) :
    Except ε Nat :=
  if h : 0 < count then
    have := middle_lt fromEnd h
    match xs[start + middle fromEnd count]? with
    | none => .ok start
    | some x =>
      match test x with
      | .error e => .error e
      | .ok true =>
        halve test fromEnd xs (start + middle fromEnd count + 1) (count - middle fromEnd count - 1)
      | .ok false => halve test fromEnd xs start (middle fromEnd count)
  else .ok start
termination_by count

/-- Tests the items at `place`, twice that plus one, and so on; the item at `last` passes. -/
def leap (test : α → Except ε Bool) (fromEnd : Bool) (xs : List α) (last place : Nat) :
    Except ε Nat :=
  if h : place < xs.length then
    match test xs[place] with
    | .error e => .error e
    | .ok true => leap test fromEnd xs place (2 * place + 1)
    | .ok false => halve test fromEnd xs (last + 1) (place - last - 1)
  else halve test fromEnd xs (last + 1) (xs.length - last - 1)
termination_by xs.length - place

/-- How many items at the head of a list pass a test.  `fromEnd` tells that the list is seen from
the end of the one that it stands for. -/
def gallop (test : α → Except ε Bool) (fromEnd : Bool) : List α → Except ε Nat
  | [] => .ok 0
  | x :: xs =>
    match test x with
    | .error e => .error e
    | .ok true => leap test fromEnd (x :: xs) 0 1
    | .ok false => .ok 0

end PageQuery.Ordering
