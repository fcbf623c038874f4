/-!
# Runs

A run is a stretch of a list that is in order as it stands.  It is found by comparing neighbours,
and a short one is made longer by inserting what follows it, item by item.  A comparison may fail,
which ends the search; the order in which pairs are compared is part of every definition here, for
it decides which failure comes up, and what becomes of items that are not comparable in a consistent
way.
-/

namespace PageQuery.Ordering

variable {α ε : Type}

/-- Grows a run.  The items so far stand with the last one first; in a descending run each further
item is below the last, in an ascending one it is not. -/
def growRun (less : α → α → Except ε Bool) (descending : Bool) (last : α) (before : List α) :
    List α → Except ε (List α × List α)
  | [] => .ok (last :: before, [])
  | y :: ys =>
    match less y last with
    | .error e => .error e
    | .ok below =>
      if below = descending then growRun less descending y (last :: before) ys
      else .ok (last :: before, y :: ys)

/-- The run at the head of a list in ascending order, and the rest. -/
def firstRun (less : α → α → Except ε Bool) : List α → Except ε (List α × List α)
  | x :: y :: rest =>
    match less y x with
    | .error e => .error e
    | .ok descending =>
      match growRun less descending y [x] rest with
      | .error e => .error e
      | .ok (run, rest) => .ok (if descending then run else run.reverse, rest)
  | xs => .ok (xs, [])

/-- What lies behind the middle of a list is shorter than the list. -/
theorem length_behind_middle {xs right : List α} {middle : α}
    (h : xs.drop (xs.length / 2) = middle :: right) : right.length < xs.length := by
  have hlen : xs.length - xs.length / 2 = right.length + 1 := by
    rw [← List.length_drop, h, List.length_cons]
  omega

/-- What lies before the middle of a list is shorter than the list. -/
theorem length_before_middle {xs right : List α} {middle : α}
    (h : xs.drop (xs.length / 2) = middle :: right) :
    (xs.take (xs.length / 2)).length < xs.length := by
  have hright := length_behind_middle h
  rw [List.length_take]
  omega

/-- Inserts an item into an ascending list, behind all items that it is not below, by halving. -/
def insert (less : α → α → Except ε Bool) (x : α) (xs : List α) : Except ε (List α) :=
  match h : xs.drop (xs.length / 2) with
  | [] => .ok [x]
  | middle :: right =>
    let left := xs.take (xs.length / 2)
    match less x middle with
    | .error e => .error e
    | .ok true =>
      have := length_before_middle h
      match insert less x left with
      | .error e => .error e
      | .ok left => .ok (left ++ middle :: right)
    | .ok false =>
      have := length_behind_middle h
      match insert less x right with
      | .error e => .error e
      | .ok right => .ok (left ++ middle :: right)
termination_by xs.length

def insertAll (less : α → α → Except ε Bool) : List α → List α → Except ε (List α)
  | sorted, [] => .ok sorted
  | sorted, x :: xs =>
    match insert less x sorted with
    | .error e => .error e
    | .ok sorted => insertAll less sorted xs

/-- The run at the head of a list, made up to `least` items if there are as many, and the rest. -/
def runOf (less : α → α → Except ε Bool) (least : Nat) (xs : List α) :
    Except ε (List α × List α) :=
  match firstRun less xs with
  | .error e => .error e
  | .ok (run, rest) =>
    let wanted := least - run.length
    match insertAll less run (rest.take wanted) with
    | .error e => .error e
    | .ok run => .ok (run, rest.drop wanted)

end PageQuery.Ordering
