import PageQuery.Ordering.Merge
import PageQuery.Ordering.Run

/-!
# A stable sort whose comparisons may fail

Sorting takes the list apart into runs and merges neighbours, so that items of which neither is
below the other keep their order.  Which neighbours are merged when follows from where the runs lie:
the border between two runs has a power, the depth at which a tree of halves of the whole list first
parts their middles, and deeper borders are merged first.  The first comparison that fails ends the
sort.
-/

namespace PageQuery.Ordering

variable {α ε : Type}

/-- A run of a list: its items, where it begins, and the power of the border behind it. -/
structure Run (α : Type) where
  items : List α
  start : Nat
  power : Nat := 0

/-- The least length of a run in a list of `n` items: the leading six bits of `n`, and one more if
any other bit of it is set. -/
def leastRun (n : Nat) : Nat :=
  if 64 ≤ n then halved n 0 n else n
where
  /-- Halves a number below 64; `lost` tells whether a bit was lost. -/
  halved : Nat → Nat → Nat → Nat
    | 0, lost, n => n + lost
    | fuel + 1, lost, n => if 64 ≤ n then halved fuel (max lost (n % 2)) (n / 2) else n + lost

/-- The depth at which halving parts two places in `n`, given as doubles. -/
def partingDepth (n : Nat) : Nat → Nat → Nat → Nat
  | 0, _, _ => 0
  | fuel + 1, a, b =>
    if n ≤ a then partingDepth n fuel (2 * (a - n)) (2 * (b - n)) + 1
    else if n ≤ b then 1
    else partingDepth n fuel (2 * a) (2 * b) + 1

/-- The power of the border between a run and a next one of a given length, in a list of `n`
items. -/
def Run.powerBefore (r : Run α) (next n : Nat) : Nat :=
  let a := 2 * r.start + r.items.length
  partingDepth n (n + 1) a (a + r.items.length + next)

/-- The runs that wait to be merged, the last one first, and the patience of merges. -/
structure Waiting (α : Type) where
  runs : List (Run α) := []
  patience : Nat := worthwhile

/-- Merges two neighbouring runs; the border behind the result is the one that the caller knows. -/
def Run.merge (less : α → α → Except ε Bool) (patience : Nat) (r s : Run α) :
    Except ε (Run α × Nat) :=
  (mergeRuns less patience r.items s.items).map fun (items, patience) =>
    ({ items, start := r.start, power := r.power }, patience)

/-- Merges the last runs as long as the border before the last one is deeper than `power`. -/
def mergeDeeper (less : α → α → Except ε Bool) (power patience : Nat) (last : Run α) :
    List (Run α) → Except ε (Waiting α)
  | [] => .ok ⟨[last], patience⟩
  | r :: rs =>
    if power < r.power then
      match r.merge less patience last with
      | .error e => .error e
      | .ok (merged, patience) => mergeDeeper less power patience merged rs
    else .ok ⟨last :: r :: rs, patience⟩

def Waiting.push (less : α → α → Except ε Bool) (n : Nat) (w : Waiting α) (run : Run α) :
    Except ε (Waiting α) :=
  match w.runs with
  | [] => .ok { w with runs := [run] }
  | last :: before =>
    let power := last.powerBefore run.items.length n
    match mergeDeeper less power w.patience last before with
    | .error e => .error e
    | .ok ⟨[], patience⟩ => .ok ⟨[run], patience⟩
    | .ok ⟨last :: before, patience⟩ => .ok ⟨run :: { last with power } :: before, patience⟩

/-- Takes a list apart into runs of at least `least` items, merging on the way.  `fuel` is the
number of items. -/
def collect (less : α → α → Except ε Bool) (n least : Nat) :
    Nat → Waiting α → List α → Except ε (Waiting α)
  | 0, w, _ => .ok w
  | _ + 1, w, [] => .ok w
  | fuel + 1, w, x :: xs =>
    match runOf less least (x :: xs) with
    | .error e => .error e
    | .ok (items, rest) =>
      match w.push less n { items, start := n - (xs.length + 1) } with
      | .error e => .error e
      | .ok w => collect less n least fuel w rest

/-- Merges all runs that wait.  The last two are merged, or the two before the last one if the first
of them is the shorter neighbour.  `fuel` is the number of runs. -/
def mergeAll (less : α → α → Except ε Bool) : Nat → Waiting α → Except ε (List α)
  | fuel + 1, ⟨t :: s :: r :: rs, patience⟩ =>
    if r.items.length < t.items.length then
      match r.merge less patience s with
      | .error e => .error e
      | .ok (merged, patience) => mergeAll less fuel ⟨t :: merged :: rs, patience⟩
    else
      match s.merge less patience t with
      | .error e => .error e
      | .ok (merged, patience) => mergeAll less fuel ⟨merged :: r :: rs, patience⟩
  | _, ⟨[t, s], patience⟩ => (s.merge less patience t).map (·.1.items)
  | _, w => .ok (w.runs.reverse.flatMap (·.items))

/-- Sorts a list; items of which neither is below the other keep their order. -/
def sort (less : α → α → Except ε Bool) (xs : List α) : Except ε (List α) :=
  match collect less xs.length (leastRun xs.length) xs.length {} xs with
  | .error e => .error e
  | .ok w => mergeAll less w.runs.length w

/-- Sorts a list in descending order; again equal items keep their order. -/
def sortDescending (less : α → α → Except ε Bool) (xs : List α) : Except ε (List α) :=
  match sort less xs.reverse with
  | .error e => .error e
  | .ok xs => .ok xs.reverse

end PageQuery.Ordering
