import PageQuery.Ordering.Gallop

/-!
# Merging two runs

Two neighbouring runs become one.  Where one side wins again and again, items are not compared one
by one any more: galloping tells how many of that side come next.  How soon this begins is learnt
from how it went before, so a merge takes and gives back a patience, the number of wins in a row
that it waits for.

The merge may run from the front of both runs or from their ends.  In both directions one side is
kept until the other one is used up, so one engine serves both; it sees the runs in the direction in
which it goes.
-/

namespace PageQuery.Ordering

variable {α ε : Type}

/-- A merge that is not finished: what is left of both sides, what has been put out with the last
item first, and how many wins in a row it waits for. -/
structure Merging (α : Type) where
  kept : List α
  other : List α
  out : List α
  patience : Nat

/-- A merge, finished or not. -/
inductive Progress (α : Type) where
  | finished (items : List α) (patience : Nat)
  | going (m : Merging α)

namespace Merging

/-- Puts out the first `n` items of the kept side.  When one of them is left, it comes behind
everything. -/
def putKept (m : Merging α) (n : Nat) : Progress α :=
  let out := (m.kept.take n).reverse ++ m.out
  match m.kept.drop n with
  | [] => .finished (out.reverse ++ m.other) m.patience
  | [k] => .finished (out.reverse ++ m.other ++ [k]) m.patience
  | kept => .going { m with kept := kept, out := out }

/-- Puts out the first `n` items of the other side.  When none of them is left, the kept side
follows. -/
def putOther (m : Merging α) (n : Nat) : Progress α :=
  let out := (m.other.take n).reverse ++ m.out
  match m.other.drop n with
  | [] => .finished (out.reverse ++ m.kept) m.patience
  | other => .going { m with other := other, out := out }

end Merging

def Progress.andThen (p : Progress α) (f : Merging α → Except ε (Progress α)) :
    Except ε (Progress α) :=
  match p with
  | .finished items patience => .ok (.finished items patience)
  | .going m => f m

/-- The wins in a row from which on galloping is worth its tests. -/
def worthwhile : Nat := 7

/-- How a merge goes on: comparing heads, after so many wins in a row of the two sides, or
galloping. -/
inductive Pace where
  | comparing (keptWins otherWins : Nat)
  | galloping

/-- How a merge compares: whether the head of the other side comes before that of the kept side,
and whether it goes from the ends of the runs. -/
structure Rule (α ε : Type) where
  otherFirst : α → α → Except ε Bool
  fromEnd : Bool

namespace Rule

/-- Gallops along the kept side: puts out what comes before the head of the other side, then that
head.  Gives the number of items that came before it. -/
def gallopKept (r : Rule α ε) (m : Merging α) : Except ε (Nat × Progress α) :=
  match m.other with
  | [] => .ok (0, .finished (m.out.reverse ++ m.kept) m.patience)
  | o :: _ =>
    match gallop (fun k => (r.otherFirst k o).map (!·)) r.fromEnd m.kept with
    | .error e => .error e
    | .ok n =>
      let before := if n = 0 then Progress.going m else m.putKept n
      (before.andThen fun m => .ok (m.putOther 1)).map fun p => (n, p)

/-- Gallops along the other side: puts out what comes before the head of the kept side, then that
head.  Gives the number of items that came before it. -/
def gallopOther (r : Rule α ε) (m : Merging α) : Except ε (Nat × Progress α) :=
  match m.kept with
  | [] => .ok (0, .finished (m.out.reverse ++ m.other) m.patience)
  | k :: _ =>
    match gallop (r.otherFirst k) r.fromEnd m.other with
    | .error e => .error e
    | .ok n =>
      let before := if n = 0 then Progress.going m else m.putOther n
      (before.andThen fun m => .ok (m.putKept 1)).map fun p => (n, p)

/-- Gallops along one side and then along the other one.  Gives the longer of the two numbers. -/
def gallopBoth (r : Rule α ε) (m : Merging α) : Except ε (Nat × Progress α) :=
  let first := if r.fromEnd then r.gallopOther else r.gallopKept
  let second := if r.fromEnd then r.gallopKept else r.gallopOther
  match first m with
  | .error e => .error e
  | .ok (n, .finished items patience) => .ok (n, .finished items patience)
  | .ok (n, .going m) =>
    match second m with
    | .error e => .error e
    | .ok (k, p) => .ok (max n k, p)

/-- Compares the heads of both sides and puts out the one that comes first.  Gives the wins in a row
of the two sides. -/
def compareHeads (r : Rule α ε) (keptWins otherWins : Nat) (m : Merging α) :
    Except ε ((Nat × Nat) × Progress α) :=
  match m.kept, m.other with
  | k :: _, o :: _ =>
    match r.otherFirst k o with
    | .error e => .error e
    | .ok true => .ok ((0, otherWins + 1), m.putOther 1)
    | .ok false => .ok ((keptWins + 1, 0), m.putKept 1)
  | kept, other => .ok ((0, 0), .finished (m.out.reverse ++ kept ++ other) m.patience)

/-- Merges what is left.  Every round puts out an item, so `fuel` rounds are enough where `fuel` is
the number of items. -/
def mergeFrom (r : Rule α ε) : Nat → Pace → Merging α → Except ε (List α × Nat)
  | 0, _, m => .ok (m.out.reverse ++ m.kept ++ m.other, m.patience)
  | fuel + 1, .comparing keptWins otherWins, m =>
    match r.compareHeads keptWins otherWins m with
    | .error e => .error e
    | .ok (_, .finished items patience) => .ok (items, patience)
    | .ok ((keptWins, otherWins), .going m) =>
      if m.patience ≤ max keptWins otherWins then
        mergeFrom r fuel .galloping { m with patience := m.patience + 1 }
      else mergeFrom r fuel (.comparing keptWins otherWins) m
  | fuel + 1, .galloping, m =>
    match r.gallopBoth { m with patience := max 1 (m.patience - 1) } with
    | .error e => .error e
    | .ok (_, .finished items patience) => .ok (items, patience)
    | .ok (n, .going m) =>
      if worthwhile ≤ n then mergeFrom r fuel .galloping m
      else mergeFrom r fuel (.comparing 0 0) { m with patience := m.patience + 1 }

/-- Merges two sides, of which the head of the other one is known to come first. -/
def merge (r : Rule α ε) (kept other : List α) (patience : Nat) : Except ε (List α × Nat) :=
  match Merging.putOther { kept, other, out := [], patience } 1 with
  | .finished items patience => .ok (items, patience)
  | .going m =>
    match m.kept with
    | [k] => .ok (m.out.reverse ++ m.other ++ [k], patience)
    | _ => r.mergeFrom (kept.length + other.length) (.comparing 0 0) m

end Rule

/-- Merges two neighbouring runs, either of which may be the longer one; the shorter one is kept.
What stands in its place already is left out first: the items of the first run that come before the
second one, and those of the second run that come behind the first one. -/
def mergeRuns (less : α → α → Except ε Bool) (patience : Nat) (xs ys : List α) :
    Except ε (List α × Nat) :=
  match ys with
  | [] => .ok (xs, patience)
  | y :: _ =>
    match gallop (fun x => (less y x).map (!·)) false xs with
    | .error e => .error e
    | .ok before =>
      match (xs.drop before).getLast? with
      | none => .ok (xs ++ ys, patience)
      | some last =>
        match gallop (fun y => (less y last).map (!·)) true ys.reverse with
        | .error e => .error e
        | .ok behind =>
          let left := xs.drop before
          let right := ys.take (ys.length - behind)
          let placed := fun items => xs.take before ++ items ++ ys.drop (ys.length - behind)
          if right.isEmpty then .ok (xs ++ ys, patience)
          else if left.length ≤ right.length then
            (Rule.merge ⟨fun x y => less y x, false⟩ left right patience).map
              fun (items, patience) => (placed items, patience)
          else
            (Rule.merge ⟨less, true⟩ right.reverse left.reverse patience).map
              fun (items, patience) => (placed items.reverse, patience)

end PageQuery.Ordering
