/-!
# Faults

What can go wrong below the level of a request: an operation meets values that it is not defined on.
Such a fault has a kind and no wording.
-/

namespace PageQuery

/-- The kinds of faults. -/
inductive Fault where
  /-- A text or a number that denotes no value of the type asked for. -/
  | badValue
  /-- Values of types that an operation is not defined on. -/
  | badType
  /-- A property that a value does not have. -/
  | noAttribute
  /-- A result outside the range of its type. -/
  | overflow
  | divisionByZero
  /-- A comparison with a decimal that is not-a-number. -/
  | invalidOperation
  /-- A relation that a model does not have. -/
  | unknownRelation
  /-- A text that is no expression. -/
  | badSyntax
  /-- A key that a table does not have. -/
  | noKey
  /-- An item of a list that is too short. -/
  | noItem
  /-- A value that a column cannot hold. -/
  | invalidValue
  /-- A path that leads to no column of a model. -/
  | unknownColumn
  /-- A row without a value that it must have. -/
  | missingValue
  /-- A number outside the range of a store. -/
  | outOfStore
  /-- A condition that is too deep for a store. -/
  | tooComplex
  deriving DecidableEq, Repr

end PageQuery
