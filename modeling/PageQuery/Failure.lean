import PageQuery.Fault
import PageQuery.Request.Error

/-!
# Failures

An operation fails for one of a few reasons: the request is wrong, the configuration is wrong, a
text does not denote a value of the type asked for, a source gives up, or a value does not support
what is done with it.
-/

namespace PageQuery

/-- Why a text was not read. -/
inductive Unreadable where
  | boolean (raw : String)
  | decimal (raw : String)
  | dateTime (raw : String)
  | date (raw : String)
  | time (raw : String)
  | member (raw enumeration : String)
  | choice (raw : String)

def Unreadable.message : Unreadable → String
  | boolean raw => "'" ++ raw ++ "' is not a boolean"
  | decimal raw => "'" ++ raw ++ "' is not a decimal number"
  | dateTime raw => "'" ++ raw ++ "' is not a valid date or datetime"
  | date raw => "'" ++ raw ++ "' is not a valid date"
  | time raw => "'" ++ raw ++ "' is not a valid time"
  | member raw enumeration => "'" ++ raw ++ "' is not a member of " ++ enumeration
  | choice raw => "'" ++ raw ++ "' is not a valid choice"

/-- Why an operation failed. -/
inductive Failure where
  | request (e : RequestError)
  | unreadable (u : Unreadable)
  | misconfigured (setting : String) (got : Value)
  | unknownSetting (name : String)
  | unknownPredicate (type : String)
  | sourceFailed (call : String)
  | fault (f : Fault)

def Failure.message? : Failure → Option String
  | request e => some e.message
  | unreadable u => some u.message
  | misconfigured setting got =>
    some ("DJANGO_PAGEABLE['" ++ setting ++ "'] must be a positive integer, got " ++
      got.literal ++ ".")
  | unknownSetting name => some ("Invalid django-pageable setting: '" ++ name ++ "'")
  | unknownPredicate type => some ("Unknown predicate node: " ++ type)
  | sourceFailed call => some ("source failed at " ++ call)
  | fault _ => none

/-- A failure whose wording shows a value.  If the value cannot be written, that is what fails. -/
def Failure.showing (writable : Bool) (e : Failure) : Failure :=
  if writable then e else .fault .badValue

end PageQuery
