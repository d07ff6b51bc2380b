import Scaffold.Entries
import Scaffold.Text.Wide

/-!
# Faults of fields

Options and manifests are read from JSON values field by field. A field that does not have the
expected form is reported with its place and with what was expected; reading goes on, so that all
faults of a document are reported together. Only a key that is no text ends it at once.
-/

namespace Scaffold

/-- A step towards a place in a document. -/
inductive FieldStep where
  /-- to the value of a key -/
  | key (name : String)
  /-- to the item of a list -/
  | index (i : Nat)
  /-- to the value itself, read as a string where other forms are allowed too -/
  | asString
  /-- to the value itself, read as a list of strings where other forms are allowed too -/
  | asList
  deriving DecidableEq, Repr

/-- What is wrong with a field. -/
inductive FieldProblem where
  /-- it is required and absent -/
  | missing
  /-- it is not a string -/
  | notString
  /-- it is not a truth value -/
  | notTruth
  /-- it is not a text or number that stands for a truth value -/
  | unreadableTruth
  /-- it is none of the words that are listed -/
  | notOneOf (expected : String)
  /-- it is unknown -/
  | unknown
  /-- its value is refused -/
  | refused (reason : String)
  /-- it is not an object -/
  | notObject
  /-- it is not a list -/
  | notList
  /-- it is a string, but no text -/
  | notText
  deriving DecidableEq, Repr

/-- A field that does not have the expected form. -/
structure FieldFault where
  /-- the way to the field -/
  place : List FieldStep
  /-- what is wrong with it -/
  problem : FieldProblem
  deriving DecidableEq, Repr

/-- A problem in words. -/
def FieldProblem.message : FieldProblem → String
  | .missing => "Field required"
  | .notString => "Input should be a valid string"
  | .notTruth => "Input should be a valid boolean"
  | .unreadableTruth => "Input should be a valid boolean, unable to interpret input"
  | .notOneOf expected => s!"Input should be {expected}"
  | .unknown => "Extra inputs are not permitted"
  | .refused reason => s!"Value error, {reason}"
  | .notObject => "Input should be a valid dictionary"
  | .notList => "Input should be a valid list"
  | .notText =>
    "Input should be a valid string, unable to parse raw data as a unicode string"

/-- The keys of an object are texts; if one is not, nothing else is reported. -/
def checkKeys {α : Type} (members : Entries α Wide) : Except (List FieldFault) Unit :=
  if members.keys.all Wide.isText then .ok () else .error [⟨[], .notText⟩]

/-- The first line of a report on the faults of a document. -/
def faultSummary (document : String) (faults : List FieldFault) : String :=
  let noun := if faults.length == 1 then "error" else "errors"
  s!"{faults.length} validation {noun} for {document}"

end Scaffold
