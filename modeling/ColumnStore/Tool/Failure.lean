/-
Why a run of the tool fails: what was attempted, and the error below it.
-/
import ColumnStore.Error.Message

namespace ColumnStore.Tool

open Text (quoted)

/-- why a run of the tool fails; `line` counts from one -/
inductive Failure where
  | schemaUnreadable (path : String) (cause : String)
  | schemaMalformed (path : String)
  | inputUnopened (path : String) (cause : String)
  | lineUnreadable (line : Nat)
  | notAnObject (line : Nat)
  | unknownField (line : Nat) (name : String)
  | wrongValue (line : Nat) (name : String) (expected : ValueType) (got : String)
  | folderMissing (path : String) (cause : String)
  | notWritten (cause : Error)
  | notReopened (cause : Error)
  | badSegmentId (text : String)
  | infoMissing (segment : String) (cause : Error)
  | notOpened (segment : String) (cause : Error)
  | unknownColumn (name : String)
  | notStored (name segment : String) (cause : Error)
  | notLoaded (name : String) (cause : Error)
  | source (cause : Error)
  deriving DecidableEq, Repr

namespace Failure

def message : Failure → String
  | schemaUnreadable path _ => s!"Failed to read schema file: {quoted path}"
  | schemaMalformed path => s!"Failed to parse schema file: {quoted path}"
  | inputUnopened path _ => s!"Failed to open input file: {quoted path}"
  | lineUnreadable line => s!"Failed to read line {line}"
  | notAnObject line => s!"Line {line} is not a JSON object"
  | unknownField line name => s!"Line {line}: unknown field {quoted name}"
  | wrongValue line name expected got => s!"Line {line}: field {quoted name} expects {expected.name}, got {got}"
  | folderMissing path _ => s!"Failed to create directory: {quoted path}"
  | notWritten _ => "Failed to write segment"
  | notReopened _ => "Failed to reopen written segment"
  | badSegmentId text => s!"Invalid segment id: {quoted text}"
  | infoMissing segment _ => s!"Failed to load segment info for {segment}"
  | notOpened segment _ => s!"Failed to open segment {segment}"
  | unknownColumn name => s!"Unknown field {quoted name}"
  | notStored name segment _ => s!"Field {quoted name} is not stored in segment {segment}"
  | notLoaded name _ => s!"Failed to load field {quoted name}"
  | source cause => cause.message

def causes : Failure → List String
  | schemaUnreadable _ cause | inputUnopened _ cause | folderMissing _ cause => [cause]
  | notWritten cause | notReopened cause | infoMissing _ cause | notOpened _ cause | notStored _ _ cause
  | notLoaded _ cause =>
    match cause with
    | .io fault => [cause.message, fault.text]
    | _ => [cause.message]
  | source (.io fault) => [fault.text]
  | _ => []

/-- the causes below a heading, numbered if there are several -/
def causeLines : List String → List String
  | [] => []
  | [cause] => ["", "Caused by:", "    " ++ cause]
  | causes => ["", "Caused by:"] ++ causes.mapIdx fun i cause => s!"    {i}: {cause}"

def report (f : Failure) : String := "\n".intercalate (("Error: " ++ f.message) :: causeLines f.causes)

end Failure

end ColumnStore.Tool
