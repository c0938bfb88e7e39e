/-
The commands of the tool.

A command is written against a `Host`: the few things that it needs from its surroundings, in any monad. So the same command
runs on the files of a machine and on a model of them. It ends in an `Outcome`: the text printed, and the failure, if any.
-/
import ColumnStore.Schema.Text
import ColumnStore.Segment.Info
import ColumnStore.Tool.Arguments
import ColumnStore.Tool.Documents
import ColumnStore.Tool.Report

namespace ColumnStore.Tool

open Storage Column

/-- what a command needs from its surroundings -/
structure Host (m : Type → Type) where
  /-- the content of a file -/
  read : (path : String) → m (Except IoError ByteArray)
  /-- make a folder and those above it -/
  makeFolder : (path : String) → m (Except IoError Unit)
  /-- those of the files of a folder that there are -/
  fetch : (folder : String) → (files : List String) → m Directory
  /-- write the files of a directory to a folder -/
  store : (folder : String) → Directory → m (Except IoError Unit)
  /-- a new identity -/
  newId : m SegmentId

structure Outcome where
  printed : String := ""
  failure? : Option Failure := none
  deriving DecidableEq, Repr

def Outcome.fail (f : Failure) : Outcome := { failure? := some f }

/-- the outcome of printing that may end early -/
def Outcome.ofPrinted : String × Except Failure Unit → Outcome
  | (printed, .ok ()) => { printed }
  | (printed, .error f) => { printed, failure? := some f }

/-! ## Parts of commands -/

def schemaOf (path : String) : Except IoError ByteArray → Except Failure Schema
  | .error fault => .error (.schemaUnreadable path fault.text)
  | .ok content =>
    match Text.Utf8.decode (Bytes.ofArray content) with
    | .error _ => .error (.schemaUnreadable path "stream did not contain valid UTF-8")
    | .ok text =>
      match Schema.parse? text with
      | some schema => .ok schema
      | none => .error (.schemaMalformed path)

/-- the segment of the documents in a file; a folder can be opened, but its first line cannot be read -/
def documentsOf (schema : Schema) (path : String) : Except IoError ByteArray → Except Failure SegmentBuilder
  | .ok content => segmentOf schema content
  | .error fault => .error (if fault.kind = .isADirectory then .lineUnreadable 1 else .inputUnopened path fault.text)

def filesOf (segment : String) : List String :=
  match SegmentId.ofHex? segment with
  | none => []
  | some id =>
    let s : Segment := { id, documents := 0 }
    [Segment.infoFile id, s.metadataFile {}, s.dataFile {}]

def openSegment (d : Directory) (schema : Schema) (segment : String) : Except Failure SegmentReader :=
  match SegmentId.ofHex? segment with
  | none => .error (.badSegmentId segment)
  | some id =>
    match SegmentInfo.load d id with
    | .error e => .error (.infoMissing segment e)
    | .ok info => (SegmentReader.ofDirectory d schema { id, documents := info.documents } {}).mapError (.notOpened segment)

/-- reopen a segment just written, and report its layouts -/
def reopen (d : Directory) (schema : Schema) (info : SegmentInfo) : Except Failure String :=
  match SegmentReader.ofDirectory d schema { id := info.id, documents := info.documents } {} with
  | .error e => .error (.notReopened e)
  | .ok r => .ok (encodedReport info.id r)

def dumpColumn (r : SegmentReader) (segment field : String) (number : FieldNumber) (type : ValueType) : Outcome :=
  match r.handle number with
  | .error e => .fail (.notStored field segment e)
  | .ok handle =>
    match handle.getOrLoad.2 with
    | .error e => .fail (.source e)
    | .ok source =>
      let (printed, ending) := printSource type source.value
      .ofPrinted (printed, ending.mapError .source)

/-- the column of a name, with its type -/
def columnOf (schema : Schema) (name : String) : Except Failure (FieldNumber × ValueType) :=
  match schema.find? name with
  | none => .error (.unknownColumn name)
  | some number =>
    match schema.field? number with
    | none => .error (.unknownColumn name)
    | some field => .ok (number, field.type)

/-! ## Commands -/

variable {m : Type → Type} [Monad m]

def writeSegment (host : Host m) (folder : String) (schema : Schema) (b : SegmentBuilder) : m Outcome := do
  match ← host.makeFolder folder with
  | .error fault => return .fail (.folderMissing folder fault.text)
  | .ok () =>
    let id ← host.newId
    let (d, flushed) := b.flush { medium := .disk } id {}
    let stored ← host.store folder d
    match flushed, stored with
    | .error e, _ => return .fail (.notWritten e)
    | _, .error fault => return .fail (.notWritten (.io fault))
    | .ok info, .ok () =>
      match reopen d schema info with
      | .error f => return .fail f
      | .ok printed => return { printed }

def run (host : Host m) : Command → m Outcome
  | .encode folder schemaPath input => do
    match schemaOf schemaPath (← host.read schemaPath) with
    | .error f => return .fail f
    | .ok schema =>
      match documentsOf schema input (← host.read input) with
      | .error f => return .fail f
      | .ok b => writeSegment host folder schema b
  | .inspect folder schemaPath segment => do
    match schemaOf schemaPath (← host.read schemaPath) with
    | .error f => return .fail f
    | .ok schema =>
      let d ← host.fetch folder (filesOf segment)
      match openSegment d schema segment with
      | .error f => return .fail f
      | .ok r => return .ofPrinted (printTable segment r)
  | .dump folder schemaPath segment field => do
    match schemaOf schemaPath (← host.read schemaPath) with
    | .error f => return .fail f
    | .ok schema =>
      match columnOf schema field with
      | .error f => return .fail f
      | .ok (number, type) =>
        let d ← host.fetch folder (filesOf segment)
        match openSegment d schema segment with
        | .error f => return .fail f
        | .ok r => return dumpColumn r segment field number type

end ColumnStore.Tool
