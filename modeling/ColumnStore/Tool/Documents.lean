/-
Documents as lines of JSON.

Every line that is not blank is one document: an object whose members are values of columns. Lines are counted from one,
blank lines too.
-/
import ColumnStore.Json.Value
import ColumnStore.Segment.Builder
import ColumnStore.Text.Blank
import ColumnStore.Tool.Failure

namespace ColumnStore.Tool

/-- the lines of a file, each without its line feed and a carriage return right before that -/
def linesFrom (line : Bytes) : Bytes → List Bytes
  | [] => if line = [] then [] else [line.reverse]
  | b :: rest =>
    if b = 0x0a then
      (match line with
      | 0x0d :: line => line.reverse
      | line => line.reverse) :: linesFrom [] rest
    else linesFrom (b :: line) rest

/-- the lines of a file; there is none after the last line feed -/
def lines (content : ByteArray) : List Bytes := linesFrom [] (Bytes.ofArray content)

/-- the value of a column that a JSON value gives -/
def valueOf? : ValueType → Json.Value → Option Value
  | .int, .number n => Value.int <$> n.int?
  | .float, .number n => some (.float n.floatBits)
  | .bytes, .string text => some (.bytes (Bytes.ofText text))
  | .sortedBytes, .string text => some (.sorted (Bytes.ofText text))
  | _, _ => none

def putMembers (line : Nat) (document : UInt32) (b : SegmentBuilder) :
    List (String × Json.Value) → Except Failure SegmentBuilder
  | [] => .ok b
  | (name, value) :: members =>
    match b.schema.find? name with
    | none => .error (.unknownField line name)
    | some field =>
      match b.schema.field? field with
      | none => .error (.unknownField line name)
      | some { type, .. } =>
        match valueOf? type value with
        | none => .error (.wrongValue line name type value.render)
        | some value =>
          match b.put field document value with
          | (b, .ok ()) => putMembers line document b members
          | (_, .error e) => .error (.source e)

/-- record the document in a line, if there is one -/
def putLine (line : Nat) (b : SegmentBuilder) (text : Bytes) : Except Failure SegmentBuilder :=
  match Text.Utf8.decode text with
  | .error _ => .error (.lineUnreadable line)
  | .ok text =>
    if Text.Blank.isBlankLine text then .ok b
    else
      match Json.Value.parse? text with
      | some (.object members) =>
        let document := b.documents
        (·.ensure (document + 1)) <$> putMembers line document b members
      | _ => .error (.notAnObject line)

/-- record the documents in lines, the first of them numbered `line` -/
def putLines (line : Nat) (b : SegmentBuilder) : List Bytes → Except Failure SegmentBuilder
  | [] => .ok b
  | text :: rest =>
    match putLine line b text with
    | .ok b => putLines (line + 1) b rest
    | .error f => .error f

def segmentOf (schema : Schema) (content : ByteArray) : Except Failure SegmentBuilder :=
  putLines 1 (.ofSchema schema) (lines content)

end ColumnStore.Tool
