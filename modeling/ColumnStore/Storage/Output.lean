/-
Sequential output of one file.

Every byte that the sink takes is counted and run through the checksum register, so a footer can be written without
reading the file back. `write` is one call, and `writeAll` calls with what is left of a piece again and again until the sink
has taken all of it or refuses: `register` and `written` always speak of the bytes really taken. The count of the bytes
still to be offered goes along with them, so that a sink which takes them one by one does not have them counted anew each
time.
-/
import ColumnStore.Bytes.Crc32
import ColumnStore.Bytes.Varint
import ColumnStore.Storage.Sink

namespace ColumnStore.Storage

structure Output where
  name : String
  sink : Sink
  register : UInt32 := Crc32.initial
  written : Nat := 0

namespace Output

def position (o : Output) : Nat := o.written

def checksum (o : Output) : UInt32 := Crc32.finish o.register

/-- open an output for a path, named like it -/
def create (d : Directory) (path : String) : Directory × Except IoError Output :=
  match d.openSink path with
  | (d, .ok sink) => (d, .ok { name := path, sink })
  | (d, .error fault) => (d, .error fault)

def accept (d : Directory) (o : Output) (bs : Bytes) : Directory × Output :=
  let (d, sink) := o.sink.accept d bs
  (d, { o with sink, register := Crc32.feedAll o.register bs, written := o.written + bs.length })

/-- the sink answered one call -/
def answered (o : Output) : Output := { o with sink := o.sink.answered }

/-- a call that offers the `offered` bytes of a piece: the sink takes a first part of them, if any, and says how it went -/
def call (d : Directory) (o : Output) (bs : Bytes) (offered : Nat) : Directory × Output × Reply :=
  match o.sink.reply offered with
  | .took count =>
    let taken := o.answered.accept d (bs.take count)
    (taken.1, taken.2, .took count)
  | reply => (d, o.answered, reply)

/-- a call answers what the sink does -/
theorem reply_call (d : Directory) (o : Output) (bs : Bytes) (offered : Nat) :
    (o.call d bs offered).2.2 = o.sink.reply offered := by
  unfold call
  cases o.sink.reply offered <;> rfl

theorem faults_call (d : Directory) (o : Output) (bs : Bytes) (offered : Nat) :
    (o.call d bs offered).2.1.sink.faults = o.sink.faults.next := by
  unfold call
  cases o.sink.reply offered with
  | took count => exact Sink.faults_accept _ _ _
  | interrupted => rfl
  | refused fault => rfl

/-- one write call -/
def write (d : Directory) (o : Output) (bs : Bytes) : Directory × Output × Reply := o.call d bs bs.length

/-- call with the `left` bytes of a piece until all are taken or one call is refused; interruptions are tried again -/
def offer (d : Directory) (o : Output) (bs : Bytes) (left : Nat) : Directory × Output × Except IoError Unit :=
  if _empty : bs = [] then (d, o, .ok ())
  else
    match _answer : o.call d bs left with
    | (e, p, .interrupted) => offer e p bs left
    | (e, p, .refused fault) => (e, p, .error fault)
    | (e, p, .took count) =>
      if _none : count = 0 then (e, p, .error .writeZero) else offer e p (bs.drop count) (left - count)
termination_by o.sink.faults.replies.length + bs.length
decreasing_by
  · have hreply := o.reply_call d bs left
    have hfaults := o.faults_call d bs left
    rw [_answer] at hreply hfaults
    have := SinkFaults.length_replies_next_of_interrupted hreply.symm
    rw [hfaults]
    omega
  · have hfaults := o.faults_call d bs left
    rw [_answer] at hfaults
    have := SinkFaults.length_replies_next_le o.sink.faults
    have : bs.length ≠ 0 := by simpa using _empty
    rw [hfaults, List.length_drop]
    omega

def writeAll (d : Directory) (o : Output) (bs : Bytes) : Directory × Output × Except IoError Unit :=
  o.offer d bs bs.length

/-- write pieces in order, each in calls of its own, up to the first failure -/
def writePieces (d : Directory) (o : Output) : List Bytes → Directory × Output × Except IoError Unit
  | [] => (d, o, .ok ())
  | piece :: pieces =>
    match o.writeAll d piece with
    | (d, o, .ok ()) => writePieces d o pieces
    | (d, o, .error fault) => (d, o, .error fault)

/-- move everything taken towards the file -/
def flush (d : Directory) (o : Output) : Directory × Output × Except IoError Unit :=
  let (d, sink, result) := o.sink.flush d
  (d, { o with sink }, result)

/-- flush and publish the file -/
def finish (d : Directory) (o : Output) : Directory × Except IoError Unit :=
  match o.sink.flush d with
  | (d, sink, .ok ()) => sink.finish d
  | (d, _, .error fault) => (d, .error fault)

/-- throw the file away, and say whether that went well -/
def abort (d : Directory) (o : Output) : Directory × Except IoError Unit := o.sink.abort d

end Output

/-! ## Typed values -/

namespace Piece

/-- the pieces in which a text is written: its length, then its bytes -/
def text (text : String) : List Bytes :=
  let bs := Bytes.ofText text
  Varint.pieces (UInt32.ofNat bs.length).toNat ++ [bs]

end Piece

namespace Output

def writeByte (d : Directory) (o : Output) (b : UInt8) : Directory × Output × Except IoError Unit := o.writeAll d [b]

def writeUInt32 (d : Directory) (o : Output) (w : UInt32) : Directory × Output × Except IoError Unit :=
  o.writeAll d (Bytes.ofUInt32 w)

def writeInt64 (d : Directory) (o : Output) (v : Int64) : Directory × Output × Except IoError Unit :=
  o.writeAll d (Bytes.ofInt64 v)

def writeUInt128 (d : Directory) (o : Output) (w : BitVec 128) : Directory × Output × Except IoError Unit :=
  o.writeAll d (Bytes.ofBitVec128 w)

def writeVarint (d : Directory) (o : Output) (n : UInt64) : Directory × Output × Except IoError Unit :=
  o.writePieces d (Varint.pieces n.toNat)

def writeVarint32 (d : Directory) (o : Output) (w : UInt32) : Directory × Output × Except IoError Unit :=
  o.writePieces d (Varint.pieces w.toNat)

/-- a text: its length in bytes, then UTF-8 -/
def writeText (d : Directory) (o : Output) (text : String) : Directory × Output × Except IoError Unit :=
  o.writePieces d (Piece.text text)

end Output

end ColumnStore.Storage
