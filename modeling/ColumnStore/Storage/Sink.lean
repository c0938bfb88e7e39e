/-
The write side of one file.

A sink takes bytes in write calls. In memory the file appears when the sink finishes. On disk it exists from opening and
gets its bytes through a buffer of 64 KiB; aborting deletes it. `accepted` is everything taken so far; on disk the first
`flushed` bytes of it have gone to the file, at their own offsets, and the rest is in the buffer. A sink on disk writes to
the file that it opened: bytes for a file that was taken away are lost, even if its path names a new file by then.
-/
import ColumnStore.Bytes.Basic
import ColumnStore.Storage.Directory

namespace ColumnStore.Storage

structure Sink where
  path : String
  /-- the number of the file on disk -/
  number : Nat := 0
  accepted : ByteArray := .empty
  flushed : Nat := 0
  faults : SinkFaults := {}

/-- bytes that a sink on disk holds back at most -/
def bufferCapacity : Nat := 64 * 1024

namespace Directory

/-- open a sink for a path; on disk this creates the file, or empties it -/
def openSink (d : Directory) (path : String) : Directory × Except IoError Sink :=
  let k := d.opened + 1
  let d := { d with opened := k }
  match d.faults.opening k path with
  | some fault => (d, .error fault)
  | none =>
    match d.prepare path with
    | (d, .error fault) => (d, .error fault)
    | (d, .ok place) =>
      let sink : Sink := { path, number := d.numberAt place, faults := d.faults.sink k path }
      match d.medium with
      | .memory => (d, .ok sink)
      | .disk => (d.store place path .empty, .ok sink)

end Directory

namespace Sink

/-- the answer to a call that offers `offered` bytes -/
def reply (s : Sink) (offered : Nat) : Reply := s.faults.reply s.accepted.size offered

/-- one call was answered -/
def answered (s : Sink) : Sink := { s with faults := s.faults.next }

/-- move the buffer of a sink on disk into its file -/
def settle (d : Directory) (s : Sink) : Directory × Sink :=
  (d.patch s.number s.flushed (s.accepted.extract s.flushed s.accepted.size), { s with flushed := s.accepted.size })

def append (s : Sink) (bs : Bytes) : Sink := { s with accepted := Bytes.appendTo s.accepted bs }

/-- take bytes in; on disk the buffer is moved out first if they do not fit, and is passed by if they would fill it -/
def accept (d : Directory) (s : Sink) (bs : Bytes) : Directory × Sink :=
  match d.medium with
  | .memory => (d, s.append bs)
  | .disk =>
    let room := bufferCapacity - (s.accepted.size - s.flushed)
    let (d, s) := if room < bs.length then settle d s else (d, s)
    let s := s.append bs
    if bufferCapacity ≤ bs.length then settle d s else (d, s)

/-- move everything taken towards the file -/
def flush (d : Directory) (s : Sink) : Directory × Sink × Except IoError Unit :=
  match s.faults.flush with
  | some fault => (d, s, .error fault)
  | none =>
    match d.medium with
    | .memory => (d, s, .ok ())
    | .disk => let (d, s) := settle d s; (d, s, .ok ())

/-- publish the file; a sink that fails to finish publishes nothing in memory, but on disk the file stands complete -/
def finish (d : Directory) (s : Sink) : Directory × Except IoError Unit :=
  match d.medium, s.faults.finish with
  | .memory, none => d.put s.path s.accepted
  | .memory, some fault => (d, .error fault)
  | .disk, none => ((settle d s).1, .ok ())
  | .disk, some fault => ((settle d s).1, .error fault)

/-- throw the file away -/
def discard (d : Directory) (s : Sink) : Directory × Except IoError Unit :=
  match d.medium with
  | .memory => (d, .ok ())
  | .disk => d.remove s.path

/-- throw the file away, and say whether that went well -/
def abort (d : Directory) (s : Sink) : Directory × Except IoError Unit :=
  match s.faults.abort with
  | none => discard d s
  | some fault => ((discard d s).1, .error fault)

@[simp] theorem faults_accept (d : Directory) (s : Sink) (bs : Bytes) : (accept d s bs).2.faults = s.faults := by
  unfold accept
  cases d.medium
  · rfl
  · simp only []
    split <;> split <;> rfl

end Sink

end ColumnStore.Storage
