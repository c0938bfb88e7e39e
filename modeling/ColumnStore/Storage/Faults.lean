/-
Faults that a storage may show.

A sink answers each write call: it takes some of the bytes offered, reports an interruption, or refuses. `SinkFaults` says
what one sink does: first it gives the scripted replies, then it takes bytes within its limits. `Faults` says what happens
when the k-th sink of a directory is opened, how that sink behaves, and which whole-file writes fail. Without faults every
byte is taken and every call succeeds.
-/
import ColumnStore.Error.Basic

namespace ColumnStore.Storage

/-- answer to one write call -/
inductive Reply where
  /-- the first `count` bytes offered were taken -/
  | took (count : Nat)
  /-- nothing was taken, the call may be repeated -/
  | interrupted
  /-- nothing was taken, and the call failed -/
  | refused (fault : IoError)
  deriving DecidableEq, Repr

/-- behaviour of one sink -/
structure SinkFaults where
  /-- answers to the first write calls -/
  replies : List Reply := []
  /-- bytes that the sink takes in all -/
  budget : Option Nat := none
  /-- bytes that the sink takes in one call -/
  chunk : Option Nat := none
  flush : Option IoError := none
  finish : Option IoError := none
  abort : Option IoError := none
  deriving DecidableEq, Repr

/-- behaviour of a directory -/
structure Faults where
  /-- failure to open the k-th sink -/
  opening : (k : Nat) → (path : String) → Option IoError := fun _ _ => none
  /-- behaviour of the k-th sink -/
  sink : (k : Nat) → (path : String) → SinkFaults := fun _ _ => {}
  /-- failure to write a whole file -/
  write : (path : String) → Option IoError := fun _ => none

/-- a budget is used up -/
def noSpace : IoError := ⟨.other, "no space left"⟩

namespace SinkFaults

/-- the answer to a call that offers `offered` bytes when `accepted` have been taken before -/
def reply (faults : SinkFaults) (accepted offered : Nat) : Reply :=
  match faults.replies with
  | .took count :: _ => .took (min count offered)
  | r :: _ => r
  | [] =>
    let most := min offered (faults.chunk.getD offered)
    match faults.budget with
    | none => .took most
    | some budget => if budget ≤ accepted then .refused noSpace else .took (min most (budget - accepted))

def next (faults : SinkFaults) : SinkFaults := { faults with replies := faults.replies.tail }

theorem length_replies_next_of_interrupted {faults : SinkFaults} {accepted offered : Nat}
    (h : faults.reply accepted offered = .interrupted) :
    faults.next.replies.length < faults.replies.length := by
  unfold reply at h
  match hr : faults.replies with
  | [] =>
    simp only [hr] at h
    split at h
    · simp at h
    · split at h <;> simp at h
  | r :: rest => simp [next, hr]

theorem length_replies_next_le (faults : SinkFaults) : faults.next.replies.length ≤ faults.replies.length := by
  simp [next]

end SinkFaults

end ColumnStore.Storage
