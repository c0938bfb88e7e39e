/-
Reading one file by position.

An input is a file held in memory, its name for messages, and a cursor. A `Reading` moves the cursor and either has a value
or an error; after an error the cursor stays where the failing step left it. Single reads are checked against the end of
the file before the cursor moves, so a file that is too short is an error and never a fault of the program.
-/
import ColumnStore.Bytes.Varint
import ColumnStore.Strict

namespace ColumnStore.Storage

/-- a file being read -/
structure Input where
  name : String
  data : ByteArray
  position : Nat := 0

/-- a step that moves the cursor of an input -/
abbrev Reading (α : Type) := EStateM Error Input α

/-- positions that a cursor can have at all lie below this -/
def addressLimit : Nat := 1 <<< 64

namespace Input

def length (i : Input) : Nat := i.data.size

/-- bytes after the cursor -/
def remaining (i : Input) : Nat := i.data.size - i.position

/-- the error of reading up to a position past the end -/
def pastEnd (i : Input) (position : Nat) : Error := .corruption (.readPastEnd i.name position i.data.size)

def slice (i : Input) (start stop : Nat) : Except Error ByteArray :=
  if stop < start ∨ i.data.size < stop then .error (.corruption (.sliceOutside i.name start stop i.data.size))
  else Strict.slice i.data start stop

theorem slice_eq {i : Input} {start stop : Nat} (h : start ≤ stop) (hstop : stop ≤ i.data.size) :
    i.slice start stop = .ok (i.data.extract start stop) := by
  rw [slice, if_neg (by omega), Strict.slice_eq h hstop]

end Input

namespace Reading

/-- give up with a cause that names the file -/
def corrupt {α : Type} (cause : Input → Corruption) : Reading α := fun i => .error (.corruption (cause i)) i

/-- an answer for which the file is not asked -/
def lift {α : Type} (x : Except Error α) : Reading α := fun i =>
  match x with
  | .ok a => .ok a i
  | .error e => .error e i

@[simp] theorem lift_ok {α : Type} (a : α) : lift (.ok a) = pure a := rfl

/-- move the cursor to a position within the file or at its end -/
def seek (position : Nat) : Reading Unit := fun i =>
  if i.data.size < position then .error (i.pastEnd position) i else .ok () { i with position }

def bytes (count : Nat) : Reading ByteArray := fun i =>
  let stop := i.position + count
  if addressLimit ≤ stop then .error (i.pastEnd i.position) i
  else if i.data.size < stop then .error (i.pastEnd stop) i
  else lift (Strict.slice i.data i.position stop) { i with position := stop }

/-- within the file the bytes are there to be cut out -/
theorem bytes_eq (count : Nat) (i : Input) : bytes count i =
    if addressLimit ≤ i.position + count then .error (i.pastEnd i.position) i
    else if i.data.size < i.position + count then .error (i.pastEnd (i.position + count)) i
    else .ok (i.data.extract i.position (i.position + count)) { i with position := i.position + count } := by
  unfold bytes
  dsimp only
  split
  · rfl
  · split
    · rfl
    · next hend =>
      rw [Strict.slice_eq (Nat.le_add_right _ _) (Nat.le_of_not_lt hend)]
      rfl

def byte : Reading UInt8 := fun i =>
  if h : i.position < i.data.size then .ok i.data[i.position] { i with position := i.position + 1 }
  else .error (i.pastEnd (i.position + 1)) i

/-- the number in the next `width` bytes, least significant first -/
def littleEndian (width : Nat) : Reading Nat := do
  let bs ← bytes width
  return (Bytes.ofArray bs).value

def uint32 : Reading UInt32 := do return UInt32.ofNat (← littleEndian 4)

def int64 : Reading Int64 := do return (UInt64.ofNat (← littleEndian 8)).toInt64

def uint128 : Reading (BitVec 128) := do return BitVec.ofNat 128 (← littleEndian 16)

/-- at most `groups` more groups of a varint, collected into `acc` -/
def varintFrom : (groups : Nat) → (shift acc : UInt64) → Reading UInt64
  | 0, _, _ => corrupt fun i => .varintTooLong i.name i.position
  | groups + 1, shift, acc => do
    let b ← byte
    let acc := acc ||| (← lift (Strict.shiftUp (b &&& 0x7f).toUInt64 shift.toNat))
    if Varint.continues b then varintFrom groups (shift + 7) acc else return acc

/-- groups that begin at bit `shift` all begin within a word -/
def Fits (groups : Nat) (shift : UInt64) : Prop := shift.toNat + 7 * groups ≤ 70

theorem fits_maxGroups : Fits Varint.maxGroups 0 := Nat.le_refl 70

theorem Fits.next {groups : Nat} {shift : UInt64} (h : Fits (groups + 1) shift) : Fits groups (shift + 7) := by
  unfold Fits at *
  rw [UInt64.toNat_add, show (7 : UInt64).toNat = 7 from rfl]
  omega

/-- one group, and those after it -/
theorem varintFrom_succ {groups : Nat} {shift : UInt64} (h : Fits (groups + 1) shift) (acc : UInt64) :
    varintFrom (groups + 1) shift acc = do
      let b ← byte
      if Varint.continues b then varintFrom groups (shift + 7) (acc ||| Varint.group b shift)
      else return acc ||| Varint.group b shift := by
  have hplace : shift.toNat < Strict.wordBits := by
    unfold Fits at h
    unfold Strict.wordBits
    omega
  rw [varintFrom]
  congr 1
  funext b
  rw [Strict.shiftUp_eq _ hplace, UInt64.ofNat_toNat]
  rfl

/-- a varint of up to 64 bits -/
def varint : Reading UInt64 := varintFrom Varint.maxGroups 0 0

/-- a varint of up to 32 bits -/
def varint32 : Reading UInt32 := do
  let value ← varint
  if value.toNat < UInt32.size then return value.toUInt32
  else corrupt fun i => .varintTooWide i.name value i.position

/-- a text: its length in bytes, then UTF-8 -/
def text : Reading String := do
  let length ← varint32
  let bs ← bytes length.toNat
  match Text.Utf8.decode (Bytes.ofArray bs) with
  | .ok text => return text
  | .error fault => corrupt fun i => .invalidUtf8 i.name fault

/-- the value read from an input -/
def eval {α : Type} (r : Reading α) (i : Input) : Except Error α :=
  match r i with
  | .ok value _ => .ok value
  | .error e _ => .error e

end Reading

end ColumnStore.Storage
