/-
Directories of files, in memory or on disk.

In memory a directory is a set of named contents. On disk it also has folders: a path is walked step by step, every step but
the last must lead to a folder, a file is listed only in the folder that holds it, and writing a file makes the folders above
it. A path text that is too long as a whole is refused before the first step. Files are numbered in the order in which they
are made, so that one who holds a file open still knows it when another file has taken its place. A directory remembers how
many sinks were opened, so that faults can be told by their number.
-/
import ColumnStore.Storage.Faults
import ColumnStore.Storage.Folders

namespace ColumnStore.Storage

/-- where a directory lives -/
inductive Medium where
  | memory
  | disk
  deriving DecidableEq, Repr

/-- one file: where it is, how its path was first spelled, its number, and what it holds -/
structure File where
  place : Place
  name : String
  number : Nat
  content : ByteArray

structure Directory where
  medium : Medium := .memory
  /-- bytes of the path text of the top on disk, with the slash after it -/
  top : Nat := 0
  files : List File := []
  /-- files made so far -/
  made : Nat := 0
  folders : Folders := .nil
  faults : Faults := {}
  /-- sinks opened so far, also those that failed to open -/
  opened : Nat := 0

/-- what stands at a place on disk -/
inductive Occupant where
  | nothing
  | folder
  | file (f : File)

namespace Directory

/-! ## Faults of the medium -/

def missingInMemory (path : String) : IoError := ⟨.notFound, s!"File not found: {path}"⟩

def missingOnDisk : IoError := ⟨.notFound, "No such file or directory (os error 2)"⟩

def fileInTheWay : IoError := ⟨.alreadyExists, "File exists (os error 17)"⟩

def notAFolder : IoError := ⟨.notADirectory, "Not a directory (os error 20)"⟩

def isAFolder : IoError := ⟨.isADirectory, "Is a directory (os error 21)"⟩

def nameTooLong : IoError := ⟨.invalidFilename, "File name too long (os error 36)"⟩

def nulInPath : IoError := ⟨.invalidInput, "file name contained an unexpected NUL byte"⟩

/-! ## Places -/

def fileAt? (d : Directory) (place : Place) : Option File := d.files.find? fun f => f.place = place

/-- what stands at a place on disk; the top of the directory and the places above it are folders -/
def occupant (d : Directory) (place : Place) : Occupant :=
  if !place.any Component.isName || d.folders.contains place then .folder
  else
    match d.fileAt? place with
    | some f => .file f
    | none => .nothing

/-- the place that steps lead to on disk; whatever the last one leads to, the others must lead to folders -/
def walkFrom (d : Directory) (place : Place) : List Component → Except IoError Place
  | [] => .ok place
  | step :: steps =>
    match d.occupant place with
    | .nothing => .error missingOnDisk
    | .file _ => .error notAFolder
    | .folder => if step.isTooLong then .error nameTooLong else d.walkFrom (Path.next place step) steps

/-- the steps of a path text, if a disk takes such a text -/
def steps (d : Directory) (path : String) : Except IoError (List Component) :=
  if (Path.steps path).any Component.hasNul then .error nulInPath
  else if Path.longest < Path.size d.top path then .error nameTooLong
  else .ok (Path.steps path)

/-- what a path on disk names, and where that is; only a folder can be named with a slash or a dot at the end -/
def locate (d : Directory) (path : String) : Except IoError (Place × Occupant) := do
  let place ← d.walkFrom [] (← d.steps path)
  match Path.ending path, d.occupant place with
  | .slash, .file _ | .dot, .file _ => .error notAFolder
  | _, found => .ok (place, found)

/-! ## Reading -/

/-- whether a path names something; on disk that can stay unknown -/
def contains (d : Directory) (path : String) : Except IoError Bool :=
  match d.medium with
  | .memory => .ok (d.fileAt? (Path.components path)).isSome
  | .disk =>
    match d.locate path with
    | .ok (_, .nothing) => .ok false
    | .ok _ => .ok true
    | .error fault => if fault.kind = .notFound then .ok false else .error fault

def read (d : Directory) (path : String) : Except IoError ByteArray :=
  match d.medium with
  | .memory =>
    match d.fileAt? (Path.components path) with
    | some f => .ok f.content
    | none => .error (missingInMemory path)
  | .disk =>
    match d.locate path with
    | .ok (_, .file f) => .ok f.content
    | .ok (_, .folder) => .error isAFolder
    | .ok (_, .nothing) => .error missingOnDisk
    | .error fault => .error fault

/-- files in the order of their places -/
def sortFiles (files : List File) : List File :=
  files.mergeSort fun a b => Path.order a.place b.place != .gt

/-- the path texts of the files in a folder on disk that was named by a text; those outside the directory have none -/
def textsIn (d : Directory) (folder : String) (place : Place) : List String :=
  if (Path.steps folder).head? = some .root then []
  else
    (sortFiles (d.files.filter fun f => f.place.dropLast = place)).filterMap fun f =>
      match f.place.getLast? with
      | some (.name text) => some (Path.join folder text)
      | _ => none

/-- the files under a folder: all of them in memory, those directly in it on disk -/
def list (d : Directory) (folder : String) : Except IoError (List String) :=
  match d.medium with
  | .memory =>
    .ok ((sortFiles (d.files.filter fun f => (Path.components folder).isPrefixOf f.place)).map File.name)
  | .disk =>
    match d.locate folder with
    | .ok (place, .folder) => .ok (d.textsIn folder place)
    | .ok (_, .file _) => .error notAFolder
    | .ok (_, .nothing) => .error missingOnDisk
    | .error fault => .error fault

/-! ## Folders -/

/-- make the folders that steps lead through; `fresh` says whether one was made before. A file in the way is noticed as
such by the step that should make a folder there: the last one, or any once something was made -/
def makeFrom (d : Directory) (place : Place) (fresh : Bool) : List Component → Directory × Except IoError Unit
  | [] => (d, .ok ())
  | step :: steps =>
    if step.isTooLong then (d, .error nameTooLong)
    else
      let place := Path.next place step
      match d.occupant place with
      | .folder => d.makeFrom place fresh steps
      | .nothing => { d with folders := d.folders.insert place }.makeFrom place true steps
      | .file _ => (d, .error (if fresh ∨ steps = [] then fileInTheWay else notAFolder))

/-- make the folder of a path and those above it, unless they are there; those made before a fault stay -/
def makeFolders (d : Directory) (path : String) : Directory × Except IoError Unit :=
  match d.steps path with
  | .ok steps => d.makeFrom [] false steps
  | .error fault => (d, .error fault)

/-! ## Changing files -/

/-- the place where a path on disk can have a file, once the folders above it are there -/
def placeForFile (d : Directory) (path : String) : Except IoError Place := do
  let _ ← d.steps path
  if Path.ending path = .slash then .error isAFolder
  else
    match ← d.locate path with
    | (place, .file _) => .ok place
    | (place, .nothing) => if Path.ending path = .dot then .error missingOnDisk else .ok place
    | (_, .folder) => .error isAFolder

/-- the place for a file; on disk the folders above it are made, also if it turns out that there can be no file -/
def prepare (d : Directory) (path : String) : Directory × Except IoError Place :=
  match d.medium with
  | .memory => (d, .ok (Path.components path))
  | .disk =>
    match d.makeFolders (Path.folder path) with
    | (d, .ok ()) => (d, d.placeForFile path)
    | (d, .error fault) => (d, .error fault)

/-- the number of the file at a place, or else the number that a new file gets -/
def numberAt (d : Directory) (place : Place) : Nat :=
  match d.fileAt? place with
  | some f => f.number
  | none => d.made

/-- the files, with other content in the one of a number -/
def withContent (d : Directory) (number : Nat) (content : File → ByteArray) : Directory :=
  { d with files := d.files.map fun f => if f.number = number then { f with content := content f } else f }

/-- put a content at a place; a file that is already there keeps its spelling and its number -/
def store (d : Directory) (place : Place) (name : String) (content : ByteArray) : Directory :=
  match d.fileAt? place with
  | some f => d.withContent f.number fun _ => content
  | none => { d with files := d.files ++ [⟨place, name, d.made, content⟩], made := d.made + 1 }

/-- create or replace a file in one call, whatever faults are due -/
def put (d : Directory) (path : String) (content : ByteArray) : Directory × Except IoError Unit :=
  match d.prepare path with
  | (d, .ok place) => (d.store place path content, .ok ())
  | (d, .error fault) => (d, .error fault)

/-- create or replace a file in one call -/
def write (d : Directory) (path : String) (content : ByteArray) : Directory × Except IoError Unit :=
  match d.faults.write path with
  | some fault => (d, .error fault)
  | none => d.put path content

/-- take a file on disk away -/
def remove (d : Directory) (path : String) : Directory × Except IoError Unit :=
  match d.locate path with
  | .ok (place, .file _) => ({ d with files := d.files.filter fun f => f.place ≠ place }, .ok ())
  | .ok (_, .folder) => (d, .error isAFolder)
  | .ok (_, .nothing) => (d, .error missingOnDisk)
  | .error fault => (d, .error fault)

/-- a content with bytes written over it from `offset` on; a gap before them reads as zeros -/
def overwrite (content : ByteArray) (offset : Nat) (bytes : ByteArray) : ByteArray :=
  let before := content.extract 0 offset
  let gap := ByteArray.mk (Array.replicate (offset - before.size) 0)
  before ++ gap ++ bytes ++ content.extract (offset + bytes.size) content.size

/-- write bytes into the file of a number from `offset` on, unless it was taken away; no bytes change nothing -/
def patch (d : Directory) (number offset : Nat) (bytes : ByteArray) : Directory :=
  if bytes.isEmpty then d else d.withContent number fun f => overwrite f.content offset bytes

end Directory

end ColumnStore.Storage
