/-
The command line of the tool on the files of a machine.
-/
import ColumnStore.Tool.Run

open ColumnStore Storage Tool

/-- a fault of the machine -/
def machineFault : IO.Error → IoError
  | .noFileOrDirectory .. => Directory.missingOnDisk
  | .inappropriateType .. => Directory.isAFolder
  | e => ⟨.other, toString e⟩

/-- the outcome of an action on the machine -/
def attempt {α : Type} (action : IO α) : IO (Except IoError α) := do
  try return .ok (← action)
  catch e => return .error (machineFault e)

/-- those of the files of a folder that can be read -/
def fetchFiles (folder : String) (files : List String) : IO Directory := do
  let mut d : Directory := { medium := .disk }
  for file in files do
    if let .ok content ← attempt (IO.FS.readBinFile s!"{folder}/{file}") then
      d := (d.put file content).1
  return d

def storeFiles (folder : String) (d : Directory) : IO Unit := do
  for file in d.files do
    IO.FS.writeBinFile s!"{folder}/{file.name}" file.content

def randomId : IO SegmentId := do
  let bytes ← IO.getRandomBytes 16
  return ⟨BitVec.ofNat 128 (Bytes.value (Bytes.ofArray bytes))⟩

def machine : Host IO where
  read path := attempt (IO.FS.readBinFile path)
  makeFolder path := attempt (IO.FS.createDirAll path)
  fetch := fetchFiles
  store folder d := attempt (storeFiles folder d)
  newId := randomId

/-- run a command; the exit code is 1 after a failure -/
def runCommand (command : Command) : IO UInt32 := do
  let outcome ← Tool.run machine command
  IO.print outcome.printed
  match outcome.failure? with
  | none => return 0
  | some f =>
    IO.eprintln f.report
    return 1

/-- run a command line; the exit code is 2 if it makes no sense -/
def main (arguments : List String) : IO UInt32 := do
  match Arguments.parse arguments with
  | .version =>
    IO.println versionText
    return 0
  | .help =>
    IO.print helpText
    return 0
  | .misuse reason =>
    IO.eprintln (misuseText reason)
    return 2
  | .run command => runCommand command
