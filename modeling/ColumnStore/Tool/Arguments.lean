/-
The command line.

A command takes options only, each with one value and each at most once; all of them are required. An option is given by its
long name, or by its short name if it has one; its value is the next word, or stands in the same word, after an equals sign
or directly after the short name. A word that begins with a dash is no value, except the dash alone.
-/
namespace ColumnStore.Tool

/-- what the tool is asked to do -/
inductive Command where
  | encode (folder schema input : String)
  | inspect (folder schema segment : String)
  | dump (folder schema segment field : String)
  deriving DecidableEq, Repr

inductive Request where
  | version
  | help
  | misuse (reason : String)
  | run (command : Command)
  deriving DecidableEq, Repr

structure OptionSpec where
  long : String
  short : Option Char
  /-- its value is a path, which cannot be empty -/
  isPath : Bool
  deriving DecidableEq, Repr

namespace Arguments

def folderOption : OptionSpec := ⟨"dir", some 'd', true⟩

def schemaOption : OptionSpec := ⟨"schema", some 's', true⟩

def inputOption : OptionSpec := ⟨"input", some 'i', true⟩

def segmentOption : OptionSpec := ⟨"segment", none, false⟩

def fieldOption : OptionSpec := ⟨"field", some 'f', false⟩

/-- the options of a command, and what their values make together -/
structure CommandSpec where
  options : List OptionSpec
  ofValues : List String → Option Command

def command? (name : String) : Option CommandSpec :=
  match name with
  | "encode" => some ⟨[folderOption, schemaOption, inputOption], fun
    | [folder, schema, input] => some (.encode folder schema input)
    | _ => none⟩
  | "inspect" => some ⟨[folderOption, schemaOption, segmentOption], fun
    | [folder, schema, segment] => some (.inspect folder schema segment)
    | _ => none⟩
  | "dump" => some ⟨[folderOption, schemaOption, segmentOption, fieldOption], fun
    | [folder, schema, segment, field] => some (.dump folder schema segment field)
    | _ => none⟩
  | _ => none

/-- values of options so far -/
abbrev Given := List (String × String)

def give (given : Given) (option : OptionSpec) (value : String) : Except Request Given :=
  if option.isPath && value.isEmpty then .error (.misuse s!"a value is required for --{option.long}")
  else if given.any (·.1 = option.long) then .error (.misuse s!"--{option.long} is given more than once")
  else .ok (given ++ [(option.long, value)])

/-- what one word asks for -/
inductive Meaning where
  | help
  /-- an option whose value stands in the same word -/
  | valued (option : OptionSpec) (value : String)
  /-- an option whose value is the next word -/
  | pending (option : OptionSpec)
  /-- no options follow -/
  | endOfOptions
  | unknown
  deriving DecidableEq, Repr

/-- cut a word at its first equals sign -/
def cut (word : List Char) : List Char × Option String :=
  let name := word.takeWhile (· ≠ '=')
  match word.drop name.length with
  | [] => (name, none)
  | _ :: value => (name, some (String.ofList value))

/-- an option with the value found in its word, if there was one -/
def withValue (option : Option OptionSpec) (value : Option String) : Meaning :=
  match option, value with
  | none, _ => .unknown
  | some option, none => .pending option
  | some option, some value => .valued option value

/-- what a word of a command asks for -/
def meaning (options : List OptionSpec) (word : List Char) : Meaning :=
  match word with
  | ['-', '-'] => .endOfOptions
  | '-' :: '-' :: long =>
    let (name, value) := cut long
    if name = "help".toList && value.isNone then .help
    else withValue (options.find? fun o => o.long.toList = name) value
  | '-' :: 'h' :: _ => .help
  | '-' :: short :: rest =>
    let value :=
      match rest with
      | [] => none
      | '=' :: value => some (String.ofList value)
      | value => some (String.ofList value)
    withValue (options.find? fun o => o.short = some short) value
  | _ => .unknown

/-- whether a word can be the value of the option before it -/
def isValue (word : String) : Bool :=
  match word.toList with
  | '-' :: _ :: _ => false
  | _ => true

/-- take in the words after the name of a command -/
def collect (options : List OptionSpec) (given : Given) : List String → Except Request Given
  | [] => .ok given
  | word :: words =>
    match meaning options word.toList with
    | .help => .error .help
    | .unknown => .error (.misuse s!"unexpected argument {word}")
    | .endOfOptions =>
      match words with
      | [] => .ok given
      | word :: _ => .error (.misuse s!"unexpected argument {word}")
    | .valued option value => do collect options (← give given option value) words
    | .pending option =>
      match words with
      | [] => .error (.misuse s!"a value is required for --{option.long}")
      | value :: words =>
        if isValue value then do collect options (← give given option value) words
        else .error (.misuse s!"a value is required for --{option.long}")

def build (spec : CommandSpec) (given : Given) : Option Command := do
  let values ← spec.options.mapM fun option => given.lookup option.long
  spec.ofValues values

/-- the request of the words after the name of a command -/
def commandRequest (spec : CommandSpec) (words : List String) : Request :=
  match collect spec.options [] words with
  | .error request => request
  | .ok given =>
    match build spec given with
    | some command => .run command
    | none => .misuse "required options are missing"

/-- the request of the words after `help`: commands to be explained -/
def helpRequest : List String → Request
  | [] => .help
  | [word] =>
    if (command? word).isSome || word = "help" then .help else .misuse s!"unrecognized command {word}"
  | _ => .misuse "commands have no commands of their own"

def parse : List String → Request
  | [] => .misuse "a command is required"
  | word :: words =>
    match word, word.toList with
    | "--version", _ | _, '-' :: 'V' :: _ => .version
    | "--help", _ | _, '-' :: 'h' :: _ => .help
    | "help", _ => helpRequest words
    | _, _ =>
      match command? word with
      | some spec => commandRequest spec words
      | none => .misuse s!"unrecognized command {word}"

end Arguments

/-! ## Texts -/

def versionText : String := "docvalues-tool 0.1.0"

def helpText : String :=
  "CLI for writing and inspecting doc values segments\n\n" ++
  "Usage: docvalues-tool <COMMAND>\n\n" ++
  "Commands:\n" ++
  "  encode   Encode documents from a JSONL file into a new segment\n" ++
  "  inspect  Show per-field strategy, stored count and memory use\n" ++
  "  dump     Print the decoded value of every document for one field\n" ++
  "  help     Print this message or the help of the given subcommand(s)\n\n" ++
  "Options:\n" ++
  "  -h, --help     Print help\n" ++
  "  -V, --version  Print version\n\n" ++
  "Use 'docvalues-tool <command> --help' for more information.\n"

/-- the report of a command line that makes no sense -/
def misuseText (reason : String) : String := "error: " ++ reason ++ "\n\nUsage: docvalues-tool <COMMAND>"

end ColumnStore.Tool
