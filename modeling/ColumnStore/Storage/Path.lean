/-
Paths by their components.

In memory two texts name the same place of a directory if their components agree: repeated slashes and inner dots do not
count. On disk a path is a list of steps, taken one after the other from the top of the directory, and its `Ending` says
whether it can only name a folder; its text, with that of the top before it, has to be short enough. Listings are in the order of components, not of texts, so `a/b` comes before `a.c`.
-/
namespace ColumnStore.Storage

inductive Component where
  | root
  | here
  | parent
  | name (text : String)
  deriving DecidableEq, Repr

namespace Component

/-- place of the kinds of components in listings -/
def rank : Component → Nat
  | root => 0
  | here => 1
  | parent => 2
  | name _ => 3

/-- order of listings -/
def order : Component → Component → Ordering
  | name a, name b => compare a b
  | a, b => compare a.rank b.rank

/-- most bytes that a name on disk has -/
def longest : Nat := 255

def isName : Component → Bool
  | name _ => true
  | _ => false

/-- whether a name is too long for a disk -/
def isTooLong : Component → Bool
  | name text => longest < text.utf8ByteSize
  | _ => false

/-- whether a name has a character that no path on disk can have -/
def hasNul : Component → Bool
  | name text => text.toList.contains '\x00'
  | _ => false

end Component

/-- where something is in a directory: the components of its path in memory, what the path leads to on disk -/
abbrev Place := List Component

/-- how a path text ends: with its last component, with a slash, or with a dot that stands for a whole part -/
inductive Ending where
  | plain
  | slash
  | dot
  deriving DecidableEq, Repr

namespace Path

/-- the parts of a text between slashes, and the part begun by `current` (reversed) -/
def splitFrom (current : List Char) : List Char → List (List Char)
  | [] => [current.reverse]
  | c :: rest => if c = '/' then current.reverse :: splitFrom [] rest else splitFrom (c :: current) rest

/-- what a part that is not the first stands for -/
def laterPart (part : List Char) : Option Component :=
  if part = [] ∨ part = ['.'] then none
  else if part = ['.', '.'] then some .parent
  else some (.name (String.ofList part))

def components (text : String) : List Component :=
  match splitFrom [] text.toList with
  | [] => []
  | first :: later =>
    let rest := later.filterMap laterPart
    if first = [] ∧ later ≠ [] then .root :: rest
    else if first = ['.'] then .here :: rest
    else (laterPart first).toList ++ rest

def order : List Component → List Component → Ordering
  | [], [] => .eq
  | [], _ :: _ => .lt
  | _ :: _, [] => .gt
  | a :: as, b :: bs => (a.order b).then (order as bs)

/-! ## Paths on disk -/

/-- most bytes that a whole path text on disk has -/
def longest : Nat := 4095

/-- whether a text does not start from the top of a directory, but from the root of the disk -/
def isAbsolute (text : String) : Bool := text.toList.head? = some '/'

/-- bytes of a whole path text on disk; `top` of them stand before a text that starts from the top of a directory -/
def size (top : Nat) (text : String) : Nat := if isAbsolute text then text.utf8ByteSize else top + text.utf8ByteSize

/-- a list of parts, from the last one back, without those at its beginning that stand for nothing -/
def trimEnd (parts : List (List Char)) : List (List Char) := parts.dropWhile fun part => part = [] ∨ part = ['.']

/-- the text of the folder that holds what a text names -/
def folder (text : String) : String :=
  let above := trimEnd ((trimEnd (splitFrom [] text.toList).reverse).drop 1)
  if above = [] ∧ isAbsolute text then "/" else String.ofList (['/'].intercalate above.reverse)

def steps (text : String) : List Component := (components text).filter (· ≠ .here)

def ending (text : String) : Ending :=
  let parts := splitFrom [] text.toList
  if (parts.reverse.dropWhile (· = [])).head? = some ['.'] then .dot
  else if parts.getLast? = some [] then .slash
  else .plain

/-- the place one step from a place; above the top, places are counted by how far up they are -/
def next (place : Place) : Component → Place
  | .root => [.root]
  | .here => place
  | .parent =>
    match place.getLast? with
    | some (.name _) => place.dropLast
    | some .root => place
    | _ => place ++ [.parent]
  | .name text => place ++ [.name text]

/-- a text without the slashes and the dots that stand for whole parts at its beginning -/
def trimStart : List Char → List Char
  | '/' :: rest => trimStart rest
  | '.' :: '/' :: rest => trimStart rest
  | text => text

/-- the path text of a name in a folder that was named by a text -/
def join (folder name : String) : String :=
  let between := if folder = "" ∨ folder.toList.getLast? = some '/' then "" else "/"
  String.ofList (trimStart (folder ++ between ++ name).toList)

/-! ## Extensions -/

/-- what stands after the last dot of a file name, unless that dot begins the name -/
def extension? (path : String) : Option String :=
  match (components path).getLast? with
  | some (.name text) =>
    let backwards := text.toList.reverse
    let ending := backwards.takeWhile (· ≠ '.')
    match backwards.drop ending.length with
    | _ :: _ :: _ => some (String.ofList ending.reverse)
    | _ => none
  | _ => none

end Path

end ColumnStore.Storage
