/-
The folders made on a disk, as a tree.

A folder is known by its place. Places that begin alike share the nodes of what they begin with, so a folder that lies deep
is found in as many steps as its place has components, whatever else was made. Making a folder makes those above it, and
`contains_insert` says that it makes no others.
-/
import ColumnStore.Storage.Path

namespace ColumnStore.Storage

/-- folders beside one another, each with the folders in it -/
inductive Folders where
  | nil
  | entry (name : Component) (inside others : Folders)

namespace Folders

/-- whether there is a folder at a place; the top is always there -/
def contains : Folders → Place → Bool
  | _, [] => true
  | nil, _ :: _ => false
  | entry name inside others, step :: place =>
    if name = step then inside.contains place else others.contains (step :: place)

/-- the folders that lead to a place, and no others -/
def chain : Place → Folders
  | [] => nil
  | step :: place => entry step (chain place) nil

/-- make the folder at a place and those above it -/
def insert : Folders → Place → Folders
  | folders, [] => folders
  | nil, step :: place => chain (step :: place)
  | entry name inside others, step :: place =>
    if name = step then entry name (inside.insert place) others
    else entry name inside (others.insert (step :: place))

theorem contains_chain (place other : Place) : (chain place).contains other = other.isPrefixOf place := by
  induction place generalizing other with
  | nil => cases other <;> rfl
  | cons step place ih =>
    cases other with
    | nil => rfl
    | cons step' other =>
      by_cases h : step = step'
      · simp [chain, contains, h, ih]
      · simp [chain, contains, List.isPrefixOf, h, Ne.symm h]

theorem contains_insert (folders : Folders) (place other : Place) :
    (folders.insert place).contains other = (folders.contains other || other.isPrefixOf place) := by
  induction folders generalizing place other with
  | nil =>
    cases place with
    | nil => cases other <;> rfl
    | cons step place =>
      rw [insert, contains_chain]
      cases other <;> rfl
  | entry name inside others ihInside ihOthers =>
    cases place with
    | nil => cases other <;> simp [insert, contains]
    | cons step place =>
      cases other with
      | nil => simp [contains]
      | cons step' other =>
        by_cases h : name = step <;> by_cases h' : name = step'
        · simp [insert, contains, ← h, ← h', ihInside]
        · simp [insert, contains, ← h, h', Ne.symm h']
        · simp [insert, contains, ← h', h]
        · simp [insert, contains, h, h', ihOthers]

end Folders

end ColumnStore.Storage
