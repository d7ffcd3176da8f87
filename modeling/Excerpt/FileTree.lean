import Excerpt.Directory

/-!
# Files on disk

A file tree lists its directories and files by where they are below the root. A path is walked
name by name, and every name but the last must be a directory. Nothing is known of what lies
outside of the tree, except that a path may lead there and back.
-/

namespace Excerpt

inductive Stored where
  | directory
  | file (bytes : ByteArray)

/-- Where a walk has come to. -/
inductive Place where
  | inside (names : List String)
  | outside
  | nowhere
deriving DecidableEq, Repr

namespace Place

/-- Nothing that lies outside is found by its name. -/
def enter : Place → String → Place
  | place, "" => place
  | place, "." => place
  | inside [], ".." => outside
  | inside names, ".." => inside names.dropLast
  | inside names, name => inside (names ++ [name])
  | outside, ".." => outside
  | outside, _ => nowhere
  | nowhere, _ => nowhere

@[simp] theorem enter_empty (place : Place) : place.enter "" = place := by cases place <;> rfl

@[simp] theorem enter_dot (place : Place) : place.enter "." = place := by cases place <;> rfl

end Place

structure FileTree where
  entries : List (List String × Stored) := []

namespace FileTree

/-- What is stored at a place. The root is a directory. -/
def stored? (tree : FileTree) : Place → Option Stored
  | .inside [] => some .directory
  | .inside names => tree.entries.lookup names
  | .outside => some .directory
  | .nowhere => none

/-- The bytes that a name may take. -/
def longestName : Nat := 255

/-- The bytes that a path may take. -/
def longestPath : Nat := 4095

def findFrom (tree : FileTree) (place : Place) : List String → Found
  | [] =>
    match tree.stored? place with
    | none => .missing
    | some .directory => .isDirectory
    | some (.file bytes) => .file bytes
  | name :: names =>
    match tree.stored? place with
    | none => .missing
    | some .directory =>
      if longestName < name.utf8ByteSize then .nameTooLong
      else tree.findFrom (place.enter name) names
    | some (.file _) => .notDirectory

/-- The empty path leads nowhere, and a path that begins with a slash starts outside. -/
def find (tree : FileTree) (path : String) : Found :=
  if path.isEmpty then .missing
  else if longestPath < path.utf8ByteSize then .nameTooLong
  else
    match path.toList with
    | '/' :: _ => tree.findFrom .outside (Directory.names path)
    | _ => tree.findFrom (.inside []) (Directory.names path)

/-- Puts something at a place below the root. What is there stays, unless a file takes the
place of a file. -/
def put (tree : FileTree) (place : Place) (stored : Stored) : FileTree :=
  match place, tree.stored? place, stored with
  | .inside names, none, _ => ⟨(names, stored) :: tree.entries⟩
  | .inside names, some (.file _), .file _ =>
    ⟨(names, stored) :: tree.entries.filter fun entry => entry.1 != names⟩
  | _, _, _ => tree

/-- Puts directories on the way from a place and something at its end. -/
def writeFrom (tree : FileTree) (stored : Stored) (place : Place) : List String → FileTree
  | [] => tree.put place stored
  | name :: names => (tree.put place .directory).writeFrom stored (place.enter name) names

/-- Stores a file or a directory, with the directories on the way to it. -/
def write (tree : FileTree) (path : String) (stored : Stored) : FileTree :=
  tree.writeFrom stored (.inside []) (Directory.names path)

/-- The directory at the root of a tree. -/
def directory (tree : FileTree) : Directory := tree.find

end FileTree

end Excerpt
