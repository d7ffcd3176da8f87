import Excerpt.Service.Basic

/-!
# What paths lead to

A path leads to a file, or to nothing, or to something that cannot be read, and the working
directory says which. Only a file that holds text is read. Where the system refuses, the
failure is in the words of the system.
-/

namespace Excerpt

inductive Found where
  | missing
  | unreadable (reason : String)
  | file (bytes : ByteArray)

namespace Found

/-- A directory stands where the path needs a file. -/
def isDirectory : Found := unreadable "Is a directory (os error 21)"

/-- A file stands where the path needs a directory. -/
def notDirectory : Found := unreadable "Not a directory (os error 20)"

/-- The path, or one of its names, takes more bytes than it may. -/
def nameTooLong : Found := unreadable "File name too long (os error 36)"

end Found

abbrev Directory := String → Found

namespace Directory

/-- The names of a path, which may be empty. -/
def names (path : String) : List String := (path.toList.splitOn '/').map String.ofList

/-- Reads a path as a text file. -/
def read (directory : Directory) (path : String) : Retrieved :=
  if '\x00' ∈ path.toList then .unreadable "file name contained an unexpected NUL byte"
  else
    match directory path with
    | .missing => .missing
    | .unreadable reason => .unreadable reason
    | .file bytes =>
      match String.fromUTF8? bytes with
      | some text => .content text
      | none => .unreadable "stream did not contain valid UTF-8"

def bytes? (directory : Directory) (path : String) : Option ByteArray :=
  match directory path with
  | .file bytes => some bytes
  | _ => none

/-- A path as seen from a root directory. Without a name it is the root itself. -/
def underRoot (path : String) : String :=
  match path.toList with
  | '/' :: _ => path
  | _ => "./" ++ path

end Directory

namespace Fetcher

/-- Takes identifiers for paths. -/
def ofDirectory (directory : Directory) : Fetcher := fun identifier =>
  some (directory.read identifier)

/-- Takes identifiers for paths below the directory. -/
def rooted (directory : Directory) : Fetcher := fun identifier =>
  some (directory.read (Directory.underRoot identifier))

end Fetcher

end Excerpt
