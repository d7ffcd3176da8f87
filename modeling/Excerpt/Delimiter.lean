import Excerpt.Line
import Excerpt.Text.Literal

/-!
# Region delimiters

A delimiter line begins with any run of blanks, slashes, asterisks and hashes, and then
either opens a region, closes one by name, or closes the one opened last. Names are taken
as written, blanks included. What follows the delimiter on its line does not matter.
-/

namespace Excerpt

inductive Delimiter where
  | start (name : String)
  | endNamed (name : String)
  | endLast
deriving DecidableEq, Repr

namespace Delimiter

def kind : Delimiter → LineKind
  | start _ => .regionStart
  | endNamed _ => .regionEndNamed
  | endLast => .regionEnd

def name? : Delimiter → Option String
  | start name => some name
  | endNamed name => some name
  | endLast => none

/-- A character that may stand before a delimiter, whatever the language of the file. -/
def isLead (c : Char) : Bool := Text.isBlank c || c == '/' || c == '*' || c == '#'

def isNameChar (c : Char) : Bool := !(c == ')' || c == '\r' || c == '\n')

/-- The name that a closing parenthesis ends. -/
def nameAtFront? (t : List Char) : Option String :=
  let name := t.takeWhile isNameChar
  match name, t.dropWhile isNameChar with
  | [], _ => none
  | _, ')' :: _ => some (String.ofList name)
  | _, _ => none

def startWord : List Char := "sample(".toList

def endWord : List Char := "end-sample".toList

def endNamedWord : List Char := "end-sample(".toList

def nameAfter? (word t : List Char) : Option String := (Text.after? word t).bind nameAtFront?

/-- The delimiter at the front of a text without leading characters. -/
def atFront? (t : List Char) : Option Delimiter :=
  match nameAfter? startWord t with
  | some name => some (start name)
  | none =>
    match nameAfter? endNamedWord t with
    | some name => some (endNamed name)
    | none => (Text.after? endWord t).map fun _ => endLast

def ofText? (t : List Char) : Option Delimiter := atFront? (t.dropWhile isLead)

end Delimiter

/-- The kind of the line with the given delimiter, if it has one. -/
def LineKind.ofDelimiter : Option Delimiter → LineKind
  | some d => d.kind
  | none => .content

end Excerpt
