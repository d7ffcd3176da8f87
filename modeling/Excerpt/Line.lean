import Excerpt.Text.Blank
import Excerpt.Text.Space

/-!
# Lines of a file

Every physical line of a file is kept, with its number and its part in the structure of
the file: content, the start of a region, or one of the two ends. Numbers count from one.
The text of a line holds no terminator.
-/

namespace Excerpt

inductive LineKind where
  | content
  | regionStart
  | regionEnd
  | regionEndNamed
deriving DecidableEq, Repr

namespace LineKind

def all : List LineKind := [content, regionStart, regionEnd, regionEndNamed]

def isDelimiter : LineKind → Bool
  | content => false
  | _ => true

/-- The kind in words. -/
def name : LineKind → String
  | content => "content"
  | regionStart => "region-start"
  | regionEnd => "region-end"
  | regionEndNamed => "region-end-named"

/-- The kind as it is written in data. -/
def tag : LineKind → String
  | content => "None"
  | regionStart => "RegionStart"
  | regionEnd => "RegionEnd"
  | regionEndNamed => "RegionEndNamed"

def ofTag? (tag : String) : Option LineKind := all.find? (·.tag == tag)

end LineKind

structure Line where
  number : Nat
  text : String
  kind : LineKind
deriving DecidableEq, Repr

namespace Line

def content (number : Nat) (text : String) : Line := ⟨number, text, .content⟩

def isDelimiter (line : Line) : Bool := line.kind.isDelimiter

def isBlank (line : Line) : Bool := Text.allBlank line.text.toList

/-- How many spaces and tabs the line starts with. -/
def indentation (line : Line) : Nat :=
  (line.text.toList.takeWhile Text.isSpace).length

end Line

/-- The shortest indentation of the lines that are not blank, or zero if all are. -/
def commonIndentation (lines : List Line) : Nat :=
  (((lines.filter fun line => !line.isBlank).map Line.indentation).min?).getD 0

end Excerpt
