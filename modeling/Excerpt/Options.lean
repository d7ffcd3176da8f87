import Excerpt.Rendering

/-!
# Options from defaults and attributes

The host has defaults for every display, and each displayed element may ask for something
else. What an element says wins where it says anything but blanks. The skip text names
line offsets, and the word `delimiters` in it hides the delimiter lines.
-/

namespace Excerpt

/-- Whether and how lines are numbered unless an element says otherwise. -/
inductive DefaultNumbering where
  | off
  | sequential
  | original
deriving DecidableEq, Repr

namespace DefaultNumbering

def all : List DefaultNumbering := [off, sequential, original]

def name : DefaultNumbering → String
  | off => "off"
  | sequential => "sequential"
  | original => "original"

def ofName? (name : String) : Option DefaultNumbering := all.find? (·.name == name)

/-- A plain yes numbers the lines from one. -/
def ofBool : Bool → DefaultNumbering
  | true => sequential
  | false => off

def numbering : DefaultNumbering → Numbering
  | off => .off
  | sequential => .sequential 1
  | original => .original

end DefaultNumbering

structure Defaults where
  /-- Put in front of every file name before the file is retrieved. -/
  proxyUrl : String := ""
  removeIndentation : Bool := false
  numbering : DefaultNumbering := .off
  skip : String := ""
deriving DecidableEq, Repr

/-- Whether a character separates the items of the default skip text. -/
def isSkipSeparator (c : Char) : Bool := c == ',' || Text.isBlank c

namespace Defaults

/-- The items of the skip text, which commas and blanks separate alike. -/
def skipItems (defaults : Defaults) : List (List Char) :=
  (defaults.skip.toList.splitOnP isSkipSeparator).filter fun item => !item.isEmpty

def normalizedSkip (defaults : Defaults) : String :=
  String.ofList ([','].intercalate defaults.skipItems)

end Defaults

inductive IndentMode where
  | remove
  | keep
deriving DecidableEq, Repr

namespace IndentMode

def name : IndentMode → String
  | remove => "remove"
  | keep => "keep"

def ofText? (text : String) : Option IndentMode :=
  let t := String.ofList (Text.trim text.toList)
  [remove, keep].find? (·.name == t)

end IndentMode

/-- What a single element asks for. -/
structure Attributes where
  mark : Option String := none
  indent : Option IndentMode := none
  skip : Option String := none
  numbering : Option String := none
deriving DecidableEq, Repr

namespace Attributes

/-- An attribute counts only if it is more than blanks. -/
def present? : Option String → Option String
  | some text => if Text.allBlank text.toList then none else some text
  | none => none

end Attributes

def mentionsDelimiters (skip : String) : Bool :=
  Text.containsWord "delimiter".toList skip.toList ||
    Text.containsWord "delimiters".toList skip.toList

namespace RenderOptions

def skipText (defaults : Defaults) (attributes : Attributes) : String :=
  (Attributes.present? attributes.skip).getD defaults.normalizedSkip

def resolve (defaults : Defaults) (attributes : Attributes) : RenderOptions where
  removeIndentation :=
    match attributes.indent with
    | some .remove => true
    | some .keep => false
    | none => defaults.removeIndentation
  numbering :=
    match Attributes.present? attributes.numbering with
    | some text => Numbering.ofText text
    | none => defaults.numbering.numbering
  marked := (attributes.mark.map OffsetSet.ofSelector).getD .empty
  skipDelimiters := mentionsDelimiters (skipText defaults attributes)
  skip := OffsetSet.ofSelector (skipText defaults attributes)

end RenderOptions

end Excerpt
