import Excerpt.Offset
import Excerpt.Text.Blank
import Excerpt.Text.Decimal

/-!
# Selectors

A selector is a list of items between commas. An item is a line number, a range of line
numbers with both ends included, or else the name of a region. Blanks around an item do
not count and blank items are dropped, while order and repetition are kept.
-/

namespace Excerpt

/-- One item: `length` lines from offset `start` on, or a named region. -/
inductive Item where
  | range (start length : Nat)
  | region (name : String)
deriving DecidableEq, Repr

namespace Item

/-- The lines numbered from `first` to `last`. There is no line zero, so a range from zero
begins at line one. -/
def lines (first last : Nat) : Item := range (first - 1) (last - (first - 1))

/-- Where the range begins and where it has ended, as offsets. -/
def bounds? : Item → Option (Nat × Nat)
  | range start length => some (start, Offset.add start length)
  | region _ => none

def text : Item → String
  | range start length =>
    if length = 0 then "(empty)"
    else if length = 1 then String.ofList (Text.decimal (start + 1))
    else String.ofList (Text.decimal (start + 1) ++ '-' :: Text.decimal (start + length))
  | region name => name

/-- The first and last number of an item that is a number or a range. -/
def numbers? (t : List Char) : Option (Nat × Nat) :=
  match Text.number? (t.takeWhile Char.isDigit), t.dropWhile Char.isDigit with
  | some first, [] => some (first, first)
  | some first, '-' :: rest => (Text.number? rest).map fun last => (first, last)
  | _, _ => none

/-- The item with the given text. Numbers past the largest offset are brought down to it. -/
def ofText? (t : List Char) : Option Item :=
  match Text.trim t with
  | [] => none
  | item =>
    match numbers? item with
    | some (first, last) => some (lines (Offset.clamp first) (Offset.clamp last))
    | none => some (region (String.ofList item))

end Item

/-- The items of a selector. None at all stands for the whole file. -/
def selectorItems (selector : String) : List Item :=
  (selector.toList.splitOn ',').filterMap Item.ofText?

end Excerpt
