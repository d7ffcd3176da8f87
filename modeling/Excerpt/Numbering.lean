import Excerpt.Offset
import Excerpt.Text.Blank
import Excerpt.Text.Decimal

/-!
# Line numbers

Displayed lines carry no numbers, count from a given start, or show their numbers in the
file. All numbers of one display have the width of the largest that could occur: the last
one counted, or the last line of the file.
-/

namespace Excerpt

inductive Numbering where
  | off
  | sequential (first : Nat)
  | original
deriving DecidableEq, Repr

namespace Numbering

/-- A number with an optional plus sign. -/
def signedNumber? : List Char → Option Nat
  | '+' :: t => Text.number? t
  | t => Text.number? t

/-- `original`, a word for yes, or a positive start below `2 ^ 64`; all else is off. -/
def ofText (text : String) : Numbering :=
  let t := Text.trim text.toList
  if t = "original".toList then original
  else if t = "true".toList ∨ t = "yes".toList ∨ t = "on".toList then sequential 1
  else
    match signedNumber? t with
    | some n => if 0 < n ∧ n ≤ Offset.limit then sequential n else off
    | none => off

def text : Numbering → String
  | off => "off"
  | sequential first => String.ofList (Text.decimal first)
  | original => "original"

/-- The largest number among `count` lines of a file of `fileLineCount` lines. -/
def largest (count fileLineCount : Nat) : Numbering → Nat
  | off => 0
  | sequential first => Offset.add first (count - 1)
  | original => fileLineCount

def width (numbering : Numbering) (count fileLineCount : Nat) : Nat :=
  Text.digitCount (numbering.largest count fileLineCount)

/-- The number of the displayed line at `position` that has number `original` in its file. -/
def value? (position originalNumber : Nat) : Numbering → Option Nat
  | off => none
  | sequential first => some (Offset.add first position)
  | original => some originalNumber

end Numbering

end Excerpt
