import Excerpt.Text.Literal
import Excerpt.Text.WordRuns

/-!
# Standalone words

A word stands alone in a text when neither the character before it nor the character
after it is a word character. Both ends of the text count as boundaries. The words
looked for here begin and end with word characters themselves.
-/

namespace Excerpt.Text

/-- Whether `n` lies in one of the runs, which are in ascending order. -/
def inRuns (n : Nat) : List (Nat × Nat) → Bool
  | [] => false
  | (first, last) :: runs =>
    if n < first then false else if n ≤ last then true else inRuns n runs

def isWordChar (c : Char) : Bool := inRuns c.toNat wordRuns

def startsWithWordChar : List Char → Bool
  | [] => false
  | c :: _ => isWordChar c

/-- The word `w` is at the front and ends there. -/
def wordAtFront (w t : List Char) : Bool :=
  match after? w t with
  | some rest => !startsWithWordChar rest
  | none => false

/-- Whether `w` stands alone somewhere in a text; `inWord` tells whether a word character
stands just before the text. -/
def standsAlone (w : List Char) : Bool → List Char → Bool
  | _, [] => false
  | inWord, c :: t => (!inWord && wordAtFront w (c :: t)) || standsAlone w (isWordChar c) t

def containsWord (w t : List Char) : Bool := standsAlone w false t

end Excerpt.Text
