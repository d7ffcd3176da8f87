/-!
# Spaces within a line

A space is the space character or a tab, and nothing else. No space ends a line, so that a
run of spaces is always part of one line. Spaces are skipped between the items of a line and
counted at its front.
-/

namespace Excerpt.Text

def isSpace (c : Char) : Bool := c == ' ' || c == '\t'

def skipSpace (t : List Char) : List Char := t.dropWhile isSpace

@[simp] theorem skipSpace_nil : skipSpace [] = [] := rfl

end Excerpt.Text
