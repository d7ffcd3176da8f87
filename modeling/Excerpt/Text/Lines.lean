/-!
# Lines of a text

A line ends at a line feed, and a carriage return just before that line feed belongs to
the terminator. The end of the text also ends a line, unless nothing stands between it and
the last line feed. A carriage return anywhere else is part of its line.
-/

namespace Excerpt.Text

/-- Drops the carriage return that a line feed follows. -/
def withoutReturn (t : List Char) : List Char :=
  if t.getLast? = some '\r' then t.dropLast else t

/-- The text after the last line feed is a line only if it is not empty. -/
def lastLine : List Char → List (List Char)
  | [] => []
  | c :: t => [c :: t]

def lines (t : List Char) : List (List Char) :=
  let parts := t.splitOn '\n'
  parts.dropLast.map withoutReturn ++ lastLine (parts.getLast?.getD [])

/-- Joined by single line feeds, with none at the end. -/
def joinLines (ts : List String) : String := String.intercalate "\n" ts

@[simp] theorem lines_nil : lines [] = [] := rfl

end Excerpt.Text
